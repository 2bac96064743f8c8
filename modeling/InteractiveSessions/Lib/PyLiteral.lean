import InteractiveSessions.Lib.Decimal

/-!
# Python literals of texts and bytes

`repr` of a `str` and of `bytes`, and how Python reads a short literal.

* `str?_repr`: Python reads a text back from its `repr`;
* `bytes?_reprBytes`: so it does with bytes.

Which characters outside of ASCII are printable is a parameter.  Octal escapes, names of
characters and triple quotes are not read: a `repr` has none of them.
-/

namespace InteractiveSessions.PyLiteral

abbrev Text : Type := List Char

def chars (s : String) : Text := s.toList

/-! ## `repr` -/

/-- The last `w` hexadecimal digits of `n`. -/
def hexDigits : Nat → Nat → Text
  | 0, _ => []
  | w + 1, n => Nat.digitChar (n / 16 ^ w % 16) :: hexDigits w n

/-- A character between the quotes `q`. -/
def escape (printable : Char → Bool) (q c : Char) : Text :=
  if c = q ∨ c = '\\' then ['\\', c]
  else if c = '\t' then ['\\', 't']
  else if c = '\n' then ['\\', 'n']
  else if c = '\r' then ['\\', 'r']
  else if (32 ≤ c.toNat ∧ c.toNat < 127) ∨ (127 < c.toNat ∧ printable c) then [c]
  else if c.toNat < 16 ^ 2 then '\\' :: 'x' :: hexDigits 2 c.toNat
  else if c.toNat < 16 ^ 4 then '\\' :: 'u' :: hexDigits 4 c.toNat
  else '\\' :: 'U' :: hexDigits 8 c.toNat

def quote (s : Text) : Char := if '\'' ∈ s ∧ '"' ∉ s then '"' else '\''

def repr (printable : Char → Bool) (s : Text) : Text :=
  quote s :: (s.flatMap (escape printable (quote s)) ++ [quote s])

/-- Between quotes it is as it is. -/
def Plain (s : Text) : Prop := ∀ c ∈ s, 32 ≤ c.toNat ∧ c.toNat < 127 ∧ c ≠ '\'' ∧ c ≠ '\\'

-- Over the list, not over all characters.
instance (s : Text) : Decidable (Plain s) := List.decidableBAll _ s

theorem repr_of_plain {s : Text} (h : Plain s) (printable : Char → Bool) :
    repr printable s = '\'' :: (s ++ ['\'']) := by
  have hquote : quote s = '\'' := by
    have hnot : '\'' ∉ s := fun hmem => (h _ hmem).2.2.1 rfl
    simp [quote, hnot]
  have hescape : ∀ c ∈ s, escape printable '\'' c = [c] := by
    intro c hc
    obtain ⟨hle, hlt, hq, hslash⟩ := h c hc
    have htab : c ≠ '\t' ∧ c ≠ '\n' ∧ c ≠ '\r' := by
      refine ⟨?_, ?_, ?_⟩
      all_goals
        rintro rfl
        revert hle
        decide
    rw [escape, if_neg (not_or.mpr ⟨hq, hslash⟩), if_neg htab.1, if_neg htab.2.1, if_neg htab.2.2,
      if_pos (.inl ⟨hle, hlt⟩)]
  rw [repr, hquote, List.flatMap_congr hescape, List.flatMap_singleton']

def latin1 (b : Bytes) : Text := b.map fun x => Char.ofNat x.toNat

def reprBytes (b : Bytes) : Text := 'b' :: repr (fun _ => false) (latin1 b)

/-! ## The reader -/

inductive Kind where
  | str
  | bytes
  deriving DecidableEq

/-- Where the reader is in a literal. -/
inductive Mode where
  | plain
  /-- Behind a backslash. -/
  | escape
  /-- So many hexadecimal digits are still to come. -/
  | hex (digits value : Nat)

def hexValue? (c : Char) : Option Nat :=
  if '0' ≤ c ∧ c ≤ '9' then some (c.toNat - 48)
  else if 'a' ≤ c ∧ c ≤ 'f' then some (c.toNat - 87)
  else if 'A' ≤ c ∧ c ≤ 'F' then some (c.toNat - 55)
  else none

/-- `\a`, `\b` and so on -/
def simpleEscape? (c : Char) : Option Char :=
  if c = '\\' ∨ c = '\'' ∨ c = '"' then some c
  else if c = 'a' then some '\x07'
  else if c = 'b' then some '\x08'
  else if c = 'f' then some '\x0c'
  else if c = 'n' then some '\n'
  else if c = 'r' then some '\r'
  else if c = 't' then some '\t'
  else if c = 'v' then some '\x0b'
  else none

def char? (n : Nat) : Option Char := if n.isValidChar then some (Char.ofNat n) else none

/-- The digits of `\x`, `\u` and `\U`. -/
def hexEscape? (k : Kind) (c : Char) : Option Nat :=
  if c = 'x' then some 2
  else if k = .bytes then none
  else if c = 'u' then some 4
  else if c = 'U' then some 8
  else none

/-- An escape that is not read here: octal, or the name of a character. -/
def Unread (k : Kind) (c : Char) : Prop := ('0' ≤ c ∧ c ≤ '7') ∨ (k = .str ∧ c = 'N')

instance (k : Kind) (c : Char) : Decidable (Unread k c) := inferInstanceAs (Decidable (_ ∨ _))

/-- The text up to the quote `q`, and what stands behind it. -/
def body (k : Kind) (q : Char) : Mode → Text → Option (Text × Text)
  | _, [] => none
  | .plain, c :: s =>
    if c = q then some ([], s)
    else if c = '\\' then body k q .escape s
    else if c = '\n' ∨ c = '\r' ∨ (k = .bytes ∧ 128 ≤ c.toNat) then none
    else (body k q .plain s).map (Prod.map (c :: ·) id)
  | .escape, c :: s =>
    if c = '\n' then body k q .plain s
    else if Unread k c then none
    else
      match hexEscape? k c with
      | some digits => body k q (.hex digits 0) s
      | none =>
        match simpleEscape? c with
        | some c' => (body k q .plain s).map (Prod.map (c' :: ·) id)
        | none => (body k q .plain s).map (Prod.map (fun t => '\\' :: c :: t) id)
  | .hex digits value, c :: s =>
    match hexValue? c with
    | none => none
    | some d =>
      if digits ≤ 1 then
        match char? (value * 16 + d) with
        | some c' => (body k q .plain s).map (Prod.map (c' :: ·) id)
        | none => none
      else body k q (.hex (digits - 1) (value * 16 + d)) s

/-- A literal without its prefix. -/
def literal? (k : Kind) : Text → Option (Text × Text)
  | q :: s =>
    if q = '\'' ∨ q = '"' then
      if [q, q] <+: s then none else body k q .plain s
    else none
  | [] => none

def ofLatin1 (s : Text) : Bytes := s.map fun c => UInt8.ofNat c.toNat

def str? : Text → Option (Text × Text) := literal? .str

def bytes? : Text → Option (Bytes × Text)
  | 'b' :: s => (literal? .bytes s).map (Prod.map ofLatin1 id)
  | _ => none

/-! ## One character -/

section
variable {k : Kind} {printable : Char → Bool} {q c : Char} {s : Text}

theorem hexValue?_digitChar {d : Nat} (hd : d < 16) : hexValue? (Nat.digitChar d) = some d := by
  revert d
  decide

theorem char?_toNat (c : Char) : char? c.toNat = some c := by
  have hvalid : c.toNat.isValidChar := c.valid
  rw [char?, if_pos hvalid, Char.ofNat_toNat]

/-- The digits give the number that was written, behind the value that was read. -/
theorem body_hexDigits {w n value : Nat} (hw : 0 < w)
    (hc : char? (value * 16 ^ w + n % 16 ^ w) = some c) :
    body k q (.hex w value) (hexDigits w n ++ s) =
      (body k q .plain s).map (Prod.map (c :: ·) id) := by
  induction w generalizing value with
  | zero => omega
  | succ w ih =>
    have hd : n / 16 ^ w % 16 < 16 := Nat.mod_lt _ (by decide)
    rw [hexDigits, List.cons_append, body, hexValue?_digitChar hd]
    dsimp only
    rcases Nat.eq_zero_or_pos w with rfl | hpos
    · simp only [pow_zero, Nat.div_one, pow_one, Nat.zero_add] at hc hd ⊢
      rw [if_pos (by decide), hc]
      rfl
    · rw [if_neg (by omega), Nat.add_sub_cancel]
      apply ih hpos
      rw [← hc]
      congr 1
      have hmod : n % 16 ^ (w + 1) = n % 16 ^ w + 16 ^ w * (n / 16 ^ w % 16) := by
        rw [pow_succ, Nat.mod_mul]
      rw [hmod, pow_succ]
      ring

/-- A character that is a byte, in a literal of bytes. -/
def Fits (k : Kind) (printable : Char → Bool) (c : Char) : Prop :=
  k = .bytes → c.toNat < 256 ∧ printable c = false

theorem body_backslash (hq : q = '\'' ∨ q = '"') :
    body k q .plain ('\\' :: s) = body k q .escape s := by
  rcases hq with rfl | rfl <;> simp [body]

/-- A backslash and a letter. -/
theorem body_simpleEscape {c' : Char} (hq : q = '\'' ∨ q = '"') (hline : c ≠ '\n')
    (hread : ¬ Unread k c) (hhex : hexEscape? k c = none) (hc : simpleEscape? c = some c') :
    body k q .plain ('\\' :: c :: s) = (body k q .plain s).map (Prod.map (c' :: ·) id) := by
  rw [body_backslash hq, body, if_neg hline, if_neg hread, hhex, hc]

/-- A backslash, a letter and digits. -/
theorem body_hexEscape {x : Char} {w : Nat} (hq : q = '\'' ∨ q = '"') (hline : x ≠ '\n')
    (hread : ¬ Unread k x) (hhex : hexEscape? k x = some w) (hw : 0 < w) (hc : c.toNat < 16 ^ w) :
    body k q .plain ('\\' :: x :: (hexDigits w c.toNat ++ s)) =
      (body k q .plain s).map (Prod.map (c :: ·) id) := by
  rw [body_backslash hq, body, if_neg hline, if_neg hread, hhex]
  apply body_hexDigits hw
  rw [Nat.zero_mul, Nat.zero_add, Nat.mod_eq_of_lt hc, char?_toNat]

theorem body_escape (hq : q = '\'' ∨ q = '"') (hfits : Fits k printable c) (s : Text) :
    body k q .plain (escape printable q c ++ s) =
      (body k q .plain s).map (Prod.map (c :: ·) id) := by
  -- Bytes have no such characters.
  have hstr (hx : ¬ c.toNat < 256) : k = .str := by
    cases k with
    | str => rfl
    | bytes => exact absurd (hfits rfl).1 hx
  unfold escape
  split_ifs with hquote htab hline hreturn hprint hx hu
  · have hc : c = '\'' ∨ c = '"' ∨ c = '\\' := by
      rcases hquote with rfl | rfl
      · exact hq.imp_right .inl
      · exact .inr (.inr rfl)
    apply body_simpleEscape hq
    all_goals rcases hc with rfl | rfl | rfl <;> cases k <;> decide
  · subst htab
    apply body_simpleEscape hq
    all_goals cases k <;> decide
  · subst hline
    apply body_simpleEscape hq
    all_goals cases k <;> decide
  · subst hreturn
    apply body_simpleEscape hq
    all_goals cases k <;> decide
  · obtain ⟨hne, hslash⟩ := not_or.mp hquote
    have hkind : ¬ (c = '\n' ∨ c = '\r' ∨ (k = .bytes ∧ 128 ≤ c.toNat)) := by
      rintro (h | h | ⟨hk, h⟩)
      · exact hline h
      · exact hreturn h
      · obtain ⟨-, hp⟩ := hfits hk
        simp [hp] at hprint
        omega
    rw [List.singleton_append, body, if_neg hne, if_neg hslash, if_neg hkind]
  · apply body_hexEscape hq _ _ _ (by decide) hx
    all_goals cases k <;> decide
  · obtain rfl := hstr hx
    exact body_hexEscape hq (by decide) (by decide) rfl (by decide) hu
  · obtain rfl := hstr hx
    have hc : c.toNat < 16 ^ 8 := (UInt32.toNat_lt c.val).trans_le (by decide)
    exact body_hexEscape hq (by decide) (by decide) rfl (by decide) hc

end

/-! ## Literals -/

section
variable {k : Kind} {printable : Char → Bool} {q : Char}

theorem body_escapes (hq : q = '\'' ∨ q = '"') (s rest : Text)
    (hfits : ∀ c ∈ s, Fits k printable c) :
    body k q .plain (s.flatMap (escape printable q) ++ q :: rest) = some (s, rest) := by
  induction s with
  | nil => simp [body]
  | cons c s ih =>
    have hs : ∀ c ∈ s, Fits k printable c := fun c hc => hfits c (List.mem_cons_of_mem _ hc)
    rw [List.flatMap_cons, List.append_assoc, body_escape hq (hfits c List.mem_cons_self), ih hs]
    rfl

theorem quote_or (s : Text) : quote s = '\'' ∨ quote s = '"' := by
  unfold quote
  split
  · exact .inr rfl
  · exact .inl rfl

/-- An escape does not begin with the quote. -/
theorem head?_escape (printable : Char → Bool) (hq : q = '\'' ∨ q = '"') (c : Char) :
    ∃ x t, escape printable q c = x :: t ∧ x ≠ q := by
  have hslash : '\\' ≠ q := by rcases hq with rfl | rfl <;> decide
  unfold escape
  split_ifs with hquote
  all_goals try exact ⟨_, _, rfl, hslash⟩
  exact ⟨c, [], rfl, fun h => hquote (.inl h)⟩

/-- What stands behind a literal is no quote. -/
def Ends (rest : Text) : Prop := ∀ q t, rest = q :: t → q ≠ '\'' ∧ q ≠ '"'

theorem literal_repr (s rest : Text) (hfits : ∀ c ∈ s, Fits k printable c) (hrest : Ends rest) :
    literal? k (repr printable s ++ rest) = some (s, rest) := by
  have hq := quote_or s
  have hshort : ¬ [quote s, quote s] <+: s.flatMap (escape printable (quote s)) ++
      quote s :: rest := by
    cases s with
    | nil =>
      -- The quote behind an empty text is not doubled.
      rintro ⟨t, ht⟩
      have hdoubled : rest = quote [] :: t := by simpa [eq_comm] using ht
      obtain ⟨hone, htwo⟩ := hrest _ _ hdoubled
      exact hq.elim hone htwo
    | cons c s =>
      obtain ⟨x, t, hx, hne⟩ := head?_escape printable hq c
      rw [List.flatMap_cons, hx]
      rintro ⟨t', ht'⟩
      simp only [List.cons_append, List.cons.injEq] at ht'
      exact hne ht'.1.symm
  rw [repr, List.cons_append, List.append_assoc, List.singleton_append, literal?, if_pos hq,
    if_neg hshort]
  exact body_escapes hq s rest hfits

theorem toNat_latin1 (x : Byte) : (Char.ofNat x.toNat).toNat = x.toNat := by
  have hvalid : x.toNat.isValidChar := .inl (x.toNat_lt.trans (by decide))
  rw [Char.ofNat, dif_pos hvalid]
  rfl

theorem fits_latin1 (b : Bytes) : ∀ c ∈ latin1 b, Fits .bytes (fun _ => false) c := by
  intro c hc _
  obtain ⟨x, -, rfl⟩ := List.mem_map.mp hc
  rw [toNat_latin1]
  exact ⟨x.toNat_lt, rfl⟩

theorem ofLatin1_latin1 (b : Bytes) : ofLatin1 (latin1 b) = b := by
  induction b with
  | nil => rfl
  | cons x b ih =>
    rw [latin1, List.map_cons, ofLatin1, List.map_cons, toNat_latin1, UInt8.ofNat_toNat]
    exact congrArg _ ih

theorem bytes?_reprBytes (b : Bytes) {rest : Text} (hrest : Ends rest) :
    bytes? (reprBytes b ++ rest) = some (b, rest) := by
  rw [reprBytes, List.cons_append, bytes?, literal_repr _ _ (fits_latin1 b) hrest]
  simp only [Option.map_some, Prod.map, ofLatin1_latin1, id]

theorem str?_repr (printable : Char → Bool) (s : Text) {rest : Text} (hrest : Ends rest) :
    str? (repr printable s ++ rest) = some (s, rest) := by
  apply literal_repr _ _ _ hrest
  intro c _ hk
  cases hk

end

end InteractiveSessions.PyLiteral
