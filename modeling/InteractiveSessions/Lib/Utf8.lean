import InteractiveSessions.Lib.Decimal

/-!
# UTF-8 with stray bytes

`split` cuts a byte string into characters and into stray bytes, which belong to no
character.  `decode?` is strict, and `decodeWith f` puts `f b` in the place of a stray
byte `b`.

* `decode?_eq_some`: the strict decoder takes back the encoder;
* `starts_le_length`, `starts_eq_length_iff`: when every replacement has two characters
  or more, the text has at least as many characters as the byte string has starts of
  characters, and as many only if there are no stray bytes.
-/

namespace InteractiveSessions.Utf8

def encode (t : List Char) : Bytes := t.flatMap String.utf8EncodeChar

/-- Every character is one byte. -/
def Narrow (t : List Char) : Prop := ∀ c ∈ t, c.utf8Size = 1

/-- The character at the front. -/
def decodeChar? (b : Bytes) : Option Char := b.toByteArray.utf8DecodeChar? 0

/-- The characters and the stray bytes, after so many bytes that are skipped. -/
def splitFrom : Nat → Bytes → List (Char ⊕ Byte)
  | _, [] => []
  | skip + 1, _ :: b => splitFrom skip b
  | 0, x :: b =>
    match decodeChar? (x :: b) with
    | some c => .inl c :: splitFrom (c.utf8Size - 1) b
    | none => .inr x :: splitFrom 0 b

def split (b : Bytes) : List (Char ⊕ Byte) := splitFrom 0 b

/-- Without stray bytes. -/
def decode? (b : Bytes) : Option (List Char) := (split b).mapM Sum.getLeft?

def decodeWith (f : Byte → List Char) (b : Bytes) : List Char :=
  (split b).flatMap (Sum.elim (fun c => [c]) f)

/-- How many bytes can be the first one of a character. -/
def starts (b : Bytes) : Nat := b.countP fun x => x.IsUTF8FirstByte

/-- Nothing but characters. -/
def Valid (b : Bytes) : Prop := ∃ t, b = encode t

/-! ## One character -/

@[simp] theorem encode_nil : encode [] = [] := rfl

@[simp] theorem encode_cons (c : Char) (t : List Char) :
    encode (c :: t) = String.utf8EncodeChar c ++ encode t := List.flatMap_cons

@[simp] theorem encode_append (t u : List Char) : encode (t ++ u) = encode t ++ encode u :=
  List.flatMap_append

theorem encode_flatten (ts : List (List Char)) : encode ts.flatten = (ts.map encode).flatten := by
  induction ts with
  | nil => rfl
  | cons t ts ih => simp [ih]

theorem encodeChar_ne_nil (c : Char) : String.utf8EncodeChar c ≠ [] := by
  rw [← List.length_pos_iff, String.length_utf8EncodeChar]
  exact c.utf8Size_pos

theorem encodeChar_narrow {c : Char} (h : c.utf8Size = 1) :
    ∃ x, String.utf8EncodeChar c = [x] := by
  rw [← String.length_utf8EncodeChar] at h
  exact List.length_eq_one_iff.mp h

theorem take_encode_narrow {t : List Char} (h : Narrow t) (k : Nat) :
    (encode t).take k = encode (t.take k) := by
  induction t generalizing k with
  | nil => simp
  | cons c t ih =>
    obtain ⟨hc, ht⟩ := List.forall_mem_cons.mp h
    obtain ⟨x, hx⟩ := encodeChar_narrow hc
    cases k with
    | zero => rfl
    | succ k => simp [hx, ih ht k]

theorem decodeChar?_encodeChar (c : Char) (b : Bytes) :
    decodeChar? (String.utf8EncodeChar c ++ b) = some c := by
  rw [decodeChar?, List.toByteArray_append]
  exact ByteArray.utf8DecodeChar?_utf8EncodeChar_append

theorem exists_of_decodeChar? {b : Bytes} {c : Char} (h : decodeChar? b = some c) :
    ∃ rest, b = String.utf8EncodeChar c ++ rest := by
  obtain ⟨rest, hrest⟩ := ByteArray.exists_of_utf8DecodeChar?_eq_some h
  refine ⟨rest.data.toList, ?_⟩
  simpa using congrArg (fun x : ByteArray => x.data.toList) hrest

theorem splitFrom_drop (k : Nat) (b : Bytes) : splitFrom k b = split (b.drop k) := by
  induction b generalizing k with
  | nil => simp [split, splitFrom]
  | cons x b ih =>
    cases k with
    | zero => rfl
    | succ k => exact ih k

theorem split_nil : split [] = [] := rfl

theorem split_encodeChar (c : Char) (b : Bytes) :
    split (String.utf8EncodeChar c ++ b) = .inl c :: split b := by
  obtain ⟨x, xs, hx⟩ := List.exists_cons_of_ne_nil (encodeChar_ne_nil c)
  have hlen : c.utf8Size - 1 = xs.length := by
    rw [← String.length_utf8EncodeChar, hx]
    rfl
  have hchar := decodeChar?_encodeChar c b
  rw [hx, List.cons_append] at hchar ⊢
  rw [split, splitFrom, hchar]
  dsimp only
  rw [splitFrom_drop, hlen, List.drop_left]

theorem split_stray {x : Byte} {b : Bytes} (h : decodeChar? (x :: b) = none) :
    split (x :: b) = .inr x :: split b := by
  rw [split, splitFrom, h]
  rfl

/-- Induction along the characters and the stray bytes. -/
theorem split_induction {motive : Bytes → Prop} (nil : motive [])
    (char : ∀ c b, motive b → motive (String.utf8EncodeChar c ++ b))
    (stray : ∀ x b, decodeChar? (x :: b) = none → motive b → motive (x :: b)) (b : Bytes) :
    motive b := by
  induction hn : b.length using Nat.strong_induction_on generalizing b with
  | _ n ih =>
    cases b with
    | nil => exact nil
    | cons x b =>
      cases hc : decodeChar? (x :: b) with
      | none => exact stray x b hc (ih b.length (by simp [← hn]) b rfl)
      | some c =>
        obtain ⟨rest, hrest⟩ := exists_of_decodeChar? hc
        have hpos := List.length_pos_iff.mpr (encodeChar_ne_nil c)
        rw [hrest] at hn ⊢
        rw [List.length_append] at hn
        exact char c rest (ih rest.length (by omega) rest rfl)

/-! ## Texts -/

@[simp] theorem split_encode_append (t : List Char) (b : Bytes) :
    split (encode t ++ b) = t.map .inl ++ split b := by
  induction t with
  | nil => rfl
  | cons c t ih => simp [split_encodeChar, ih]

theorem split_encode (t : List Char) : split (encode t) = t.map .inl := by
  simpa [split_nil] using split_encode_append t []

/-- **The strict decoder.** -/
theorem decode?_eq_some {b : Bytes} {t : List Char} : decode? b = some t ↔ b = encode t := by
  constructor
  · intro h
    induction b using split_induction generalizing t with
    | nil =>
      cases h
      rfl
    | char c b ih =>
      rw [decode?, split_encodeChar] at h
      simp only [List.mapM_cons, Sum.getLeft?_inl, Option.pure_def, Option.bind_eq_bind,
        Option.bind_some, Option.bind_eq_some_iff, Option.some.injEq] at h
      obtain ⟨u, hu, rfl⟩ := h
      rw [ih hu, encode_cons]
    | stray x b hx ih =>
      rw [decode?, split_stray hx] at h
      simp at h
  · rintro rfl
    rw [decode?, split_encode, List.mapM_map]
    induction t with
    | nil => rfl
    | cons c t ih => simp [ih]

theorem encode_injective : Function.Injective encode := by
  intro t u h
  have ht := decode?_eq_some.mpr (rfl : encode t = encode t)
  rw [h, decode?_eq_some.mpr rfl] at ht
  exact (Option.some.inj ht).symm

theorem prefix_of_encode_prefix {t u : List Char} (h : encode t <+: encode u) : t <+: u := by
  obtain ⟨b, hb⟩ := h
  have hsplit := congrArg split hb
  rw [split_encode_append, split_encode] at hsplit
  obtain ⟨v, w, rfl, hv, -⟩ := List.map_eq_append_iff.mp hsplit.symm
  rw [List.map_injective_iff.mpr Sum.inl_injective hv]
  exact List.prefix_append t w

/-- The beginning of a text, if it is a text. -/
theorem exists_text {t u : List Char} {rest : Bytes} (h : encode u = encode t ++ rest) :
    ∃ v, u = t ++ v ∧ rest = encode v := by
  obtain ⟨v, rfl⟩ := prefix_of_encode_prefix ⟨rest, h.symm⟩
  rw [encode_append, List.append_cancel_left_eq] at h
  exact ⟨v, rfl, h.symm⟩

theorem length_le_length_encode (t : List Char) : t.length ≤ (encode t).length := by
  induction t with
  | nil => simp
  | cons c t ih =>
    have hpos := List.length_pos_iff.mpr (encodeChar_ne_nil c)
    rw [encode_cons, List.length_cons, List.length_append]
    omega

theorem decode?_eq_none {b : Bytes} : decode? b = none ↔ ¬ Valid b := by
  rw [Option.eq_none_iff_forall_ne_some, Valid, not_exists]
  simp only [ne_eq, decode?_eq_some]

instance (b : Bytes) : Decidable (Valid b) :=
  decidable_of_iff (decode? b ≠ none) (by rw [ne_eq, decode?_eq_none, not_not])

theorem valid_nil : Valid [] := ⟨[], rfl⟩

theorem exists_texts {ps : List Bytes} :
    (∃ ts : List (List Char), ps = ts.map encode) ↔ ∀ p ∈ ps, Valid p := by
  constructor
  · rintro ⟨ts, rfl⟩ p hp
    obtain ⟨t, -, rfl⟩ := List.mem_map.mp hp
    exact ⟨t, rfl⟩
  · intro h
    have hrange : ps ∈ Set.range (List.map encode) := by
      rw [Set.range_list_map]
      intro p hp
      obtain ⟨t, rfl⟩ := h p hp
      exact ⟨t, rfl⟩
    obtain ⟨ts, rfl⟩ := hrange
    exact ⟨ts, rfl⟩

theorem decodeWith_encode_append (f : Byte → List Char) (t : List Char) (b : Bytes) :
    decodeWith f (encode t ++ b) = t ++ decodeWith f b := by
  simp [decodeWith, List.flatMap_map]

theorem decodeWith_encode (f : Byte → List Char) (t : List Char) :
    decodeWith f (encode t) = t := by
  simpa [decodeWith, split_nil] using decodeWith_encode_append f t []

/-! ## The starts of characters -/

@[simp] theorem starts_nil : starts [] = 0 := rfl

@[simp] theorem starts_append (a b : Bytes) : starts (a ++ b) = starts a + starts b :=
  List.countP_append

theorem starts_le (b : Bytes) : starts b ≤ b.length := List.countP_le_length

theorem starts_encodeChar (c : Char) : starts (String.utf8EncodeChar c) = 1 := by
  obtain ⟨x, xs, hx⟩ := List.exists_cons_of_ne_nil (encodeChar_ne_nil c)
  have hfirst : x.IsUTF8FirstByte := by
    have h := UInt8.isUTF8FirstByte_getElem_zero_utf8EncodeChar (c := c)
    simpa [hx] using h
  have hrest : ∀ y ∈ xs, ¬ y.IsUTF8FirstByte := by
    intro y hy
    obtain ⟨i, hi, rfl⟩ := List.getElem_of_mem hy
    have hlen : i + 1 < (String.utf8EncodeChar c).length := by simpa [hx] using hi
    have h : (String.utf8EncodeChar c)[i + 1].IsUTF8FirstByte ↔ i + 1 = 0 :=
      UInt8.isUTF8FirstByte_getElem_utf8EncodeChar
    simpa [hx] using h
  rw [hx, starts, List.countP_cons, List.countP_eq_zero.mpr (by simpa using hrest)]
  simp [hfirst]

theorem starts_encode (t : List Char) : starts (encode t) = t.length := by
  induction t with
  | nil => rfl
  | cons c t ih => simp [starts_encodeChar, ih, Nat.add_comm]

section
variable {f : Byte → List Char} (hf : ∀ x, 2 ≤ (f x).length)
include hf

theorem starts_lt_or_valid (b : Bytes) : starts b < (decodeWith f b).length ∨ Valid b := by
  induction b using split_induction with
  | nil => exact .inr valid_nil
  | char c b ih =>
    rcases ih with h | ⟨t, rfl⟩
    · refine .inl ?_
      have hsplit : decodeWith f (String.utf8EncodeChar c ++ b) = c :: decodeWith f b := by
        simp [decodeWith, split_encodeChar]
      rw [hsplit, starts_append, starts_encodeChar, List.length_cons]
      omega
    · exact .inr ⟨c :: t, encode_cons c t |>.symm⟩
  | stray x b hx ih =>
    refine .inl ?_
    have hsplit : decodeWith f (x :: b) = f x ++ decodeWith f b := by
      simp [decodeWith, split_stray hx]
    have hle : starts b ≤ (decodeWith f b).length := by
      rcases ih with h | ⟨t, rfl⟩
      · omega
      · rw [starts_encode, decodeWith_encode]
    have hone : starts (x :: b) ≤ 1 + starts b := by
      rw [starts, starts, List.countP_cons]
      split <;> omega
    have htwo := hf x
    rw [hsplit, List.length_append]
    omega

theorem starts_le_length (b : Bytes) : starts b ≤ (decodeWith f b).length := by
  rcases starts_lt_or_valid hf b with h | ⟨t, rfl⟩
  · omega
  · rw [starts_encode, decodeWith_encode]

theorem starts_eq_length_iff {b : Bytes} : starts b = (decodeWith f b).length ↔ Valid b := by
  constructor
  · intro h
    rcases starts_lt_or_valid hf b with hlt | hvalid
    · omega
    · exact hvalid
  · rintro ⟨t, rfl⟩
    rw [starts_encode, decodeWith_encode]

/-- Pieces that are decoded one by one. -/
theorem starts_flatten_le (ps : List Bytes) :
    starts ps.flatten ≤ (ps.flatMap (decodeWith f)).length := by
  induction ps with
  | nil => simp
  | cons p ps ih =>
    have hp := starts_le_length hf p
    rw [List.flatten_cons, List.flatMap_cons, starts_append, List.length_append]
    omega

theorem valid_of_starts_flatten {ps : List Bytes}
    (h : (ps.flatMap (decodeWith f)).length ≤ starts ps.flatten) : ∀ p ∈ ps, Valid p := by
  induction ps with
  | nil => simp
  | cons p ps ih =>
    have hp := starts_le_length hf p
    have hps := starts_flatten_le hf ps
    rw [List.flatten_cons, List.flatMap_cons, starts_append, List.length_append] at h
    refine List.forall_mem_cons.mpr ⟨?_, ih (by omega)⟩
    exact (starts_eq_length_iff hf).mp (by omega)

/-- **Pieces of a text.**  Decoded one by one they give the text back if and only if
each of them is a text. -/
theorem flatMap_decodeWith_iff {ps : List Bytes} {t : List Char} (h : ps.flatten = encode t) :
    ps.flatMap (decodeWith f) = t ↔ ∀ p ∈ ps, Valid p := by
  constructor
  · intro ht
    apply valid_of_starts_flatten hf
    rw [ht, h, starts_encode]
  · intro hvalid
    induction ps generalizing t with
    | nil => exact encode_injective h
    | cons p ps ih =>
      obtain ⟨⟨u, rfl⟩, hps⟩ := List.forall_mem_cons.mp hvalid
      rw [List.flatten_cons] at h
      obtain ⟨v, rfl, hv⟩ := exists_text h.symm
      rw [List.flatMap_cons, decodeWith_encode, ih hv hps]

end

end InteractiveSessions.Utf8
