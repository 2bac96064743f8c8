import Mathlib.Tactic

/-!
# Byte strings and decimal numbers

Byte strings, the zero padded decimal format (`'{:04}'.format(n)`) and the
parser `int()` of a byte string: spaces around, a sign, digits with single
underscores between them.

* `format_eq`: a number below `10 ^ w` has exactly `w` digits;
* `parseInt_format`: parsing gives the number back;
* `mem_format`: only the bytes `0` to `9` occur.
-/

namespace InteractiveSessions

abbrev Byte := UInt8
abbrev Bytes := List UInt8

/-- The bytes of an ASCII text. -/
def ascii (s : String) : Bytes := s.toList.map fun c => UInt8.ofNat c.toNat

namespace Decimal

/-! ## Formatting -/

/-- The last `w` decimal digits of `n`, most significant first. -/
def digits : Nat → Nat → List Nat
  | 0, _ => []
  | w + 1, n => digits w (n / 10) ++ [n % 10]

/-- The smallest number of digits, at least `w`, that holds `n`. -/
def width : Nat → Nat → Nat → Nat
  | 0, w, _ => w
  | fuel + 1, w, n => if n < 10 ^ w then w else width fuel (w + 1) n

def digitByte (d : Nat) : Byte := UInt8.ofNat (48 + d)

/-- `'{n:0w}'.format(n)`, as bytes. -/
def format (w n : Nat) : Bytes := (digits (width n w n) n).map digitByte

theorem format_eq {w n : Nat} (h : n < 10 ^ w) : format w n = (digits w n).map digitByte := by
  cases n with
  | zero => rfl
  | succ n => rw [format, width, if_pos h]

theorem digits_length (w n : Nat) : (digits w n).length = w := by
  induction w generalizing n with
  | zero => rfl
  | succ w ih => simp [digits, ih]

theorem digits_lt (w n : Nat) : ∀ d ∈ digits w n, d < 10 := by
  induction w generalizing n with
  | zero => simp [digits]
  | succ w ih =>
    intro d hd
    rcases List.mem_append.mp hd with hd | hd
    · exact ih _ d hd
    · rw [List.mem_singleton.mp hd]
      omega

theorem format_length {w n : Nat} (h : n < 10 ^ w) : (format w n).length = w := by
  rw [format_eq h, List.length_map, digits_length]

theorem digitByte_toNat {d : Nat} (hd : d < 10) : (digitByte d).toNat = 48 + d := by
  rw [digitByte, UInt8.toNat_ofNat']
  omega

theorem mem_format {w n : Nat} {c : Byte} (hc : c ∈ format w n) :
    48 ≤ c.toNat ∧ c.toNat ≤ 57 := by
  obtain ⟨d, hd, rfl⟩ := List.mem_map.mp hc
  have := digits_lt _ _ d hd
  rw [digitByte_toNat this]
  omega

/-! ## Parsing -/

/-- `' \t\n\v\f\r'` -/
def isSpace (c : Byte) : Bool := c.toNat = 32 || (9 ≤ c.toNat && c.toNat ≤ 13)

def digit? (c : Byte) : Option Nat :=
  if 48 ≤ c.toNat ∧ c.toNat ≤ 57 then some (c.toNat - 48) else none

/-- The rest of a number after a digit; `acc` is the value so far. -/
def parseTail : Nat → Bytes → Option Nat
  | acc, [] => some acc
  | acc, [c] =>
    match digit? c with
    | some d => some (10 * acc + d)
    | none => if isSpace c then some acc else none
  | acc, c :: c' :: cs =>
    match digit? c with
    | some d => parseTail (10 * acc + d) (c' :: cs)
    | none =>
      if c = 95 then
        match digit? c' with
        | some d => parseTail (10 * acc + d) cs
        | none => none
      else if (c :: c' :: cs).all isSpace then some acc else none

/-- A number without sign: it starts with a digit. -/
def parseNat : Bytes → Option Nat
  | [] => none
  | c :: cs => (digit? c).bind fun d => parseTail d cs

/-- `int(s)` for a byte string `s`; `none` is `ValueError`. -/
def parseInt (s : Bytes) : Option Int :=
  match s.dropWhile isSpace with
  | [] => none
  | c :: cs =>
    if c = 43 then (parseNat cs).map Int.ofNat
    else if c = 45 then (parseNat cs).map fun n => -Int.ofNat n
    else (parseNat (c :: cs)).map Int.ofNat

theorem digit?_digitByte {d : Nat} (hd : d < 10) : digit? (digitByte d) = some d := by
  rw [digit?, digitByte_toNat hd, if_pos (by omega)]
  simp

theorem parseTail_digits (acc : Nat) (ds : List Nat) (h : ∀ d ∈ ds, d < 10) :
    parseTail acc (ds.map digitByte) = some (ds.foldl (fun a d => 10 * a + d) acc) := by
  induction ds generalizing acc with
  | nil => rfl
  | cons d ds ih =>
    have hd := digit?_digitByte (h d (List.mem_cons_self ..))
    have ih' := ih (10 * acc + d) (fun x hx => h x (List.mem_cons_of_mem _ hx))
    cases ds with
    | nil => simp only [List.map_cons, List.map_nil, parseTail, hd, List.foldl_cons, List.foldl_nil]
    | cons d' ds =>
      simp only [List.map_cons, parseTail, hd, List.foldl_cons] at ih' ⊢
      exact ih'

theorem foldl_digits (acc w n : Nat) :
    (digits w n).foldl (fun a d => 10 * a + d) acc = acc * 10 ^ w + n % 10 ^ w := by
  induction w generalizing n with
  | zero => simp [digits, Nat.mod_one]
  | succ w ih =>
    rw [digits, List.foldl_append, ih, List.foldl_cons, List.foldl_nil, Nat.pow_succ,
      Nat.mul_comm (10 ^ w) 10, Nat.mod_mul]
    ring

/-- The digits of a number are parsed to the number; the first is a digit. -/
theorem parseNat_digits {w n : Nat} (hw : 0 < w) (h : n < 10 ^ w) :
    ∃ d cs, d < 10 ∧ (digits w n).map digitByte = digitByte d :: cs ∧
      parseNat (digitByte d :: cs) = some n := by
  have hval := foldl_digits 0 w n
  have hlen := digits_length w n
  have hlt := digits_lt w n
  cases hd : digits w n with
  | nil =>
    rw [hd] at hlen
    simp only [List.length_nil] at hlen
    omega
  | cons d ds =>
    rw [hd] at hval hlt
    have hd10 := hlt d (List.mem_cons_self ..)
    have htail := parseTail_digits d ds (fun x hx => hlt x (List.mem_cons_of_mem _ hx))
    rw [List.foldl_cons, Nat.zero_mul, Nat.zero_add, Nat.zero_add,
      Nat.mod_eq_of_lt h] at hval
    rw [hval] at htail
    refine ⟨d, ds.map digitByte, hd10, rfl, ?_⟩
    simp only [parseNat, digit?_digitByte hd10, Option.bind_some, htail]

theorem parseInt_digits {w n : Nat} (hw : 0 < w) (h : n < 10 ^ w) :
    parseInt ((digits w n).map digitByte) = some (n : Int) := by
  obtain ⟨d, cs, hd10, heq, hparse⟩ := parseNat_digits hw h
  have hnat := digitByte_toNat hd10
  have hspace : isSpace (digitByte d) = false := by
    rw [isSpace, hnat]
    simp
    omega
  have hne : ∀ k, k < 48 → digitByte d ≠ UInt8.ofNat k := by
    intro k hk he
    have := congrArg UInt8.toNat he
    rw [hnat, UInt8.toNat_ofNat'] at this
    omega
  have h43 : digitByte d ≠ 43 := hne 43 (by omega)
  have h45 : digitByte d ≠ 45 := hne 45 (by omega)
  rw [heq]
  simp only [parseInt, List.dropWhile_cons, hspace, Bool.false_eq_true, ↓reduceIte, h43, h45,
    hparse, Option.map_some, Int.ofNat_eq_natCast]

/-- **Round trip of the padded format.** -/
theorem parseInt_format {w n : Nat} (hw : 0 < w) (h : n < 10 ^ w) :
    parseInt (format w n) = some (n : Int) := by
  rw [format_eq h]
  exact parseInt_digits hw h

/-! ## A number that is too long for its field -/

theorem width_spec (fuel w n : Nat) (h : n < 10 ^ (w + fuel)) :
    w ≤ width fuel w n ∧ n < 10 ^ width fuel w n ∧
      (w < width fuel w n → 10 ^ (width fuel w n - 1) ≤ n) := by
  induction fuel generalizing w with
  | zero => exact ⟨le_rfl, h, fun hlt => absurd hlt (lt_irrefl w)⟩
  | succ fuel ih =>
    rw [width]
    split
    · exact ⟨le_rfl, by assumption, fun hlt => absurd hlt (lt_irrefl w)⟩
    · obtain ⟨hle, hlt, hmin⟩ := ih (w + 1) (by rwa [Nat.add_right_comm])
      refine ⟨by omega, hlt, fun _ => ?_⟩
      rcases Nat.eq_or_lt_of_le hle with heq | hgt
      · rw [← heq, Nat.add_sub_cancel]
        omega
      · exact hmin hgt

theorem take_digits (w k n : Nat) : (digits (w + k) n).take w = digits w (n / 10 ^ k) := by
  induction k generalizing n with
  | zero =>
    rw [Nat.add_zero, Nat.pow_zero, Nat.div_one, List.take_of_length_le (digits_length w n).le]
  | succ k ih =>
    rw [← Nat.add_assoc, digits, List.take_append_of_le_length (by rw [digits_length]; omega), ih,
      Nat.pow_succ, Nat.mul_comm, Nat.div_div_eq_div_mul]

/-- The field of `w` bytes holds a number again, a smaller one when the number
does not fit. -/
theorem take_format {w : Nat} (hw : 0 < w) (n : Nat) :
    ∃ m, m < 10 ^ w ∧ (format w n).take w = format w m ∧ (n < 10 ^ w → m = n) ∧
      (10 ^ w ≤ n → 0 < m ∧ m < n) := by
  have hfuel : n < 10 ^ (w + n) :=
    (Nat.lt_pow_self (by decide)).trans_le (Nat.pow_le_pow_right (by decide) (by omega))
  obtain ⟨hle, hlt, hmin⟩ := width_spec n w n hfuel
  obtain ⟨k, hk⟩ := Nat.exists_eq_add_of_le hle
  rw [hk] at hlt hmin
  have hm : n / 10 ^ k < 10 ^ w := by
    rw [Nat.div_lt_iff_lt_mul (by positivity), ← Nat.pow_add]
    exact hlt
  refine ⟨n / 10 ^ k, hm, ?_, fun hn => ?_, fun hn => ?_⟩
  · rw [format_eq hm, format, hk, ← List.map_take, take_digits]
  · obtain rfl : k = 0 := by
      by_contra hne
      have hge : 10 ^ w ≤ 10 ^ (w + k - 1) := Nat.pow_le_pow_right (by decide) (by omega)
      have := hmin (by omega)
      omega
    rw [Nat.pow_zero, Nat.div_one]
  · have hpos : 0 < k := by
      rcases Nat.eq_zero_or_pos k with rfl | hpos
      · rw [Nat.add_zero] at hlt
        omega
      · exact hpos
    have hge : 10 ^ k ≤ n :=
      (Nat.pow_le_pow_right (by decide) (by omega)).trans (hmin (by omega))
    exact ⟨Nat.div_pos hge (by positivity),
      Nat.div_lt_self (lt_of_lt_of_le (by positivity) hn) (Nat.one_lt_pow hpos.ne' (by decide))⟩

/-! ## Numbers of any length -/

/-- `str(n)`, as bytes. -/
def str : Int → Bytes
  | .ofNat n => format 1 n
  | .negSucc n => 45 :: format 1 (n + 1)

/-- As many digits as the number has. -/
theorem format_one (n : Nat) : ∃ w, 0 < w ∧ n < 10 ^ w ∧ (1 < w → 10 ^ (w - 1) ≤ n) ∧
    format 1 n = (digits w n).map digitByte := by
  have hfuel : n < 10 ^ (1 + n) :=
    (Nat.lt_pow_self (by decide)).trans_le (Nat.pow_le_pow_right (by decide) (by omega))
  obtain ⟨hle, hlt, hmin⟩ := width_spec n 1 n hfuel
  exact ⟨_, hle, hlt, hmin, rfl⟩

theorem parseInt_str (n : Int) : parseInt (str n) = some n := by
  cases n with
  | ofNat n =>
    obtain ⟨w, hw, hlt, -, heq⟩ := format_one n
    rw [str, heq]
    exact parseInt_digits hw hlt
  | negSucc n =>
    obtain ⟨w, hw, hlt, -, heq⟩ := format_one (n + 1)
    obtain ⟨d, cs, -, hcons, hparse⟩ := parseNat_digits hw hlt
    rw [str, heq, hcons]
    have hspace : isSpace 45 = false := by decide
    simp only [parseInt, List.dropWhile_cons, hspace, Bool.false_eq_true, ↓reduceIte, hparse,
      Option.map_some, show (45 : Byte) ≠ 43 by decide]
    rfl

theorem mem_str {n : Int} {c : Byte} (hc : c ∈ str n) : c = 45 ∨ 48 ≤ c.toNat ∧ c.toNat ≤ 57 := by
  cases n with
  | ofNat n => exact .inr (mem_format hc)
  | negSucc n =>
    rcases List.mem_cons.mp hc with rfl | hc
    · exact .inl rfl
    · exact .inr (mem_format hc)

theorem length_format_one {n k : Nat} (hk : 0 < k) (h : n < 10 ^ k) : (format 1 n).length ≤ k := by
  obtain ⟨w, -, -, hmin, heq⟩ := format_one n
  rw [heq, List.length_map, digits_length]
  by_contra hlt
  have hpow := (hmin (by omega)).trans_lt h
  have hle : 10 ^ k ≤ 10 ^ (w - 1) := Nat.pow_le_pow_right (by decide) (by omega)
  omega

theorem length_str {n : Int} {k : Nat} (hk : 0 < k) (h : n.natAbs < 10 ^ k) :
    (str n).length ≤ k + 1 := by
  cases n with
  | ofNat n => exact (length_format_one hk h).trans (Nat.le_succ k)
  | negSucc n => exact Nat.succ_le_succ (length_format_one hk h)

example : format 4 17 = ascii "0017" := by decide

example : parseInt (ascii " -1_7 ") = some (-17) := by decide

end Decimal

end InteractiveSessions
