import InteractiveSessions.Lib.Decimal

/-!
# Base64

`b64encode(s)` and `b64decode(s)`.  The decoder skips bytes outside of the
alphabet and ends at the padding; `none` is `binascii.Error`.
-/

namespace InteractiveSessions.Base64

/-- The alphabet: `A-Z`, `a-z`, `0-9`, `+`, `/`. -/
def char (v : Nat) : Byte :=
  UInt8.ofNat <|
    if v < 26 then v + 65 else if v < 52 then v + 71 else if v < 62 then v - 4
    else if v = 62 then 43 else 47

def value? (c : Byte) : Option Nat :=
  let n := c.toNat
  if 65 ≤ n ∧ n ≤ 90 then some (n - 65)
  else if 97 ≤ n ∧ n ≤ 122 then some (n - 71)
  else if 48 ≤ n ∧ n ≤ 57 then some (n + 4)
  else if n = 43 then some 62
  else if n = 47 then some 63
  else none

/-- `=` -/
def pad : Byte := 61

def encode : Bytes → Bytes
  | [] => []
  | [a] => [char (a.toNat / 4), char (a.toNat % 4 * 16), pad, pad]
  | [a, b] =>
    [char (a.toNat / 4), char (a.toNat % 4 * 16 + b.toNat / 16), char (b.toNat % 16 * 4), pad]
  | a :: b :: c :: s =>
    char (a.toNat / 4) :: char (a.toNat % 4 * 16 + b.toNat / 16) ::
      char (b.toNat % 16 * 4 + c.toNat / 64) :: char (c.toNat % 64) :: encode s

/-- The decoder after `quad` characters of a group of four, with the bits in
`left` that are not used yet and `pads` padding characters before the next one. -/
def decodeFrom (quad left pads : Nat) : Bytes → Option Bytes
  | [] => if quad = 0 then some [] else none
  | c :: s =>
    if c = pad then
      if 2 ≤ quad then
        if 4 ≤ quad + (pads + 1) then some [] else decodeFrom quad left (pads + 1) s
      else decodeFrom quad left pads s
    else
      match value? c with
      | none => decodeFrom quad left pads s
      | some v =>
        match quad with
        | 0 => decodeFrom 1 v 0 s
        | 1 => (decodeFrom 2 (v % 16) 0 s).map (UInt8.ofNat (left * 4 + v / 16) :: ·)
        | 2 => (decodeFrom 3 (v % 4) 0 s).map (UInt8.ofNat (left * 16 + v / 4) :: ·)
        | _ => (decodeFrom 0 0 0 s).map (UInt8.ofNat (left * 64 + v) :: ·)

def decode (s : Bytes) : Option Bytes := decodeFrom 0 0 0 s

theorem value?_char {v : Nat} (hv : v < 64) : value? (char v) = some v := by
  revert v
  decide

theorem char_ne_pad {v : Nat} (hv : v < 64) : char v ≠ pad := by
  revert v
  decide

section
variable {left pads v : Nat} (hv : v < 64) (s : Bytes)
include hv

theorem decodeFrom_zero : decodeFrom 0 left pads (char v :: s) = decodeFrom 1 v 0 s := by
  simp only [decodeFrom, if_neg (char_ne_pad hv), value?_char hv]

theorem decodeFrom_one : decodeFrom 1 left pads (char v :: s) =
    (decodeFrom 2 (v % 16) 0 s).map (UInt8.ofNat (left * 4 + v / 16) :: ·) := by
  simp only [decodeFrom, if_neg (char_ne_pad hv), value?_char hv]

theorem decodeFrom_two : decodeFrom 2 left pads (char v :: s) =
    (decodeFrom 3 (v % 4) 0 s).map (UInt8.ofNat (left * 16 + v / 4) :: ·) := by
  simp only [decodeFrom, if_neg (char_ne_pad hv), value?_char hv]

theorem decodeFrom_three : decodeFrom 3 left pads (char v :: s) =
    (decodeFrom 0 0 0 s).map (UInt8.ofNat (left * 64 + v) :: ·) := by
  simp only [decodeFrom, if_neg (char_ne_pad hv), value?_char hv]

end

/-- Three bytes from four characters. -/
theorem ofNat_first (a b : Byte) :
    UInt8.ofNat (a.toNat / 4 * 4 + (a.toNat % 4 * 16 + b.toNat / 16) / 16) = a := by
  have hb := b.toNat_lt
  have h : a.toNat / 4 * 4 + (a.toNat % 4 * 16 + b.toNat / 16) / 16 = a.toNat := by omega
  rw [h, UInt8.ofNat_toNat]

theorem ofNat_second (a b c : Byte) :
    UInt8.ofNat ((a.toNat % 4 * 16 + b.toNat / 16) % 16 * 16 +
      (b.toNat % 16 * 4 + c.toNat / 64) / 4) = b := by
  have hb := b.toNat_lt
  have hc := c.toNat_lt
  have h : (a.toNat % 4 * 16 + b.toNat / 16) % 16 * 16 +
      (b.toNat % 16 * 4 + c.toNat / 64) / 4 = b.toNat := by omega
  rw [h, UInt8.ofNat_toNat]

theorem ofNat_third (b c : Byte) :
    UInt8.ofNat ((b.toNat % 16 * 4 + c.toNat / 64) % 4 * 64 + c.toNat % 64) = c := by
  have hc := c.toNat_lt
  have h : (b.toNat % 16 * 4 + c.toNat / 64) % 4 * 64 + c.toNat % 64 = c.toNat := by omega
  rw [h, UInt8.ofNat_toNat]

/-- **Round trip.** -/
theorem decode_encode (s : Bytes) : decode (encode s) = some s := by
  rw [decode]
  induction s using encode.induct with
  | case1 => rfl
  | case2 a =>
    have ha := a.toNat_lt
    have hfirst := ofNat_first a 0
    simp only [UInt8.toNat_zero, Nat.zero_div, Nat.add_zero] at hfirst
    rw [encode, decodeFrom_zero (by omega), decodeFrom_one (by omega), hfirst]
    rfl
  | case3 a b =>
    have ha := a.toNat_lt
    have hb := b.toNat_lt
    have hsecond := ofNat_second a b 0
    simp only [UInt8.toNat_zero, Nat.zero_div, Nat.add_zero] at hsecond
    rw [encode, decodeFrom_zero (by omega), decodeFrom_one (by omega),
      decodeFrom_two (by omega), ofNat_first, hsecond]
    rfl
  | case4 a b c s ih =>
    have ha := a.toNat_lt
    have hb := b.toNat_lt
    have hc := c.toNat_lt
    rw [encode, decodeFrom_zero (by omega), decodeFrom_one (by omega),
      decodeFrom_two (by omega), decodeFrom_three (by omega), ofNat_first, ofNat_second,
      ofNat_third, ih]
    rfl

theorem mem_encode {s : Bytes} {c : Byte} (h : c ∈ encode s) : c = pad ∨ ∃ v < 64, c = char v := by
  induction s using encode.induct with
  | case1 => cases h
  | case2 a =>
    have ha := a.toNat_lt
    simp only [encode, List.mem_cons, List.not_mem_nil, or_false] at h
    rcases h with rfl | rfl | rfl | rfl
    · exact .inr ⟨_, by omega, rfl⟩
    · exact .inr ⟨_, by omega, rfl⟩
    · exact .inl rfl
    · exact .inl rfl
  | case3 a b =>
    have ha := a.toNat_lt
    have hb := b.toNat_lt
    simp only [encode, List.mem_cons, List.not_mem_nil, or_false] at h
    rcases h with rfl | rfl | rfl | rfl
    · exact .inr ⟨_, by omega, rfl⟩
    · exact .inr ⟨_, by omega, rfl⟩
    · exact .inr ⟨_, by omega, rfl⟩
    · exact .inl rfl
  | case4 a b c' s ih =>
    have ha := a.toNat_lt
    have hb := b.toNat_lt
    have hc := c'.toNat_lt
    simp only [encode, List.mem_cons] at h
    rcases h with rfl | rfl | rfl | rfl | h
    · exact .inr ⟨_, by omega, rfl⟩
    · exact .inr ⟨_, by omega, rfl⟩
    · exact .inr ⟨_, by omega, rfl⟩
    · exact .inr ⟨_, by omega, rfl⟩
    · exact ih h

/-- A byte that is neither of the alphabet nor padding does not occur. -/
theorem notMem_encode {c : Byte} (hpad : c ≠ pad) (hvalue : value? c = none) (s : Bytes) :
    c ∉ encode s := by
  intro h
  rcases mem_encode h with rfl | ⟨v, hv, rfl⟩
  · exact hpad rfl
  · rw [value?_char hv] at hvalue
    cases hvalue

theorem encode_ne_nil {s : Bytes} (h : s ≠ []) : encode s ≠ [] := by
  cases s using encode.induct with
  | case1 => exact absurd rfl h
  | case2 | case3 | case4 => exact List.cons_ne_nil _ _

example : encode (ascii "bab") = ascii "YmFi" := by decide

end InteractiveSessions.Base64
