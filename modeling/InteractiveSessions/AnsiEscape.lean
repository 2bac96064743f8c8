import InteractiveSessions.Lib.Removal

/-!
# `ANSI_ESCAPE_REGEX`

It matches an escape character with a second one, or with a control sequence: a
bracket, parameters, intermediates and a final character.  The ranges of these three
do not meet, so there is only one way to match.
-/

namespace InteractiveSessions

namespace AnsiEscape

/-- `[first-last]` -/
def inRange (first last c : Char) : Bool := first.toNat ≤ c.toNat && c.toNat ≤ last.toNat

def esc : Char := Char.ofNat 0x1B

/-- `[@-Z\\-_]` -/
def isSecond (c : Char) : Bool := inRange '@' 'Z' c || inRange '\\' '_' c

/-- `[0-?]` -/
def isParameter : Char → Bool := inRange '0' '?'

/-- From ` ` to `/`. -/
def isIntermediate : Char → Bool := inRange ' ' '/'

/-- `[@-~]` -/
def isFinal : Char → Bool := inRange '@' '~'

/-- What may come after the bracket. -/
def Csi (s : List Char) : Prop :=
  ∃ parameters intermediates final, s = parameters ++ (intermediates ++ [final]) ∧
    (∀ c ∈ parameters, isParameter c) ∧ (∀ c ∈ intermediates, isIntermediate c) ∧ isFinal final

/-- The matches of the expression. -/
inductive Word : List Char → Prop
  | second {c : Char} (h : isSecond c) : Word [esc, c]
  | csi {s : List Char} (h : Csi s) : Word (esc :: '[' :: s)

/-- The length of a control sequence at the front, without its bracket. -/
def csi? (s : List Char) : Option Nat :=
  let rest := s.dropWhile isParameter
  match rest.dropWhile isIntermediate with
  | c :: _ =>
    if isFinal c then
      some ((s.takeWhile isParameter).length + ((rest.takeWhile isIntermediate).length + 1))
    else none
  | [] => none

/-- The length of a match at the front. -/
def find? : List Char → Option Nat
  | x :: c :: s =>
    if x = esc then
      if isSecond c then some 2 else if c = '[' then (csi? s).map (2 + ·) else none
    else none
  | _ => none

theorem inRange_iff {first last c : Char} :
    inRange first last c = true ↔ first.toNat ≤ c.toNat ∧ c.toNat ≤ last.toNat := by
  simp [inRange]

theorem not_isParameter_of_intermediate {c : Char} (h : isIntermediate c) :
    ¬ isParameter c = true := by
  rw [isParameter, inRange_iff]
  rw [isIntermediate, inRange_iff] at h
  simp at h ⊢
  omega

theorem not_isParameter_of_final {c : Char} (h : isFinal c) : ¬ isParameter c = true := by
  rw [isParameter, inRange_iff]
  rw [isFinal, inRange_iff] at h
  simp at h ⊢
  omega

theorem not_isIntermediate_of_final {c : Char} (h : isFinal c) : ¬ isIntermediate c = true := by
  rw [isIntermediate, inRange_iff]
  rw [isFinal, inRange_iff] at h
  simp at h ⊢
  omega

theorem csi?_of_csi {s : List Char} (h : Csi s) (rest : List Char) :
    csi? (s ++ rest) = some s.length := by
  obtain ⟨ps, is, c, rfl, hps, his, hc⟩ := h
  have hp : ((is ++ [c]) ++ rest).takeWhile isParameter = [] ∧
      ((is ++ [c]) ++ rest).dropWhile isParameter = (is ++ [c]) ++ rest := by
    cases is with
    | nil => simp [not_isParameter_of_final hc]
    | cons i is => simp [not_isParameter_of_intermediate (his i (List.mem_cons_self ..))]
  have hi : ((is ++ [c]) ++ rest).dropWhile isIntermediate = c :: rest ∧
      ((is ++ [c]) ++ rest).takeWhile isIntermediate = is := by
    rw [List.append_assoc, List.dropWhile_append_of_pos his, List.takeWhile_append_of_pos his]
    simp [not_isIntermediate_of_final hc]
  unfold csi?
  simp only [List.append_assoc ps, List.dropWhile_append_of_pos hps,
    List.takeWhile_append_of_pos hps, hp.1, hp.2, hi.1, hi.2, hc, if_true, List.append_nil,
    List.length_append, List.length_singleton]

theorem mem_takeWhile {p : Char → Bool} {s : List Char} {c : Char} (h : c ∈ s.takeWhile p) :
    p c := List.all_eq_true.mp List.all_takeWhile c h

theorem csi_of_csi? {s : List Char} {n : Nat} (h : csi? s = some n) :
    ∃ e, e <+: s ∧ Csi e ∧ e.length = n := by
  unfold csi? at h
  dsimp only at h
  split at h
  · next c rest hrest =>
    split at h
    · next hc =>
      refine ⟨s.takeWhile isParameter ++
        ((s.dropWhile isParameter).takeWhile isIntermediate ++ [c]), ⟨rest, ?_⟩, ?_, ?_⟩
      · have hmid := (s.dropWhile isParameter).takeWhile_append_dropWhile (p := isIntermediate)
        rw [hrest] at hmid
        rw [List.append_assoc, List.append_assoc, List.singleton_append, hmid,
          List.takeWhile_append_dropWhile]
      · exact ⟨_, _, c, rfl, fun _ => mem_takeWhile, fun _ => mem_takeWhile, hc⟩
      · simpa using h
    · cases h
  · cases h

theorem not_isSecond_bracket : isSecond '[' = false := by decide

theorem find?_eq_some (s : List Char) (n : Nat) :
    find? s = some n ↔ ∃ e, e <+: s ∧ Word e ∧ e.length = n := by
  constructor
  · intro h
    match s with
    | [] => cases h
    | [_] => cases h
    | x :: c :: s =>
      rw [find?] at h
      split at h
      · next hx =>
        subst hx
        split at h
        · next hc =>
          cases h
          exact ⟨[esc, c], ⟨s, rfl⟩, .second hc, rfl⟩
        · split at h
          · next hc =>
            subst hc
            obtain ⟨k, hk, rfl⟩ := Option.map_eq_some_iff.mp h
            obtain ⟨e, hpre, he, rfl⟩ := csi_of_csi? hk
            refine ⟨esc :: '[' :: e, ?_, .csi he, ?_⟩
            · simpa using hpre
            · simp only [List.length_cons]
              omega
          · cases h
      · cases h
  · rintro ⟨e, ⟨rest, rfl⟩, he, rfl⟩
    cases he with
    | second hc => simp [find?, hc]
    | @csi s he =>
      have hlen : 2 + s.length = s.length + 1 + 1 := by omega
      simp [find?, not_isSecond_bracket, csi?_of_csi he, hlen]

/-- After its beginning a match has no escape character. -/
theorem esc_notMem_csi {s : List Char} (h : Csi s) : esc ∉ s := by
  obtain ⟨ps, is, c, rfl, hps, his, hc⟩ := h
  simp only [List.mem_append, List.mem_singleton, not_or]
  refine ⟨fun hmem => ?_, fun hmem => ?_, fun hmem => ?_⟩
  · exact absurd (hps _ hmem) (by decide)
  · exact absurd (his _ hmem) (by decide)
  · exact absurd (hmem ▸ hc) (by decide)

theorem word_eq (e : List Char) (h : Word e) :
    ∃ body, body ≠ [] ∧ e = esc :: body ∧ esc ∉ body := by
  cases h with
  | @second c hc =>
    refine ⟨[c], List.cons_ne_nil _ _, rfl, fun hmem => ?_⟩
    rw [List.mem_singleton] at hmem
    exact absurd (hmem ▸ hc) (by decide)
  | @csi s hs =>
    refine ⟨'[' :: s, List.cons_ne_nil _ _, rfl, fun hmem => ?_⟩
    rcases List.mem_cons.mp hmem with hbracket | hmem
    · exact absurd hbracket (by decide)
    · exact esc_notMem_csi hs hmem

end AnsiEscape

def ansiEscape : Escapes Char where
  start := AnsiEscape.esc
  Word := AnsiEscape.Word
  find? := AnsiEscape.find?
  find?_eq_some := AnsiEscape.find?_eq_some
  word_eq := AnsiEscape.word_eq

end InteractiveSessions
