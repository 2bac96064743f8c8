import Mathlib.Tactic

/-!
# Removing sequences from a text that comes in parts

`Escapes`: sequences that begin with a character which does not occur in the rest of
them, and a function that finds the one at the front of a text.  `removed` is the text
without them.

`flatMap_removed_iff`: removing them part by part gives the same as removing them from
the whole text if and only if no sequence begins in one part and ends in a later one.
-/

namespace InteractiveSessions

structure Escapes (α : Type) where
  start : α
  Word : List α → Prop
  /-- The length of the sequence at the front. -/
  find? : List α → Option Nat
  find?_eq_some : ∀ s n, find? s = some n ↔ ∃ e, e <+: s ∧ Word e ∧ e.length = n
  word_eq : ∀ e, Word e → ∃ body, body ≠ [] ∧ e = start :: body ∧ start ∉ body

namespace Escapes

variable {α : Type} (E : Escapes α)

/-- What is left after so many characters that are skipped. -/
def removedFrom : Nat → List α → List α
  | _, [] => []
  | skip + 1, _ :: s => removedFrom skip s
  | 0, x :: s =>
    match E.find? (x :: s) with
    | some n => removedFrom (n - 1) s
    | none => x :: removedFrom 0 s

def removed (s : List α) : List α := E.removedFrom 0 s

/-- A sequence begins in `a` and ends in `b`. -/
def Straddles (a b : List α) : Prop :=
  ∃ u v w x, a = u ++ v ∧ b = w ++ x ∧ v ≠ [] ∧ w ≠ [] ∧ E.Word (v ++ w)

/-- No sequence begins in one part and ends in a later one. -/
def Uncut : List (List α) → Prop
  | [] => True
  | t :: ts => ¬ E.Straddles t ts.flatten ∧ Uncut ts

variable {E} {e e' s a b : List α} {x : α} {ts : List (List α)}

/-! ## Sequences -/

theorem word_ne_nil (he : E.Word e) : e ≠ [] := by
  obtain ⟨body, -, rfl, -⟩ := E.word_eq e he
  exact List.cons_ne_nil _ _

/-- Only one sequence begins at the front. -/
theorem word_unique (he : E.Word e) (he' : E.Word e') (hs : e <+: s) (hs' : e' <+: s) :
    e = e' := by
  have h := (E.find?_eq_some s e.length).mpr ⟨e, hs, he, rfl⟩
  have h' := (E.find?_eq_some s e'.length).mpr ⟨e', hs', he', rfl⟩
  have hlen : e.length = e'.length := Option.some.inj (h.symm.trans h')
  exact (List.prefix_of_prefix_length_le hs hs' hlen.le).eq_of_length hlen

/-- A sequence has no sequence behind its beginning. -/
theorem start_notMem_tail {u v : List α} (he : E.Word (u ++ v)) (hu : u ≠ []) : E.start ∉ v := by
  obtain ⟨body, -, hbody, hnot⟩ := E.word_eq _ he
  cases u with
  | nil => exact absurd rfl hu
  | cons y u =>
    obtain ⟨-, rfl⟩ := List.cons.inj hbody
    intro hv
    exact hnot (List.mem_append_right u hv)

theorem start_mem_of_word {u v : List α} (he : E.Word (u ++ v)) (hu : u ≠ []) : E.start ∈ u := by
  obtain ⟨body, -, hbody, -⟩ := E.word_eq _ he
  cases u with
  | nil => exact absurd rfl hu
  | cons y u =>
    obtain ⟨rfl, -⟩ := List.cons.inj hbody
    exact List.mem_cons_self ..

/-! ## Removal -/

@[simp] theorem removed_nil : E.removed [] = [] := rfl

theorem removedFrom_drop (k : Nat) (s : List α) : E.removedFrom k s = E.removed (s.drop k) := by
  induction s generalizing k with
  | nil => simp [removed, removedFrom]
  | cons x s ih =>
    cases k with
    | zero => rfl
    | succ k => exact ih k

theorem removed_word (he : E.Word e) (s : List α) : E.removed (e ++ s) = E.removed s := by
  obtain ⟨body, -, rfl, -⟩ := E.word_eq e he
  have hfind := (E.find?_eq_some _ _).mpr ⟨_, List.prefix_append (E.start :: body) s, he, rfl⟩
  rw [List.cons_append] at hfind ⊢
  rw [removed, removedFrom, hfind]
  dsimp only
  rw [removedFrom_drop, List.length_cons, Nat.add_sub_cancel, List.drop_left]

theorem removed_cons (h : ∀ e, E.Word e → ¬ e <+: x :: s) :
    E.removed (x :: s) = x :: E.removed s := by
  have hfind : E.find? (x :: s) = none := by
    rw [Option.eq_none_iff_forall_ne_some]
    intro n hn
    obtain ⟨e, hpre, he, -⟩ := (E.find?_eq_some _ _).mp hn
    exact h e he hpre
  rw [removed, removedFrom, hfind]
  rfl

/-- Induction along the sequences and the characters that are kept. -/
theorem removal_induction {motive : List α → Prop} (nil : motive [])
    (word : ∀ e s, E.Word e → motive s → motive (e ++ s))
    (cons : ∀ x s, (∀ e, E.Word e → ¬ e <+: x :: s) → motive s → motive (x :: s))
    (s : List α) : motive s := by
  induction hn : s.length using Nat.strong_induction_on generalizing s with
  | _ n ih =>
    cases s with
    | nil => exact nil
    | cons x s =>
      by_cases h : ∃ e, E.Word e ∧ e <+: x :: s
      · obtain ⟨e, he, rest, hrest⟩ := h
        have hpos := List.length_pos_iff.mpr (word_ne_nil he)
        rw [← hrest] at hn ⊢
        rw [List.length_append] at hn
        exact word e rest he (ih rest.length (by omega) rest rfl)
      · apply cons x s
        · intro e he hpre
          exact h ⟨e, he, hpre⟩
        · exact ih s.length (by simp [← hn]) s rfl

/-- What has no beginning of a sequence is kept. -/
theorem removed_append_of_notMem (h : E.start ∉ a) (b : List α) :
    E.removed (a ++ b) = a ++ E.removed b := by
  induction a with
  | nil => rfl
  | cons x a ih =>
    rw [List.mem_cons, not_or] at h
    obtain ⟨hx, ha⟩ := h
    rw [List.cons_append, removed_cons, ih ha, List.cons_append]
    rintro e he hpre
    obtain ⟨body, -, rfl, -⟩ := E.word_eq e he
    exact hx (List.cons_prefix_cons.mp hpre).1

theorem removed_of_notMem (h : E.start ∉ a) : E.removed a = a := by
  simpa using removed_append_of_notMem h []

/-! ## Two parts -/

theorem Straddles.append_left (h : E.Straddles a b) (c : List α) : E.Straddles (c ++ a) b := by
  obtain ⟨u, v, w, x, rfl, rfl, hv, hw, hword⟩ := h
  exact ⟨c ++ u, v, w, x, (List.append_assoc ..).symm, rfl, hv, hw, hword⟩

/-- A sequence at the front of two parts is in the first one or goes on in the second. -/
theorem prefix_or_cut (hpre : e <+: a ++ b) :
    e <+: a ∨ ∃ w y, e = a ++ w ∧ w ≠ [] ∧ b = w ++ y := by
  obtain ⟨y, hy⟩ := hpre
  rcases List.append_eq_append_iff.mp hy with ⟨v, rfl, -⟩ | ⟨w, rfl, rfl⟩
  · exact .inl (List.prefix_append e v)
  · by_cases hw : w = []
    · subst hw
      exact .inl (by simp)
    · exact .inr ⟨w, y, rfl, hw, rfl⟩

/-- A sequence that is cut does not begin in one that is whole. -/
theorem straddles_word (he : E.Word e) (h : E.Straddles (e ++ a) b) : E.Straddles a b := by
  obtain ⟨u, v, w, x, heq, rfl, hv, hw, hword⟩ := h
  rcases List.append_eq_append_iff.mp heq with ⟨c, rfl, rfl⟩ | ⟨c, rfl, rfl⟩
  · exact ⟨c, v, w, x, rfl, rfl, hv, hw, hword⟩
  · by_cases hc : c = []
    · subst hc
      exact ⟨[], a, w, x, rfl, rfl, hv, hw, hword⟩
    · -- It would begin within `e`, so where `e` begins, and be as long as `e`.
      have hu : u = [] := by
        by_contra hu
        have hmem := start_mem_of_word (u := c) (by simpa using hword) hc
        exact start_notMem_tail he hu hmem
      subst hu
      have hlen := congrArg List.length (word_unique (s := c ++ (a ++ w)) he (by simpa using hword)
        (List.prefix_append c _) List.prefix_rfl)
      have hpos := List.length_pos_iff.mpr hw
      simp only [List.length_append, List.length_nil] at hlen
      omega

theorem removed_append (h : ¬ E.Straddles a b) :
    E.removed (a ++ b) = E.removed a ++ E.removed b := by
  induction a using removal_induction (E := E) with
  | nil => rfl
  | word e a he ih =>
    rw [List.append_assoc, removed_word he, removed_word he]
    exact ih fun hcut => h (hcut.append_left e)
  | cons x a hx ih =>
    have hkept : ∀ e, E.Word e → ¬ e <+: x :: (a ++ b) := by
      intro e he hpre
      rcases prefix_or_cut (a := x :: a) hpre with hin | ⟨w, y, rfl, hw, rfl⟩
      · exact hx e he hin
      · exact h ⟨[], x :: a, w, y, rfl, rfl, List.cons_ne_nil x a, hw, he⟩
    rw [List.cons_append, removed_cons hkept, removed_cons hx, List.cons_append]
    rw [ih fun hcut => h (hcut.append_left [x])]

/-- A sequence that is cut is kept in the parts. -/
theorem length_removed_lt (h : E.Straddles a b) :
    (E.removed (a ++ b)).length < (E.removed a ++ E.removed b).length := by
  induction a using removal_induction (E := E) with
  | nil =>
    obtain ⟨u, v, w, x, hnil, -, hv, -⟩ := h
    exact absurd (List.append_eq_nil_iff.mp hnil.symm).2 hv
  | word e a he ih =>
    rw [List.append_assoc, removed_word he, removed_word he]
    exact ih (straddles_word he h)
  | cons y a hy ih =>
    obtain ⟨u, v, w, x, heq, rfl, hv, hw, hword⟩ := h
    rw [removed_cons hy]
    cases u with
    | nil =>
      -- The sequence begins here: nothing of it is removed from the parts.
      rw [List.nil_append] at heq
      subst heq
      have ha : E.start ∉ a ++ w := start_notMem_tail (u := [y]) (by simpa using hword) (by simp)
      rw [List.mem_append, not_or] at ha
      rw [← List.append_assoc, removed_word hword, removed_of_notMem ha.1,
        removed_append_of_notMem ha.2]
      simp only [List.cons_append, List.length_cons, List.length_append]
      omega
    | cons z u =>
      rw [List.cons_append] at heq
      obtain ⟨rfl, rfl⟩ := List.cons.inj heq
      have hmem := start_mem_of_word hword hv
      have hkept : ∀ e, E.Word e → ¬ e <+: y :: (u ++ v ++ (w ++ x)) := by
        intro e he hpre
        rcases prefix_or_cut (a := y :: (u ++ v)) hpre with hin | ⟨w', _, rfl, -, -⟩
        · exact hy e he hin
        · apply start_notMem_tail (u := [y]) (v := u ++ v ++ w') (by simpa using he) (by simp)
          simp [hmem]
      have hcut := ih ⟨u, v, w, x, rfl, rfl, hv, hw, hword⟩
      rw [List.cons_append, removed_cons hkept]
      simpa using hcut

theorem length_removed_le (a b : List α) :
    (E.removed (a ++ b)).length ≤ (E.removed a ++ E.removed b).length := by
  by_cases h : E.Straddles a b
  · exact (length_removed_lt h).le
  · rw [removed_append h]

/-! ## Any number of parts -/

theorem length_removed_flatten_le (ts : List (List α)) :
    (E.removed ts.flatten).length ≤ (ts.flatMap E.removed).length := by
  induction ts with
  | nil => rfl
  | cons t ts ih =>
    have hle := length_removed_le (E := E) t ts.flatten
    rw [List.length_append] at hle
    rw [List.flatten_cons, List.flatMap_cons, List.length_append]
    omega

theorem uncut_of_length_le (h : (ts.flatMap E.removed).length ≤ (E.removed ts.flatten).length) :
    E.Uncut ts := by
  induction ts with
  | nil => trivial
  | cons t ts ih =>
    have hrest := length_removed_flatten_le (E := E) ts
    have hle := length_removed_le (E := E) t ts.flatten
    rw [List.flatten_cons, List.flatMap_cons, List.length_append] at h
    rw [List.length_append] at hle
    constructor
    · intro hcut
      have hlt := length_removed_lt hcut
      rw [List.length_append] at hlt
      omega
    · exact ih (by omega)

/-- **Part by part.**  The sequences are removed as from the whole text if and only if
none of them is cut. -/
theorem flatMap_removed_iff : ts.flatMap E.removed = E.removed ts.flatten ↔ E.Uncut ts := by
  constructor
  · intro h
    exact uncut_of_length_le (by rw [h])
  · intro h
    induction ts with
    | nil => rfl
    | cons t ts ih => rw [List.flatMap_cons, List.flatten_cons, removed_append h.1, ih h.2]

end Escapes

end InteractiveSessions
