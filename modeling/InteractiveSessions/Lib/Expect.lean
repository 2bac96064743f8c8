import Mathlib.Data.List.Infix
import Mathlib.Tactic

/-!
# Waiting for a marker in a text

`after? m s` is what stands behind the first `m` in `s`.  What is read later does not
change it (`after?_append`), and text without a marker before it does not, if no proper
prefix of the marker is also a suffix of it (`after?_append_marker`).
-/

namespace InteractiveSessions.Expect

variable {α : Type} [DecidableEq α] {m s t o r : List α}

def after? (m : List α) : List α → Option (List α)
  | [] => if m = [] then some [] else none
  | x :: s => if m <+: x :: s then some ((x :: s).drop m.length) else after? m s

theorem after?_front (h : m <+: s) : after? m s = some (s.drop m.length) := by
  cases s with
  | nil => simp [after?, List.prefix_nil.mp h]
  | cons x s => rw [after?, if_pos h]

theorem after?_cons (x : α) (h : ¬ m <+: x :: s) : after? m (x :: s) = after? m s := by
  rw [after?, if_neg h]

theorem after?_eq_none : after? m s = none ↔ ¬ m <:+: s := by
  induction s with
  | nil => simp [after?]
  | cons x s ih =>
    by_cases h : m <+: x :: s
    · simp [after?_front h, List.infix_cons_iff, h]
    · rw [after?_cons x h, ih, List.infix_cons_iff]
      simp [h]

/-- Something is found, and what is read later stands behind it. -/
theorem after?_append (h : after? m s = some t) (o : List α) :
    after? m (s ++ o) = some (t ++ o) := by
  induction s with
  | nil =>
    have hm : m = [] := by
      by_contra hne
      simp [after?, hne] at h
    subst hm
    obtain rfl : t = [] := by simpa [after?, eq_comm] using h
    exact after?_front List.nil_prefix
  | cons x s ih =>
    by_cases hpre : m <+: x :: s
    · rw [after?_front hpre] at h
      cases h
      rw [after?_front (hpre.trans (List.prefix_append ..)),
        List.drop_append_of_le_length hpre.length_le]
    · rw [after?_cons x hpre] at h
      have hnot : ¬ m <+: x :: (s ++ o) := by
        -- The marker that is found fits behind the first character.
        intro hlater
        have hin : m <:+: s := by
          by_contra hnot
          rw [after?_eq_none.mpr hnot] at h
          cases h
        have hle := hin.length_le
        exact hpre (List.prefix_of_prefix_length_le hlater
          (List.prefix_append (x :: s) o) (hle.trans (Nat.le_succ _)))
      rw [List.cons_append, after?_cons x hnot]
      exact ih h

/-- No proper part of it is both at its front and at its end. -/
def Unbordered (m : List α) : Prop := ∀ v, v <+: m → v <:+ m → v = [] ∨ v = m

omit [DecidableEq α] in
/-- No later suffix of it is a prefix. -/
theorem unbordered_of_drop (h : ∀ k < m.length, k = 0 ∨ ¬ m.drop k <+: m) : Unbordered m := by
  rintro v hprefix ⟨u, rfl⟩
  by_cases hv : v = []
  · exact .inl hv
  right
  have hpos := List.length_pos_iff.mpr hv
  rcases h u.length (by rw [List.length_append]; omega) with hu | hnot
  · rw [List.length_eq_zero_iff.mp hu, List.nil_append]
  · rw [List.drop_left] at hnot
    exact absurd hprefix hnot

/-- The text before a marker hides no part of it. -/
theorem after?_append_marker (hm : Unbordered m) (hr : ¬ m <:+: r) (t : List α) :
    after? m (r ++ (m ++ t)) = some t := by
  induction r with
  | nil => rw [List.nil_append, after?_front (List.prefix_append m t), List.drop_left]
  | cons x r ih =>
    have hnot : ¬ m <+: x :: (r ++ (m ++ t)) := by
      intro hpre
      have hfront : (x :: r) <+: x :: (r ++ (m ++ t)) := List.prefix_append (x :: r) _
      rcases List.prefix_or_prefix_of_prefix hpre hfront with h | h
      · exact hr h.isInfix
      · -- The rest of the marker would begin where the marker stands.
        obtain ⟨v, hv⟩ := h
        have hsuffix : v <:+ m := ⟨x :: r, hv⟩
        have hrest : (x :: r) ++ v <+: (x :: r) ++ (m ++ t) := by rwa [hv]
        have hprefix : v <+: m := List.prefix_of_prefix_length_le
          ((List.prefix_append_right_inj _).mp hrest) (List.prefix_append m t) hsuffix.length_le
        rcases hm v hprefix hsuffix with rfl | rfl
        · rw [List.append_nil] at hv
          exact hr (hv ▸ List.infix_refl _)
        · have hlen := congrArg List.length hv
          simp only [List.length_append, List.length_cons] at hlen
          omega
    rw [List.cons_append, after?_cons x hnot]
    exact ih fun h => hr (h.trans (List.infix_cons (List.infix_refl r)))

end InteractiveSessions.Expect
