import Mathlib.Tactic

/-!
# Cutting a list into pieces

`pieces c l`: the slices `l[i:i+c]` for `i` in `range(0, len(l), c)`.  They are
nonempty, at most `c` long, and joined they give `l` back.
-/

namespace InteractiveSessions

variable {α : Type}

/-- `[l[i:i+c] for i in range(0, len(l), c)]` -/
def pieces (c : Nat) (l : List α) : List (List α) :=
  (List.range ((l.length + c - 1) / c)).map fun k => (l.drop (k * c)).take c

@[simp] theorem pieces_nil (c : Nat) : pieces c ([] : List α) = [] := by
  have h : (([] : List α).length + c - 1) / c = 0 := by
    rw [List.length_nil, Nat.zero_add, Nat.div_eq_zero_iff]
    omega
  rw [pieces, h]
  rfl

theorem pieces_cons {c : Nat} (hc : 0 < c) {l : List α} (hl : l ≠ []) :
    pieces c l = l.take c :: pieces c (l.drop c) := by
  have hpos : 0 < l.length := List.length_pos_iff.mpr hl
  have hcount : (l.length + c - 1) / c = ((l.drop c).length + c - 1) / c + 1 := by
    rw [List.length_drop]
    rcases Nat.lt_or_ge c l.length with h | h
    · rw [← Nat.add_div_right _ hc]
      congr 1
      omega
    · have hrest : (l.length - c + c - 1) / c = 0 := Nat.div_eq_of_lt (by omega)
      have hone : (l.length + c - 1) / c = 1 :=
        Nat.div_eq_of_lt_le (by omega) (by omega)
      rw [hrest, hone]
  rw [pieces, hcount, List.range_succ_eq_map, List.map_cons, List.map_map, Nat.zero_mul,
    List.drop_zero, pieces]
  congr 1
  apply List.map_congr_left
  intro k _
  simp only [Function.comp_apply, List.drop_drop]
  congr 2
  rw [Nat.succ_mul]
  omega

theorem pieces_singleton {c : Nat} {l : List α} (hl : l ≠ []) (hle : l.length ≤ c) :
    pieces c l = [l] := by
  have hpos : 0 < l.length := List.length_pos_iff.mpr hl
  rw [pieces_cons (by omega) hl, List.take_of_length_le hle, List.drop_of_length_le hle,
    pieces_nil]

/-- Induction along the pieces of a list. -/
theorem pieces_induction {c : Nat} (hc : 0 < c) {motive : List α → Prop} (nil : motive [])
    (cons : ∀ l, l ≠ [] → motive (l.drop c) → motive l) (l : List α) : motive l := by
  induction hn : l.length using Nat.strong_induction_on generalizing l with
  | _ n ih =>
    by_cases hl : l = []
    · exact hl ▸ nil
    · have hpos : 0 < l.length := List.length_pos_iff.mpr hl
      exact cons l hl (ih _ (by rw [List.length_drop]; omega) _ rfl)

theorem pieces_flatten {c : Nat} (hc : 0 < c) (l : List α) : (pieces c l).flatten = l := by
  induction l using pieces_induction hc with
  | nil => simp
  | cons l hl ih => rw [pieces_cons hc hl, List.flatten_cons, ih, List.take_append_drop]

/-- The first `j` pieces are the first `j * c` elements. -/
theorem take_pieces_flatten {c : Nat} (hc : 0 < c) (j : Nat) (l : List α) :
    ((pieces c l).take j).flatten = l.take (j * c) := by
  induction j generalizing l with
  | zero => simp
  | succ j ih =>
    by_cases hl : l = []
    · simp [hl]
    · rw [pieces_cons hc hl, List.take_succ_cons, List.flatten_cons, ih, Nat.succ_mul,
        Nat.add_comm, List.take_add]

theorem lt_length_pieces {c : Nat} (hc : 0 < c) {j : Nat} {l : List α}
    (h : j < (pieces c l).length) : j * c < l.length := by
  rw [pieces, List.length_map, List.length_range, Nat.lt_div_iff_mul_lt hc] at h
  omega

theorem mem_pieces {c : Nat} (hc : 0 < c) {l p : List α} (h : p ∈ pieces c l) :
    p ≠ [] ∧ p.length ≤ c := by
  induction l using pieces_induction hc with
  | nil => simp at h
  | cons l hl ih =>
    rw [pieces_cons hc hl] at h
    rcases List.mem_cons.mp h with rfl | h
    · have hpos : 0 < l.length := List.length_pos_iff.mpr hl
      refine ⟨?_, by simp⟩
      rw [← List.length_pos_iff, List.length_take]
      omega
    · exact ih h

/-- All pieces but the last one are full. -/
theorem isChain_pieces {c : Nat} (hc : 0 < c) (l : List α) :
    (pieces c l).IsChain fun p _ => p.length = c := by
  induction l using pieces_induction hc with
  | nil => simp
  | cons l hl ih =>
    rw [pieces_cons hc hl, List.isChain_cons]
    refine ⟨fun q hq => ?_, ih⟩
    have hdrop : l.drop c ≠ [] := by
      intro hnil
      rw [hnil, pieces_nil] at hq
      cases hq
    rw [List.length_take, Nat.min_eq_left]
    have hlt := List.length_pos_iff.mpr hdrop
    rw [List.length_drop] at hlt
    omega

end InteractiveSessions
