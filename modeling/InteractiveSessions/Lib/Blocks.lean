import Mathlib.Tactic

/-!
# Prefixes of a concatenation of blocks

`Cut g as bs y`: the text `y` is a prefix of the joined blocks `g a` of the list
`as`, the blocks of `bs` are complete in it and the one after them is not.
A longer prefix has more complete blocks (`Cut.mono`).
-/

namespace InteractiveSessions

variable {α β : Type} {g : α → List β}

/-- A prefix of a joined list lies in the first part, or it contains it. -/
theorem prefix_append_cases {a b z : List β} (h : z <+: a ++ b) :
    z <+: a ∧ z ≠ a ∨ ∃ y, z = a ++ y ∧ y <+: b := by
  rcases List.prefix_or_prefix_of_prefix h (List.prefix_append a b) with hz | ⟨y, rfl⟩
  · by_cases heq : z = a
    · exact .inr ⟨[], by simp [heq], List.nil_prefix⟩
    · exact .inl ⟨hz, heq⟩
  · exact .inr ⟨y, rfl, (List.prefix_append_right_inj a).mp h⟩

/-- A suffix of a joined list lies in the last part, or it contains it. -/
theorem suffix_append_cases {a b z : List β} (h : z <:+ a ++ b) :
    z <:+ b ∨ ∃ y, z = y ++ b ∧ y <:+ a := by
  rcases List.suffix_or_suffix_of_suffix h (List.suffix_append a b) with hz | ⟨y, rfl⟩
  · exact .inl hz
  · exact .inr ⟨y, rfl, List.suffix_append_self_iff.mp h⟩

/-- A proper beginning of the first of the blocks, if there is one. -/
def Begins (g : α → List β) : List α → List β → Prop
  | [], z => z = []
  | a :: _, z => z <+: g a ∧ z ≠ g a

structure Cut (g : α → List β) (as bs : List α) (y : List β) : Prop where
  exists_rest : ∃ rest z, as = bs ++ rest ∧ y = bs.flatMap g ++ z ∧ Begins g rest z

/-- The first block is not complete. -/
theorem Cut.nil {as : List α} {z : List β} (h : Begins g as z) : Cut g as [] z :=
  ⟨as, z, rfl, rfl, h⟩

theorem Cut.cons {as bs : List α} {y : List β} (h : Cut g as bs y) (a : α) :
    Cut g (a :: as) (a :: bs) (g a ++ y) := by
  obtain ⟨rest, z, rfl, rfl, hz⟩ := h
  exact ⟨rest, z, rfl, by rw [List.flatMap_cons, List.append_assoc], hz⟩

/-- Only complete blocks, and the next one is not empty. -/
theorem Cut.of_complete (bs : List α) {rest : List α} (h : ∀ a ∈ rest, g a ≠ []) :
    Cut g (bs ++ rest) bs (bs.flatMap g) := by
  refine ⟨rest, [], rfl, by rw [List.append_nil], ?_⟩
  cases rest with
  | nil => rfl
  | cons a rest => exact ⟨List.nil_prefix, (h a (List.mem_cons_self ..)).symm⟩

theorem Cut.prefix {as bs : List α} {y : List β} (h : Cut g as bs y) : bs <+: as := by
  obtain ⟨rest, z, rfl, -, -⟩ := h
  exact List.prefix_append ..

theorem Cut.flatMap_prefix {as bs : List α} {y : List β} (h : Cut g as bs y) :
    bs.flatMap g <+: y := by
  obtain ⟨rest, z, -, rfl, -⟩ := h
  exact List.prefix_append ..

/-- **A longer prefix has more complete blocks.** -/
theorem Cut.mono {as bs bs' : List α} {y y' : List β} (h : Cut g as bs y) (h' : Cut g as bs' y')
    (hy : y <+: y') : bs <+: bs' := by
  rcases List.prefix_or_prefix_of_prefix h.prefix h'.prefix with hb | ⟨t, rfl⟩
  · exact hb
  · cases t with
    | nil => rw [List.append_nil]
    | cons a t =>
      -- the block of `a` is complete in `y`, so it is in `y'`
      exfalso
      obtain ⟨rest, z, rfl, rfl, -⟩ := h
      obtain ⟨rest', z', heq, rfl, hz'⟩ := h'
      rw [List.append_assoc, List.append_cancel_left_eq] at heq
      subst heq
      simp only [List.flatMap_append, List.flatMap_cons, List.append_assoc] at hy
      rw [List.prefix_append_right_inj] at hy
      have ha : g a <+: z' := (List.prefix_append ..).trans hy
      exact hz'.2 (hz'.1.eq_of_length_le ha.length_le)

theorem Cut.unique {as bs bs' : List α} {y : List β} (h : Cut g as bs y) (h' : Cut g as bs' y) :
    bs = bs' :=
  (h.mono h' List.prefix_rfl).eq_of_length_le (h'.mono h List.prefix_rfl).length_le

/-- All blocks are complete. -/
theorem Cut.eq_flatMap {as : List α} {y : List β} (h : Cut g as as y) : y = as.flatMap g := by
  obtain ⟨rest, z, heq, rfl, hz⟩ := h
  obtain rfl : rest = [] := List.self_eq_append_right.mp heq
  rw [show z = [] from hz, List.append_nil]

end InteractiveSessions
