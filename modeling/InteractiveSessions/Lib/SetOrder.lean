import Mathlib.Data.Finset.Sort
import Mathlib.Tactic

/-!
# In which order a set is iterated

A set has no order of its own: code that iterates over one, or takes any element
of it, depends on an order that the environment chooses.
-/

namespace InteractiveSessions

/-- A list of the elements of every set. -/
structure SetOrder (ι : Type) where
  list : Finset ι → List ι
  list_val : ∀ s, (list s : Multiset ι) = s.val

namespace SetOrder

variable {ι : Type} (order : SetOrder ι) {s : Finset ι} {i : ι}

theorem mem_list : i ∈ order.list s ↔ i ∈ s := by
  rw [← Multiset.mem_coe, order.list_val, Finset.mem_val]

theorem nodup_list : (order.list s).Nodup := by
  rw [← Multiset.coe_nodup, order.list_val]
  exact s.nodup

theorem length_list : (order.list s).length = s.card := by
  rw [← Multiset.coe_card, order.list_val]
  rfl

theorem list_eq_nil : order.list s = [] ↔ s = ∅ := by
  rw [← List.length_eq_zero_iff, length_list, Finset.card_eq_zero]

/-- The elements with a property, in their order. -/
theorem length_filter (p : ι → Bool) :
    ((order.list s).filter p).length = (s.filter fun i => p i).card := by
  rw [Finset.card_def, Finset.filter_val, ← order.list_val, Multiset.filter_coe, Multiset.coe_card]
  simp only [Bool.decide_eq_true]

/-- The order of the numbers of the elements. -/
def ascending (number : ι → Nat) (h : Function.Injective number) : SetOrder ι :=
  let : LinearOrder ι := LinearOrder.lift' number h
  ⟨fun s => s.sort (· ≤ ·), fun s => s.sort_eq (· ≤ ·)⟩

end SetOrder

end InteractiveSessions
