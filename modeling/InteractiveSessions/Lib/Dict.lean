import Mathlib.Data.List.Nodup
import Mathlib.Tactic

/-!
# Dictionaries that remember the order of insertion

A list of items with distinct keys.  A new key goes to the end, a key that is
there keeps its place.  Every operation is described by the items it leaves:
`mem_set`, `mem_erase`, `get?_eq_some`.
-/

namespace InteractiveSessions

structure Dict (κ ν : Type) where
  items : List (κ × ν)
  nodup : (items.map Prod.fst).Nodup
  deriving DecidableEq

namespace Dict

variable {κ ν : Type}

def empty : Dict κ ν := ⟨[], List.nodup_nil⟩

def keys (d : Dict κ ν) : List κ := d.items.map Prod.fst

theorem mem_keys {d : Dict κ ν} {k : κ} : k ∈ d.keys ↔ ∃ v, (k, v) ∈ d.items := by
  simp only [keys, List.mem_map, Prod.exists, exists_and_right, exists_eq_right]

theorem mem_keys_of_mem {d : Dict κ ν} {x : κ × ν} (h : x ∈ d.items) : x.1 ∈ d.keys :=
  List.mem_map_of_mem h

/-- A key has one value. -/
theorem value_unique {d : Dict κ ν} {k : κ} {v w : ν} (hv : (k, v) ∈ d.items)
    (hw : (k, w) ∈ d.items) : v = w :=
  congrArg Prod.snd (List.inj_on_of_nodup_map d.nodup hv hw rfl)

variable [DecidableEq κ]

def get? (d : Dict κ ν) (k : κ) : Option ν := (d.items.find? fun x => x.1 = k).map Prod.snd

/-- `d[k] = v` -/
def set (d : Dict κ ν) (k : κ) (v : ν) : Dict κ ν where
  items :=
    if k ∈ d.keys then d.items.map fun x => if x.1 = k then (k, v) else x
    else d.items ++ [(k, v)]
  nodup := by
    split
    · have hkeys : (d.items.map fun x => if x.1 = k then (k, v) else x).map Prod.fst =
          d.items.map Prod.fst := by
        rw [List.map_map]
        apply List.map_congr_left
        intro x _
        show (if x.1 = k then (k, v) else x).1 = x.1
        split
        · next h => exact h.symm
        · rfl
      rw [hkeys]
      exact d.nodup
    · next h =>
      rw [List.map_append, List.nodup_append]
      refine ⟨d.nodup, List.nodup_singleton k, ?_⟩
      rintro a ha b hb rfl
      have hak : a = k := List.mem_singleton.mp hb
      exact h (hak ▸ ha)

/-- `del d[k]` -/
def erase (d : Dict κ ν) (k : κ) : Dict κ ν where
  items := d.items.filter fun x => x.1 ≠ k
  nodup := d.nodup.sublist (List.filter_sublist.map Prod.fst)

theorem get?_eq_some {d : Dict κ ν} {k : κ} {v : ν} : d.get? k = some v ↔ (k, v) ∈ d.items := by
  constructor
  · intro h
    obtain ⟨x, hx, rfl⟩ := Option.map_eq_some_iff.mp h
    have hk : x.1 = k := by simpa using List.find?_some hx
    rw [← hk]
    exact List.mem_of_find?_eq_some hx
  · intro h
    cases hf : d.items.find? fun x => x.1 = k with
    | none =>
      have := List.find?_eq_none.mp hf (k, v) h
      simp at this
    | some x =>
      have hk : x.1 = k := by simpa using List.find?_some hf
      have hx : (k, x.2) ∈ d.items := hk ▸ List.mem_of_find?_eq_some hf
      rw [get?, hf, value_unique h hx]
      rfl

theorem get?_eq_none {d : Dict κ ν} {k : κ} : d.get? k = none ↔ k ∉ d.keys := by
  rw [← not_iff_not, not_not, mem_keys, ← ne_eq, Option.ne_none_iff_exists']
  simp only [get?_eq_some]

theorem mem_set {d : Dict κ ν} {k : κ} {v : ν} {x : κ × ν} :
    x ∈ (d.set k v).items ↔ x = (k, v) ∨ x.1 ≠ k ∧ x ∈ d.items := by
  unfold set
  dsimp only
  split
  · next hk =>
    rw [List.mem_map]
    constructor
    · rintro ⟨y, hy, rfl⟩
      split
      · exact .inl rfl
      · next hne => exact .inr ⟨hne, hy⟩
    · rintro (rfl | ⟨hne, hx⟩)
      · obtain ⟨w, hw⟩ := mem_keys.mp hk
        exact ⟨(k, w), hw, if_pos rfl⟩
      · exact ⟨x, hx, if_neg hne⟩
  · next hk =>
    rw [List.mem_append, List.mem_singleton]
    constructor
    · rintro (hx | rfl)
      · refine .inr ⟨?_, hx⟩
        rintro rfl
        exact hk (mem_keys_of_mem hx)
      · exact .inl rfl
    · rintro (rfl | ⟨-, hx⟩)
      · exact .inr rfl
      · exact .inl hx

theorem mem_erase {d : Dict κ ν} {k : κ} {x : κ × ν} :
    x ∈ (d.erase k).items ↔ x.1 ≠ k ∧ x ∈ d.items := by
  simp only [erase, List.mem_filter, decide_eq_true_eq, and_comm]

theorem get?_set_self {d : Dict κ ν} {k : κ} {v : ν} : (d.set k v).get? k = some v :=
  get?_eq_some.mpr (mem_set.mpr (.inl rfl))

theorem get?_set_of_ne {d : Dict κ ν} {k k' : κ} {v : ν} (h : k' ≠ k) :
    (d.set k v).get? k' = d.get? k' := by
  refine Option.ext fun w => ?_
  rw [get?_eq_some, get?_eq_some, mem_set]
  simp [h]

theorem get?_erase_self {d : Dict κ ν} {k : κ} : (d.erase k).get? k = none := by
  rw [get?_eq_none, mem_keys]
  rintro ⟨v, hv⟩
  exact (mem_erase.mp hv).1 rfl

theorem get?_erase_of_ne {d : Dict κ ν} {k k' : κ} (h : k' ≠ k) :
    (d.erase k).get? k' = d.get? k' := by
  refine Option.ext fun w => ?_
  rw [get?_eq_some, get?_eq_some, mem_erase]
  simp [h]

theorem mem_keys_set {d : Dict κ ν} {k k' : κ} {v : ν} :
    k' ∈ (d.set k v).keys ↔ k' = k ∨ k' ∈ d.keys := by
  simp only [mem_keys, mem_set, Prod.mk.injEq]
  constructor
  · rintro ⟨w, ⟨rfl, -⟩ | ⟨-, hw⟩⟩
    · exact .inl rfl
    · exact .inr ⟨w, hw⟩
  · rintro (rfl | ⟨w, hw⟩)
    · exact ⟨v, .inl ⟨rfl, rfl⟩⟩
    · by_cases h : k' = k
      · exact ⟨v, .inl ⟨h, rfl⟩⟩
      · exact ⟨w, .inr ⟨h, hw⟩⟩

theorem mem_keys_erase {d : Dict κ ν} {k k' : κ} :
    k' ∈ (d.erase k).keys ↔ k' ≠ k ∧ k' ∈ d.keys := by
  simp only [mem_keys, mem_erase, exists_and_left]

/-! ## How many values have a property -/

section
variable {p : ν → Prop} [DecidablePred p] {d : Dict κ ν} {k : κ} {v w : ν}

omit [DecidableEq κ] in
def count (p : ν → Prop) [DecidablePred p] (d : Dict κ ν) : Nat := d.items.countP fun x => p x.2

omit [DecidableEq κ] in
theorem count_pos : 0 < d.count p ↔ ∃ x ∈ d.items, p x.2 := by
  simp only [count, List.countP_pos_iff, decide_eq_true_eq]

omit [DecidableEq κ] in
theorem exists_split (h : (k, w) ∈ d.items) : ∃ xs ys, d.items = xs ++ (k, w) :: ys ∧
    (∀ x ∈ xs, x.1 ≠ k) ∧ ∀ x ∈ ys, x.1 ≠ k := by
  obtain ⟨xs, ys, hitems⟩ := List.append_of_mem h
  have hnodup := d.nodup
  rw [hitems, List.map_append, List.map_cons, List.nodup_append, List.nodup_cons] at hnodup
  obtain ⟨-, ⟨hys, -⟩, hxs⟩ := hnodup
  refine ⟨xs, ys, hitems, fun x hx => ?_, ?_⟩
  · exact hxs x.1 (List.mem_map_of_mem hx) k List.mem_cons_self
  · rintro x hx rfl
    exact hys (List.mem_map.mpr ⟨x, hx, rfl⟩)

theorem count_set_of_notMem (h : k ∉ d.keys) :
    (d.set k v).count p = d.count p + if p v then 1 else 0 := by
  simp only [count, set, if_neg h, List.countP_append, List.countP_singleton, decide_eq_true_eq]

theorem count_set_of_mem (h : d.get? k = some w) :
    (d.set k v).count p + (if p w then 1 else 0) = d.count p + if p v then 1 else 0 := by
  have hmem := get?_eq_some.mp h
  obtain ⟨xs, ys, hitems, hxs, hys⟩ := exists_split hmem
  have hsame : ∀ zs : List (κ × ν), (∀ x ∈ zs, x.1 ≠ k) →
      zs.map (fun x => if x.1 = k then (k, v) else x) = zs := by
    intro zs hzs
    conv_rhs => rw [← List.map_id zs]
    exact List.map_congr_left fun x hx => if_neg (hzs x hx)
  simp only [count, set, if_pos (mem_keys_of_mem hmem), hitems, List.map_append, List.map_cons,
    hsame xs hxs, hsame ys hys, List.countP_append, List.countP_cons, if_true, decide_eq_true_eq]
  omega

theorem count_erase (h : d.get? k = some w) :
    (d.erase k).count p + (if p w then 1 else 0) = d.count p := by
  obtain ⟨xs, ys, hitems, hxs, hys⟩ := exists_split (get?_eq_some.mp h)
  have hsame : ∀ zs : List (κ × ν), (∀ x ∈ zs, x.1 ≠ k) →
      zs.filter (fun x => x.1 ≠ k) = zs := by
    intro zs hzs
    exact List.filter_eq_self.mpr fun x hx => by simpa using hzs x hx
  simp only [count, erase, hitems, List.filter_append, hsame xs hxs, List.filter_cons,
    List.countP_append, List.countP_cons, decide_eq_true_eq, ne_eq, not_true_eq_false,
    decide_false, Bool.false_eq_true, if_false]
  rw [show ys.filter (fun x => decide ¬ x.1 = k) = ys from hsame ys hys]
  omega

end

end Dict

end InteractiveSessions
