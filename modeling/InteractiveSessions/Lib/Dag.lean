import Mathlib.Data.List.Perm.Basic
import Mathlib.Data.List.Nodup
import Mathlib.Logic.Relation
import Mathlib.Tactic

/-!
# Acyclic graphs and their walks

Every node lists its children, and no walk from a node to its children goes on
forever.  `preorder` and `postorder` list the nodes below a node as a recursion
meets them that does not remember where it was: a node appears once for every
path to it.

* `postorder_split`: whenever a node appears in the postorder, its children have
  appeared before;
* `nodup_preorder_iff`: no node appears twice exactly if the graph is a tree.
-/

namespace InteractiveSessions

structure Dag (α : Type) where
  children : α → List α
  acyclic : WellFounded fun c a => c ∈ children a

namespace Dag

variable {α : Type}

/-- A node, as what the recursions below are about. -/
structure Node (g : Dag α) where
  val : α

instance (g : Dag α) : WellFoundedRelation g.Node :=
  ⟨fun c a => c.val ∈ g.children a.val, InvImage.wf Node.val g.acyclic⟩

def preorder (g : Dag α) (a : α) : List α :=
  a :: (g.children a).attach.flatMap fun c => g.preorder c.1
termination_by Node.mk (g := g) a
decreasing_by exact c.2

def postorder (g : Dag α) (a : α) : List α :=
  ((g.children a).attach.flatMap fun c => g.postorder c.1) ++ [a]
termination_by Node.mk (g := g) a
decreasing_by exact c.2

variable {g : Dag α}

theorem flatMap_attach {β : Type} (l : List α) (f : α → List β) :
    (l.attach.flatMap fun c => f c.1) = l.flatMap f := by
  conv_rhs => rw [← List.attach_map_subtype_val l, List.flatMap_map]

theorem preorder_eq (a : α) : g.preorder a = a :: (g.children a).flatMap g.preorder := by
  rw [preorder, flatMap_attach]

theorem postorder_eq (a : α) : g.postorder a = (g.children a).flatMap g.postorder ++ [a] := by
  rw [postorder, flatMap_attach]

/-- There is a path from `a` to `b`. -/
def Below (g : Dag α) (a b : α) : Prop := Relation.ReflTransGen (fun a c => c ∈ g.children a) a b

theorem Below.head {a c b : α} (hc : c ∈ g.children a) (h : g.Below c b) : g.Below a b :=
  Relation.ReflTransGen.head hc h

theorem Below.tail {a b c : α} (h : g.Below a b) (hc : c ∈ g.children b) : g.Below a c :=
  Relation.ReflTransGen.tail h hc

theorem Below.trans {a b c : α} (h : g.Below a b) (h' : g.Below b c) : g.Below a c :=
  Relation.ReflTransGen.trans h h'

/-- A child does not lead back to its parent. -/
theorem not_below_of_child {a c : α} (hc : c ∈ g.children a) : ¬ g.Below c a := by
  induction a using g.acyclic.induction generalizing c with
  | _ a ih =>
    intro h
    rcases Relation.ReflTransGen.cases_head h with rfl | ⟨d, hd, hda⟩
    · exact ih c hc hc .refl
    · exact ih c hc hd (Below.tail hda hc)

theorem mem_preorder {a b : α} : b ∈ g.preorder a ↔ g.Below a b := by
  induction a using g.acyclic.induction with
  | _ a ih =>
    rw [preorder_eq, List.mem_cons, List.mem_flatMap]
    constructor
    · rintro (rfl | ⟨c, hc, hb⟩)
      · exact .refl
      · exact Below.head hc ((ih c hc).mp hb)
    · intro h
      rcases Relation.ReflTransGen.cases_head h with rfl | ⟨c, hc, hb⟩
      · exact .inl rfl
      · exact .inr ⟨c, hc, (ih c hc).mpr hb⟩

theorem postorder_perm (a : α) : (g.postorder a).Perm (g.preorder a) := by
  induction a using g.acyclic.induction with
  | _ a ih =>
    rw [postorder_eq, preorder_eq]
    exact (List.perm_append_singleton a _).trans
      (List.Perm.cons a (List.Perm.flatMap_left _ fun c hc => ih c hc))

theorem self_mem_postorder (a : α) : a ∈ g.postorder a := by
  rw [postorder_eq]
  exact List.mem_append_right _ (List.mem_singleton_self a)

/-- Where an element of a `flatMap` stands. -/
theorem split_flatMap {β : Type} {f : α → List β} {as : List α} {l r : List β} {b : β}
    (h : as.flatMap f = l ++ b :: r) :
    ∃ a ∈ as, ∃ l' r', f a = l' ++ b :: r' ∧ l' ⊆ l := by
  induction as generalizing l with
  | nil => simp at h
  | cons a as ih =>
    rw [List.flatMap_cons] at h
    rcases List.append_eq_append_iff.mp h with ⟨m, rfl, hm⟩ | ⟨m, hm, hr⟩
    · obtain ⟨a', ha', l', r', hf, hl'⟩ := ih hm
      exact ⟨a', List.mem_cons_of_mem _ ha', l', r', hf,
        List.subset_append_of_subset_right _ hl'⟩
    · cases m with
      | nil =>
        obtain ⟨a', ha', l', r', hf, hl'⟩ := ih (l := []) hr.symm
        exact ⟨a', List.mem_cons_of_mem _ ha', l', r', hf, fun x hx => absurd (hl' hx) (by simp)⟩
      | cons d m =>
        cases hr
        exact ⟨a, List.mem_cons_self .., l, m, hm, fun _ => id⟩

/-- Whenever a node appears, its children have appeared before. -/
theorem postorder_split {a b c : α} {l r : List α} (h : g.postorder a = l ++ b :: r)
    (hc : c ∈ g.children b) : c ∈ l := by
  induction a using g.acyclic.induction generalizing l r with
  | _ a ih =>
    rw [postorder_eq] at h
    rcases List.eq_nil_or_concat r with rfl | ⟨r, z, rfl⟩
    · obtain ⟨rfl, hab⟩ := List.append_inj' h rfl
      obtain rfl : a = b := List.singleton_inj.mp hab
      exact List.mem_flatMap.mpr ⟨c, hc, self_mem_postorder c⟩
    · rw [List.concat_eq_append, ← List.cons_append, ← List.append_assoc] at h
      obtain ⟨d, hd, l', r', hsplit, hl'⟩ := split_flatMap (List.append_inj' h rfl).1
      exact hl' (ih d hd hsplit)

/-- Every node below `a` is listed once, by one node below `a`. -/
structure TreeFrom (g : Dag α) (a : α) : Prop where
  nodup : ∀ b, g.Below a b → (g.children b).Nodup
  parent : ∀ b b' c, g.Below a b → g.Below a b' → c ∈ g.children b → c ∈ g.children b' → b = b'

/-- Two nodes above the same node are above each other. -/
theorem TreeFrom.below_or_below {a b b' c : α} (h : g.TreeFrom a) (hb : g.Below a b)
    (hb' : g.Below a b') (hc : g.Below b c) (hc' : g.Below b' c) : g.Below b b' ∨ g.Below b' b := by
  induction hc with
  | refl => exact .inr hc'
  | tail hd hcd ih =>
    rcases Relation.ReflTransGen.cases_tail hc' with rfl | ⟨d', hd', hcd'⟩
    · exact .inl (Below.tail hd hcd)
    · obtain rfl := h.parent _ _ _ (hb.trans hd) (hb'.trans hd') hcd hcd'
      exact ih hd'

/-- The subtrees of two children have no node in common. -/
theorem TreeFrom.disjoint {a b c c' d : α} (h : g.TreeFrom a) (hb : g.Below a b)
    (hc : c ∈ g.children b) (hc' : c' ∈ g.children b) (hd : g.Below c d) (hd' : g.Below c' d) :
    c = c' := by
  -- otherwise one child would lead to the other, whose only parent is `b`
  have hlead : ∀ {c c' : α}, c ∈ g.children b → c' ∈ g.children b → g.Below c c' → c = c' := by
    intro c c' hc hc' hlead
    rcases Relation.ReflTransGen.cases_tail hlead with rfl | ⟨e, he, hec⟩
    · rfl
    · obtain rfl := h.parent _ _ _ hb ((hb.tail hc).trans he) hc' hec
      exact absurd he (not_below_of_child hc)
  rcases h.below_or_below (hb.tail hc) (hb.tail hc') hd hd' with hlt | hlt
  · exact hlead hc hc' hlt
  · exact (hlead hc' hc hlt).symm

theorem TreeFrom.nodup_preorder {a b : α} (h : g.TreeFrom a) (hb : g.Below a b) :
    (g.preorder b).Nodup := by
  induction b using g.acyclic.induction with
  | _ b ih =>
    rw [preorder_eq, List.nodup_cons, List.nodup_flatMap]
    refine ⟨fun hmem => ?_, fun c hc => ih c hc (hb.tail hc), ?_⟩
    · obtain ⟨c, hc, hcb⟩ := List.mem_flatMap.mp hmem
      exact not_below_of_child hc (mem_preorder.mp hcb)
    · refine (h.nodup b hb).imp_of_mem fun {c c'} hc hc' hne => ?_
      exact fun d hd hd' => hne (h.disjoint hb hc hc' (mem_preorder.mp hd) (mem_preorder.mp hd'))

theorem below_cases {a b : α} (h : g.Below a b) : b = a ∨ ∃ c ∈ g.children a, g.Below c b := by
  rcases Relation.ReflTransGen.cases_head h with rfl | ⟨c, hc, hb⟩
  · exact .inl rfl
  · exact .inr ⟨c, hc, hb⟩

/-- A tree from its subtrees, which have no node in common. -/
theorem treeFrom_of_children {a : α} (hnodup : (g.children a).Nodup)
    (hdisjoint : ∀ c ∈ g.children a, ∀ c' ∈ g.children a, ∀ d, g.Below c d → g.Below c' d → c = c')
    (htrees : ∀ c ∈ g.children a, g.TreeFrom c) : g.TreeFrom a := by
  refine ⟨fun b hb => ?_, fun b b' d hb hb' hd hd' => ?_⟩
  · rcases below_cases hb with rfl | ⟨c, hc, hb⟩
    · exact hnodup
    · exact (htrees c hc).nodup b hb
  -- a child of `a` has no parent below `a`
  have hchild : ∀ c ∈ g.children a, ∀ b, g.Below c b → ∀ d ∈ g.children b, d ∉ g.children a := by
    intro c hc b hb d hd hda
    obtain rfl := hdisjoint c hc d hda d (hb.tail hd) .refl
    exact not_below_of_child hd hb
  rcases below_cases hb with rfl | ⟨c, hc, hcb⟩ <;>
    rcases below_cases hb' with rfl | ⟨c', hc', hcb'⟩
  · rfl
  · exact absurd hd (hchild c' hc' b' hcb' d hd')
  · exact absurd hd' (hchild c hc b hcb d hd)
  · obtain rfl := hdisjoint c hc c' hc' d (hcb.tail hd) (hcb'.tail hd')
    exact (htrees c hc).parent b b' d hcb hcb' hd hd'

/-- **Once.**  No node appears twice exactly if the graph is a tree. -/
theorem nodup_preorder_iff {a : α} : (g.preorder a).Nodup ↔ g.TreeFrom a := by
  refine ⟨fun h => ?_, fun h => h.nodup_preorder .refl⟩
  induction a using g.acyclic.induction with
  | _ a ih =>
    rw [preorder_eq, List.nodup_cons, List.nodup_flatMap] at h
    obtain ⟨-, hnodup, hpairwise⟩ := h
    have hne : (g.children a).Nodup := hpairwise.imp fun {c c'} hdisjoint heq => by
      subst heq
      exact hdisjoint (mem_preorder.mpr .refl) (mem_preorder.mpr .refl)
    refine treeFrom_of_children hne (fun c hc c' hc' d hd hd' => ?_)
      fun c hc => ih c hc (hnodup c hc)
    by_contra hcc
    have : Std.Symm (Function.onFun List.Disjoint g.preorder) := ⟨fun _ _ h => h.symm⟩
    exact hpairwise.forall hc hc' hcc (mem_preorder.mpr hd) (mem_preorder.mpr hd')

end Dag

end InteractiveSessions
