import InteractiveSessions.Lib.Runs
import InteractiveSessions.Lib.SetOrder

/-!
# `_pool`: items in use, free items and shares

`_Pool` over any type of items.  An item stands for an object and its `id()`;
that an `id()` is used again means that the factory returns an item a second
time.  `setMaxsize` removes as many free items as there are above the new
maximum, and leaves those in use out of account:

* `bounded_step`: a step keeps the size within the maximum, except for a change
  of the maximum that succeeds with items in use and a size above it;
* `bounded_iff`: so the size stays within the maximum in exactly those runs that
  have no such step.
-/

namespace InteractiveSessions

inductive PoolExc where
  /-- The exception given to `__init__`. -/
  | exception
  | keyError
  | zeroDivisionError
  /-- `int(maxsize)` fails. -/
  | valueError
  /-- The factory fails. -/
  | factory
  deriving DecidableEq, Repr

/-- `shared` is the `SharedCounter`. -/
structure Pool (ι : Type) where
  maxsize : Int
  inuse : Finset ι
  free : Finset ι
  shared : ι → Int
  disjoint : Disjoint inuse free

namespace Pool

variable {ι : Type}

def empty : Pool ι := ⟨0, ∅, ∅, fun _ => 0, Finset.disjoint_empty_left _⟩

def size (p : Pool ι) : Nat := p.inuse.card + p.free.card

def getSharedFreeSize (p : Pool ι) : Nat := (p.free.filter fun i => p.shared i ≠ 0).card

/-- `_unshared_free`, in the order of the set.  (The generator tests an item when
it comes to it; removing other items does not change the outcome.) -/
def unsharedFree (order : SetOrder ι) (p : Pool ι) : List ι :=
  (order.list p.free).filter fun i => p.shared i = 0

theorem mem_unsharedFree {order : SetOrder ι} {p : Pool ι} {i : ι} :
    i ∈ p.unsharedFree order ↔ i ∈ p.free ∧ p.shared i = 0 := by
  rw [unsharedFree, List.mem_filter, order.mem_list, decide_eq_true_eq]

theorem length_unsharedFree (order : SetOrder ι) (p : Pool ι) :
    (p.unsharedFree order).length + p.getSharedFreeSize = p.free.card := by
  rw [unsharedFree, order.length_filter, getSharedFreeSize]
  simpa only [decide_eq_true_eq] using
    Finset.card_filter_add_card_filter_not (s := p.free) fun i => p.shared i = 0

/-- `close`, which closes all `items`. -/
def close (p : Pool ι) : Pool ι := { empty with maxsize := p.maxsize }

variable [DecidableEq ι]

theorem disjoint_put {inuse free : Finset ι} (h : Disjoint inuse free) (i : ι) :
    Disjoint (inuse.erase i) (insert i free) := by
  rw [Finset.disjoint_insert_right]
  exact ⟨Finset.notMem_erase i inuse, h.mono_left (Finset.erase_subset i inuse)⟩

/-- `get`, with what the factory returns if it is called. -/
def get (order : SetOrder ι) (new : Option ι) (p : Pool ι) : Except PoolExc (ι × Pool ι) :=
  match h : order.list p.free with
  | item :: _ =>
    .ok (item,
      { p with
        inuse := insert item p.inuse
        free := p.free.erase item
        disjoint := (disjoint_put p.disjoint.symm item).symm })
  | [] =>
    if p.maxsize ≤ p.inuse.card then .error .exception
    else
      match new with
      | none => .error .factory
      | some item =>
        .ok (item,
          { p with
            inuse := insert item p.inuse
            disjoint := by
              rw [order.list_eq_nil.mp h]
              exact Finset.disjoint_empty_right _ })

def put (item : ι) (p : Pool ι) : Except PoolExc (Pool ι) :=
  if item ∈ p.inuse then
    .ok { p with
      inuse := p.inuse.erase item
      free := insert item p.free
      disjoint := disjoint_put p.disjoint item }
  else .error .keyError

/-- `_sharedcounter.incr` and `decr` -/
def count (item : ι) (n : Int) (p : Pool ι) : Pool ι :=
  { p with shared := Function.update p.shared item (p.shared item + n) }

def putIncrShared (item : ι) (p : Pool ι) : Except PoolExc (Pool ι) :=
  (p.put item).map (count item 1)

def decrShared (item : ι) (p : Pool ι) : Pool ι := p.count item (-1)

/-- `remove`, which closes the item. -/
def remove (item : ι) (p : Pool ι) : Pool ι :=
  { p with
    inuse := p.inuse.erase item
    free := p.free.erase item
    shared := Function.update p.shared item 0
    disjoint := p.disjoint.mono (Finset.erase_subset item _) (Finset.erase_subset item _) }

/-- `remove_n_free`: the items removed, and the pool without them. -/
def removeNFree (order : SetOrder ι) (n : Int) (p : Pool ι) : List ι × Pool ι :=
  let items := (p.unsharedFree order).take n.toNat
  (items, items.foldl (fun p i => p.remove i) p)

def removeEveryNthFree (order : SetOrder ι) (n : Int) (p : Pool ι) :
    Except PoolExc (List ι × Pool ι) :=
  if n = 0 then .error .zeroDivisionError
  else .ok (p.removeNFree order (Int.fdiv p.free.card n))

/-- `set_maxsize`, with `int(maxsize)`: the items removed, and the pool. -/
def setMaxsize (order : SetOrder ι) (maxsize : Option Int) (p : Pool ι) :
    Except PoolExc (List ι × Pool ι) :=
  match maxsize with
  | none => .error .valueError
  | some maxsize =>
    if maxsize < p.inuse.card + p.getSharedFreeSize then .error .exception
    else
      let (items, p') := p.removeNFree order (p.free.card - maxsize)
      .ok (items, { p' with maxsize })

/-! ## What the operations do to the sizes -/

@[simp] theorem remove_maxsize (i : ι) (p : Pool ι) : (p.remove i).maxsize = p.maxsize := rfl

@[simp] theorem remove_inuse (i : ι) (p : Pool ι) : (p.remove i).inuse = p.inuse.erase i := rfl

@[simp] theorem remove_free (i : ι) (p : Pool ι) : (p.remove i).free = p.free.erase i := rfl

@[simp] theorem remove_shared (i : ι) (p : Pool ι) :
    (p.remove i).shared = Function.update p.shared i 0 := rfl

/-- Removing unshared free items one after the other. -/
theorem foldl_remove {items : List ι} {p : Pool ι} (hnodup : items.Nodup)
    (hitems : ∀ i ∈ items, i ∈ p.free ∧ p.shared i = 0) :
    let p' := items.foldl (fun p i => p.remove i) p
    p'.maxsize = p.maxsize ∧ p'.inuse = p.inuse ∧ p'.shared = p.shared ∧
      p'.free = p.free \ items.toFinset := by
  induction items generalizing p with
  | nil => simp
  | cons i items ih =>
    obtain ⟨hi, hnodup⟩ := List.nodup_cons.mp hnodup
    obtain ⟨hfree, hshared⟩ := hitems i (List.mem_cons_self ..)
    have hinuse : i ∉ p.inuse := fun h => Finset.disjoint_left.mp p.disjoint h hfree
    have hupdate : Function.update p.shared i 0 = p.shared := by
      rw [← hshared, Function.update_eq_self]
    have hrest : ∀ j ∈ items, j ∈ (p.remove i).free ∧ (p.remove i).shared j = 0 := by
      intro j hj
      obtain ⟨hjf, hjs⟩ := hitems j (List.mem_cons_of_mem _ hj)
      have hne : j ≠ i := by
        rintro rfl
        exact hi hj
      rw [remove_free, remove_shared, hupdate]
      exact ⟨Finset.mem_erase.mpr ⟨hne, hjf⟩, hjs⟩
    obtain ⟨hmax, huse, hsh, hfr⟩ := ih hnodup hrest
    refine ⟨hmax, huse.trans ?_, hsh.trans hupdate, hfr.trans ?_⟩
    · rw [remove_inuse, Finset.erase_eq_of_notMem hinuse]
    · rw [remove_free, List.toFinset_cons]
      ext j
      simp only [Finset.mem_sdiff, Finset.mem_erase, Finset.mem_insert, not_or]
      tauto

theorem removeNFree_spec (order : SetOrder ι) (n : Int) (p : Pool ι) :
    let r := p.removeNFree order n
    (∀ i ∈ r.1, i ∈ p.free ∧ p.shared i = 0) ∧ r.1.Nodup ∧
      r.2.maxsize = p.maxsize ∧ r.2.inuse = p.inuse ∧ r.2.shared = p.shared ∧
      r.2.free = p.free \ r.1.toFinset := by
  have hmem : ∀ i ∈ (p.unsharedFree order).take n.toNat, i ∈ p.free ∧ p.shared i = 0 :=
    fun i hi => mem_unsharedFree.mp (List.mem_of_mem_take hi)
  have hnodup : ((p.unsharedFree order).take n.toNat).Nodup :=
    (order.nodup_list.filter _).sublist (List.take_sublist ..)
  exact ⟨hmem, hnodup, foldl_remove hnodup hmem⟩

/-- The size after a removal. -/
theorem size_removeNFree (order : SetOrder ι) (n : Int) (p : Pool ι) :
    (p.removeNFree order n).2.size + min n.toNat (p.free.card - p.getSharedFreeSize) = p.size := by
  obtain ⟨hmem, hnodup, -, hinuse, -, hfree⟩ := removeNFree_spec order n p
  have hsub : (p.removeNFree order n).1.toFinset ⊆ p.free := fun i hi =>
    (hmem i (List.mem_toFinset.mp hi)).1
  have hlen : (p.removeNFree order n).1.toFinset.card =
      min n.toNat (p.free.card - p.getSharedFreeSize) := by
    rw [List.toFinset_card_of_nodup hnodup, removeNFree, List.length_take]
    have := length_unsharedFree order p
    omega
  have hle := Finset.card_le_card hsub
  rw [size, size, hinuse, hfree, Finset.card_sdiff_of_subset hsub, hlen]
  omega

/-! ## Runs -/

/-- The operations, with what the environment decides in them. -/
inductive Op (ι : Type) where
  | setMaxsize (order : SetOrder ι) (maxsize : Option Int)
  | get (order : SetOrder ι) (new : Option ι)
  | put (item : ι)
  | putIncrShared (item : ι)
  | decrShared (item : ι)
  | remove (item : ι)
  | removeNFree (order : SetOrder ι) (n : Int)
  | removeEveryNthFree (order : SetOrder ι) (n : Int)
  | close

/-- The pool after an operation.  One that raises has not changed it. -/
def after (p : Pool ι) : Except PoolExc (Pool ι) → Pool ι
  | .ok p' => p'
  | .error _ => p

def step (op : Op ι) (p : Pool ι) : Pool ι :=
  match op with
  | .setMaxsize order maxsize => p.after ((p.setMaxsize order maxsize).map Prod.snd)
  | .get order new => p.after ((p.get order new).map Prod.snd)
  | .put item => p.after (p.put item)
  | .putIncrShared item => p.after (p.putIncrShared item)
  | .decrShared item => p.decrShared item
  | .remove item => p.remove item
  | .removeNFree order n => (p.removeNFree order n).2
  | .removeEveryNthFree order n => p.after ((p.removeEveryNthFree order n).map Prod.snd)
  | .close => p.close

def Bounded (p : Pool ι) : Prop := (p.size : Int) ≤ p.maxsize

instance (p : Pool ι) : Decidable (Bounded p) := inferInstanceAs (Decidable ((p.size : Int) ≤ _))

/-- A change of the maximum that succeeds finds no item in use, or a size that
is within the new maximum. -/
def Ok (op : Op ι) (p : Pool ι) : Prop :=
  match op with
  | .setMaxsize _ (some maxsize) =>
    (p.inuse.card + p.getSharedFreeSize : Int) ≤ maxsize → p.inuse = ∅ ∨ (p.size : Int) ≤ maxsize
  | _ => True

omit [DecidableEq ι] in
theorem bounded_of_le {p p' : Pool ι} (h : Bounded p) (hsize : p'.size ≤ p.size)
    (hmax : p'.maxsize = p.maxsize) : Bounded p' := by
  unfold Bounded at h ⊢
  omega

omit [DecidableEq ι] in
theorem bounded_after {p : Pool ι} {r : Except PoolExc (Pool ι)} (h : Bounded p)
    (hr : ∀ p', r = .ok p' → Bounded p') : Bounded (p.after r) := by
  cases r with
  | error e => exact h
  | ok p' => exact hr p' rfl

theorem bounded_get {order : SetOrder ι} {new : Option ι} {p p' : Pool ι}
    (h : Bounded p) (hget : (p.get order new).map Prod.snd = .ok p') : Bounded p' := by
  unfold get at hget
  split at hget
  · next item items hlist =>
    cases hget
    have hi : item ∈ p.free := order.mem_list.mp (hlist ▸ List.mem_cons_self ..)
    have hinuse : item ∉ p.inuse := fun hi' => Finset.disjoint_left.mp p.disjoint hi' hi
    have hpos := Finset.card_pos.mpr ⟨item, hi⟩
    refine bounded_of_le h ?_ rfl
    simp only [size, Finset.card_insert_of_notMem hinuse, Finset.card_erase_of_mem hi]
    omega
  · next hlist =>
    split at hget
    · cases hget
    · next hlt =>
      cases new with
      | none => cases hget
      | some item =>
        cases hget
        have hfree : p.free = ∅ := order.list_eq_nil.mp hlist
        have hcard := Finset.card_insert_le item p.inuse
        simp only [Bounded, size, hfree, Finset.card_empty]
        omega

theorem size_put {p p' : Pool ι} {item : ι} (h : p.put item = .ok p') :
    p'.size = p.size ∧ p'.maxsize = p.maxsize := by
  unfold put at h
  split at h
  · next hi =>
    cases h
    have hfree : item ∉ p.free := Finset.disjoint_left.mp p.disjoint hi
    have hpos := Finset.card_pos.mpr ⟨item, hi⟩
    refine ⟨?_, rfl⟩
    simp only [size, Finset.card_insert_of_notMem hfree, Finset.card_erase_of_mem hi]
    omega
  · cases h

theorem size_remove_le (item : ι) (p : Pool ι) : (p.remove item).size ≤ p.size :=
  Nat.add_le_add (Finset.card_le_card (Finset.erase_subset ..))
    (Finset.card_le_card (Finset.erase_subset ..))

/-- The size after a change of the maximum: only free items were counted. -/
theorem setMaxsize_bounded {order : SetOrder ι} {maxsize : Option Int} {p : Pool ι}
    (h : Bounded p) : Bounded (step (.setMaxsize order maxsize) p) ↔
      Ok (.setMaxsize order maxsize) p := by
  cases maxsize with
  | none => exact iff_of_true h trivial
  | some m =>
    by_cases hm : m < p.inuse.card + p.getSharedFreeSize
    · have hstep : step (.setMaxsize order (some m)) p = p := by
        simp only [step, setMaxsize, if_pos hm]
        rfl
      rw [hstep]
      refine iff_of_true h fun hle => ?_
      omega
    · have hstep : step (.setMaxsize order (some m)) p =
          { (p.removeNFree order (p.free.card - m)).2 with maxsize := m } := by
        simp only [step, setMaxsize, if_neg hm]
        rfl
      have hsize := size_removeNFree order (p.free.card - m) p
      have hshared := length_unsharedFree order p
      have hcard : p.inuse = ∅ ↔ p.inuse.card = 0 := Finset.card_eq_zero.symm
      rw [hstep]
      show ((p.removeNFree order (p.free.card - m)).2.size : Int) ≤ m ↔
        ((p.inuse.card + p.getSharedFreeSize : Int) ≤ m → p.inuse = ∅ ∨ (p.size : Int) ≤ m)
      rw [hcard]
      unfold size at hsize ⊢
      omega

theorem bounded_removeNFree (order : SetOrder ι) (n : Int) {p : Pool ι} (h : Bounded p) :
    Bounded (p.removeNFree order n).2 := by
  have hsize := size_removeNFree order n p
  exact bounded_of_le h (by omega) (removeNFree_spec order n p).2.2.1

theorem bounded_put {p p' : Pool ι} {item : ι} (h : Bounded p) (hput : p.put item = .ok p') :
    Bounded p' := bounded_of_le h (size_put hput).1.le (size_put hput).2

/-- **Step.** -/
theorem bounded_step (op : Op ι) (p : Pool ι) (h : Bounded p) : Bounded (step op p) ↔ Ok op p := by
  cases op with
  | setMaxsize order maxsize => exact setMaxsize_bounded h
  | get order new =>
    exact iff_of_true (bounded_after h fun p' hget => bounded_get h hget) trivial
  | put item => exact iff_of_true (bounded_after h fun p' hput => bounded_put h hput) trivial
  | putIncrShared item =>
    refine iff_of_true (bounded_after h fun p' hput => ?_) trivial
    unfold putIncrShared at hput
    cases hp : p.put item with
    | error e =>
      rw [hp] at hput
      cases hput
    | ok p₁ =>
      rw [hp] at hput
      cases hput
      have hp₁ := bounded_put h hp
      exact hp₁
  | decrShared item => exact iff_of_true h trivial
  | remove item => exact iff_of_true (bounded_of_le h (size_remove_le item p) rfl) trivial
  | removeNFree order n => exact iff_of_true (bounded_removeNFree order n h) trivial
  | removeEveryNthFree order n =>
    refine iff_of_true (bounded_after h fun p' hremove => ?_) trivial
    unfold removeEveryNthFree at hremove
    split at hremove
    · cases hremove
    · cases hremove
      exact bounded_removeNFree order _ h
  | close =>
    refine iff_of_true ?_ trivial
    unfold Bounded at h
    show (0 : Int) ≤ p.maxsize
    omega

/-- **Run.**  From an empty pool, the size is within the maximum after every
operation exactly if every change of the maximum that succeeds finds no item in
use or a size within the new maximum. -/
theorem bounded_iff (ops : List (Op ι)) :
    Along step (fun op p => Bounded (step op p)) ops empty ↔ Along step Ok ops empty :=
  along_iff bounded_step ops (by simp [Bounded, size, empty])

/-- Two items in use, two free ones, and the maximum lowered from 4 to 3. -/
def lowered : List (Op Nat) :=
  let order := SetOrder.ascending id Function.injective_id
  [.setMaxsize order (some 4), .get order (some 1), .get order (some 2), .get order (some 3),
    .get order (some 4), .put 3, .put 4, .setMaxsize order (some 3)]

/-- **The maximum is exceeded.** -/
theorem not_bounded_lowered :
    ¬ Along step (fun op p => Bounded (step op p)) lowered empty := by
  decide +kernel

end Pool

end InteractiveSessions
