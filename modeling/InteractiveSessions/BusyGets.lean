import InteractiveSessions.Occupancy

/-!
# What a `get` has closed when it raises `TerminalPoolsBusy`

A pool looks at its limit before it removes or creates anything.  `get` does
not: it sets the maximum of the target's pool and cleans up in all pools, and
only then it asks the target's pool, which may be full.  `InVain` are the states
in which it closes terminals and raises: the limit is 0 and the target's pool
has only unshared free terminals, or the limit is what is in use there and the
total is at its maximum too.

* `untouched_iff`: in every state that calls lead to, a `get` that raises
  `TerminalPoolsBusy` leaves all terminals as they were exactly if it is not in
  vain;
* `not_leaves_full`: one that closes a terminal of another target.
-/

namespace InteractiveSessions

namespace Pool

variable {ι : Type} {p : Pool ι}

/-- The same items in the same states. -/
structure SameItems (p q : Pool ι) : Prop where
  inuse : q.inuse = p.inuse
  free : q.free = p.free
  shared : q.shared = p.shared

theorem SameItems.refl (p : Pool ι) : SameItems p p := ⟨rfl, rfl, rfl⟩

theorem SameItems.congr {q r : Pool ι} (h : SameItems p q) : SameItems p r ↔ SameItems q r := by
  constructor
  · intro hr
    exact ⟨hr.inuse.trans h.inuse.symm, hr.free.trans h.free.symm, hr.shared.trans h.shared.symm⟩
  · intro hr
    exact ⟨hr.inuse.trans h.inuse, hr.free.trans h.free, hr.shared.trans h.shared⟩

theorem SameItems.size {q : Pool ι} (h : SameItems p q) : q.size = p.size := by
  rw [Pool.size, Pool.size, h.inuse, h.free]

theorem getSharedFreeSize_le (p : Pool ι) : p.getSharedFreeSize ≤ p.free.card :=
  Finset.card_filter_le _ _

/-- Some free item is not shared. -/
def Unshared (p : Pool ι) : Prop := ∃ i ∈ p.free, p.shared i = 0

theorem not_unshared : ¬ Unshared p ↔ p.getSharedFreeSize = p.free.card := by
  rw [getSharedFreeSize, Finset.card_filter_eq_iff]
  simp [Unshared]

theorem removable_of_shared {n : Int} (h : ¬ Unshared p) : p.removable n = 0 := by
  rw [removable, not_unshared.mp h, Nat.sub_self, Nat.min_zero]

/-- Every free item that is not shared can be removed. -/
theorem removable_one_pos (h : Unshared p) : p.removable 1 ≠ 0 := by
  have hle := getSharedFreeSize_le p
  have hne : p.getSharedFreeSize ≠ p.free.card := fun heq => not_unshared.mpr heq h
  rw [removable, Int.fdiv_one]
  omega

variable [DecidableEq ι] (order : SetOrder ι)

/-- `get` raises the exception of the pool. -/
theorem get_exception_iff (new : Option ι) :
    p.get order new = .error .exception ↔ p.free = ∅ ∧ p.maxsize ≤ p.inuse.card := by
  rw [← order.list_eq_nil]
  unfold get
  split
  · next item items hlist => simp [hlist]
  · next hlist =>
    by_cases hfull : p.maxsize ≤ p.inuse.card
    · simp [hlist, hfull]
    · cases new <;> simp [hfull]

/-- `set_maxsize` removes the last free item only if the new maximum is 0. -/
theorem removeNFree_eq_empty {n : Int} (hn : ¬ n < p.inuse.card + p.getSharedFreeSize)
    (hfree : p.free ≠ ∅) :
    (p.removeNFree order (p.free.card - n)).2.free = ∅ ↔
      n = 0 ∧ p.inuse = ∅ ∧ p.getSharedFreeSize = 0 := by
  have hsize := size_removeNFree order (p.free.card - n) p
  have hinuse := (removeNFree_spec order (p.free.card - n) p).2.2.2.1
  have hle := getSharedFreeSize_le p
  have hpos := Finset.card_ne_zero.mpr (Finset.nonempty_iff_ne_empty.mpr hfree)
  rw [size, size, hinuse] at hsize
  rw [← Finset.card_eq_zero, ← Finset.card_eq_zero]
  omega

/-- `set_maxsize` of a pool without free items. -/
theorem removeNFree_of_empty (n : Int) (hfree : p.free = ∅) : p.removeNFree order n = ([], p) := by
  have hnil : (p.removeNFree order n).1 = [] := by
    rw [← List.length_eq_zero_iff, length_removeNFree, hfree, Finset.card_empty, Nat.zero_sub,
      Nat.min_zero]
  exact Prod.ext hnil (removeNFree_of_nil hnil)

end Pool

namespace TerminalPools

variable {κ : Type} [DecidableEq κ]

/-! ## The pool of a key -/

/-- The pool that is registered under a key, or an empty one. -/
def poolOf (key : κ) (s : TerminalPools κ) : Pool (Terminal κ) :=
  match s.pools.get? key with
  | some ref => s.objs ref
  | none => Pool.empty

/-- No terminal was closed, removed or changed its state. -/
structure Untouched (s s' : TerminalPools κ) : Prop where
  closed : s'.closed = s.closed
  closings : s'.closings = s.closings
  pools : ∀ key, (s.poolOf key).SameItems (s'.poolOf key)

variable {s s' : TerminalPools κ} {key : κ} {ref : Nat}

theorem poolOf_of_mem (h : (key, ref) ∈ s.pools.items) : s.poolOf key = s.objs ref := by
  rw [poolOf, Dict.get?_eq_some.mpr h]

theorem poolOf_of_notMem (h : key ∉ s.pools.keys) : s.poolOf key = Pool.empty := by
  rw [poolOf, Dict.get?_eq_none.mpr h]

theorem Untouched.refl (s : TerminalPools κ) : Untouched s s :=
  ⟨rfl, rfl, fun _ => .refl _⟩

theorem Untouched.congr {s₁ s₂ : TerminalPools κ} (h : Untouched s s₁) :
    Untouched s s₂ ↔ Untouched s₁ s₂ := by
  constructor
  · intro h₂
    exact ⟨h₂.closed.trans h.closed.symm, h₂.closings.trans h.closings.symm,
      fun k => (h.pools k).congr.mp (h₂.pools k)⟩
  · intro h₂
    exact ⟨h₂.closed.trans h.closed, h₂.closings.trans h.closings,
      fun k => (h.pools k).congr.mpr (h₂.pools k)⟩

/-- The total is that of the pools of any keys that include the registered ones. -/
theorem size_eq_sum {keys : Finset κ} (h : ∀ key ∈ s.pools.keys, key ∈ keys) :
    s.size = ∑ key ∈ keys, (s.poolOf key).size := by
  have hsub : s.pools.keys.toFinset ⊆ keys := fun key hkey => h key (List.mem_toFinset.mp hkey)
  have hrest : ∀ key ∈ keys, key ∉ s.pools.keys.toFinset → (s.poolOf key).size = 0 := by
    intro key _ hkey
    rw [poolOf_of_notMem fun hmem => hkey (List.mem_toFinset.mpr hmem)]
    rfl
  have hnodup : s.pools.keys.Nodup := s.pools.nodup
  rw [← Finset.sum_subset hsub hrest, List.sum_toFinset _ hnodup, Dict.keys, List.map_map]
  refine congrArg List.sum (List.map_congr_left fun x hx => ?_)
  rw [Function.comp_apply, poolOf_of_mem hx]

theorem Untouched.size (h : Untouched s s') : s'.size = s.size := by
  have hkeys : ∀ key ∈ s.pools.keys, key ∈ s.pools.keys.toFinset ∪ s'.pools.keys.toFinset :=
    fun key hkey => Finset.mem_union_left _ (List.mem_toFinset.mpr hkey)
  have hkeys' : ∀ key ∈ s'.pools.keys, key ∈ s.pools.keys.toFinset ∪ s'.pools.keys.toFinset :=
    fun key hkey => Finset.mem_union_right _ (List.mem_toFinset.mpr hkey)
  rw [size_eq_sum hkeys, size_eq_sum hkeys']
  exact Finset.sum_congr rfl fun key _ => (h.pools key).size

/-- Some free terminal of some pool is not shared. -/
def Evictable (s : TerminalPools κ) : Prop := ∃ x ∈ s.pools.items, (s.objs x.2).Unshared

theorem evictable_iff : s.Evictable ↔ ∃ key, (s.poolOf key).Unshared := by
  constructor
  · rintro ⟨⟨key, ref⟩, hx, hfree⟩
    exact ⟨key, (poolOf_of_mem hx).symm ▸ hfree⟩
  · rintro ⟨key, hfree⟩
    cases hget : s.pools.get? key with
    | none =>
      rw [poolOf_of_notMem (Dict.get?_eq_none.mp hget)] at hfree
      obtain ⟨t, ht, -⟩ := hfree
      exact absurd ht (Finset.notMem_empty t)
    | some ref =>
      have hx := Dict.get?_eq_some.mp hget
      exact ⟨_, hx, poolOf_of_mem hx ▸ hfree⟩

theorem Untouched.evictable_iff (h : Untouched s s') : s'.Evictable ↔ s.Evictable := by
  rw [TerminalPools.evictable_iff, TerminalPools.evictable_iff]
  refine exists_congr fun key => ?_
  rw [Pool.Unshared, Pool.Unshared, (h.pools key).free, (h.pools key).shared]

/-! ## When one pass of `_try_to_clean` closes a terminal -/

theorem cleanFreeInRandomOrderOrRaise_raised (c : Choice κ) (items : List (κ × Nat)) (h : Tidy s)
    (hitems : ∀ x ∈ items, x ∈ s.pools.items) (hnone : ∀ x ∈ items, ¬ (s.objs x.2).Unshared) :
    cleanFreeInRandomOrderOrRaise c items s = .raised .terminalPoolsBusy s := by
  induction items with
  | nil => rfl
  | cons x items ih =>
    obtain ⟨key, ref⟩ := x
    have hzero : (s.objs ref).removable 1 = 0 :=
      Pool.removable_of_shared (hnone _ (List.mem_cons_self ..))
    obtain ⟨s', hrun, -, -, -, hsame⟩ :=
      removeEveryNthFree_cleaned c h (hitems _ (List.mem_cons_self ..)) (n := 1) (by decide)
    obtain rfl := hsame hzero
    rw [cleanFreeInRandomOrderOrRaise, Prog.bind_ret hrun, if_neg (not_not.mpr hzero)]
    exact ih (fun y hy => hitems y (List.mem_cons_of_mem _ hy))
      fun y hy => hnone y (List.mem_cons_of_mem _ hy)

theorem cleanFreeInRandomOrderOrRaise_ret (c : Choice κ) (items : List (κ × Nat)) (h : Tidy s)
    (hitems : ∀ x ∈ items, x ∈ s.pools.items) (hsome : ∃ x ∈ items, (s.objs x.2).Unshared) :
    ∃ s', cleanFreeInRandomOrderOrRaise c items s = .ret () s' := by
  induction items with
  | nil =>
    obtain ⟨x, hx, -⟩ := hsome
    cases hx
  | cons x items ih =>
    obtain ⟨key, ref⟩ := x
    obtain ⟨s', hrun, -, -, -, hsame⟩ :=
      removeEveryNthFree_cleaned c h (hitems _ (List.mem_cons_self ..)) (n := 1) (by decide)
    by_cases hzero : (s.objs ref).removable 1 = 0
    · obtain rfl := hsame hzero
      rw [cleanFreeInRandomOrderOrRaise, Prog.bind_ret hrun, if_neg (not_not.mpr hzero)]
      apply ih fun y hy => hitems y (List.mem_cons_of_mem _ hy)
      obtain ⟨y, hy, hfree⟩ := hsome
      rcases List.mem_cons.mp hy with rfl | hy
      · exact absurd hzero (Pool.removable_one_pos hfree)
      · exact ⟨y, hy, hfree⟩
    · rw [cleanFreeInRandomOrderOrRaise, Prog.bind_ret hrun, if_pos hzero, Prog.bind_run,
        Prog.gets_run]
      dsimp only
      split
      · exact ⟨_, rfl⟩
      · exact ⟨s', rfl⟩

theorem tryToClean_raised (c : Choice κ) (h : Tidy s) (hnone : ¬ s.Evictable) :
    tryToClean c s = .raised .terminalPoolsBusy s := by
  have hshared : ∀ x ∈ s.pools.items, ¬ (s.objs x.2).Unshared := fun x hx hfree =>
    hnone ⟨x, hx, hfree⟩
  have hzero : ∀ x ∈ s.pools.items, (s.objs x.2).removable 2 = 0 := fun x hx =>
    Pool.removable_of_shared (hshared x hx)
  obtain ⟨s', hrun, -, -, hsame⟩ := cleanFree_cleaned c s.pools.items h (fun _ => id) h.nodup
  obtain rfl := hsame hzero
  have hsum : (s'.pools.items.map fun x => (s'.objs x.2).removable 2).sum = 0 := by
    apply List.sum_eq_zero
    intro n hn
    obtain ⟨x, hx, rfl⟩ := List.mem_map.mp hn
    exact hzero x hx
  rw [tryToClean, Prog.bind_run, Prog.gets_run]
  dsimp only
  rw [Prog.bind_ret hrun, if_pos hsum]
  have hperm := c.shuffle_perm s'.pools.items
  exact cleanFreeInRandomOrderOrRaise_raised c _ h (fun x hx => hperm.mem_iff.mp hx)
    fun x hx => hshared x (hperm.mem_iff.mp hx)

theorem tryToClean_ret (c : Choice κ) (h : Tidy s) (hsome : s.Evictable) :
    ∃ s', tryToClean c s = .ret () s' ∧ Cleaned s s.freed s' := by
  rcases tryToClean_cleaned c h with hcleaned | hbusy
  · exact hcleaned
  · obtain ⟨s', hrun, -, -, hsame⟩ := cleanFree_cleaned c s.pools.items h (fun _ => id) h.nodup
    rw [tryToClean, Prog.bind_run, Prog.gets_run] at hbusy
    dsimp only at hbusy
    rw [Prog.bind_ret hrun] at hbusy
    split at hbusy
    · next hsum =>
      obtain rfl := hsame fun x hx => List.sum_eq_zero_iff.mp hsum _ (List.mem_map_of_mem hx)
      have hperm := c.shuffle_perm s'.pools.items
      obtain ⟨x, hx, hfree⟩ := hsome
      obtain ⟨s'', hret⟩ := cleanFreeInRandomOrderOrRaise_ret c (c.shuffle s'.pools.items) h
        (fun x hx => hperm.mem_iff.mp hx) ⟨x, hperm.mem_iff.mpr hx, hfree⟩
      rw [hret] at hbusy
      cases hbusy
    · cases hbusy

/-! ## `get` -/

theorem untouched_addPool (h : Tidy s) (hkey : key ∉ s.pools.keys) :
    Untouched s (s.addPool key) := by
  refine ⟨rfl, rfl, fun k => ?_⟩
  have hsame : (s.addPool key).poolOf k = s.poolOf k := by
    by_cases hk : k = key
    · subst hk
      have hmem : (k, s.count) ∈ (s.addPool k).pools.items := Dict.mem_set.mpr (.inl rfl)
      rw [poolOf_of_mem hmem, poolOf_of_notMem hkey]
      exact Function.update_self ..
    · have hget : (s.addPool key).pools.get? k = s.pools.get? k := Dict.get?_set_of_ne hk
      rw [poolOf, poolOf, hget]
      cases href : s.pools.get? k with
      | none => rfl
      | some ref =>
        have hlt : ref < s.count := h.lt _ (Dict.get?_eq_some.mp href)
        exact Function.update_of_ne hlt.ne _ _
  rw [hsame]
  exact .refl _

theorem untouched_change {p : Pool (Terminal κ)} {items : List (Terminal κ)}
    (hitems : items = []) (h : (s.objs ref).SameItems p) :
    Untouched s (s.change ref p items (s.closed ∪ items.toFinset)) := by
  subst hitems
  refine ⟨Finset.union_empty _, List.append_nil _, fun k => ?_⟩
  unfold poolOf
  change (match s.pools.get? k with
    | some ref => s.objs ref
    | none => Pool.empty).SameItems
      (match s.pools.get? k with
      | some ref' => Function.update s.objs ref p ref'
      | none => Pool.empty)
  cases s.pools.get? k with
  | none => exact .refl _
  | some ref' =>
    by_cases hr : ref' = ref
    · subst hr
      dsimp only
      rwa [Function.update_self]
    · dsimp only
      rw [Function.update_of_ne hr]
      exact .refl _

/-- `_get_pool` finds the pool of the key or adds one, and sets its maximum. -/
structure Found (s : TerminalPools κ) (key : κ) (ref : Nat) (s₁ : TerminalPools κ) : Prop where
  untouched : Untouched s s₁
  tidy : Tidy s₁
  maxsize : s₁.maxsize = s.maxsize
  mem : (key, ref) ∈ s₁.pools.items
  run : ∀ c maxProcesses, getPool c key maxProcesses s =
    match (s₁.objs ref).setMaxsize c.free maxProcesses with
    | .error e => .raised (.ofPool e) s₁
    | .ok r => .ret ref (s₁.change ref r.2 r.1 (s₁.closed ∪ r.1.toFinset))

theorem exists_found (h : Tidy s) (key : κ) : ∃ ref s₁, Found s key ref s₁ := by
  have hopened := opened_addPool h key
  obtain ⟨s₁, hs₁⟩ : ∃ s₁, s₁ = if key ∈ s.pools.keys then s else s.addPool key := ⟨_, rfl⟩
  rw [← hs₁] at hopened
  have huntouched : Untouched s s₁ := by
    rw [hs₁]
    split
    · exact .refl s
    · next hkey => exact untouched_addPool h hkey
  have hkey : key ∈ s₁.pools.keys := by
    rw [hs₁]
    split
    · assumption
    · exact Dict.mem_keys_set.mpr (.inl rfl)
  obtain ⟨ref, hmem⟩ := Dict.mem_keys.mp hkey
  refine ⟨ref, s₁, huntouched, hopened.tidy, hopened.maxsize, hmem, fun c maxProcesses => ?_⟩
  simp only [getPool, Prog.bind_run, Prog.modify_run, Prog.gets_run, ← hs₁,
    Dict.get?_eq_some.mpr hmem, onPool]
  cases (s₁.objs ref).setMaxsize c.free maxProcesses <;> rfl

theorem getTerminal_busy_iff {c : Choice κ} :
    getTerminal c key ref s = .raised .terminalPoolsBusy s' ↔
      ((s.objs ref).free = ∅ ∧ (s.objs ref).maxsize ≤ (s.objs ref).inuse.card) ∧ s' = s := by
  rw [← Pool.get_exception_iff c.pop (s.newTerminal key c.new)]
  unfold getTerminal
  cases hget : (s.objs ref).get c.pop (s.newTerminal key c.new) with
  | error e =>
    simp only [Prog.bind_run, Prog.gets_run, onPool, hget, Except.map, Outcome.raised.injEq,
      Except.error.injEq]
    cases e <;> simp [TerminalPoolsExc.ofPool, eq_comm]
  | ok r =>
    simp only [Prog.bind_run, Prog.gets_run, onPool, hget, Except.map, reduceCtorEq, false_and,
      iff_false]
    split
    · rintro ⟨⟩
    · split <;> rintro ⟨⟩

/-- What `get` does with the pool. -/
def getFrom (c : Choice κ) (key : κ) (ref : Nat) :
    Prog (TerminalPoolsExc κ) (TerminalPools κ) (Terminal κ) := do
  cleanIfNeeded c ref
  getTerminal c key ref

theorem get_eq (c : Choice κ) (key : κ) (maxProcesses : Option Int) :
    get c key maxProcesses = getPool c key maxProcesses >>= getFrom c key := rfl

theorem getFrom_of_none (c : Choice κ) (key : κ) (hfree : (s.objs ref).free = ∅)
    (hmax : s.maxsize = none) :
    getFrom c key ref s = .raised (.pool .valueError) s := by
  have hclean := cleanIfNeeded_of_empty c hfree
  rw [hmax] at hclean
  rw [getFrom, Prog.bind_raised hclean]

theorem getFrom_of_free {c : Choice κ} (hfree : (s.objs ref).free ≠ ∅) :
    getFrom c key ref s ≠ .raised .terminalPoolsBusy s' := by
  intro hrun
  rw [getFrom, Prog.bind_ret (cleanIfNeeded_of_free c hfree)] at hrun
  exact hfree (getTerminal_busy_iff.mp hrun).1.1

/-- A full pool raises in any case, with less terminals if some could be removed. -/
theorem getFrom_of_full (c : Choice κ) (h : Tidy s) (hmem : (key, ref) ∈ s.pools.items)
    (hfree : (s.objs ref).free = ∅) (hfull : (s.objs ref).maxsize ≤ (s.objs ref).inuse.card)
    {m : Int} (hmax : s.maxsize = some m) :
    ∃ s', getFrom c key ref s = .raised .terminalPoolsBusy s' ∧
      (m ≤ s.size ∧ s.Evictable → s'.size < s.size) ∧
      (¬ (m ≤ s.size ∧ s.Evictable) → s' = s) := by
  have hclean := cleanIfNeeded_of_empty c hfree
  rw [hmax] at hclean
  dsimp only at hclean
  by_cases hm : m ≤ s.size
  · rw [if_pos hm] at hclean
    by_cases hsome : s.Evictable
    · obtain ⟨s', hrun, hcleaned⟩ := tryToClean_ret c h hsome
      obtain ⟨-, hobj⟩ := hcleaned.kept _ hmem hfree
      have hbusy : getTerminal c key ref s' = .raised .terminalPoolsBusy s' := by
        apply getTerminal_busy_iff.mpr
        rw [hobj]
        exact ⟨⟨hfree, hfull⟩, rfl⟩
      have hsize := hcleaned.size
      have hpos : 1 ≤ s.freed := le_max_left _ _
      refine ⟨s', ?_, fun _ => by omega, fun hnot => absurd ⟨hm, hsome⟩ hnot⟩
      rw [getFrom, Prog.bind_ret (hclean.trans hrun), hbusy]
    · refine ⟨s, ?_, fun hboth => absurd hboth.2 hsome, fun _ => rfl⟩
      rw [getFrom, Prog.bind_raised (hclean.trans (tryToClean_raised c h hsome))]
  · rw [if_neg hm] at hclean
    refine ⟨s, ?_, fun hboth => absurd hboth.1 hm, fun _ => rfl⟩
    rw [getFrom, Prog.bind_ret hclean]
    exact getTerminal_busy_iff.mpr ⟨⟨hfree, hfull⟩, rfl⟩

/-- A pool with room raises only because nothing could be removed. -/
theorem getFrom_of_room {c : Choice κ} (h : Tidy s) (hmem : (key, ref) ∈ s.pools.items)
    (hfree : (s.objs ref).free = ∅) (hroom : (s.objs ref).inuse.card < (s.objs ref).maxsize)
    (hrun : getFrom c key ref s = .raised .terminalPoolsBusy s') : s' = s := by
  unfold getFrom at hrun
  cases hclean : cleanIfNeeded c ref s with
  | ret u s₁ =>
    obtain ⟨m, -, hcleaned⟩ := cleanIfNeeded_cleaned c h hfree hclean
    obtain ⟨-, hobj⟩ := hcleaned.kept _ hmem hfree
    rw [Prog.bind_ret hclean] at hrun
    have hfull := (getTerminal_busy_iff.mp hrun).1.2
    rw [hobj] at hfull
    exact absurd hroom (not_lt.mpr hfull)
  | raised e s₁ =>
    rw [Prog.bind_raised hclean] at hrun
    cases hrun
    rw [cleanIfNeeded_of_empty c hfree] at hclean
    cases hmax : s.maxsize with
    | none =>
      rw [hmax] at hclean
      cases hclean
    | some m =>
      rw [hmax] at hclean
      dsimp only at hclean
      split at hclean
      · by_cases hsome : s.Evictable
        · obtain ⟨s₂, hret, -⟩ := tryToClean_ret c h hsome
          rw [hret] at hclean
          cases hclean
        · rw [tryToClean_raised c h hsome] at hclean
          cases hclean
          rfl
      · cases hclean
  | hang =>
    rw [Prog.bind_hang hclean] at hrun
    cases hrun

/-! ## When terminals are lost -/

/-- A `get` that raises `TerminalPoolsBusy` leaves all terminals as they were. -/
def Leaves (c : Choice κ) (key : κ) (maxProcesses : Option Int) (s : TerminalPools κ) : Prop :=
  ∀ s', get c key maxProcesses s = .raised .terminalPoolsBusy s' → Untouched s s'

/-- The limit is 0, and there are unshared free terminals of the target, but no
others. -/
def EmptiesOwn (key : κ) (maxProcesses : Option Int) (s : TerminalPools κ) : Prop :=
  maxProcesses = some 0 ∧ s.maxsize ≠ none ∧ (s.poolOf key).free ≠ ∅ ∧
    (s.poolOf key).inuse = ∅ ∧ (s.poolOf key).getSharedFreeSize = 0

/-- As many terminals of the target are in use as the limit says, none is free, and
the total is at the maximum with free terminals that can be removed. -/
def EvictsOthers (key : κ) (maxProcesses : Option Int) (s : TerminalPools κ) : Prop :=
  maxProcesses = some ((s.poolOf key).inuse.card : Int) ∧ (s.poolOf key).free = ∅ ∧
    (s.maxsize.any fun m => m ≤ (s.size : Int)) ∧ s.Evictable

/-- The `get` closes terminals and gets none. -/
def InVain (key : κ) (maxProcesses : Option Int) (s : TerminalPools κ) : Prop :=
  EmptiesOwn key maxProcesses s ∨ EvictsOthers key maxProcesses s

theorem not_untouched_of_lt (h : s'.size < s.size) : ¬ Untouched s s' := fun huntouched =>
  h.ne huntouched.size

/-- After `_get_pool`, with a pool that has no free terminal. -/
theorem getFrom_leaves_iff (c : Choice κ) (h : Tidy s) (hmem : (key, ref) ∈ s.pools.items)
    (hfree : (s.objs ref).free = ∅) :
    (∀ s', getFrom c key ref s = .raised .terminalPoolsBusy s' → Untouched s s') ↔
      ¬ ((s.objs ref).maxsize ≤ (s.objs ref).inuse.card ∧
        (s.maxsize.any fun m => m ≤ (s.size : Int)) ∧ s.Evictable) := by
  by_cases hfull : (s.objs ref).maxsize ≤ (s.objs ref).inuse.card
  · cases hmax : s.maxsize with
    | none =>
      have hrun := getFrom_of_none c key hfree hmax
      simp [hrun]
    | some m =>
      obtain ⟨s₁, hrun, hlost, hkept⟩ := getFrom_of_full c h hmem hfree hfull hmax
      rw [hrun, Option.any_some, decide_eq_true_eq]
      by_cases hboth : m ≤ s.size ∧ s.Evictable
      · refine iff_of_false (fun hleaves => ?_) (not_not.mpr ⟨hfull, hboth⟩)
        exact not_untouched_of_lt (hlost hboth) (hleaves s₁ rfl)
      · refine iff_of_true (fun s' hs' => ?_) fun hall => hboth hall.2
        cases hs'
        rw [hkept hboth]
        exact .refl s
  · refine iff_of_true (fun s' hs' => ?_) fun hall => hfull hall.1
    rw [getFrom_of_room h hmem hfree (not_le.mp hfull) hs']
    exact .refl s

/-- The state after a `set_maxsize` that does not raise. -/
def limited (c : Choice κ) (ref : Nat) (n : Int) (s : TerminalPools κ) : TerminalPools κ :=
  let r := (s.objs ref).removeNFree c.free ((s.objs ref).free.card - n)
  s.change ref { r.2 with maxsize := n } r.1 (s.closed ∪ r.1.toFinset)

theorem limited_objs (c : Choice κ) (n : Int) :
    (limited c ref n s).objs ref =
      { ((s.objs ref).removeNFree c.free ((s.objs ref).free.card - n)).2 with maxsize := n } :=
  change_self

theorem limited_maxsize (c : Choice κ) (n : Int) :
    ((limited c ref n s).objs ref).maxsize = n := by
  rw [limited_objs]

theorem limited_inuse (c : Choice κ) (n : Int) :
    ((limited c ref n s).objs ref).inuse = (s.objs ref).inuse := by
  rw [limited_objs]
  exact (Pool.removeNFree_spec c.free _ _).2.2.2.1

theorem limited_free (c : Choice κ) (n : Int) : ((limited c ref n s).objs ref).free =
    ((s.objs ref).removeNFree c.free ((s.objs ref).free.card - n)).2.free := by
  rw [limited_objs]

theorem Tidy.limited (h : Tidy s) (c : Choice κ) (n : Int) :
    Tidy (limited c ref n s) := ⟨h.lt, h.nodup⟩

/-- The last free terminals are gone. -/
theorem limited_size_lt (c : Choice κ) (n : Int) (h : Tidy s) (hmem : (key, ref) ∈ s.pools.items)
    (hfree : (s.objs ref).free ≠ ∅) (hfree' : ((limited c ref n s).objs ref).free = ∅) :
    (limited c ref n s).size < s.size := by
  have hpos := Finset.card_pos.mpr (Finset.nonempty_iff_ne_empty.mpr hfree)
  have hlt : ((limited c ref n s).objs ref).size < (s.objs ref).size := by
    rw [Pool.size, Pool.size, limited_inuse, hfree', Finset.card_empty]
    omega
  have htotal : (limited c ref n s).size + (s.objs ref).size =
      s.size + ((limited c ref n s).objs ref).size := by
    rw [limited_objs]
    exact h.total_change hmem Pool.size _ _ _
  omega

section
variable {s₁ : TerminalPools κ} {c : Choice κ} {n : Int}

theorem Found.inVain_iff (h : Found s key ref s₁) : InVain key (some n) s ↔
    (n = 0 ∧ s.maxsize ≠ none ∧ (s₁.objs ref).free ≠ ∅ ∧ (s₁.objs ref).inuse = ∅ ∧
      (s₁.objs ref).getSharedFreeSize = 0) ∨
    (n = (s₁.objs ref).inuse.card ∧ (s₁.objs ref).free = ∅ ∧
      (s.maxsize.any fun m => m ≤ (s.size : Int)) ∧ s.Evictable) := by
  have hsame : (s.poolOf key).SameItems (s₁.objs ref) :=
    poolOf_of_mem h.mem ▸ h.untouched.pools key
  have hshared : (s.poolOf key).getSharedFreeSize = (s₁.objs ref).getSharedFreeSize := by
    rw [Pool.getSharedFreeSize, Pool.getSharedFreeSize, hsame.free, hsame.shared]
  rw [InVain, EmptiesOwn, EvictsOthers, ← hsame.free, ← hsame.inuse, hshared, Option.some.injEq,
    Option.some.injEq]

/-- `set_maxsize` raises. -/
theorem Found.leaves_iff_of_lt (h : Found s key ref s₁)
    (hn : n < (s₁.objs ref).inuse.card + (s₁.objs ref).getSharedFreeSize) :
    Leaves c key (some n) s ↔ ¬ InVain key (some n) s := by
  have hle := Pool.getSharedFreeSize_le (s₁.objs ref)
  have hrun : get c key (some n) s = .raised .terminalPoolsBusy s₁ := by
    simp [get_eq, Prog.bind_run, h.run, Pool.setMaxsize, hn, TerminalPoolsExc.ofPool]
  rw [h.inVain_iff]
  refine iff_of_true (fun s' hs' => ?_) ?_
  · rw [hrun] at hs'
    cases hs'
    exact h.untouched
  · rintro (⟨rfl, -, -, hinuse, hnone⟩ | ⟨rfl, hfree, -⟩)
    · rw [hinuse, Finset.card_empty] at hn
      omega
    · rw [hfree, Finset.card_empty] at hle
      omega

theorem Found.get_run (h : Found s key ref s₁)
    (hn : ¬ n < (s₁.objs ref).inuse.card + (s₁.objs ref).getSharedFreeSize) :
    get c key (some n) s = getFrom c key ref (limited c ref n s₁) := by
  simp only [get_eq, Prog.bind_run, h.run, Pool.setMaxsize, if_neg hn, limited]

/-- There is no free terminal in the target's pool. -/
theorem Found.leaves_iff_of_empty (h : Found s key ref s₁)
    (hn : ¬ n < (s₁.objs ref).inuse.card + (s₁.objs ref).getSharedFreeSize)
    (hfree : (s₁.objs ref).free = ∅) :
    Leaves c key (some n) s ↔ ¬ InVain key (some n) s := by
  have hnothing := Pool.removeNFree_of_empty c.free ((s₁.objs ref).free.card - n) hfree
  have hfree₂ : ((limited c ref n s₁).objs ref).free = ∅ := by
    rw [limited_free, hnothing, hfree]
  have huntouched : Untouched s₁ (limited c ref n s₁) := by
    apply untouched_change (congrArg Prod.fst hnothing)
    constructor
    · exact congrArg (fun r => r.2.inuse) hnothing
    · exact congrArg (fun r => r.2.free) hnothing
    · exact congrArg (fun r => r.2.shared) hnothing
  have hmax : (limited c ref n s₁).maxsize = s.maxsize := h.maxsize
  have hcard : n ≤ (s₁.objs ref).inuse.card ↔ n = (s₁.objs ref).inuse.card := by omega
  have hleaves := getFrom_leaves_iff c (h.tidy.limited c n) h.mem hfree₂
  rw [h.inVain_iff, Leaves, h.get_run hn]
  simp only [h.untouched.congr, huntouched.congr]
  rw [hleaves, limited_maxsize, limited_inuse, hmax, huntouched.size, h.untouched.size,
    huntouched.evictable_iff, h.untouched.evictable_iff, hcard]
  simp only [hfree, ne_eq, not_true_eq_false, false_and, and_false, false_or, true_and]

/-- There is a free terminal in the target's pool: `set_maxsize` may remove it. -/
theorem Found.leaves_iff_of_free (h : Found s key ref s₁)
    (hn : ¬ n < (s₁.objs ref).inuse.card + (s₁.objs ref).getSharedFreeSize)
    (hfree : (s₁.objs ref).free ≠ ∅) :
    Leaves c key (some n) s ↔ ¬ InVain key (some n) s := by
  have hempty := Pool.removeNFree_eq_empty c.free hn hfree
  rw [← limited_free c n] at hempty
  rw [h.inVain_iff, Leaves, h.get_run hn]
  by_cases hall : n = 0 ∧ (s₁.objs ref).inuse = ∅ ∧ (s₁.objs ref).getSharedFreeSize = 0
  · have hfree₂ := hempty.mpr hall
    have hmax : (limited c ref n s₁).maxsize = s.maxsize := h.maxsize
    cases hm : s.maxsize with
    | none =>
      have hrun := getFrom_of_none c key hfree₂ (hmax.trans hm)
      simp [hrun, hfree]
    | some m =>
      have hfull : ((limited c ref n s₁).objs ref).maxsize ≤
          ((limited c ref n s₁).objs ref).inuse.card := by
        rw [limited_maxsize, hall.1]
        exact Int.natCast_nonneg _
      obtain ⟨s₃, hrun, hlost, hkept⟩ :=
        getFrom_of_full c (h.tidy.limited c n) h.mem hfree₂ hfull (hmax.trans hm)
      have hle : s₃.size ≤ (limited c ref n s₁).size := by
        by_cases hboth : m ≤ (limited c ref n s₁).size ∧ (limited c ref n s₁).Evictable
        · exact (hlost hboth).le
        · rw [hkept hboth]
      have hlt := limited_size_lt c n h.tidy h.mem hfree hfree₂
      have hsize := h.untouched.size
      refine iff_of_false (fun hleaves => ?_) (not_not.mpr (.inl ⟨hall.1, nofun, hfree, hall.2⟩))
      exact not_untouched_of_lt (by omega) (hleaves s₃ hrun)
  · have hfree₂ : ((limited c ref n s₁).objs ref).free ≠ ∅ := fun hzero => hall (hempty.mp hzero)
    refine iff_of_true (fun s' hs' => absurd hs' (getFrom_of_free hfree₂)) ?_
    rintro (⟨hzero, -, -, hrest⟩ | ⟨-, hnone, -⟩)
    · exact hall ⟨hzero, hrest⟩
    · exact hfree hnone

end

theorem leaves_iff (c : Choice κ) (key : κ) (maxProcesses : Option Int) (h : Tidy s) :
    Leaves c key maxProcesses s ↔ ¬ InVain key maxProcesses s := by
  obtain ⟨ref, s₁, hfound⟩ := exists_found h key
  cases maxProcesses with
  | none =>
    simp [Leaves, InVain, EmptiesOwn, EvictsOthers, get_eq, Prog.bind_run, hfound.run,
      Pool.setMaxsize, TerminalPoolsExc.ofPool]
  | some n =>
    by_cases hn : n < (s₁.objs ref).inuse.card + (s₁.objs ref).getSharedFreeSize
    · exact hfound.leaves_iff_of_lt hn
    · by_cases hfree : (s₁.objs ref).free = ∅
      · exact hfound.leaves_iff_of_empty hn hfree
      · exact hfound.leaves_iff_of_free hn hfree

theorem tidy_run (ops : List (Operation κ)) :
    Tidy (ops.foldl (fun s op => step op s) init : TerminalPools κ) :=
  List.foldlRecOn ops _ tidy_init fun s hs op _ => tidy_step op s hs

/-- **Busy.**  After any calls, a `get` that raises `TerminalPoolsBusy` leaves all
terminals as they were exactly if it is not in vain. -/
theorem untouched_iff (ops : List (Operation κ)) (c : Choice κ) (key : κ)
    (maxProcesses : Option Int) :
    let s := ops.foldl (fun s op => step op s) init
    Leaves c key maxProcesses s ↔ ¬ InVain key maxProcesses s :=
  leaves_iff c key maxProcesses (tidy_run ops)

/-- One terminal in use for the first key, one free for the second, and the maximum
set to two. -/
def full : List (Operation Nat) :=
  [.call (.get (choice 0) 0 (some 1)), .call (.get (choice 1) 1 (some 1)),
    .call (.put ⟨1, 1⟩ true), .call (.setMaxsize (some 2))]

/-- **A terminal is closed for nothing.** -/
theorem not_leaves_full :
    ¬ Leaves (choice 2) 0 (some 1) (full.foldl (fun s op => step op s) init) := by
  have hbefore : (full.foldl (fun s op => step op s) init).closings = [] := by decide +kernel
  have hbusy : (get (choice 2) 0 (some 1) (full.foldl (fun s op => step op s) init)).exception? =
      some .terminalPoolsBusy := by decide +kernel
  have hafter : ((get (choice 2) 0 (some 1) (full.foldl (fun s op => step op s) init)).state
      init).closings = [⟨1, 1⟩] := by decide +kernel
  intro h
  rw [(h _ (Outcome.raised_of_exception? hbusy init)).closings, hbefore] at hafter
  cases hafter

end TerminalPools

end InteractiveSessions
