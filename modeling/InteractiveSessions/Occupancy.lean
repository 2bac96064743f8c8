import InteractiveSessions.Usage

/-!
# How many terminals there are in all pools

`get` cleans up when it needs a new terminal and the total is at the maximum.
One pass of `_try_to_clean` frees a half of the free terminals of every pool, or
if this is none, one terminal:

* `size_of_creates`: the total after a `get` that creates a terminal;
* `within_iff`: it is within the maximum in exactly those runs in which such a
  `get` finds a total that is below the maximum and what one pass frees;
* `within_of_raised`: this is so when the maximum is never set below the total.
-/

namespace InteractiveSessions

namespace Pool

variable {ι : Type}

/-- How many items `remove_every_nth_free` removes. -/
def removable (n : Int) (p : Pool ι) : Nat :=
  min (Int.fdiv p.free.card n).toNat (p.free.card - p.getSharedFreeSize)

theorem removable_of_free {n : Int} {p : Pool ι} (h : p.free = ∅) : p.removable n = 0 := by
  simp [removable, h]

/-- When a half of the free items is none, then all are at most one. -/
theorem removable_one_le {p : Pool ι} (h : p.removable 2 = 0) : p.removable 1 ≤ 1 := by
  unfold removable at h ⊢
  rw [Int.fdiv_eq_ediv_of_nonneg _ (by omega)] at h ⊢
  omega

variable [DecidableEq ι]

theorem removeNFree_of_nil {order : SetOrder ι} {n : Int} {p : Pool ι}
    (h : (p.removeNFree order n).1 = []) : (p.removeNFree order n).2 = p := by
  show (p.removeNFree order n).1.foldl (fun p i => p.remove i) p = p
  rw [h, List.foldl_nil]

theorem length_removeNFree (order : SetOrder ι) (n : Int) (p : Pool ι) :
    (p.removeNFree order n).1.length = min n.toNat (p.free.card - p.getSharedFreeSize) := by
  have hlen := length_unsharedFree order p
  rw [removeNFree, List.length_take]
  omega

theorem removeEveryNthFree_run (order : SetOrder ι) {n : Int} (hn : n ≠ 0) (p : Pool ι) :
    ∃ items p', p.removeEveryNthFree order n = .ok (items, p') ∧ items.length = p.removable n ∧
      p'.size + p.removable n = p.size ∧ (items = [] → p' = p) := by
  refine ⟨_, _, if_neg hn, length_removeNFree order _ p, size_removeNFree order _ p, fun h => ?_⟩
  exact removeNFree_of_nil h

/-- The factory makes an item. -/
theorem get_new {order : SetOrder ι} {new : Option ι} {p p' : Pool ι} {i : ι}
    (hfree : p.free = ∅) (h : p.get order new = .ok (i, p')) :
    (p.inuse.card : Int) < p.maxsize ∧ new = some i ∧ p'.inuse = insert i p.inuse ∧
      p'.free = ∅ := by
  obtain ⟨hinuse, -, ⟨hmem, -⟩ | ⟨-, hfree', hnew⟩⟩ := get_cases h
  · rw [hfree] at hmem
    exact absurd hmem (Finset.notMem_empty i)
  · refine ⟨?_, hnew, hinuse, hfree'⟩
    unfold get at h
    split at h
    · next j items hlist =>
      rw [order.list_eq_nil.mpr hfree] at hlist
      cases hlist
    · split at h
      · cases h
      · next hlt => exact not_le.mp hlt

/-- When a pool has no free item after `set_maxsize`, but room for one, then it had
none before. -/
theorem free_of_setMaxsize {order : SetOrder ι} {maxsize : Option Int} {p : Pool ι}
    {r : List ι × Pool ι} (h : p.setMaxsize order maxsize = .ok r) (hfree : r.2.free = ∅)
    (hroom : (r.2.inuse.card : Int) < r.2.maxsize) : p.free = ∅ ∧ r.2.size = p.size := by
  unfold setMaxsize at h
  split at h
  · cases h
  · split at h
    · cases h
    · next m _ =>
      cases h
      have hsize := size_removeNFree order (p.free.card - m) p
      have hinuse := (removeNFree_spec order (p.free.card - m) p).2.2.2.1
      change (p.removeNFree order (p.free.card - m)).2.free = ∅ at hfree
      change ((p.removeNFree order (p.free.card - m)).2.inuse.card : Int) < m at hroom
      show p.free = ∅ ∧ (p.removeNFree order (p.free.card - m)).2.size = p.size
      rw [← Finset.card_eq_zero]
      rw [hinuse] at hroom
      unfold size at hsize ⊢
      rw [hfree, Finset.card_empty, hinuse] at hsize ⊢
      omega

end Pool

namespace TerminalPools

variable {κ : Type}

/-- The sum of `f` over all pools. -/
def total (f : Pool (Terminal κ) → Nat) (s : TerminalPools κ) : Nat :=
  (s.pools.items.map fun x => f (s.objs x.2)).sum

/-- How many terminals one pass of `_try_to_clean` frees. -/
def freed (s : TerminalPools κ) : Nat := max 1 (s.total (Pool.removable 2))

/-- Every pool object is registered under one key. -/
structure Tidy (s : TerminalPools κ) : Prop where
  lt : ∀ x ∈ s.pools.items, x.2 < s.count
  nodup : (s.pools.items.map Prod.snd).Nodup

theorem sum_update_of_notMem {items : List (κ × Nat)} {ref : Nat} (h : ref ∉ items.map Prod.snd)
    (f : Pool (Terminal κ) → Nat) (objs : Nat → Pool (Terminal κ)) (p : Pool (Terminal κ)) :
    (items.map fun x => f (Function.update objs ref p x.2)).sum =
      (items.map fun x => f (objs x.2)).sum := by
  refine congrArg List.sum (List.map_congr_left fun x hx => ?_)
  have hne : x.2 ≠ ref := fun heq => h (heq ▸ List.mem_map_of_mem hx)
  rw [Function.update_of_ne hne]

theorem sum_update {items : List (κ × Nat)} (hnodup : (items.map Prod.snd).Nodup) {key : κ}
    {ref : Nat} (hmem : (key, ref) ∈ items) (f : Pool (Terminal κ) → Nat)
    (objs : Nat → Pool (Terminal κ)) (p : Pool (Terminal κ)) :
    (items.map fun x => f (Function.update objs ref p x.2)).sum + f (objs ref) =
      (items.map fun x => f (objs x.2)).sum + f p := by
  induction items with
  | nil => cases hmem
  | cons x items ih =>
    obtain ⟨hx, hnodup⟩ := List.nodup_cons.mp hnodup
    simp only [List.map_cons, List.sum_cons]
    rcases List.mem_cons.mp hmem with rfl | hmem
    · rw [sum_update_of_notMem hx, Function.update_self]
      dsimp only
      omega
    · have hne : x.2 ≠ ref := fun heq => hx (heq ▸ List.mem_map_of_mem (f := Prod.snd) hmem)
      have hrest := ih hnodup hmem
      rw [Function.update_of_ne hne]
      omega

theorem Tidy.total_change {s : TerminalPools κ} (h : Tidy s) {key : κ} {ref : Nat}
    (hmem : (key, ref) ∈ s.pools.items) (f : Pool (Terminal κ) → Nat) (p : Pool (Terminal κ))
    (items : List (Terminal κ)) (closed : Finset (Terminal κ)) :
    (s.change ref p items closed).total f + f (s.objs ref) = s.total f + f p :=
  sum_update h.nodup hmem f s.objs p

/-! ## What one pass frees -/

/-- From `s` to `s'`, `n` free terminals were removed; a pool without a free
terminal is as before. -/
structure Cleaned (s : TerminalPools κ) (n : Nat) (s' : TerminalPools κ) : Prop where
  tidy : Tidy s'
  count : s'.count = s.count
  maxsize : s'.maxsize = s.maxsize
  size : s'.size + n = s.size
  kept : ∀ x ∈ s.pools.items, (s.objs x.2).free = ∅ →
    x ∈ s'.pools.items ∧ s'.objs x.2 = s.objs x.2

theorem Cleaned.trans {s s' s'' : TerminalPools κ} {n m : Nat} (h : Cleaned s n s')
    (h' : Cleaned s' m s'') : Cleaned s (n + m) s'' := by
  have hsize := h.size
  have hsize' := h'.size
  refine ⟨h'.tidy, h'.count.trans h.count, h'.maxsize.trans h.maxsize, by omega,
    fun x hx hfree => ?_⟩
  obtain ⟨hx', hobj⟩ := h.kept x hx hfree
  obtain ⟨hx'', hobj'⟩ := h'.kept x hx' (by rw [hobj, hfree])
  exact ⟨hx'', hobj'.trans hobj⟩

theorem cleaned_refl {s : TerminalPools κ} (h : Tidy s) : Cleaned s 0 s :=
  ⟨h, rfl, rfl, rfl, fun _ hx _ => ⟨hx, rfl⟩⟩

section
variable [DecidableEq κ] {s : TerminalPools κ} {key : κ} {ref : Nat}

theorem removeEveryNthFree_cleaned (c : Choice κ) (h : Tidy s) (hmem : (key, ref) ∈ s.pools.items)
    {n : Int} (hn : n ≠ 0) :
    ∃ s', removeEveryNthFree c ref n s = .ret ((s.objs ref).removable n) s' ∧
      Cleaned s ((s.objs ref).removable n) s' ∧ s'.pools = s.pools ∧
      (∀ ref', ref' ≠ ref → s'.objs ref' = s.objs ref') ∧
      ((s.objs ref).removable n = 0 → s' = s) := by
  obtain ⟨items, p, hop, hlen, hsize, hnil⟩ := (s.objs ref).removeEveryNthFree_run c.free hn
  have hsame : (s.objs ref).removable n = 0 →
      s.change ref p items (s.closed ∪ items.toFinset) = s := by
    intro h0
    have hitems : items = [] := List.length_eq_zero_iff.mp (hlen.trans h0)
    rw [hnil hitems, hitems, change, Function.update_eq_self, List.append_nil, List.toFinset_nil,
      Finset.union_empty]
  refine ⟨s.change ref p items (s.closed ∪ items.toFinset), ?_, ⟨⟨h.lt, h.nodup⟩, rfl, rfl, ?_,
    fun x hx hfree => ⟨hx, ?_⟩⟩, rfl, fun ref' => change_of_ne, hsame⟩
  · simp only [removeEveryNthFree, onPool, hop, Except.map, hlen]
  · have htotal := h.total_change hmem Pool.size p items (s.closed ∪ items.toFinset)
    show (s.change ref p items _).total Pool.size + _ = s.total Pool.size
    omega
  · by_cases hr : x.2 = ref
    · rw [hsame (Pool.removable_of_free (hr ▸ hfree))]
    · exact change_of_ne hr

/-- `_clean_free` of some of the pools. -/
theorem cleanFree_cleaned (c : Choice κ) (items : List (κ × Nat)) (h : Tidy s)
    (hitems : ∀ x ∈ items, x ∈ s.pools.items) (hnodup : (items.map Prod.snd).Nodup) :
    ∃ s', cleanFree c items s =
        .ret (items.map fun x => (s.objs x.2).removable 2).sum s' ∧
      Cleaned s (items.map fun x => (s.objs x.2).removable 2).sum s' ∧ s'.pools = s.pools ∧
      ((∀ x ∈ items, (s.objs x.2).removable 2 = 0) → s' = s) := by
  induction items generalizing s with
  | nil => exact ⟨s, rfl, cleaned_refl h, rfl, fun _ => rfl⟩
  | cons x items ih =>
    obtain ⟨key, ref⟩ := x
    obtain ⟨hx, hnodup⟩ := List.nodup_cons.mp hnodup
    obtain ⟨s₁, hrun, hcleaned, hpools, hother, hsame⟩ :=
      removeEveryNthFree_cleaned c h (hitems _ (List.mem_cons_self ..)) (n := 2) (by decide)
    obtain ⟨s₂, hrest, hcleaned', hpools', hsame'⟩ := ih hcleaned.tidy
      (fun y hy => hpools ▸ hitems y (List.mem_cons_of_mem _ hy)) hnodup
    -- the other pools are as before
    have hsum : (items.map fun y => (s₁.objs y.2).removable 2) =
        items.map fun y => (s.objs y.2).removable 2 := by
      refine List.map_congr_left fun y hy => ?_
      have hne : y.2 ≠ ref := fun heq => hx (List.mem_map.mpr ⟨y, hy, heq⟩)
      rw [hother y.2 hne]
    rw [hsum] at hrest hcleaned'
    refine ⟨s₂, ?_, hcleaned.trans hcleaned', hpools'.trans hpools, fun hzero => ?_⟩
    · rw [cleanFree, Prog.bind_ret hrun, Prog.bind_ret hrest]
      rfl
    · obtain rfl := hsame (hzero _ (List.mem_cons_self ..))
      exact hsame' fun y hy => hzero y (List.mem_cons_of_mem _ hy)

/-- An empty pool does not count. -/
theorem sum_erase (d : Dict κ Nat) (key : κ) {f : κ × Nat → Nat}
    (h : ∀ x ∈ d.items, x.1 = key → f x = 0) :
    ((d.erase key).items.map f).sum = (d.items.map f).sum := by
  show ((d.items.filter fun x => x.1 ≠ key).map f).sum = _
  revert h
  induction d.items with
  | nil => exact fun _ => rfl
  | cons x items ih =>
    intro h
    have hrest := ih fun y hy => h y (List.mem_cons_of_mem _ hy)
    by_cases hx : x.1 = key
    · have hzero := h x (List.mem_cons_self ..) hx
      rw [List.filter_cons_of_neg (by simp [hx]), hrest, List.map_cons, List.sum_cons, hzero,
        Nat.zero_add]
    · rw [List.filter_cons_of_pos (by simp [hx]), List.map_cons, List.sum_cons, hrest,
        List.map_cons, List.sum_cons]

theorem Tidy.erase (h : Tidy s) (key : κ) :
    Tidy ({ s with pools := s.pools.erase key } : TerminalPools κ) :=
  ⟨fun x hx => h.lt x (Dict.mem_erase.mp hx).2,
    h.nodup.sublist (List.filter_sublist.map Prod.snd)⟩

/-- The deleted pool was not one without free terminals. -/
theorem Cleaned.erase {s' : TerminalPools κ} {n : Nat} (h : Cleaned s n s')
    (hpools : s'.pools = s.pools) (hmem : (key, ref) ∈ s.pools.items)
    (hfree : (s.objs ref).free ≠ ∅) (hsize : (s'.objs ref).size = 0) :
    Cleaned s n ({ s' with pools := s'.pools.erase key } : TerminalPools κ) := by
  refine ⟨h.tidy.erase key, h.count, h.maxsize, ?_, fun x hx hx' => ?_⟩
  · have htotal : s'.total Pool.size + n = s.size := h.size
    have hsum := sum_erase s'.pools key (f := fun x => (s'.objs x.2).size)
      fun x hx hkey => by
        have href : x.2 = ref := Dict.value_unique (k := key) (hkey ▸ hx) (hpools ▸ hmem)
        rw [href, hsize]
    show ((s'.pools.erase key).items.map fun x => (s'.objs x.2).size).sum + n = s.size
    rw [hsum]
    exact htotal
  · obtain ⟨hx'', hobj⟩ := h.kept x hx hx'
    refine ⟨Dict.mem_erase.mpr ⟨?_, hx''⟩, hobj⟩
    rintro rfl
    have href : x.2 = ref := Dict.value_unique hx hmem
    exact hfree (href ▸ hx')

/-- `_clean_free_in_random_order_or_raise`, when a half of the free terminals of
every pool is none. -/
theorem cleanFreeInRandomOrderOrRaise_cleaned (c : Choice κ) (items : List (κ × Nat)) (h : Tidy s)
    (hitems : ∀ x ∈ items, x ∈ s.pools.items)
    (hhalf : ∀ x ∈ s.pools.items, (s.objs x.2).removable 2 = 0) :
    (∃ s', cleanFreeInRandomOrderOrRaise c items s = .ret () s' ∧ Cleaned s 1 s') ∨
      cleanFreeInRandomOrderOrRaise c items s = .raised .terminalPoolsBusy s := by
  induction items with
  | nil => exact .inr rfl
  | cons x items ih =>
    obtain ⟨key, ref⟩ := x
    have hmem := hitems _ (List.mem_cons_self ..)
    obtain ⟨s', hrun, hcleaned, hpools, -, hsame⟩ :=
      removeEveryNthFree_cleaned c h hmem (n := 1) (by decide)
    by_cases hremoved : (s.objs ref).removable 1 = 0
    · obtain rfl := hsame hremoved
      rw [cleanFreeInRandomOrderOrRaise, Prog.bind_ret hrun, if_neg (not_not.mpr hremoved)]
      exact ih fun y hy => hitems y (List.mem_cons_of_mem _ hy)
    · have hone : (s.objs ref).removable 1 = 1 := by
        have hle : (s.objs ref).removable 1 ≤ 1 := Pool.removable_one_le (hhalf _ hmem)
        omega
      have hfree : (s.objs ref).free ≠ ∅ := fun hempty =>
        hremoved (Pool.removable_of_free hempty)
      rw [hone] at hcleaned
      left
      rw [cleanFreeInRandomOrderOrRaise, Prog.bind_ret hrun, if_pos hremoved, Prog.bind_run,
        Prog.gets_run]
      dsimp only
      by_cases hsize : (s'.objs ref).size = 0
      · rw [if_pos hsize]
        exact ⟨_, rfl, hcleaned.erase hpools hmem hfree hsize⟩
      · rw [if_neg hsize]
        exact ⟨s', rfl, hcleaned⟩

/-- **One pass.** -/
theorem tryToClean_cleaned (c : Choice κ) (h : Tidy s) :
    (∃ s', tryToClean c s = .ret () s' ∧ Cleaned s s.freed s') ∨
      tryToClean c s = .raised .terminalPoolsBusy s := by
  obtain ⟨s₁, hrun, hcleaned, -, hsame⟩ := cleanFree_cleaned c s.pools.items h (fun _ => id) h.nodup
  have hfreed : s.freed = max 1 (s.pools.items.map fun x => (s.objs x.2).removable 2).sum := rfl
  unfold tryToClean
  rw [Prog.bind_run, Prog.gets_run]
  dsimp only
  rw [Prog.bind_ret hrun]
  by_cases hzero : (s.pools.items.map fun x => (s.objs x.2).removable 2).sum = 0
  · have hhalf : ∀ x ∈ s.pools.items, (s.objs x.2).removable 2 = 0 := fun x hx =>
      List.sum_eq_zero_iff.mp hzero _ (List.mem_map_of_mem hx)
    obtain rfl := hsame hhalf
    rw [if_pos hzero]
    rw [hzero] at hfreed
    rw [hfreed]
    exact cleanFreeInRandomOrderOrRaise_cleaned c _ h
      (fun x hx => (c.shuffle_perm _).mem_iff.mp hx) hhalf
  · rw [if_neg hzero]
    rw [max_eq_right (by omega)] at hfreed
    exact .inl ⟨s₁, rfl, hfreed ▸ hcleaned⟩

/-! ## `get` -/

/-- `_clean_if_needed` of a pool without a free terminal. -/
theorem cleanIfNeeded_of_empty (c : Choice κ) (hfree : (s.objs ref).free = ∅) :
    cleanIfNeeded c ref s =
      match s.maxsize with
      | none => .raised (.pool .valueError) s
      | some m => if m ≤ s.size then tryToClean c s else .ret () s := by
  rw [cleanIfNeeded, Prog.bind_run, Prog.gets_run]
  dsimp only
  rw [if_pos hfree]
  cases s.maxsize with
  | none => rfl
  | some m =>
    dsimp only
    split <;> rfl

theorem cleanIfNeeded_cleaned (c : Choice κ) (h : Tidy s) (hfree : (s.objs ref).free = ∅)
    {s' : TerminalPools κ} (hrun : cleanIfNeeded c ref s = .ret () s') :
    ∃ m, s.maxsize = some m ∧ Cleaned s (if m ≤ s.size then s.freed else 0) s' := by
  rw [cleanIfNeeded_of_empty c hfree] at hrun
  cases hmax : s.maxsize with
  | none =>
    rw [hmax] at hrun
    cases hrun
  | some m =>
    rw [hmax] at hrun
    refine ⟨m, rfl, ?_⟩
    dsimp only at hrun
    by_cases hm : m ≤ s.size
    · rw [if_pos hm] at hrun ⊢
      rcases tryToClean_cleaned c h with ⟨s₁, hs₁, hcleaned⟩ | hbusy
      · rw [hs₁] at hrun
        cases hrun
        exact hcleaned
      · rw [hbusy] at hrun
        cases hrun
    · rw [if_neg hm] at hrun ⊢
      cases hrun
      exact cleaned_refl h

/-- `_clean_if_needed` of a pool with a free terminal. -/
theorem cleanIfNeeded_of_free (c : Choice κ) (hfree : (s.objs ref).free ≠ ∅) :
    cleanIfNeeded c ref s = .ret () s := by
  unfold cleanIfNeeded
  rw [Prog.bind_run, Prog.gets_run]
  dsimp only
  rw [if_neg hfree]
  rfl

/-- `_get_terminal` of a pool without a free terminal: the terminal is new. -/
theorem getTerminal_new {c : Choice κ} {t : Terminal κ} {s' : TerminalPools κ} (h : Tidy s)
    (hmem : (key, ref) ∈ s.pools.items) (hfree : (s.objs ref).free = ∅)
    (hrun : getTerminal c key ref s = .ret t s') :
    ((s.objs ref).inuse.card : Int) < (s.objs ref).maxsize ∧ s'.size = s.size + 1 := by
  unfold getTerminal at hrun
  cases hget : (s.objs ref).get c.pop (s.newTerminal key c.new) with
  | error e =>
    simp only [Prog.bind_run, Prog.gets_run, onPool, hget, Except.map] at hrun
    cases hrun
  | ok r =>
    obtain ⟨u, p⟩ := r
    simp only [Prog.bind_run, Prog.gets_run, onPool, hget, Except.map, if_pos hfree,
      Prog.modify_run, Prog.pure_run] at hrun
    cases hrun
    obtain ⟨hlt, hnew, hinuse, hfree'⟩ := Pool.get_new hfree hget
    have hnot : t ∉ (s.objs ref).inuse := fun hin =>
      (newTerminal_some hnew).2 ref (h.lt _ hmem) (.inl hin)
    have htotal := h.total_change hmem Pool.size p [] (s.closed ∪ [].toFinset)
    have hp : p.size = (s.objs ref).size + 1 := by
      rw [Pool.size, Pool.size, hinuse, hfree', hfree, Finset.card_insert_of_notMem hnot,
        Finset.card_empty]
    refine ⟨hlt, ?_⟩
    show (s.change ref p [] (s.closed ∪ [].toFinset)).total Pool.size = s.total Pool.size + 1
    omega

omit [DecidableEq κ] in
theorem sum_addPool (h : Tidy s) (f : Pool (Terminal κ) → Nat) (hf : f Pool.empty = 0) :
    ((s.pools.items ++ [(key, s.count)]).map fun x =>
      f (Function.update s.objs s.count Pool.empty x.2)).sum = s.total f := by
  have hnot : s.count ∉ s.pools.items.map Prod.snd := by
    intro hmem
    obtain ⟨x, hx, heq⟩ := List.mem_map.mp hmem
    exact absurd (h.lt x hx) (by omega)
  rw [List.map_append, List.sum_append, sum_update_of_notMem hnot]
  simp [hf, total]

theorem items_addPool (hkey : key ∉ s.pools.keys) :
    (s.addPool key).pools.items = s.pools.items ++ [(key, s.count)] := if_neg hkey

theorem total_addPool (h : Tidy s) (hkey : key ∉ s.pools.keys) {f : Pool (Terminal κ) → Nat}
    (hf : f Pool.empty = 0) : (s.addPool key).total f = s.total f := by
  show ((s.addPool key).pools.items.map _).sum = _
  rw [items_addPool hkey]
  exact sum_addPool h f hf

theorem Tidy.addPool (h : Tidy s) (hkey : key ∉ s.pools.keys) : Tidy (s.addPool key) := by
  have hitems := items_addPool hkey
  refine ⟨fun x hx => ?_, ?_⟩
  · rw [hitems] at hx
    rcases List.mem_append.mp hx with hx | hx
    · exact Nat.lt_succ_of_lt (h.lt x hx)
    · rw [List.mem_singleton.mp hx]
      exact Nat.lt_succ_self _
  · rw [hitems, List.map_append, List.nodup_append]
    refine ⟨h.nodup, List.nodup_singleton _, ?_⟩
    rintro a ha b hb rfl
    obtain ⟨x, hx, rfl⟩ := List.mem_map.mp ha
    have heq : x.2 = s.count := List.mem_singleton.mp hb
    exact absurd (h.lt x hx) (by omega)

/-- From `s` to `s'`, pools without terminals may have been added. -/
structure Opened (s s' : TerminalPools κ) : Prop where
  tidy : Tidy s'
  maxsize : s'.maxsize = s.maxsize
  size : s'.size = s.size
  removable : s'.total (Pool.removable 2) = s.total (Pool.removable 2)

/-- `_pools[key]` is there. -/
theorem opened_addPool (h : Tidy s) (key : κ) :
    Opened s (if key ∈ s.pools.keys then s else s.addPool key) := by
  split
  · exact ⟨h, rfl, rfl, rfl⟩
  · next hkey =>
    exact ⟨h.addPool hkey, rfl, total_addPool h hkey rfl,
      total_addPool h hkey (Pool.removable_of_free rfl)⟩

/-- `_get_pool`.  When the pool has no free terminal afterwards, but room for one,
then no terminal was removed. -/
theorem getPool_opened {c : Choice κ} {maxProcesses : Option Int} {s' : TerminalPools κ}
    (h : Tidy s) (hrun : getPool c key maxProcesses s = .ret ref s') :
    Tidy s' ∧ (key, ref) ∈ s'.pools.items ∧
      ((s'.objs ref).free = ∅ → ((s'.objs ref).inuse.card : Int) < (s'.objs ref).maxsize →
        Opened s s') := by
  have hopened := opened_addPool h key
  unfold getPool at hrun
  simp only [Prog.bind_run, Prog.modify_run, Prog.gets_run] at hrun
  revert hopened hrun
  generalize (if key ∈ s.pools.keys then s else s.addPool key) = s₁
  intro hrun hopened
  cases hget : s₁.pools.get? key with
  | none =>
    rw [hget] at hrun
    cases hrun
  | some ref' =>
    cases hset : (s₁.objs ref').setMaxsize c.free maxProcesses with
    | error e =>
      simp only [hget, Prog.bind_run, onPool, hset, Except.map] at hrun
      cases hrun
    | ok r =>
      simp only [hget, Prog.bind_run, onPool, hset, Except.map, Prog.pure_run] at hrun
      cases hrun
      have hmem := Dict.get?_eq_some.mp hget
      have htidy := hopened.tidy
      refine ⟨⟨htidy.lt, htidy.nodup⟩, hmem, fun hfree hroom => ?_⟩
      rw [change_self] at hfree hroom
      obtain ⟨hfree', hsize⟩ := Pool.free_of_setMaxsize hset hfree hroom
      have htotal := htidy.total_change hmem Pool.size r.2 r.1 (s₁.closed ∪ r.1.toFinset)
      have htotal' := htidy.total_change hmem (Pool.removable 2) r.2 r.1 (s₁.closed ∪ r.1.toFinset)
      rw [Pool.removable_of_free hfree', Pool.removable_of_free hfree] at htotal'
      refine ⟨⟨htidy.lt, htidy.nodup⟩, hopened.maxsize, Eq.trans ?_ hopened.size,
        Eq.trans ?_ hopened.removable⟩
      · show (s₁.change ref r.2 r.1 _).total Pool.size = s₁.total Pool.size
        omega
      · omega

end

/-! ## A new terminal -/

variable [DecidableEq κ]

/-- Whether there is no free terminal in the pool that `_get_terminal` asks. -/
def findsNone (c : Choice κ) (key : κ) (maxProcesses : Option Int) :
    Prog (TerminalPoolsExc κ) (TerminalPools κ) Bool := do
  let ref ← getPool c key maxProcesses
  cleanIfNeeded c ref
  Prog.gets fun s : TerminalPools κ => decide ((s.objs ref).free = ∅)

/-- `get` returns a terminal that the factory has made. -/
def Creates (c : Choice κ) (key : κ) (maxProcesses : Option Int) (s : TerminalPools κ) : Prop :=
  (get c key maxProcesses s).value?.isSome ∧ (findsNone c key maxProcesses s).value? = some true

instance (c : Choice κ) (key : κ) (maxProcesses : Option Int) (s : TerminalPools κ) :
    Decidable (Creates c key maxProcesses s) := inferInstanceAs (Decidable (_ ∧ _))

theorem creates_run {c : Choice κ} {key : κ} {maxProcesses : Option Int} {s : TerminalPools κ}
    (h : Creates c key maxProcesses s) :
    ∃ ref s₁ s₂ t s₃, getPool c key maxProcesses s = .ret ref s₁ ∧
      cleanIfNeeded c ref s₁ = .ret () s₂ ∧ getTerminal c key ref s₂ = .ret t s₃ ∧
      (s₂.objs ref).free = ∅ ∧ get c key maxProcesses s = .ret t s₃ := by
  obtain ⟨hret, hnone⟩ := h
  obtain ⟨t, ht⟩ := Option.isSome_iff_exists.mp hret
  obtain ⟨s₃, hget⟩ := Outcome.ret_of_value? ht
  obtain ⟨ref, s₁, hpool, hget'⟩ := Prog.ret_of_bind hget
  obtain ⟨u, s₂, hclean, hterminal⟩ := Prog.ret_of_bind hget'
  refine ⟨ref, s₁, s₂, t, s₃, hpool, hclean, hterminal, ?_, hget⟩
  unfold findsNone at hnone
  rw [Prog.bind_ret hpool, Prog.bind_ret hclean, Prog.gets_run, Outcome.value?,
    Option.some.injEq] at hnone
  exact of_decide_eq_true hnone

/-- **A new terminal.**  The total afterwards. -/
theorem size_of_creates {c : Choice κ} {key : κ} {maxProcesses : Option Int} {s : TerminalPools κ}
    (h : Tidy s) (hnew : Creates c key maxProcesses s) :
    ∃ m, s.maxsize = some m ∧
      ((get c key maxProcesses s).state s).size + (if m ≤ s.size then s.freed else 0) =
        s.size + 1 := by
  obtain ⟨ref, s₁, s₂, t, s₃, hpool, hclean, hterminal, hfree₂, hget⟩ := creates_run hnew
  obtain ⟨htidy, hmem, hopened⟩ := getPool_opened h hpool
  have hfree₁ : (s₁.objs ref).free = ∅ := by
    by_contra hne
    rw [cleanIfNeeded_of_free c hne] at hclean
    cases hclean
    exact hne hfree₂
  obtain ⟨m, hmax, hcleaned⟩ := cleanIfNeeded_cleaned c htidy hfree₁ hclean
  obtain ⟨hmem₂, hobj⟩ := hcleaned.kept _ hmem hfree₁
  obtain ⟨hroom, hsize⟩ := getTerminal_new hcleaned.tidy hmem₂ hfree₂ hterminal
  rw [hobj] at hroom
  -- so the pool had no free terminal before, and nothing was removed from it
  have ho := hopened hfree₁ hroom
  have hcount := hcleaned.size
  rw [freed, ho.removable, ho.size] at hcount
  refine ⟨m, ho.maxsize.symm.trans hmax, ?_⟩
  rw [hget]
  show s₃.size + (if m ≤ (s.size : Int) then max 1 (s.total (Pool.removable 2)) else 0) = _
  omega

/-! ## Everything else -/

omit [DecidableEq κ] in
theorem Tidy.total_change_le {s : TerminalPools κ} (h : Tidy s) {ref : Nat} {p : Pool (Terminal κ)}
    (hp : p.size ≤ (s.objs ref).size) (items : List (Terminal κ)) (closed : Finset (Terminal κ)) :
    (s.change ref p items closed).size ≤ s.size := by
  by_cases hmem : ref ∈ s.pools.items.map Prod.snd
  · obtain ⟨⟨key, ref⟩, hx, rfl⟩ := List.mem_map.mp hmem
    have htotal := h.total_change hx Pool.size p items closed
    show (s.change ref p items closed).total Pool.size ≤ s.total Pool.size
    dsimp only at hp
    omega
  · exact (sum_update_of_notMem hmem Pool.size s.objs p).le

/-- There are at most `n` terminals, and the maximum is `m`. -/
structure Below (n : Nat) (m : Option Int) (s : TerminalPools κ) : Prop where
  tidy : Tidy s
  size : s.size ≤ n
  maxsize : s.maxsize = m

section
variable {n : Nat} {m : Option Int}

theorem below_onPool {α : Type} {ref : Nat}
    {op : Pool (Terminal κ) → Except PoolExc (α × List (Terminal κ) × Pool (Terminal κ))}
    (hop : ∀ p r, op p = .ok r → r.2.2.size ≤ p.size) :
    Prog.Keeps (Below n m) (onPool ref op) :=
  triple_onPool (fun _ _ _ _ hs h =>
    ⟨⟨hs.tidy.lt, hs.tidy.nodup⟩, (hs.tidy.total_change_le (hop _ _ h) _ _).trans hs.size,
      hs.maxsize⟩) fun _ _ hs _ => hs

theorem below_removeEveryNthFree (c : Choice κ) (ref : Nat) (k : Int) :
    Prog.Keeps (Below n m) (removeEveryNthFree c ref k) := by
  refine below_onPool fun p r hop => ?_
  obtain ⟨r', hr, rfl⟩ := map_ok hop
  unfold Pool.removeEveryNthFree at hr
  split at hr
  · cases hr
  · cases hr
    have hsize := Pool.size_removeNFree c.free (Int.fdiv p.free.card k) p
    exact Nat.le.intro hsize

theorem below_getPool (c : Choice κ) (key : κ) (maxProcesses : Option Int) :
    Prog.Keeps (Below n m) (getPool c key maxProcesses) := by
  refine Prog.Keeps.bind (Prog.keeps_modify fun s hs => ?_) fun _ =>
    Prog.keeps_gets_bind fun ref => ?_
  · have hopened := opened_addPool hs.tidy key
    exact ⟨hopened.tidy, hopened.size.trans_le hs.size, hopened.maxsize.trans hs.maxsize⟩
  · cases ref with
    | none => exact Prog.keeps_raise
    | some ref =>
      refine Prog.Keeps.bind (below_onPool fun p r hop => ?_) fun _ => Prog.keeps_pure
      obtain ⟨r', hr, rfl⟩ := map_ok hop
      unfold Pool.setMaxsize at hr
      split at hr
      · cases hr
      · split at hr
        · cases hr
        · next max _ =>
          cases hr
          have hsize := Pool.size_removeNFree c.free (p.free.card - max) p
          exact Nat.le.intro hsize

theorem below_cleanFree (c : Choice κ) (items : List (κ × Nat)) :
    Prog.Keeps (Below n m) (cleanFree c items) := by
  induction items with
  | nil => exact Prog.keeps_pure
  | cons x items ih =>
    exact (below_removeEveryNthFree c x.2 2).bind fun _ => ih.bind fun _ => Prog.keeps_pure

theorem Below.erase {s : TerminalPools κ} (h : Below n m s) (key : κ) :
    Below n m ({ s with pools := s.pools.erase key } : TerminalPools κ) := by
  refine ⟨h.tidy.erase key, Nat.le_trans ?_ h.size, h.maxsize⟩
  exact (List.filter_sublist.map _).sum_le_sum fun _ _ => Nat.zero_le _

theorem below_cleanFreeInRandomOrderOrRaise (c : Choice κ) (items : List (κ × Nat)) :
    Prog.Keeps (Below n m) (cleanFreeInRandomOrderOrRaise c items) := by
  induction items with
  | nil => exact Prog.keeps_raise
  | cons x items ih =>
    refine (below_removeEveryNthFree c x.2 1).bind fun removed => ?_
    refine Prog.Triple.ite (fun _ => ?_) fun _ => ih
    refine Prog.keeps_gets_bind fun size => Prog.Triple.ite (fun _ => ?_) fun _ => Prog.keeps_pure
    exact Prog.keeps_modify fun s hs => hs.erase x.1

theorem below_cleanIfNeeded (c : Choice κ) (ref : Nat) :
    Prog.Keeps (Below n m) (cleanIfNeeded c ref) := by
  refine Prog.keeps_gets_bind fun s => Prog.Triple.ite (fun _ => ?_) fun _ => Prog.keeps_pure
  cases s.maxsize with
  | none => exact Prog.keeps_raise
  | some max =>
    refine Prog.Triple.ite (fun _ => ?_) fun _ => Prog.keeps_pure
    refine Prog.keeps_gets_bind fun items => (below_cleanFree c items).bind fun removed => ?_
    exact Prog.Triple.ite (fun _ => below_cleanFreeInRandomOrderOrRaise c _)
      fun _ => Prog.keeps_pure

/-- `_get_terminal` of a pool with a free terminal. -/
theorem getTerminal_of_free (c : Choice κ) (key : κ) {ref : Nat} {s : TerminalPools κ}
    (h : Below n m s) (hfree : (s.objs ref).free ≠ ∅) :
    (getTerminal c key ref s).EndsIn (Below n m) := by
  cases hget : (s.objs ref).get c.pop (s.newTerminal key c.new) with
  | error e =>
    simp only [getTerminal, Prog.bind_run, Prog.gets_run, onPool, hget, Except.map]
    exact h
  | ok r =>
    obtain ⟨t, p⟩ := r
    obtain ⟨hinuse, -, ⟨hmem, hfree'⟩ | ⟨hempty, -⟩⟩ := Pool.get_cases hget
    · have hp : p.size ≤ (s.objs ref).size := by
        have hcard := Finset.card_insert_le t (s.objs ref).inuse
        have hpos := Finset.card_pos.mpr ⟨t, hmem⟩
        rw [Pool.size, Pool.size, hinuse, hfree', Finset.card_erase_of_mem hmem]
        omega
      have hbelow : Below n m
          (s.change ref p [] (s.closed ∪ ([] : List (Terminal κ)).toFinset)) :=
        ⟨⟨h.tidy.lt, h.tidy.nodup⟩, (h.tidy.total_change_le hp _ _).trans h.size, h.maxsize⟩
      simp only [getTerminal, Prog.bind_run, Prog.gets_run, onPool, hget, Except.map,
        if_neg hfree]
      by_cases hclosed : t ∈ s.closed
      · rw [if_pos hclosed]
        exact hbelow
      · rw [if_neg hclosed]
        exact hbelow
    · exact absurd hempty hfree

/-- `_get_terminal` of a pool without one. -/
theorem getTerminal_of_empty (c : Choice κ) (key : κ) {ref : Nat} {s : TerminalPools κ}
    (h : Below n m s) (hfree : (s.objs ref).free = ∅) :
    (∃ t s', getTerminal c key ref s = .ret t s' ∧ Tidy s' ∧ s'.maxsize = m) ∨
      ∃ e, getTerminal c key ref s = .raised e s := by
  cases hget : (s.objs ref).get c.pop (s.newTerminal key c.new) with
  | error e =>
    right
    refine ⟨.ofPool e, ?_⟩
    simp only [getTerminal, Prog.bind_run, Prog.gets_run, onPool, hget, Except.map]
  | ok r =>
    left
    simp only [getTerminal, Prog.bind_run, Prog.gets_run, onPool, hget, Except.map, if_pos hfree,
      Prog.modify_run, Prog.pure_run]
    exact ⟨_, _, rfl, ⟨h.tidy.lt, h.tidy.nodup⟩, h.maxsize⟩

/-- **Nothing new.**  A `get` that creates no terminal does not add to the total. -/
theorem get_below (c : Choice κ) (key : κ) (maxProcesses : Option Int) {s : TerminalPools κ}
    (h : Below n m s) :
    (get c key maxProcesses s).EndsIn fun s' => Tidy s' ∧ s'.maxsize = m ∧
      (¬ Creates c key maxProcesses s → s'.size ≤ n) := by
  have hstop : ∀ s' : TerminalPools κ, Below n m s' → Tidy s' ∧ s'.maxsize = m ∧
      (¬ Creates c key maxProcesses s → s'.size ≤ n) := fun s' h' =>
    ⟨h'.tidy, h'.maxsize, fun _ => h'.size⟩
  have hpools := below_getPool c key maxProcesses s h
  unfold get
  cases hpool : getPool c key maxProcesses s with
  | raised e s₁ =>
    rw [hpool] at hpools
    rw [Prog.bind_raised hpool]
    exact hstop s₁ hpools
  | hang =>
    rw [Prog.bind_hang hpool]
    trivial
  | ret ref s₁ =>
    rw [hpool] at hpools
    rw [Prog.bind_ret hpool]
    have hcleans := below_cleanIfNeeded c ref s₁ hpools
    cases hclean : cleanIfNeeded c ref s₁ with
    | raised e s₂ =>
      rw [hclean] at hcleans
      rw [Prog.bind_raised hclean]
      exact hstop s₂ hcleans
    | hang =>
      rw [Prog.bind_hang hclean]
      trivial
    | ret u s₂ =>
      rw [hclean] at hcleans
      rw [Prog.bind_ret hclean]
      by_cases hfree : (s₂.objs ref).free = ∅
      · rcases getTerminal_of_empty c key hcleans hfree with ⟨t, s₃, hrun, htidy, hmax⟩ | ⟨e, hrun⟩
        · rw [hrun]
          refine ⟨htidy, hmax, fun hnot => absurd ⟨?_, ?_⟩ hnot⟩
          · rw [get, Prog.bind_ret hpool, Prog.bind_ret hclean, hrun]
            rfl
          · rw [findsNone, Prog.bind_ret hpool, Prog.bind_ret hclean, Prog.gets_run,
              decide_eq_true hfree]
            rfl
        · rw [hrun]
          exact hstop s₂ hcleans
      · have hends := getTerminal_of_free c key hcleans hfree
        cases hrun : getTerminal c key ref s₂ with
        | ret t s₃ | raised e s₃ =>
          rw [hrun] at hends
          exact hstop s₃ hends
        | hang => trivial

theorem below_putOp {op : Pool (Terminal κ) → Except PoolExc (Pool (Terminal κ))}
    (hop : ∀ p p', op p = .ok p' → p'.size ≤ p.size) (t : Terminal κ) (isPersistent : Bool) :
    Prog.Keeps (Below n m) (putOp op t isPersistent) := by
  refine Prog.keeps_gets_bind fun s => ?_
  cases s.pools.get? t.key with
  | none => exact Prog.keeps_raise
  | some ref =>
    refine Prog.Triple.ite (fun _ => below_onPool fun p r hr => ?_) fun _ =>
      below_onPool fun p r hr => ?_
    · obtain ⟨p', hp', rfl⟩ := map_ok hr
      exact hop p p' hp'
    · cases hr
      exact Pool.size_remove_le t p

theorem below_remove (t : Terminal κ) : Prog.Keeps (Below n m) (remove t) := by
  refine Prog.keeps_gets_bind fun s => ?_
  cases s.pools.get? t.key with
  | none => exact Prog.keeps_pure
  | some ref =>
    refine below_onPool fun p r hr => ?_
    cases hr
    exact Pool.size_remove_le t p

theorem below_closePools (order : SetOrder (Terminal κ)) (items : List (κ × Nat)) :
    Prog.Keeps (Below n m) (closePools order items) := by
  induction items with
  | nil => exact Prog.keeps_pure
  | cons x items ih =>
    refine (below_onPool fun p r hr => ?_).bind fun _ => ih
    cases hr
    exact Nat.zero_le _

theorem below_close (order : SetOrder (Terminal κ)) : Prog.Keeps (Below n m) (close order) := by
  refine Prog.keeps_gets_bind fun items => (below_closePools order items).bind fun _ => ?_
  exact Prog.keeps_modify fun s hs => ⟨⟨nofun, List.nodup_nil⟩, Nat.zero_le _, hs.maxsize⟩

end

/-! ## Runs -/

/-- The operations, with what the environment decides in them. -/
inductive Operation (κ : Type) where
  | call (a : Usage.Action κ)
  | close (order : SetOrder (Terminal κ))

def step (op : Operation κ) (s : TerminalPools κ) : TerminalPools κ :=
  match op with
  | .call a => (Usage.call a s).state s
  | .close order => (close order s).state s

omit [DecidableEq κ] in
theorem below_self {s : TerminalPools κ} (h : Tidy s) : Below s.size s.maxsize s := ⟨h, le_rfl, rfl⟩

/-- The total does not grow and the maximum stays, except in `set_maxsize` and in a
`get` that creates a terminal. -/
theorem step_cases (op : Operation κ) {s : TerminalPools κ} (h : Tidy s) :
    Below s.size s.maxsize (step op s) ∨
      (∃ maxsize, op = .call (.setMaxsize maxsize) ∧ step op s = s.setMaxsize maxsize) ∨
      ∃ c key maxProcesses, op = .call (.get c key maxProcesses) ∧
        Creates c key maxProcesses s ∧ Tidy (step op s) ∧ (step op s).maxsize = s.maxsize := by
  have hs := below_self h
  -- the value that the call returns does not matter
  have hcall : ∀ {m : Prog (TerminalPoolsExc κ) (TerminalPools κ) Unit},
      Prog.Keeps (Below s.size s.maxsize) m →
      Below s.size s.maxsize (((m >>= fun _ => pure (none : Option (Terminal κ))) s).state s) :=
    fun hm => ((hm.bind fun _ => Prog.keeps_pure).endsIn hs).state hs
  cases op with
  | close order => exact .inl (((below_close order).endsIn hs).state hs)
  | call a =>
    cases a with
    | get c key maxProcesses =>
      have hget := (get_below c key maxProcesses hs).state ⟨h, rfl, fun _ => le_rfl⟩
      have hstep : step (.call (.get c key maxProcesses)) s = (get c key maxProcesses s).state s :=
        Prog.state_bind_pure
      rw [hstep]
      by_cases hnew : Creates c key maxProcesses s
      · exact .inr (.inr ⟨c, key, maxProcesses, rfl, hnew, hget.1, hget.2.1⟩)
      · exact .inl ⟨hget.1, hget.2.2 hnew, hget.2.1⟩
    | setMaxsize maxsize => exact .inr (.inl ⟨maxsize, rfl, rfl⟩)
    | put t isPersistent =>
      exact .inl (hcall (below_putOp (fun p p' hp => (Pool.size_put hp).1.le) t isPersistent))
    | putIncrShared t isPersistent =>
      refine .inl (hcall (below_putOp (fun p p' hp => ?_) t isPersistent))
      obtain ⟨q, hq, rfl⟩ := map_ok hp
      exact (Pool.size_put hq).1.le
    | decrShared t isPersistent =>
      refine .inl (hcall (below_putOp (fun p p' hp => ?_) t isPersistent))
      cases hp
      exact le_rfl
    | remove t => exact .inl (hcall (below_remove t))

omit [DecidableEq κ] in
theorem tidy_init : Tidy (init : TerminalPools κ) := ⟨nofun, List.nodup_nil⟩

/-- **Step.** -/
theorem tidy_step (op : Operation κ) (s : TerminalPools κ) (h : Tidy s) : Tidy (step op s) := by
  rcases step_cases op h with hbelow | ⟨maxsize, -, hset⟩ | ⟨c, key, maxProcesses, -, -, htidy, -⟩
  · exact hbelow.tidy
  · rw [hset]
    exact ⟨h.lt, h.nodup⟩
  · exact htidy

/-- A `get` that creates a terminal ends with a total within the maximum. -/
def Within (op : Operation κ) (s : TerminalPools κ) : Prop :=
  match op with
  | .call (.get c key maxProcesses) =>
    Creates c key maxProcesses s → s.maxsize.any fun m => ((step op s).size : Int) ≤ m
  | _ => True

/-- A `get` that creates a terminal finds a total that is below the maximum and
what one pass frees. -/
def Suffices (op : Operation κ) (s : TerminalPools κ) : Prop :=
  match op with
  | .call (.get c key maxProcesses) =>
    Creates c key maxProcesses s → s.maxsize.any fun m => (s.size : Int) < m + s.freed
  | _ => True

theorem within_step (op : Operation κ) (s : TerminalPools κ) (h : Tidy s) :
    Within op s ↔ Suffices op s := by
  cases op with
  | close order => exact Iff.rfl
  | call a =>
    cases a with
    | get c key maxProcesses =>
      refine forall_congr' fun hnew => ?_
      obtain ⟨m, hmax, hsize⟩ := size_of_creates h hnew
      have hstep : step (.call (.get c key maxProcesses)) s = (get c key maxProcesses s).state s :=
        Prog.state_bind_pure
      have hpos : 1 ≤ s.freed := le_max_left _ _
      rw [hstep, hmax, Option.any_some, Option.any_some, decide_eq_true_eq, decide_eq_true_eq]
      split at hsize <;> omega
    | setMaxsize _ | put _ _ | putIncrShared _ _ | decrShared _ _ | remove _ => exact Iff.rfl

/-- **Run.**  Every `get` that creates a terminal ends within the maximum exactly if
it always finds a total that is below the maximum and what one pass frees. -/
theorem within_iff (ops : List (Operation κ)) :
    Along step Within ops init ↔ Along step Suffices ops init :=
  along_congr tidy_step within_step ops tidy_init

/-- The maximum is not set below the total. -/
def Raised (op : Operation κ) (s : TerminalPools κ) : Prop :=
  match op with
  | .call (.setMaxsize (some m)) => (s.size : Int) ≤ m
  | _ => True

/-- The total is within the maximum. -/
structure Fitting (s : TerminalPools κ) : Prop where
  tidy : Tidy s
  le : ∀ m, s.maxsize = some m → (s.size : Int) ≤ m

theorem Fitting.suffices {s : TerminalPools κ} (h : Fitting s) (op : Operation κ) :
    Suffices op s := by
  cases op with
  | close order => trivial
  | call a =>
    cases a with
    | get c key maxProcesses =>
      intro hnew
      obtain ⟨m, hmax, -⟩ := size_of_creates h.tidy hnew
      have hle := h.le m hmax
      have hpos : 1 ≤ s.freed := le_max_left _ _
      rw [hmax, Option.any_some, decide_eq_true_eq]
      omega
    | setMaxsize _ | put _ _ | putIncrShared _ _ | decrShared _ _ | remove _ => trivial

theorem Fitting.step {s : TerminalPools κ} (h : Fitting s) {op : Operation κ}
    (hop : Raised op s) : Fitting (step op s) := by
  refine ⟨tidy_step op s h.tidy, fun m hm => ?_⟩
  rcases step_cases op h.tidy with hbelow | ⟨maxsize, rfl, hset⟩ |
    ⟨c, key, maxProcesses, rfl, hnew, -, hmax⟩
  · have hle := h.le m (hbelow.maxsize.symm.trans hm)
    have hsize := hbelow.size
    omega
  · rw [hset] at hm ⊢
    obtain rfl : maxsize = some m := hm
    exact hop
  · have hwithin : Within (.call (.get c key maxProcesses)) s :=
      (within_step _ s h.tidy).mpr (h.suffices _)
    have hany := hwithin hnew
    rw [hmax.symm.trans hm, Option.any_some, decide_eq_true_eq] at hany
    exact hany

omit [DecidableEq κ] in
theorem fitting_init : Fitting (init : TerminalPools κ) := by
  refine ⟨tidy_init, fun m hm => ?_⟩
  cases hm
  show (0 : Int) ≤ 256
  decide

/-- So it does when the maximum is never set below the total. -/
theorem within_of_raised {ops : List (Operation κ)} (h : Along step Raised ops init) :
    Along step Within ops (init : TerminalPools κ) :=
  Along.of_invariant (fun _ _ ht hok => ht.step hok)
    (fun op s ht _ => (within_step op s ht.tidy).mpr (ht.suffices op)) ops fitting_init h

def pairOrder : SetOrder (Terminal Nat) :=
  SetOrder.ascending (fun t => Nat.pair t.key t.id) fun t u h => by
    obtain ⟨k, i⟩ := t
    obtain ⟨l, j⟩ := u
    obtain ⟨rfl, rfl⟩ := Nat.pair_eq_pair.mp h
    rfl

/-- An environment in which a new terminal gets the given id. -/
def choice (new : Nat) : Choice Nat where
  free := pairOrder
  pop := pairOrder
  shuffle := id
  shuffle_perm := List.Perm.refl
  new := some new

/-- One free terminal for each of two keys, the maximum set to one, and a terminal
for a third key. -/
def lowered : List (Operation Nat) :=
  [.call (.get (choice 0) 0 (some 1)), .call (.get (choice 1) 1 (some 1)),
    .call (.put ⟨0, 0⟩ true), .call (.put ⟨1, 1⟩ true), .call (.setMaxsize (some 1)),
    .call (.get (choice 2) 2 (some 1))]

instance (op : Operation κ) (s : TerminalPools κ) : Decidable (Within op s) :=
  match op with
  | .call (.get c key maxProcesses) =>
    inferInstanceAs (Decidable (Creates c key maxProcesses s → _ = true))
  | .call (.setMaxsize _) | .call (.put _ _) | .call (.putIncrShared _ _)
  | .call (.decrShared _ _) | .call (.remove _) | .close _ => isTrue trivial

/-- **One pass frees one of them.** -/
theorem not_within_lowered : ¬ Along step Within lowered init := by
  decide +kernel

end TerminalPools

end InteractiveSessions
