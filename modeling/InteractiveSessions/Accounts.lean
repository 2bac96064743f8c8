import InteractiveSessions.BackgroundProcess

/-!
# What `_process` does to the accounts of the terminal pools

`held` and `shares` of `TerminalPools.Inv` before and after each operation that
`RemoteRunner` uses, whether it returns or raises.  Terminals are persistent.

* `triple_runForeground`, `triple_runNoComm`: a run gives its terminal back or leaves it in
  use, and the shares stay;
* `triple_runBackground`: a background run that returns has one share more;
* `triple_setResult_waits`, `triple_killRunAndRaise_waits`: a result gives the share back, and
  a failed kill takes all shares of the terminal.
-/

namespace InteractiveSessions

/-! ## Operations of the pools -/

namespace TerminalPools

variable {κ α : Type} [DecidableEq κ] {held : Finset (Terminal κ)} {shares : Terminal κ → Nat}
  {s s₀ : TerminalPools κ} {closed : Finset (Terminal κ)} {t : Terminal κ} {ref : Nat} {key : κ}
  {c : Choice κ}

omit [DecidableEq κ] in
theorem Inv.not_has_of_closed (h : Inv held shares s) (ht : t ∈ s.closed) :
    ¬ (s.objs ref).Has t := fun hhas => (h.fits ref).opened t hhas ht

omit [DecidableEq κ] in
/-- What is held or shared is open. -/
theorem Inv.not_closed (h : Inv held shares s) (ht : t ∈ held ∨ 0 < shares t) : t ∉ s.closed := by
  intro hclosed
  rcases ht with ht | ht
  · obtain ⟨ref, hin⟩ := h.held t ht
    exact h.not_has_of_closed hclosed (.inl hin)
  · obtain ⟨ref, hhas⟩ := h.shared t ht
    exact h.not_has_of_closed hclosed hhas

omit [DecidableEq κ] in
theorem Inv.shares_of_closed (h : Inv held shares s) (ht : t ∈ s.closed) : shares t = 0 := by
  by_contra hne
  exact h.not_closed (.inr (Nat.pos_of_ne_zero hne)) ht

omit [DecidableEq κ] in
theorem Inv.notMem_of_closed (h : Inv held shares s) (ht : t ∈ s.closed) : t ∉ held :=
  fun hheld => h.not_closed (.inl hheld) ht

/-- An operation on a pool closes, and opens nothing. -/
theorem keeps_closed_onPool
    {op : Pool (Terminal κ) → Except PoolExc (α × List (Terminal κ) × Pool (Terminal κ))} :
    Prog.Keeps (fun s : TerminalPools κ => closed ⊆ s.closed) (onPool ref op) :=
  triple_onPool (fun _ _ _ _ hs _ => hs.trans Finset.subset_union_left) fun _ _ hs _ => hs

theorem keeps_closed_cleanFree (items : List (κ × Nat)) :
    Prog.Keeps (fun s : TerminalPools κ => closed ⊆ s.closed) (cleanFree c items) := by
  induction items with
  | nil => exact Prog.keeps_pure
  | cons x items ih => exact keeps_closed_onPool.bind fun _ => ih.bind fun _ => Prog.keeps_pure

theorem keeps_closed_cleanFreeInRandomOrderOrRaise (items : List (κ × Nat)) :
    Prog.Keeps (fun s : TerminalPools κ => closed ⊆ s.closed)
      (cleanFreeInRandomOrderOrRaise c items) := by
  induction items with
  | nil => exact Prog.keeps_raise
  | cons x items ih =>
    refine keeps_closed_onPool.bind fun removed => Prog.Triple.ite (fun _ => ?_) fun _ => ih
    apply Prog.keeps_gets_bind
    intro size
    exact Prog.Triple.ite (fun _ => Prog.keeps_modify fun _ hs => hs) fun _ => Prog.keeps_pure

theorem keeps_closed_cleanIfNeeded :
    Prog.Keeps (fun s : TerminalPools κ => closed ⊆ s.closed) (cleanIfNeeded c ref) := by
  apply Prog.keeps_gets_bind
  intro s
  refine Prog.Triple.ite (fun _ => ?_) fun _ => Prog.keeps_pure
  cases s.maxsize with
  | none => exact Prog.keeps_raise
  | some maxsize =>
    refine Prog.Triple.ite (fun _ => ?_) fun _ => Prog.keeps_pure
    apply Prog.keeps_gets_bind
    intro items
    exact (keeps_closed_cleanFree items).bind fun removed => Prog.Triple.ite
      (fun _ => keeps_closed_cleanFreeInRandomOrderOrRaise _) fun _ => Prog.keeps_pure

theorem keeps_closed_getPool {maxProcesses : Option Int} :
    Prog.Keeps (fun s : TerminalPools κ => closed ⊆ s.closed) (getPool c key maxProcesses) := by
  apply Prog.Triple.modify_bind fun s : TerminalPools κ => closed ⊆ s.closed
  · apply Prog.keeps_gets_bind
    intro ref
    cases ref with
    | none => exact Prog.keeps_raise
    | some ref => exact keeps_closed_onPool.bind fun _ => Prog.keeps_pure
  · intro s hs
    split <;> exact hs

/-- What `get` returns: a terminal that nobody holds and that was not closed, unless its
`id()` is that of a new one. -/
structure Got (c : Choice κ) (key : κ) (held closed : Finset (Terminal κ)) (t : Terminal κ)
    (s : TerminalPools κ) : Prop where
  key : t.key = key
  notMem : t ∉ held
  closed : ∀ u ∈ closed, c.new ≠ some u.id → t ≠ u ∧ u ∈ s.closed

/-- The terminal is the new one, or it was free and so it is open. -/
theorem triple_getTerminal :
    Prog.Triple (fun s => (Spares s₀ held shares s ∧ (key, ref) ∈ s.pools.items) ∧
        closed ⊆ s.closed)
      (getTerminal c key ref) (Got c key held closed) fun _ s => closed ⊆ s.closed := by
  rintro s ⟨⟨hspares, hkey⟩, hclosed⟩
  have hinv := hspares.inv
  simp only [getTerminal, Prog.bind_run, Prog.gets_run, onPool]
  cases hget : (s.objs ref).get c.pop (s.newTerminal key c.new) with
  | error e =>
    simp only [Except.map]
    exact hclosed
  | ok r =>
    obtain ⟨-, -, hcases⟩ := Pool.get_cases hget
    have hhas : r.1 ∈ (s.objs ref).free ∨
        (s.objs ref).free = ∅ ∧ s.newTerminal key c.new = some r.1 :=
      hcases.imp And.left fun h => ⟨h.1, h.2.2⟩
    have hkey' : r.1.key = key := by
      rcases hhas with hfree | ⟨-, hnew⟩
      · exact hinv.ref_inj _ ((hinv.fits ref).registered _ (.inr hfree)) _ hkey rfl
      · exact (newTerminal_some hnew).1
    have hnotMem : r.1 ∉ held := by
      intro hheld
      obtain ⟨ref', hin⟩ := hinv.held _ hheld
      rcases hhas with hfree | ⟨-, hnew⟩
      · cases hinv.ref_unique (.inl hin) (.inr hfree)
        exact Finset.disjoint_left.mp (s.objs ref).disjoint hin hfree
      · rcases Nat.lt_or_ge ref' s.count with hlt | hle
        · exact (newTerminal_some hnew).2 ref' hlt (.inl hin)
        · exact hinv.not_has_of_le hle (.inl hin)
    have hne : ∀ u ∈ closed, c.new ≠ some u.id → r.1 ≠ u := by
      rintro u hu hfresh rfl
      rcases hhas with hfree | ⟨-, hnew⟩
      · exact (hinv.fits ref).opened _ (.inr hfree) (hclosed hu)
      · obtain ⟨hmap, -⟩ := Option.filter_eq_some_iff.mp hnew
        obtain ⟨id, hid, hterm⟩ := Option.map_eq_some_iff.mp hmap
        rw [← hterm] at hfresh
        exact hfresh hid
    have hstill : ∀ u ∈ closed, u ∈ s.closed ∪ ([] : List (Terminal κ)).toFinset :=
      fun u hu => Finset.mem_union_left _ (hclosed hu)
    simp only [Except.map]
    split_ifs with hfree hopen
    · exact ⟨hkey', hnotMem, fun u hu hfresh => ⟨hne u hu hfresh,
        Finset.mem_erase.mpr ⟨(hne u hu hfresh).symm, hstill u hu⟩⟩⟩
    · exact hstill
    · exact ⟨hkey', hnotMem, fun u hu hfresh => ⟨hne u hu hfresh, hstill u hu⟩⟩

/-- **`get`.** -/
theorem triple_get {maxProcesses : Option Int} (h : Inv held shares s₀) :
    Prog.Triple (fun s => s = s₀) (get c key maxProcesses)
      (fun t s => Spares s₀ (insert t held) shares s ∧ Got c key held s₀.closed t s)
      fun _ s => Spares s₀ held shares s ∧ s₀.closed ⊆ s.closed := by
  have hspares : Prog.Triple (fun s => s = s₀) (get c key maxProcesses)
      (fun t s => Spares s₀ (insert t held) shares s) fun _ s => Spares s₀ held shares s := by
    rintro s rfl
    exact get_spares c key maxProcesses s (.refl h)
  have hgot : Prog.Triple (fun s => s = s₀) (get c key maxProcesses) (Got c key held s₀.closed)
      fun _ s => s₀.closed ⊆ s.closed := by
    rintro s rfl
    have hpool : Prog.Triple (fun x => Spares s held shares x ∧ s.closed ⊆ x.closed)
        (getPool c key maxProcesses)
        (fun ref x => (Spares s held shares x ∧ (key, ref) ∈ x.pools.items) ∧ s.closed ⊆ x.closed)
        fun _ x => Spares s held shares x ∧ s.closed ⊆ x.closed :=
      Prog.Triple.and (getPool_spares c key maxProcesses) keeps_closed_getPool
    have hclean : ∀ ref, Prog.Triple
        (fun x => (Spares s held shares x ∧ (key, ref) ∈ x.pools.items) ∧ s.closed ⊆ x.closed)
        (cleanIfNeeded c ref)
        (fun _ x => (Spares s held shares x ∧ (key, ref) ∈ x.pools.items) ∧ s.closed ⊆ x.closed)
        fun _ x => Spares s held shares x ∧ s.closed ⊆ x.closed :=
      fun ref => Prog.Triple.and (cleanIfNeeded_spares c) keeps_closed_cleanIfNeeded
    refine Prog.Triple.bind (hpool.mono (fun _ => id) (fun _ _ => id) fun _ _ hs => hs.2)
      (fun ref => ?_) s ⟨.refl h, subset_rfl⟩
    exact ((hclean ref).mono (fun _ => id) (fun _ _ => id) fun _ _ hs => hs.2).bind fun _ =>
      triple_getTerminal
  exact (Prog.Triple.and hspares hgot).mono (fun _ hs => ⟨hs, hs⟩) (fun _ _ => id) fun _ _ => id

theorem keeps_closed_putOp {op : Pool (Terminal κ) → Except PoolExc (Pool (Terminal κ))}
    {isPersistent : Bool} :
    Prog.Keeps (fun s : TerminalPools κ => closed ⊆ s.closed) (putOp op t isPersistent) := by
  apply Prog.keeps_gets_bind
  intro s
  cases s.pools.get? t.key with
  | none => exact Prog.keeps_raise
  | some ref => exact Prog.Triple.ite (fun _ => keeps_closed_onPool) fun _ => keeps_closed_onPool

/-- A terminal that is closed has no account. -/
theorem endsIn_putOp_closed {op : Pool (Terminal κ) → Except PoolExc (Pool (Terminal κ))}
    {isPersistent : Bool} (h : Inv held shares s) (ht : t ∈ s.closed) :
    (putOp op t isPersistent s).EndsIn (Inv held shares) := by
  cases hget : s.pools.get? t.key with
  | none =>
    simp only [putOp, Prog.bind_run, Prog.gets_run, hget, Prog.raise_run]
    exact h
  | some ref =>
    have hstored : ¬ s.shallBeStored t isPersistent := by simp [shallBeStored, ht]
    rw [putOp_removed hget hstored]
    have hremoved := h.remove (Dict.get?_eq_some.mp hget)
    rw [Finset.erase_eq_of_notMem (h.notMem_of_closed ht), ← h.shares_of_closed ht,
      Function.update_eq_self] at hremoved
    exact hremoved

theorem Inv.shallBeStored (h : Inv held shares s) (ht : t ∈ held ∨ 0 < shares t) :
    s.shallBeStored t true := by
  simpa [TerminalPools.shallBeStored] using h.not_closed ht

/-- `put` of a terminal that is held. -/
theorem put_held (h : Inv (insert t held) shares s) (ht : t ∉ held) :
    ∃ s', put t true s = .ret () s' ∧ Inv held shares s' := by
  have hmem : t ∈ insert t held := Finset.mem_insert_self t held
  obtain ⟨s', hs', -, hinv⟩ : ∃ s', put t true s = .ret () s' ∧ ClosesOnly t s s' ∧ _ :=
    put_run h hmem
  rw [if_pos (h.shallBeStored (.inl hmem)), Function.update_eq_self,
    Finset.erase_insert ht] at hinv
  exact ⟨s', hs', hinv⟩

theorem putIncrShared_held (h : Inv (insert t held) shares s) (ht : t ∉ held) :
    ∃ s', putIncrShared t true s = .ret () s' ∧
      Inv held (Function.update shares t (shares t + 1)) s' := by
  have hmem : t ∈ insert t held := Finset.mem_insert_self t held
  obtain ⟨s', hs', -, hinv⟩ : ∃ s', putIncrShared t true s = .ret () s' ∧ ClosesOnly t s s' ∧ _ :=
    putIncrShared_run h hmem
  rw [if_pos (h.shallBeStored (.inl hmem)), Finset.erase_insert ht] at hinv
  exact ⟨s', hs', hinv⟩

/-- `decr_shared` of a terminal that is shared, or closed. -/
theorem endsIn_decrShared (h : Inv held shares s) (ht : t ∈ s.closed ∨ 0 < shares t) :
    (decrShared t true s).EndsIn (Inv held (Function.update shares t (shares t - 1))) := by
  rcases ht with ht | ht
  · have hzero := h.shares_of_closed ht
    have hsame : Function.update shares t (shares t - 1) = shares := by
      rw [hzero, Nat.zero_sub, ← hzero, Function.update_eq_self]
    rw [hsame]
    exact endsIn_putOp_closed h ht
  · obtain ⟨s', hs', -, hinv⟩ : ∃ s', decrShared t true s = .ret () s' ∧ ClosesOnly t s s' ∧ _ :=
      decrShared_run h ht
    rw [if_pos (h.shallBeStored (.inr ht)), if_pos (h.shallBeStored (.inr ht))] at hinv
    rw [hs']
    exact hinv

/-- `remove` of a terminal in a pool, or of a closed one. -/
theorem remove_spec (h : Inv held shares s) (ht : t ∈ s.closed ∨ ∃ ref, (s.objs ref).Has t) :
    ∃ s', remove t s = .ret () s' ∧ Inv (held.erase t) (Function.update shares t 0) s' ∧
      insert t s.closed ⊆ s'.closed := by
  cases hget : s.pools.get? t.key with
  | none =>
    have hclosed : t ∈ s.closed := by
      rcases ht with ht | ⟨ref, hhas⟩
      · exact ht
      · exact absurd hhas (h.not_has_of_get? hget)
    refine ⟨s, ?_, ?_, Finset.insert_subset hclosed subset_rfl⟩
    · simp only [remove, Prog.bind_run, Prog.gets_run, hget, Prog.pure_run]
    · rw [Finset.erase_eq_of_notMem (h.notMem_of_closed hclosed), ← h.shares_of_closed hclosed,
        Function.update_eq_self]
      exact h
  | some ref =>
    refine ⟨_, ?_, h.remove (Dict.get?_eq_some.mp hget), ?_⟩
    · simp only [remove, Prog.bind_run, Prog.gets_run, hget, removeFrom, onPool]
    · intro u hu
      rcases Finset.mem_insert.mp hu with rfl | hu
      · exact Finset.mem_union_right _ (by simp)
      · exact Finset.mem_union_left _ hu

/-- The loop of `close`. -/
theorem closePools_run (order : SetOrder (Terminal κ)) (items : List (κ × Nat))
    (s : TerminalPools κ) :
    ∃ s', closePools order items s = .ret () s' ∧ s.closed ⊆ s'.closed ∧
      (∀ ref, s'.objs ref =
        if ref ∈ items.map Prod.snd then (s.objs ref).close else s.objs ref) ∧
      ∀ ref ∈ items.map Prod.snd, ∀ t, (s.objs ref).Has t → t ∈ s'.closed := by
  induction items generalizing s with
  | nil => exact ⟨s, rfl, subset_rfl, fun ref => rfl, by simp⟩
  | cons x items ih =>
    obtain ⟨key, ref₀⟩ := x
    obtain ⟨s', hs', hsub, hobjs, hclosed⟩ := ih (s.change ref₀ (s.objs ref₀).close
      (order.list ((s.objs ref₀).inuse ∪ (s.objs ref₀).free))
      (s.closed ∪ (order.list ((s.objs ref₀).inuse ∪ (s.objs ref₀).free)).toFinset))
    have hfirst : ∀ t, (s.objs ref₀).Has t → t ∈ s'.closed := by
      intro t ht
      apply hsub
      apply Finset.mem_union_right
      rw [List.mem_toFinset, order.mem_list, Finset.mem_union]
      exact ht
    refine ⟨s', hs', Finset.subset_union_left.trans hsub, fun ref => ?_, ?_⟩
    · rw [hobjs]
      by_cases hr : ref = ref₀
      · subst hr
        rw [change_self, List.map_cons, if_pos List.mem_cons_self]
        split <;> rfl
      · rw [change_of_ne hr, List.map_cons]
        simp only [List.mem_cons, hr, false_or]
    · intro ref href t ht
      by_cases hr : ref = ref₀
      · exact hfirst t (hr ▸ ht)
      · have hmem : ref ∈ items.map Prod.snd := by simpa [hr] using href
        exact hclosed ref hmem t (by rwa [change_of_ne hr])

/-- **`close`.**  All terminals are closed, and there are no pools. -/
theorem close_run (order : SetOrder (Terminal κ)) (h : Inv held shares s) :
    ∃ s', close order s = .ret () s' ∧ Inv ∅ (fun _ => 0) s' ∧ s.closed ⊆ s'.closed ∧
      ∀ ref t, (s.objs ref).Has t → t ∈ s'.closed := by
  obtain ⟨s', hs', hsub, hobjs, hclosed⟩ := closePools_run order s.pools.items s
  have hregistered : ∀ ref t, (s.objs ref).Has t → ref ∈ s.pools.items.map Prod.snd :=
    fun ref t ht => List.mem_map_of_mem ((h.fits ref).registered t ht)
  have hempty : ∀ ref t, ¬ (s'.objs ref).Has t := by
    intro ref t ht
    rw [hobjs] at ht
    split at ht
    · exact Pool.not_has_empty t ht
    · next hnot => exact hnot (hregistered ref t ht)
  refine ⟨{ s' with pools := Dict.empty }, ?_, ?_, hsub, fun ref t ht =>
    hclosed ref (hregistered ref t ht) t ht⟩
  · rw [close, Prog.bind_ret (Prog.gets_run _ s), Prog.bind_ret hs']
    rfl
  · refine ⟨by simp [Dict.empty], by simp [Dict.empty], fun ref => ?_, by simp, by simp⟩
    refine ⟨fun t ht => absurd ht (hempty ref t), fun t ht => absurd ht (hempty ref t),
      fun t ht => absurd ht (hempty ref t), fun t _ => ?_⟩
    rw [hobjs]
    split
    · rfl
    · next hnot => exact (h.fits ref).uncounted t fun ht => hnot (hregistered ref t ht)

end TerminalPools

/-! ## Runs -/

namespace Process

variable {κ : Type} [DecidableEq κ] {e : RunEnv κ} {zone : Option String} {t : Terminal κ}
  {held closed : Finset (Terminal κ)} {shares : Terminal κ → Nat} {pools : TerminalPools κ}

/-- The process has its terminal.  `closed` are terminals that stay closed. -/
structure Uses (t : Terminal κ) (held : Finset (Terminal κ)) (shares : Terminal κ → Nat)
    (closed : Finset (Terminal κ)) (s : Process κ) : Prop where
  terminal : s.terminal = some t
  inv : TerminalPools.Inv (insert t held) shares s.pools
  closed : closed ⊆ s.pools.closed

/-- The terminal of the process was removed. -/
structure Dropped (t : Terminal κ) (held : Finset (Terminal κ)) (shares : Terminal κ → Nat)
    (closed : Finset (Terminal κ)) (s : Process κ) : Prop where
  terminal : s.terminal = some t
  inv : TerminalPools.Inv held (Function.update shares t 0) s.pools
  closed : insert t closed ⊆ s.pools.closed

/-- The process has no terminal, or it gave it back. -/
structure Balanced (held : Finset (Terminal κ)) (shares : Terminal κ → Nat)
    (closed : Finset (Terminal κ)) (s : Process κ) : Prop where
  inv : TerminalPools.Inv held shares s.pools
  closed : closed ⊆ s.pools.closed

theorem triple_killRunAndRaise_uses (ht : t ∉ held) :
    Prog.Triple (Uses t held shares closed) (killRunAndRaise e) (fun _ _ => False)
      fun _ s => Uses t held shares closed s ∨ Dropped t held shares closed s := by
  have hkill : ∀ r, Prog.Triple (Uses t held shares closed) (killAndRaiseOrReturnHandle r)
      (fun _ => Uses t held shares closed)
      fun _ s => Uses t held shares closed s ∨ Dropped t held shares closed s := fun r =>
    (triple_killAndRaiseOrReturnHandle r).mono (fun _ => id) (fun _ _ => id) fun _ _ => .inl
  refine (hkill _).bind fun _ => (hkill _).bind fun handle => ?_
  refine Prog.Triple.bind (Q := fun _ => Uses t held shares closed) ?_ fun pid => ?_
  · exact (triple_remote _).mono (fun _ => id) (fun _ _ => id) fun _ _ => .inl
  · intro s hs
    obtain ⟨ref, hin⟩ := hs.inv.held t (Finset.mem_insert_self t held)
    obtain ⟨pools, hremove, hinv, hclosed⟩ :=
      TerminalPools.remove_spec hs.inv (.inr ⟨ref, .inl hin⟩)
    rw [Prog.bind_ret (selfTerminal_run hs.terminal), Prog.bind_ret (onPools_ret hremove)]
    rw [Finset.erase_insert ht] at hinv
    exact .inr ⟨hs.terminal, hinv, (Finset.insert_subset_insert t hs.closed).trans hclosed⟩

omit [DecidableEq κ] in
theorem endsIn_onPools {α : Type} {m : Prog (TerminalPoolsExc κ) (TerminalPools κ) α}
    {P : TerminalPools κ → Prop} {s : Process κ} (h : (m s.pools).EndsIn P) :
    (onPools m s).EndsIn fun s' => s'.terminal = s.terminal ∧ P s'.pools := by
  unfold onPools
  cases hm : m s.pools with
  | ret a pools =>
    rw [hm] at h
    exact ⟨rfl, h⟩
  | raised e pools =>
    rw [hm] at h
    exact ⟨rfl, h⟩
  | hang => trivial

theorem triple_finalizeTerminal_uses (he : e.isPersistent = true) (ht : t ∉ held)
    (hshares : shares t = 0) :
    Prog.Triple (fun s => Uses t held shares closed s ∨ Dropped t held shares closed s)
      (finalizeTerminal e) (fun _ => Balanced held shares closed)
      fun _ => Balanced held shares closed := by
  have hput : ∀ s : Process κ, s.terminal = some t → closed ⊆ s.pools.closed →
      (TerminalPools.put t e.isPersistent s.pools).EndsIn (TerminalPools.Inv held shares) →
        (finalizeTerminal e s).EndsIn (Balanced held shares closed) := by
    intro s hterminal hclosed hs
    rw [finalizeTerminal, Prog.bind_ret (selfTerminal_run hterminal)]
    refine (endsIn_onPools (hs.and (TerminalPools.keeps_closed_putOp.endsIn hclosed))).mono ?_
    exact fun s' hs' => ⟨hs'.2.1, hs'.2.2⟩
  refine Prog.triple_of_endsIn fun s hs => ?_
  rcases hs with hs | hs
  · obtain ⟨pools, hrun, hinv⟩ := TerminalPools.put_held hs.inv ht
    refine hput s hs.terminal hs.closed ?_
    rw [he, hrun]
    exact hinv
  · have hinv := hs.inv
    rw [← hshares, Function.update_eq_self] at hinv
    have hsub := Finset.insert_subset_iff.mp hs.closed
    exact hput s hs.terminal hsub.2 (TerminalPools.endsIn_putOp_closed hinv hsub.1)

theorem triple_communicateWithCleanup_uses (he : e.isPersistent = true) (ht : t ∉ held)
    (hshares : shares t = 0) :
    Prog.Triple (Uses t held shares closed) (communicateWithCleanup e)
      (fun _ => Balanced held shares closed) fun _ => Balanced held shares closed := by
  have hlast : Prog.Triple
      (fun s => Uses t held shares closed s ∨ Dropped t held shares closed s) (finalizeTerminal e)
      (fun _ => Balanced held shares closed) fun _ => Balanced held shares closed :=
    triple_finalizeTerminal_uses he ht hshares
  refine Prog.Triple.tryFinally (Q := fun _ s => Uses t held shares closed s ∨
    Dropped t held shares closed s) ?_ (fun _ => hlast) fun _ => hlast
  refine Prog.Triple.tryExcept (E := fun _ => Uses t held shares closed)
    ((triple_getResult _ _).mono (fun _ => id) (fun _ _ => .inl) fun _ _ => id)
    (fun exc p hp => ?_) fun _ _ _ => .inl
  split at hp
  · cases hp
    exact (triple_killRunAndRaise_uses ht).mono (fun _ => id) (fun _ _ => False.elim) fun _ _ => id
  · cases hp

omit [DecidableEq κ] in
theorem keeps_readLines {P : Process κ → Prop} (linesEnd : Except RemoteExc Unit) (timeout : ℚ)
    (lines : List (ℚ × Bytes)) : Prog.Keeps P (readLines linesEnd timeout lines) := by
  intro s hs
  rcases checks_readLines (s := s) linesEnd timeout lines with ⟨-, a, ha⟩ | ⟨-, exc, hexc⟩
  · rw [ha]
    exact hs
  · rw [hexc]
    exact hs

/-! ### From `get` on -/

/-- The process has a terminal with the key of its zone. -/
def Owns (e : RunEnv κ) (zone : Option String) (held : Finset (Terminal κ))
    (shares : Terminal κ → Nat) (closed : Finset (Terminal κ)) (s : Process κ) : Prop :=
  ∃ t, (t ∉ held ∧ t ∉ closed ∧ t.key = e.key zone) ∧ Uses t held shares closed s

/-- A terminal may have been left in use. -/
def Ran (held : Finset (Terminal κ)) (shares : Terminal κ → Nat) (closed : Finset (Terminal κ))
    (s : Process κ) : Prop :=
  ∃ held', held ⊆ held' ∧ Balanced held' shares closed s

/-- A background process has one share more of its terminal. -/
def Shared (e : RunEnv κ) (held : Finset (Terminal κ)) (shares : Terminal κ → Nat)
    (closed : Finset (Terminal κ)) (s : Process κ) : Prop :=
  ∃ t, s.terminal = some t ∧ t.key = e.key (some "background") ∧ t ∉ closed ∧
    Balanced held (Function.update shares t (shares t + 1)) closed s

omit [DecidableEq κ] in
theorem Balanced.ran {s : Process κ} (h : Balanced held shares closed s) :
    Ran held shares closed s := ⟨held, subset_rfl, h⟩

theorem Owns.ran {s : Process κ} (h : Owns e zone held shares closed s) :
    Ran held shares closed s := by
  obtain ⟨t, -, hs⟩ := h
  exact ⟨insert t held, Finset.subset_insert t held, hs.inv, hs.closed⟩

/-- `closed` holds terminals that were closed and whose `id()` was not used again. -/
theorem triple_initializeTerminal (h : TerminalPools.Inv held shares pools)
    (hclosed : ∀ u ∈ closed, u ∈ pools.closed ∧ e.choice.new ≠ some u.id) :
    Prog.Triple (fun s => s = ⟨pools, none⟩) (initializeTerminal e zone)
      (fun _ => Owns e zone held shares closed)
      fun _ s => Owns e zone held shares closed s ∨
        s.terminal = none ∧ Balanced held shares closed s := by
  have hget : Prog.Triple (fun s => s = pools)
      (TerminalPools.get e.choice (e.key zone) e.maxProcesses)
      (fun t s => pools.Spares (insert t held) shares s ∧
        TerminalPools.Got e.choice (e.key zone) held pools.closed t s)
      fun _ s => pools.Spares held shares s ∧ pools.closed ⊆ s.closed :=
    TerminalPools.triple_get h
  refine Prog.Triple.bind (Q := fun t s => (t ∉ held ∧ t ∉ closed ∧ t.key = e.key zone) ∧
    Uses t held shares closed { s with terminal := some t }) ?_ fun t => ?_
  · rintro s rfl
    have hs := hget pools rfl
    unfold onPools
    cases hrun : TerminalPools.get e.choice (e.key zone) e.maxProcesses pools with
    | ret t pools' =>
      rw [hrun] at hs
      obtain ⟨hspares, hgot⟩ := hs
      have hkept : ∀ u ∈ closed, t ≠ u ∧ u ∈ pools'.closed := fun u hu =>
        hgot.closed u (hclosed u hu).1 (hclosed u hu).2
      exact ⟨⟨hgot.notMem, fun hmem => (hkept t hmem).1 rfl, hgot.key⟩, rfl, hspares.inv,
        fun u hu => (hkept u hu).2⟩
    | raised exc pools' =>
      rw [hrun] at hs
      exact .inr ⟨rfl, hs.1.inv, fun u hu => hs.2 (hclosed u hu).1⟩
    | hang => trivial
  · apply Prog.Triple.modify_bind fun s => Owns e zone held shares closed s
    · exact (triple_remote _).mono (fun _ => id) (fun _ _ => id) fun _ _ => .inl
    · exact fun s hs => ⟨t, hs⟩

section
variable (h : TerminalPools.Inv held shares pools) (he : e.isPersistent = true)
  (hclosed : ∀ u ∈ closed, u ∈ pools.closed ∧ e.choice.new ≠ some u.id)
include h hclosed

/-- The remote steps before `communicate`. -/
theorem triple_runBase {cls : ProcessClass} {Q : Returned → Process κ → Prop}
    (hQ : Prog.Triple (Owns e cls.zone held shares closed) (communicate e cls) Q
      fun _ => Ran held shares closed) :
    Prog.Triple (fun s => s = ⟨pools, none⟩) (runBase e cls) Q
      fun _ => Ran held shares closed := by
  have hremote : ∀ reply : Except RemoteExc Unit,
      Prog.Triple (Owns e cls.zone held shares closed) (remote reply)
        (fun _ => Owns e cls.zone held shares closed) fun _ => Ran held shares closed :=
    fun reply => (triple_remote reply).mono (fun _ => id) (fun _ _ => id) fun _ _ => Owns.ran
  refine Prog.Triple.bind (Q := fun _ => Owns e cls.zone held shares closed) ?_ fun _ =>
    (hremote _).bind fun _ => (hremote _).bind fun _ => hQ
  refine (triple_initializeTerminal h hclosed).mono (fun _ => id) (fun _ _ => id) ?_
  rintro exc s (hs | ⟨-, hs⟩)
  · exact hs.ran
  · exact hs.ran

include he

/-- **A foreground run.** -/
theorem triple_runForeground {cls : ProcessClass}
    (hcls : cls = .foregroundProcessWithoutPty ∨ cls = .asyncProcessWithoutPty)
    (hzone : ∀ t : Terminal κ, t.key = e.key none → shares t = 0) :
    Prog.Triple (fun s => s = ⟨pools, none⟩) (run e cls) (fun _ => Ran held shares closed)
      fun _ => Ran held shares closed := by
  have hcleanup : Prog.Triple (Owns e none held shares closed) (communicateWithCleanup e)
      (fun _ => Ran held shares closed) fun _ => Ran held shares closed :=
    Prog.triple_exists fun t => by
      rintro s ⟨⟨ht, -, hkey⟩, hs⟩
      exact (triple_communicateWithCleanup_uses he ht (hzone t hkey)).mono (fun _ => id)
        (fun _ _ => Balanced.ran) (fun _ _ => Balanced.ran) s hs
  rcases hcls with rfl | rfl
  · refine triple_runBase h hclosed ?_
    exact hcleanup.bind fun _ _ hs => hs
  · refine triple_runBase h hclosed ?_
    have hlift : ∀ {β : Type} {m : Prog (ProcessExc κ) (Process κ) β},
        Prog.Keeps (Owns e none held shares closed) m →
          Prog.Triple (Owns e none held shares closed) m
            (fun _ => Owns e none held shares closed) fun _ => Ran held shares closed :=
      fun hm => hm.mono (fun _ => id) (fun _ _ => id) fun _ _ => Owns.ran
    refine Prog.Triple.bind (Q := fun _ => Ran held shares closed) ?_ fun _ _ hs => hs
    refine (hlift (triple_remote _)).bind fun _ => (hlift (triple_remote _)).bind fun _ => ?_
    refine (hlift (keeps_readLines _ _ _)).bind fun stdout => ?_
    exact hcleanup.bind fun _ _ hs => hs

/-- **A nohup run.** -/
theorem triple_runNoComm :
    Prog.Triple (fun s => s = ⟨pools, none⟩) (run e .noCommBackgroudProcess)
      (fun _ => Balanced held shares closed) fun _ => Balanced held shares closed := by
  have hput : Prog.Triple (Owns e (some "background") held shares closed) (finalizeTerminalIfAny e)
      (fun _ => Balanced held shares closed) fun _ => Balanced held shares closed :=
    Prog.triple_exists fun t => by
      rintro s ⟨⟨ht, -, -⟩, hs⟩
      obtain ⟨pools', hrun, hinv⟩ := TerminalPools.put_held hs.inv ht
      have hkept := TerminalPools.keeps_closed_putOp.of_ret hs.closed hrun
      rw [← he] at hrun
      simp only [finalizeTerminalIfAny, Prog.bind_run, Prog.gets_run, hs.terminal,
        onPools_ret hrun]
      exact ⟨hinv, hkept⟩
  have hnone : Prog.Triple (fun s => s.terminal = none ∧ Balanced held shares closed s)
      (finalizeTerminalIfAny e) (fun _ => Balanced held shares closed)
      fun _ => Balanced held shares closed := by
    rintro s ⟨hterminal, hs⟩
    simp only [finalizeTerminalIfAny, Prog.bind_run, Prog.gets_run, hterminal, Prog.pure_run]
    exact hs
  have hall : Prog.Triple (fun s => Owns e (some "background") held shares closed s ∨
      s.terminal = none ∧ Balanced held shares closed s) (finalizeTerminalIfAny e)
      (fun _ => Balanced held shares closed) fun _ => Balanced held shares closed := by
    rintro s (hs | hs)
    · exact hput s hs
    · exact hnone s hs
  refine Prog.Triple.tryFinally (Q := fun _ => Owns e (some "background") held shares closed)
    (E := fun _ s => Owns e (some "background") held shares closed s ∨
      s.terminal = none ∧ Balanced held shares closed s) ?_ (fun _ => hput) fun _ => hall
  refine (triple_initializeTerminal h hclosed).bind fun _ => Prog.Triple.bind
    ((triple_remote _).mono (fun _ => id) (fun _ _ => id) fun _ _ => .inl) fun pid _ hs => hs

/-- **A background run.** -/
theorem triple_runBackground :
    Prog.Triple (fun s => s = ⟨pools, none⟩) (run e .backgroundProcessWithoutPty)
      (fun _ => Shared e held shares closed) fun _ => Ran held shares closed := by
  refine triple_runBase h hclosed ?_
  refine Prog.Triple.bind (Q := fun _ => Shared e held shares closed) ?_ fun _ _ hs => hs
  refine Prog.Triple.bind ((triple_remote _).mono (fun _ => id) (fun _ _ => id)
    fun _ _ => Owns.ran) fun _ => Prog.triple_exists fun t => ?_
  rintro s ⟨⟨ht, hopen, hkey⟩, hs⟩
  obtain ⟨pools', hrun, hinv⟩ := TerminalPools.putIncrShared_held hs.inv ht
  have hkept := TerminalPools.keeps_closed_putOp.of_ret hs.closed hrun
  rw [← he] at hrun
  rw [Prog.bind_ret (selfTerminal_run hs.terminal), onPools_ret hrun]
  exact ⟨t, hs.terminal, hkey, hopen, hinv, hkept⟩

end

end Process

/-! ## Background processes -/

namespace BackgroundProcess

variable {κ α : Type} [DecidableEq κ] {t : Terminal κ} {held closed : Finset (Terminal κ)}
  {shares : Terminal κ → Nat}

/-- A background process on `t`, with these accounts. -/
structure On (t : Terminal κ) (held : Finset (Terminal κ)) (shares : Terminal κ → Nat)
    (closed : Finset (Terminal κ)) (s : BackgroundProcess κ) : Prop where
  terminal : s.process.terminal = some t
  isPersistent : s.isPersistent = true
  balanced : Process.Balanced held shares closed s.process

/-- There is no result. -/
def Waits (t : Terminal κ) (held : Finset (Terminal κ)) (shares : Terminal κ → Nat)
    (closed : Finset (Terminal κ)) (s : BackgroundProcess κ) : Prop :=
  s.result = none ∧ On t held shares closed s

/-- There is a result, and the share was given back. -/
def Done (t : Terminal κ) (held : Finset (Terminal κ)) (shares : Terminal κ → Nat)
    (closed : Finset (Terminal κ)) (s : BackgroundProcess κ) : Prop :=
  s.result.isSome ∧ On t held (Function.update shares t (shares t - 1)) closed s

/-- There is no result, and the terminal was removed with all its shares. -/
def Lost (t : Terminal κ) (held : Finset (Terminal κ)) (shares : Terminal κ → Nat)
    (closed : Finset (Terminal κ)) (s : BackgroundProcess κ) : Prop :=
  s.result = none ∧ On t (held.erase t) (Function.update shares t 0) (insert t closed) s

omit [DecidableEq κ] in
/-- Remote steps do not change the process. -/
theorem keeps_onProcess_of_same {m : Prog (ProcessExc κ) (Process κ) α}
    (hm : ∀ p, Prog.Keeps (fun q => q = p) m) (P : BackgroundProcess κ → Prop) :
    Prog.Keeps P (onProcess m) := by
  intro s hs
  have hsame := hm s.process s.process rfl
  unfold onProcess Prog.zoom
  cases hrun : m s.process with
  | ret a p =>
    rw [hrun] at hsame
    cases hsame
    exact hs
  | raised e p =>
    rw [hrun] at hsame
    cases hsame
    exact hs
  | hang => trivial

omit [DecidableEq κ] in
theorem keeps_waits_log (event : BackgroundEvent) :
    Prog.Keeps (Waits t held shares closed) (log event : Prog (ProcessExc κ) _ _) :=
  Prog.keeps_modify fun _ hs => ⟨hs.1, hs.2.terminal, hs.2.isPersistent, hs.2.balanced⟩

omit [DecidableEq κ] in
theorem keeps_waits_round (handle sig : Nat) (r : KillReplies) :
    Prog.Keeps (Waits t held shares closed) (killAndRaiseOrReturnHandle handle sig r) := by
  refine Prog.Keeps.tryExcept ?_ fun exc p hp => ?_
  · refine (keeps_waits_log _).bind fun _ => ?_
    refine (keeps_onProcess_of_same (fun _ => Process.triple_kill r) _).bind fun _ => ?_
    apply Prog.keeps_gets_bind
    intro terminationTimeout
    refine (keeps_waits_log _).bind fun _ => ?_
    refine (keeps_onProcess_of_same (fun _ => Process.triple_getResult _ _) _).bind fun result => ?_
    exact Prog.keeps_raise
  · split at hp
    · cases hp
      exact Prog.keeps_pure
    · cases hp

omit [DecidableEq κ] in
theorem onProcess_ret {m : Prog (ProcessExc κ) (Process κ) α} {s : BackgroundProcess κ} {a : α}
    {p : Process κ} (h : m s.process = .ret a p) :
    onProcess m s = .ret a { s with process := p } := by
  simp only [onProcess, Prog.zoom, h]

omit [DecidableEq κ] in
theorem endsIn_onProcess {m : Prog (ProcessExc κ) (Process κ) α} {P : Process κ → Prop}
    {s : BackgroundProcess κ} (h : (m s.process).EndsIn P) :
    (onProcess m s).EndsIn fun s' => ∃ p, s' = { s with process := p } ∧ P p := by
  unfold onProcess Prog.zoom
  cases hm : m s.process with
  | ret a p | raised e p =>
    rw [hm] at h
    exact ⟨p, rfl, h⟩
  | hang => trivial

/-- **A kill that fails.**  The terminal is removed. -/
theorem triple_killRunAndRaise_waits (ht : t ∈ closed ∨ 0 < shares t) (handle : Nat)
    (r : KillRun) :
    Prog.Triple (Waits t held shares closed) (killRunAndRaise handle r) (fun _ _ => False)
      fun exc s => Waits t held shares closed s ∨
        Lost t held shares closed s ∧ ∃ pid handle, exc = .failedToKillProcess pid handle := by
  have hlift : ∀ {β : Type} {m : Prog (ProcessExc κ) (BackgroundProcess κ) β},
      Prog.Keeps (Waits t held shares closed) m →
        Prog.Triple (Waits t held shares closed) m (fun _ => Waits t held shares closed)
          fun exc s => Waits t held shares closed s ∨
            Lost t held shares closed s ∧ ∃ pid handle, exc = .failedToKillProcess pid handle :=
    fun hm => hm.mono (fun _ => id) (fun _ _ => id) fun _ _ => .inl
  refine (hlift (keeps_waits_round _ _ _)).bind fun _ => ?_
  refine (hlift (keeps_waits_round _ _ _)).bind fun handle => ?_
  refine (hlift (keeps_onProcess_of_same (fun _ => Process.triple_remote _) _)).bind fun pid => ?_
  rintro s ⟨hresult, hs⟩
  have hinv := hs.balanced.inv
  have hin : t ∈ s.process.pools.closed ∨ ∃ ref, (s.process.pools.objs ref).Has t :=
    ht.imp (fun hmem => hs.balanced.closed hmem) (hinv.shared t)
  obtain ⟨pools, hremove, hinv', hclosed⟩ := TerminalPools.remove_spec hinv hin
  rw [Prog.bind_ret (onProcess_ret (Process.selfTerminal_run hs.terminal)),
    Prog.bind_ret (onProcess_ret (Process.onPools_ret hremove))]
  refine .inr ⟨⟨hresult, hs.terminal, hs.isPersistent, hinv', ?_⟩, pid, handle, rfl⟩
  exact (Finset.insert_subset_insert t hs.balanced.closed).trans hclosed

/-- **A result.**  If giving the share back raises, the terminal was closed before. -/
theorem triple_setResult_waits (ht : t ∈ closed ∨ 0 < shares t) (result : RunResult) :
    Prog.Triple (Waits t held shares closed) (setResult result)
      (fun _ => Done t held shares closed) fun _ => Done t held shares closed := by
  have hdecr : Prog.Triple
      (fun s : BackgroundProcess κ => s.result = some result ∧ On t held shares closed s)
      decrShared (fun _ => Done t held shares closed) fun _ => Done t held shares closed := by
    apply Prog.Triple.modify_bind fun s => s.result = some result ∧ On t held shares closed s
    · apply Prog.Triple.gets_bind
      intro isPersistent
      refine Prog.triple_of_endsIn fun s hs => ?_
      obtain ⟨⟨hresult, hs⟩, rfl⟩ := hs
      have hin := ht.imp_left fun hmem => hs.balanced.closed hmem
      have hpools := (TerminalPools.endsIn_decrShared hs.balanced.inv hin).and
        (TerminalPools.keeps_closed_putOp.endsIn hs.balanced.closed)
      rw [← hs.isPersistent] at hpools
      refine (endsIn_onProcess (P := fun p => p.terminal = some t ∧ Process.Balanced held
        (Function.update shares t (shares t - 1)) closed p) ?_).mono ?_
      · rw [Prog.bind_ret (Process.selfTerminal_run hs.terminal)]
        refine (Process.endsIn_onPools hpools).mono fun p hp => ?_
        exact ⟨hp.1.trans hs.terminal, hp.2.1, hp.2.2⟩
      · rintro s' ⟨p, rfl, hterminal, hbalanced⟩
        exact ⟨Option.isSome_iff_exists.mpr ⟨result, hresult⟩, hterminal, hs.isPersistent,
          hbalanced⟩
    · exact fun s hs => ⟨hs.1, hs.2.terminal, hs.2.isPersistent, hs.2.balanced⟩
  apply Prog.Triple.modify_bind fun s => s.result = some result ∧ On t held shares closed s
  · exact hdecr.bind fun _ _ hs => hs
  · exact fun s hs => ⟨rfl, hs.2.terminal, hs.2.isPersistent, hs.2.balanced⟩

theorem triple_waitBackgroundExecution (ht : t ∈ closed ∨ 0 < shares t) (timeout : ℚ)
    (response : Except RemoteExc (Bytes × Bytes)) (returncode : Except RemoteExc Int) :
    Prog.Triple (Waits t held shares closed)
      (waitBackgroundExecution timeout response returncode) (fun _ => Done t held shares closed)
      fun _ s => Waits t held shares closed s ∨ Done t held shares closed s := by
  intro s hs
  rw [waitBackgroundExecution, Prog.bind_ret (Prog.gets_run _ s), hs.1]
  have hlift : ∀ {β : Type} {m : Prog (ProcessExc κ) (BackgroundProcess κ) β},
      Prog.Keeps (Waits t held shares closed) m →
        Prog.Triple (Waits t held shares closed) m (fun _ => Waits t held shares closed)
          fun _ s => Waits t held shares closed s ∨ Done t held shares closed s :=
    fun hm => hm.mono (fun _ => id) (fun _ _ => id) fun _ _ => .inl
  refine (Prog.Triple.bind (hlift (keeps_waits_log _)) fun _ => Prog.Triple.bind (hlift
    (keeps_onProcess_of_same (fun _ => Process.triple_getResult _ _) _)) fun result => ?_) s hs
  exact (triple_setResult_waits ht result).mono (fun _ => id) (fun _ _ => id) fun _ _ => .inr

theorem triple_killBackgroundExecution (ht : t ∈ closed ∨ 0 < shares t) (r : KillRun) :
    Prog.Triple (Waits t held shares closed) (killBackgroundExecution r)
      (fun _ => Done t held shares closed)
      fun exc s => (Waits t held shares closed s ∨ Done t held shares closed s) ∨
        Lost t held shares closed s ∧ ∃ pid handle, exc = .failedToKillProcess pid handle := by
  apply Prog.Triple.gets_bind
  intro handle
  refine Prog.Triple.tryExcept ((triple_killRunAndRaise_waits ht handle r).mono
    (fun _ hs => hs.1) (fun _ _ => False.elim) fun _ _ => id) ?_ ?_
  · intro exc p hp
    split at hp
    · next result =>
      cases hp
      rintro s (hs | ⟨-, pid, handle, hexc⟩)
      · exact (triple_setResult_waits ht result).mono (fun _ => id) (fun _ _ => id)
          (fun _ _ hs => .inl (.inr hs)) s hs
      · cases hexc
    · cases hp
  · intro exc s _ hs
    exact hs.imp_left .inl

end BackgroundProcess

end InteractiveSessions
