import InteractiveSessions.TerminalPools

/-!
# Who owns a terminal

A terminal is held from the `get` that returned it until it is put back or
removed, and has outstanding shares for every `put_incr_shared` without its
`decr_shared`.  When `put`, `put_incr_shared` and `decr_shared` are called for
such terminals only, `safe` says that in every reachable state

* the sets of every pool are disjoint;
* no step closes another terminal that is in use or shared;
* such a terminal is in the pool that is registered under its key, and these
  calls return.
-/

namespace InteractiveSessions

namespace Pool

variable {ι : Type}

/-- The item is in the pool. -/
def Has (p : Pool ι) (i : ι) : Prop := i ∈ p.inuse ∨ i ∈ p.free

theorem not_has_empty (i : ι) : ¬ (empty : Pool ι).Has i := by
  rintro (h | h) <;> exact absurd h (Finset.notMem_empty i)

theorem not_has_of_size {p : Pool ι} (h : p.size = 0) (i : ι) : ¬ p.Has i := by
  have hsize : p.inuse.card = 0 ∧ p.free.card = 0 := Nat.add_eq_zero_iff.mp h
  rintro (hi | hi)
  · exact Finset.notMem_empty i (Finset.card_eq_zero.mp hsize.1 ▸ hi)
  · exact Finset.notMem_empty i (Finset.card_eq_zero.mp hsize.2 ▸ hi)

variable [DecidableEq ι]

/-- `p'` is `p` without the items, which are free and not shared. -/
structure Evicts (p : Pool ι) (items : List ι) (p' : Pool ι) : Prop where
  unshared : ∀ i ∈ items, i ∈ p.free ∧ p.shared i = 0
  inuse : p'.inuse = p.inuse
  shared : p'.shared = p.shared
  free : p'.free = p.free \ items.toFinset

theorem evicts_removeNFree (order : SetOrder ι) (n : Int) (p : Pool ι) :
    Evicts p (p.removeNFree order n).1 (p.removeNFree order n).2 := by
  obtain ⟨hmem, -, -, hinuse, hshared, hfree⟩ := removeNFree_spec order n p
  exact ⟨hmem, hinuse, hshared, hfree⟩

theorem evicts_setMaxsize {order : SetOrder ι} {maxsize : Option Int} {p : Pool ι}
    {r : List ι × Pool ι} (h : p.setMaxsize order maxsize = .ok r) : Evicts p r.1 r.2 := by
  unfold setMaxsize at h
  split at h
  · cases h
  · split at h
    · cases h
    · next m _ =>
      cases h
      have he := evicts_removeNFree order (p.free.card - m) p
      exact ⟨he.unshared, he.inuse, he.shared, he.free⟩

theorem evicts_removeEveryNthFree {order : SetOrder ι} {n : Int} {p : Pool ι}
    {r : List ι × Pool ι} (h : p.removeEveryNthFree order n = .ok r) : Evicts p r.1 r.2 := by
  unfold removeEveryNthFree at h
  split at h
  · cases h
  · cases h
    exact evicts_removeNFree order _ p

theorem Evicts.has_iff {p p' : Pool ι} {items : List ι} (h : Evicts p items p') {i : ι} :
    p'.Has i ↔ p.Has i ∧ i ∉ items := by
  have hinuse : i ∈ p.inuse → i ∉ items := fun hi hmem =>
    Finset.disjoint_left.mp p.disjoint hi (h.unshared i hmem).1
  unfold Has
  rw [h.inuse, h.free, Finset.mem_sdiff, List.mem_toFinset]
  tauto

/-- What `get` returns, and the pool after it. -/
theorem get_cases {order : SetOrder ι} {new : Option ι} {p p' : Pool ι} {i : ι}
    (h : p.get order new = .ok (i, p')) :
    p'.inuse = insert i p.inuse ∧ p'.shared = p.shared ∧
      (i ∈ p.free ∧ p'.free = p.free.erase i ∨ p.free = ∅ ∧ p'.free = ∅ ∧ new = some i) := by
  unfold get at h
  split at h
  · next j items hlist =>
    cases h
    exact ⟨rfl, rfl, .inl ⟨order.mem_list.mp (hlist ▸ List.mem_cons_self ..), rfl⟩⟩
  · next hlist =>
    have hfree := order.list_eq_nil.mp hlist
    split at h
    · cases h
    · cases new with
      | none => cases h
      | some j =>
        cases h
        exact ⟨rfl, rfl, .inr ⟨hfree, hfree, rfl⟩⟩

theorem put_of_mem {p : Pool ι} {i : ι} (h : i ∈ p.inuse) :
    ∃ p', p.put i = .ok p' ∧ p'.inuse = p.inuse.erase i ∧ p'.free = insert i p.free ∧
      p'.shared = p.shared := by
  unfold put
  rw [if_pos h]
  exact ⟨_, rfl, rfl, rfl, rfl⟩

end Pool

namespace TerminalPools

variable {κ : Type}

/-! ## The invariant -/

/-- The pool `p` belongs at `ref`: its terminals are registered there and open,
and its counters are the outstanding shares. -/
structure Fits (s : TerminalPools κ) (shares : Terminal κ → Nat) (ref : Nat)
    (p : Pool (Terminal κ)) : Prop where
  registered : ∀ t, p.Has t → (t.key, ref) ∈ s.pools.items
  opened : ∀ t, p.Has t → t ∉ s.closed
  counted : ∀ t, p.Has t → p.shared t = shares t
  uncounted : ∀ t, ¬ p.Has t → p.shared t = 0

/-- The pools fit, held terminals are in use, and shared ones are in a pool. -/
structure Inv (held : Finset (Terminal κ)) (shares : Terminal κ → Nat) (s : TerminalPools κ) :
    Prop where
  ref_lt : ∀ x ∈ s.pools.items, x.2 < s.count
  ref_inj : ∀ x ∈ s.pools.items, ∀ y ∈ s.pools.items, x.2 = y.2 → x.1 = y.1
  fits : ∀ ref, Fits s shares ref (s.objs ref)
  held : ∀ t ∈ held, ∃ ref, t ∈ (s.objs ref).inuse
  shared : ∀ t, 0 < shares t → ∃ ref, (s.objs ref).Has t

theorem fits_empty {s : TerminalPools κ} {shares : Terminal κ → Nat} {ref : Nat} :
    Fits s shares ref Pool.empty :=
  ⟨fun t ht => (Pool.not_has_empty t ht).elim, fun t ht => (Pool.not_has_empty t ht).elim,
    fun t ht => (Pool.not_has_empty t ht).elim, fun _ _ => rfl⟩

theorem inv_init : Inv ∅ (fun _ => 0) (init : TerminalPools κ) where
  ref_lt := nofun
  ref_inj := nofun
  fits _ := fits_empty
  held t ht := absurd ht (Finset.notMem_empty t)
  shared _ ht := absurd ht (Nat.lt_irrefl 0)

section
variable {held held' : Finset (Terminal κ)} {shares shares' : Terminal κ → Nat}
  {s : TerminalPools κ} {ref : Nat} {t : Terminal κ}

/-- A terminal is in one pool only. -/
theorem Inv.ref_unique (h : Inv held shares s) {ref' : Nat} (ht : (s.objs ref).Has t)
    (ht' : (s.objs ref').Has t) : ref = ref' :=
  Dict.value_unique ((h.fits ref).registered t ht) ((h.fits ref').registered t ht')

theorem change_self {p : Pool (Terminal κ)} {items : List (Terminal κ)}
    {closed : Finset (Terminal κ)} :
    (s.change ref p items closed).objs ref = p := Function.update_self ..

theorem change_of_ne {p : Pool (Terminal κ)} {items : List (Terminal κ)}
    {closed : Finset (Terminal κ)} {ref' : Nat} (h : ref' ≠ ref) :
    (s.change ref p items closed).objs ref' = s.objs ref' := Function.update_of_ne h ..

theorem change_change {p q : Pool (Terminal κ)} {closed closed' : Finset (Terminal κ)} :
    (s.change ref p [] closed).change ref q [] closed' = s.change ref q [] closed' := by
  simp only [change, Function.update_idem, List.append_nil]

/-- **One pool at a time.**  What has to be shown when one pool changes. -/
theorem Inv.change (h : Inv held shares s) {p : Pool (Terminal κ)} {items : List (Terminal κ)}
    {closed : Finset (Terminal κ)}
    (hp : Fits (s.change ref p items closed) shares' ref p)
    (hclosed : ∀ t ∈ closed, t ∈ s.closed ∨ (t.key, ref) ∈ s.pools.items)
    (hshares : ∀ t, shares' t = shares t ∨ (s.objs ref).Has t)
    (hheld : ∀ t ∈ held', t ∈ held ∧ (t ∈ (s.objs ref).inuse → t ∈ p.inuse) ∨ t ∈ p.inuse)
    (hshared : ∀ t, 0 < shares' t → (s.objs ref).Has t → p.Has t) :
    Inv held' shares' (s.change ref p items closed) := by
  refine ⟨h.ref_lt, h.ref_inj, fun ref' => ?_, fun t ht => ?_, fun t ht => ?_⟩
  · by_cases hr : ref' = ref
    · subst hr
      rw [change_self]
      exact hp
    · rw [change_of_ne hr]
      have hother : ∀ t, (s.objs ref').Has t → ¬ (s.objs ref).Has t := fun t ht ht' =>
        hr (h.ref_unique ht ht')
      refine ⟨(h.fits ref').registered, fun t ht hc => ?_, fun t ht => ?_,
        (h.fits ref').uncounted⟩
      · rcases hclosed t hc with hc | hc
        · exact (h.fits ref').opened t ht hc
        · exact hr (Dict.value_unique ((h.fits ref').registered t ht) hc)
      · rcases hshares t with heq | hhas
        · rw [heq]
          exact (h.fits ref').counted t ht
        · exact (hother t ht hhas).elim
  · rcases hheld t ht with ⟨ht, hin⟩ | ht
    · obtain ⟨ref', ht'⟩ := h.held t ht
      refine ⟨ref', ?_⟩
      by_cases hr : ref' = ref
      · subst hr
        rw [change_self]
        exact hin ht'
      · rw [change_of_ne hr]
        exact ht'
    · refine ⟨ref, ?_⟩
      rw [change_self]
      exact ht
  · have hhas : (∃ ref', ref' ≠ ref ∧ (s.objs ref').Has t) ∨ (s.objs ref).Has t := by
      rcases hshares t with heq | hhas
      · obtain ⟨ref', ht'⟩ := h.shared t (heq ▸ ht)
        by_cases hr : ref' = ref
        · exact .inr (hr ▸ ht')
        · exact .inl ⟨ref', hr, ht'⟩
      · exact .inr hhas
    rcases hhas with ⟨ref', hr, ht'⟩ | hhas
    · refine ⟨ref', ?_⟩
      rw [change_of_ne hr]
      exact ht'
    · refine ⟨ref, ?_⟩
      rw [change_self]
      exact hshared t ht hhas

/-! ## What is in use or shared is spared -/

/-- From `s₀` to `s`, no terminal was closed that was in use or shared. -/
structure Spares (s₀ : TerminalPools κ) (held : Finset (Terminal κ))
    (shares : Terminal κ → Nat) (s : TerminalPools κ) : Prop where
  inv : Inv held shares s
  spared : ∃ items, s.closings = s₀.closings ++ items ∧
    ∀ t ∈ items, (∀ ref, t ∉ (s₀.objs ref).inuse) ∧ shares t = 0
  inuse : ∀ ref, (s₀.objs ref).inuse ⊆ (s.objs ref).inuse

variable {s₀ : TerminalPools κ}

theorem Spares.refl (h : Inv held shares s₀) : Spares s₀ held shares s₀ :=
  ⟨h, ⟨[], (List.append_nil _).symm, nofun⟩, fun _ => Finset.Subset.refl _⟩

/-- A terminal is taken into use; none is closed. -/
theorem Spares.acquire (h : Spares s₀ held shares s) {p : Pool (Terminal κ)}
    {closed : Finset (Terminal κ)} (hinv : Inv held' shares (s.change ref p [] closed))
    (hinuse : (s.objs ref).inuse ⊆ p.inuse) :
    Spares s₀ held' shares (s.change ref p [] closed) := by
  obtain ⟨closings, hclosings, hspared⟩ := h.spared
  refine ⟨hinv, ⟨closings, (List.append_nil _).trans hclosings, hspared⟩, fun ref' => ?_⟩
  by_cases hr : ref' = ref
  · subst hr
    rw [change_self]
    exact (h.inuse ref').trans hinuse
  · rw [change_of_ne hr]
    exact h.inuse ref'

/-- There is no terminal in a pool object that does not exist yet. -/
theorem Inv.not_has_of_le (h : Inv held shares s) (hr : s.count ≤ ref) :
    ¬ (s.objs ref).Has t := fun ht => by
  have hlt := h.ref_lt _ ((h.fits ref).registered t ht)
  exact absurd hlt (Nat.not_lt.mpr hr)

/-! ## The operations of the pools -/

/-- A terminal moves between the free set and those in use. -/
theorem Inv.move (h : Inv held shares s) {p : Pool (Terminal κ)}
    (hhas : ∀ u, p.Has u ↔ (s.objs ref).Has u) (hshared : p.shared = (s.objs ref).shared)
    (hheld : ∀ u ∈ held', u ∈ held ∧ (u ∈ (s.objs ref).inuse → u ∈ p.inuse) ∨ u ∈ p.inuse) :
    Inv held' shares (s.change ref p [] s.closed) := by
  have hf := h.fits ref
  refine h.change ⟨fun u hu => hf.registered u ((hhas u).mp hu),
    fun u hu => hf.opened u ((hhas u).mp hu), fun u hu => ?_, fun u hu => ?_⟩ (fun u => .inl)
    (fun u => .inl rfl) hheld fun u _ => (hhas u).mpr
  · rw [hshared]
    exact hf.counted u ((hhas u).mp hu)
  · rw [hshared]
    exact hf.uncounted u fun hold => hu ((hhas u).mpr hold)

variable [DecidableEq κ]

/-- Free terminals without shares are removed from a pool. -/
theorem Inv.evict (h : Inv held shares s) {items : List (Terminal κ)} {p : Pool (Terminal κ)}
    (hp : Pool.Evicts (s.objs ref) items p) :
    Inv held shares (s.change ref p items (s.closed ∪ items.toFinset)) := by
  have hf := h.fits ref
  refine h.change ⟨fun t ht => hf.registered t (hp.has_iff.mp ht).1, fun t ht hc => ?_,
    fun t ht => ?_, fun t ht => ?_⟩ (fun t hc => ?_) (fun t => .inl rfl) (fun t ht => .inl ⟨ht, ?_⟩)
    fun t ht hhas => ?_
  · obtain ⟨hhas, hmem⟩ := hp.has_iff.mp ht
    rcases Finset.mem_union.mp hc with hc | hc
    · exact hf.opened t hhas hc
    · exact hmem (List.mem_toFinset.mp hc)
  · rw [hp.shared]
    exact hf.counted t (hp.has_iff.mp ht).1
  · rw [hp.shared]
    by_cases hhas : (s.objs ref).Has t
    · have hmem : t ∈ items := by
        by_contra hmem
        exact ht (hp.has_iff.mpr ⟨hhas, hmem⟩)
      exact (hp.unshared t hmem).2
    · exact hf.uncounted t hhas
  · rcases Finset.mem_union.mp hc with hc | hc
    · exact .inl hc
    · exact .inr (hf.registered t (.inr (hp.unshared t (List.mem_toFinset.mp hc)).1))
  · rw [hp.inuse]
    exact id
  · refine hp.has_iff.mpr ⟨hhas, fun hmem => ?_⟩
    have hcount := hf.counted t hhas
    rw [(hp.unshared t hmem).2] at hcount
    omega

/-- `remove` of a terminal, also of one that is not in the pool. -/
theorem Inv.remove (h : Inv held shares s) (hkey : (t.key, ref) ∈ s.pools.items) :
    Inv (held.erase t) (Function.update shares t 0)
      (s.change ref ((s.objs ref).remove t) [t] (s.closed ∪ [t].toFinset)) := by
  have hf := h.fits ref
  have hhas : ∀ u, ((s.objs ref).remove t).Has u ↔ u ≠ t ∧ (s.objs ref).Has u := by
    intro u
    simp only [Pool.Has, Pool.remove_inuse, Pool.remove_free, Finset.mem_erase]
    tauto
  refine h.change ⟨fun u hu => hf.registered u ((hhas u).mp hu).2, fun u hu hc => ?_,
    fun u hu => ?_, fun u hu => ?_⟩ (fun u hc => ?_) (fun u => ?_) (fun u hu => .inl ?_)
    fun u hu hold => ?_
  · obtain ⟨hne, hu⟩ := (hhas u).mp hu
    rcases Finset.mem_union.mp hc with hc | hc
    · exact hf.opened u hu hc
    · exact hne (List.mem_singleton.mp (List.mem_toFinset.mp hc))
  · obtain ⟨hne, hu⟩ := (hhas u).mp hu
    rw [Pool.remove_shared, Function.update_of_ne hne, Function.update_of_ne hne]
    exact hf.counted u hu
  · rw [Pool.remove_shared]
    by_cases hut : u = t
    · rw [hut, Function.update_self]
    · rw [Function.update_of_ne hut]
      exact hf.uncounted u fun hold => hu ((hhas u).mpr ⟨hut, hold⟩)
  · rcases Finset.mem_union.mp hc with hc | hc
    · exact .inl hc
    · rw [List.mem_singleton.mp (List.mem_toFinset.mp hc)]
      exact .inr hkey
  · by_cases hut : u = t
    · subst hut
      rcases Nat.eq_zero_or_pos (shares u) with h0 | hpos
      · left
        rw [Function.update_self, h0]
      · obtain ⟨ref', hu⟩ := h.shared u hpos
        have hr : ref' = ref := Dict.value_unique ((h.fits ref').registered u hu) hkey
        exact .inr (hr ▸ hu)
    · exact .inl (Function.update_of_ne hut ..)
  · obtain ⟨hne, hu⟩ := Finset.mem_erase.mp hu
    exact ⟨hu, fun hin => Finset.mem_erase.mpr ⟨hne, hin⟩⟩
  · refine (hhas u).mpr ⟨?_, hold⟩
    rintro rfl
    rw [Function.update_self] at hu
    omega

theorem Inv.put (h : Inv held shares s) (ht : t ∈ (s.objs ref).inuse) {p : Pool (Terminal κ)}
    (hp : (s.objs ref).put t = .ok p) :
    Inv (held.erase t) shares (s.change ref p [] s.closed) := by
  obtain ⟨p', hp', hinuse, hfree, hshared⟩ := Pool.put_of_mem ht
  cases hp.symm.trans hp'
  refine h.move (fun u => ?_) hshared fun u hu => .inl ?_
  · unfold Pool.Has
    rw [hinuse, hfree, Finset.mem_erase, Finset.mem_insert]
    by_cases hut : u = t
    · subst hut
      simp [ht]
    · simp [hut]
  · obtain ⟨hne, hu⟩ := Finset.mem_erase.mp hu
    rw [hinuse]
    exact ⟨hu, fun hin => Finset.mem_erase.mpr ⟨hne, hin⟩⟩

/-- A terminal of the pool gets or loses a share. -/
theorem Inv.count (h : Inv held shares s) (ht : (s.objs ref).Has t) {n : Int} {m : Nat}
    (hm : (m : Int) = shares t + n) :
    Inv held (Function.update shares t m) (s.change ref ((s.objs ref).count t n) [] s.closed) := by
  have hf := h.fits ref
  refine h.change ⟨hf.registered, hf.opened, fun u hu => ?_, fun u hu => ?_⟩ (fun u => .inl)
    (fun u => ?_) (fun u hu => .inl ⟨hu, id⟩) fun u _ => id
  · show Function.update (s.objs ref).shared t ((s.objs ref).shared t + n) u = _
    by_cases hut : u = t
    · subst hut
      rw [Function.update_self, Function.update_self, hf.counted u hu, hm]
    · rw [Function.update_of_ne hut, Function.update_of_ne hut]
      exact hf.counted u hu
  · show Function.update (s.objs ref).shared t ((s.objs ref).shared t + n) u = _
    have hut : u ≠ t := by
      rintro rfl
      exact hu ht
    rw [Function.update_of_ne hut]
    exact hf.uncounted u hu
  · by_cases hut : u = t
    · exact .inr (hut ▸ ht)
    · exact .inl (Function.update_of_ne hut ..)

/-- A free terminal is taken. -/
theorem Inv.take (h : Inv held shares s) (ht : t ∈ (s.objs ref).free) {p : Pool (Terminal κ)}
    (hinuse : p.inuse = insert t (s.objs ref).inuse) (hfree : p.free = (s.objs ref).free.erase t)
    (hshared : p.shared = (s.objs ref).shared) :
    Inv (insert t held) shares (s.change ref p [] s.closed) := by
  refine h.move (fun u => ?_) hshared fun u hu => ?_
  · unfold Pool.Has
    rw [hinuse, hfree, Finset.mem_erase, Finset.mem_insert]
    by_cases hut : u = t
    · subst hut
      simp [ht]
    · simp [hut]
  · rw [hinuse]
    rcases Finset.mem_insert.mp hu with rfl | hu
    · exact .inr (Finset.mem_insert_self _ _)
    · exact .inl ⟨hu, fun hin => Finset.mem_insert_of_mem hin⟩

/-- A new terminal, which is in no pool, is taken. -/
theorem Inv.create (h : Inv held shares s) (hkey : (t.key, ref) ∈ s.pools.items)
    (hnew : ∀ ref', ¬ (s.objs ref').Has t) {p : Pool (Terminal κ)}
    (hinuse : p.inuse = insert t (s.objs ref).inuse) (hfree : p.free = (s.objs ref).free)
    (hshared : p.shared = (s.objs ref).shared) :
    Inv (insert t held) shares (s.change ref p [] (s.closed.erase t)) := by
  have hf := h.fits ref
  have hhas : ∀ u, p.Has u ↔ u = t ∨ (s.objs ref).Has u := by
    intro u
    unfold Pool.Has
    rw [hinuse, hfree, Finset.mem_insert, or_assoc]
  have hzero : shares t = 0 := by
    by_contra hne
    obtain ⟨ref', ht⟩ := h.shared t (by omega)
    exact hnew ref' ht
  refine h.change ⟨fun u hu => ?_, fun u hu hc => ?_, fun u hu => ?_, fun u hu => ?_⟩
    (fun u hc => .inl (Finset.mem_of_mem_erase hc)) (fun u => .inl rfl) (fun u hu => ?_)
    fun u _ hold => (hhas u).mpr (.inr hold)
  · rcases (hhas u).mp hu with rfl | hu
    · exact hkey
    · exact hf.registered u hu
  · obtain ⟨hne, hc⟩ := Finset.mem_erase.mp hc
    rcases (hhas u).mp hu with rfl | hu
    · exact hne rfl
    · exact hf.opened u hu hc
  · rw [hshared]
    rcases (hhas u).mp hu with rfl | hu
    · rw [hf.uncounted u (hnew ref), hzero]
      rfl
    · exact hf.counted u hu
  · rw [hshared]
    exact hf.uncounted u fun hold => hu ((hhas u).mpr (.inr hold))
  · rw [hinuse]
    rcases Finset.mem_insert.mp hu with rfl | hu
    · exact .inr (Finset.mem_insert_self _ _)
    · exact .inl ⟨hu, fun hin => Finset.mem_insert_of_mem hin⟩

/-! ## `get` -/

theorem Spares.evict (h : Spares s₀ held shares s) {items : List (Terminal κ)}
    {p : Pool (Terminal κ)} (hp : Pool.Evicts (s.objs ref) items p) :
    Spares s₀ held shares (s.change ref p items (s.closed ∪ items.toFinset)) := by
  obtain ⟨closings, hclosings, hspared⟩ := h.spared
  refine ⟨h.inv.evict hp, ⟨closings ++ items, ?_, fun t ht => ?_⟩, fun ref' => ?_⟩
  · show s.closings ++ items = _
    rw [hclosings, List.append_assoc]
  · rcases List.mem_append.mp ht with ht | ht
    · exact hspared t ht
    · obtain ⟨hfree, hzero⟩ := hp.unshared t ht
      have hcount := (h.inv.fits ref).counted t (.inr hfree)
      refine ⟨fun ref' hin => ?_, by omega⟩
      have hin' := h.inuse ref' hin
      have hr : ref' = ref := h.inv.ref_unique (.inl hin') (.inr hfree)
      exact Finset.disjoint_left.mp (s.objs ref).disjoint (hr ▸ hin') hfree
  · by_cases hr : ref' = ref
    · rw [hr, change_self, hp.inuse]
      exact h.inuse ref
    · rw [change_of_ne hr]
      exact h.inuse ref'

theorem addPool_objs {key : κ} (h : Inv held shares s) (hr : (s.objs ref).Has t) :
    (s.addPool key).objs ref = s.objs ref := by
  apply Function.update_of_ne
  rintro rfl
  exact h.not_has_of_le (Nat.le_refl _) hr

theorem Inv.addPool {key : κ} (h : Inv held shares s) (hkey : key ∉ s.pools.keys) :
    Inv held shares (s.addPool key) := by
  have hitems : ∀ x, x ∈ (s.addPool key).pools.items ↔
      x = (key, s.count) ∨ x ∈ s.pools.items := by
    intro x
    show x ∈ (s.pools.set key s.count).items ↔ _
    rw [Dict.mem_set]
    constructor
    · rintro (rfl | ⟨-, hx⟩)
      · exact .inl rfl
      · exact .inr hx
    · rintro (rfl | hx)
      · exact .inl rfl
      · refine .inr ⟨?_, hx⟩
        rintro rfl
        exact hkey (Dict.mem_keys_of_mem hx)
  refine ⟨fun x hx => ?_, fun x hx y hy hxy => ?_, fun ref => ?_, fun t ht => ?_, fun t ht => ?_⟩
  · rcases (hitems x).mp hx with rfl | hx
    · exact Nat.lt_succ_self _
    · exact Nat.lt_succ_of_lt (h.ref_lt x hx)
  · rcases (hitems x).mp hx with rfl | hx <;> rcases (hitems y).mp hy with rfl | hy
    · rfl
    · exact absurd (h.ref_lt y hy) (by simp [← hxy])
    · exact absurd (h.ref_lt x hx) (by simp [hxy])
    · exact h.ref_inj x hx y hy hxy
  · by_cases hr : ref = s.count
    · subst hr
      have hobj : (s.addPool key).objs s.count = Pool.empty := Function.update_self ..
      rw [hobj]
      exact fits_empty
    · have hobj : (s.addPool key).objs ref = s.objs ref := Function.update_of_ne hr ..
      rw [hobj]
      have hf := h.fits ref
      exact ⟨fun t ht => (hitems _).mpr (.inr (hf.registered t ht)), hf.opened, hf.counted,
        hf.uncounted⟩
  · obtain ⟨ref, hin⟩ := h.held t ht
    exact ⟨ref, (addPool_objs h (.inl hin)).symm ▸ hin⟩
  · obtain ⟨ref, hin⟩ := h.shared t ht
    exact ⟨ref, (addPool_objs h hin).symm ▸ hin⟩

theorem Spares.addPool {key : κ} (h : Spares s₀ held shares s) (hkey : key ∉ s.pools.keys) :
    Spares s₀ held shares (s.addPool key) := by
  refine ⟨h.inv.addPool hkey, h.spared, fun ref t ht => ?_⟩
  have hin := h.inuse ref ht
  exact (addPool_objs h.inv (.inl hin)).symm ▸ hin

/-- An empty pool is deleted from the dictionary. -/
theorem Spares.delete {key : κ} (h : Spares s₀ held shares s) (hkey : (key, ref) ∈ s.pools.items)
    (hsize : (s.objs ref).size = 0) :
    Spares s₀ held shares { s with pools := s.pools.erase key } := by
  refine ⟨⟨fun x hx => ?_, fun x hx y hy => ?_, fun ref' => ?_, h.inv.held, h.inv.shared⟩,
    h.spared, h.inuse⟩
  · exact h.inv.ref_lt x (Dict.mem_erase.mp hx).2
  · exact h.inv.ref_inj x (Dict.mem_erase.mp hx).2 y (Dict.mem_erase.mp hy).2
  · have hf := h.inv.fits ref'
    refine ⟨fun t ht => Dict.mem_erase.mpr ⟨?_, hf.registered t ht⟩, hf.opened, hf.counted,
      hf.uncounted⟩
    -- a terminal with this key would be in the empty pool
    intro hk
    have hreg := hf.registered t ht
    have hr : ref' = ref := Dict.value_unique (hk ▸ hreg) hkey
    exact Pool.not_has_of_size hsize t (hr ▸ ht)

theorem triple_onPool {α : Type} {P : TerminalPools κ → Prop} {Q : α → TerminalPools κ → Prop}
    {E : TerminalPoolsExc κ → TerminalPools κ → Prop}
    {op : Pool (Terminal κ) → Except PoolExc (α × List (Terminal κ) × Pool (Terminal κ))}
    (hok : ∀ s a items p, P s → op (s.objs ref) = .ok (a, items, p) →
      Q a (s.change ref p items (s.closed ∪ items.toFinset)))
    (herror : ∀ s e, P s → op (s.objs ref) = .error e → E (.ofPool e) s) :
    Prog.Triple P (onPool ref op) Q E := by
  intro s hs
  unfold onPool
  cases h : op (s.objs ref) with
  | ok r =>
    obtain ⟨a, items, p⟩ := r
    exact hok s a items p hs h
  | error e => exact herror s e hs h

theorem map_ok {α β ε : Type} {x : Except ε α} {f : α → β} {b : β} (h : x.map f = .ok b) :
    ∃ a, x = .ok a ∧ f a = b := by
  cases x with
  | error e => cases h
  | ok a =>
    cases h
    exact ⟨a, rfl, rfl⟩

/-- `_get_pool` -/
theorem getPool_spares (c : Choice κ) (key : κ) (maxProcesses : Option Int) :
    Prog.Triple (Spares s₀ held shares) (getPool c key maxProcesses)
      (fun ref s => Spares s₀ held shares s ∧ (key, ref) ∈ s.pools.items)
      (fun _ s => Spares s₀ held shares s) := by
  refine Prog.Triple.modify_bind (Spares s₀ held shares)
    (Prog.Triple.gets_bind fun ref => ?_) fun s hs => ?_
  · cases ref with
    | none => exact fun s hs => hs.1
    | some ref =>
      refine Prog.Triple.bind (Q := fun _ s => Spares s₀ held shares s ∧ (key, ref) ∈ s.pools.items)
        (triple_onPool (fun s a items p hs hop => ?_) fun s e hs _ => hs.1)
        fun _ s hs => hs
      obtain ⟨r, hr, heq⟩ := map_ok hop
      cases heq
      exact ⟨hs.1.evict (Pool.evicts_setMaxsize hr), Dict.get?_eq_some.mp hs.2⟩
  · split
    · exact hs
    · next hkey => exact hs.addPool hkey

/-- `remove_every_nth_free` of one of the pools -/
theorem removeEveryNthFree_spares (c : Choice κ) (n : Int) {d : Dict κ Nat} {ref₀ : Nat} :
    Prog.Triple (fun s => Spares s₀ held shares s ∧ s.pools = d ∧ (s.objs ref₀).free = ∅)
      (removeEveryNthFree c ref n)
      (fun removed s => Spares s₀ held shares s ∧ s.pools = d ∧ (s.objs ref₀).free = ∅ ∧
        (removed ≠ 0 → ref ≠ ref₀))
      (fun _ s => Spares s₀ held shares s) := by
  refine triple_onPool (fun s a items p hs hop => ?_) fun s e hs _ => hs.1
  obtain ⟨r, hr, heq⟩ := map_ok hop
  cases heq
  obtain ⟨hspares, hpools, hfree⟩ := hs
  have hevicts := Pool.evicts_removeEveryNthFree hr
  refine ⟨hspares.evict hevicts, hpools, ?_, ?_⟩
  · by_cases href : ref₀ = ref
    · rw [href, change_self, hevicts.free, ← href, hfree, Finset.empty_sdiff]
    · rw [change_of_ne href, hfree]
  · rintro hne rfl
    apply hne
    rw [List.length_eq_zero_iff, List.eq_nil_iff_forall_not_mem]
    intro t ht
    have hmem := (hevicts.unshared t ht).1
    rw [hfree] at hmem
    exact Finset.notMem_empty t hmem

/-- `_clean_free` -/
theorem cleanFree_spares (c : Choice κ) (items : List (κ × Nat)) {d : Dict κ Nat} {ref₀ : Nat} :
    Prog.Triple (fun s => Spares s₀ held shares s ∧ s.pools = d ∧ (s.objs ref₀).free = ∅)
      (cleanFree c items)
      (fun _ s => Spares s₀ held shares s ∧ s.pools = d ∧ (s.objs ref₀).free = ∅)
      (fun _ s => Spares s₀ held shares s) := by
  induction items with
  | nil => exact fun s hs => hs
  | cons x items ih =>
    refine Prog.Triple.bind (removeEveryNthFree_spares c 2) fun removed => ?_
    refine Prog.Triple.bind (ih.mono (fun s hs => ⟨hs.1, hs.2.1, hs.2.2.1⟩) (fun _ _ => id)
      fun _ _ => id) fun rest s hs => hs

/-- `_clean_free_in_random_order_or_raise`: what is deleted is not the pool at
`ref₀`, which has no free terminals. -/
theorem cleanFreeInRandomOrderOrRaise_spares (c : Choice κ) (items : List (κ × Nat)) {key : κ}
    {d : Dict κ Nat} {ref₀ : Nat} (hitems : ∀ x ∈ items, x ∈ d.items)
    (hkey : (key, ref₀) ∈ d.items) :
    Prog.Triple (fun s => Spares s₀ held shares s ∧ s.pools = d ∧ (s.objs ref₀).free = ∅)
      (cleanFreeInRandomOrderOrRaise c items)
      (fun _ s => Spares s₀ held shares s ∧ (key, ref₀) ∈ s.pools.items)
      (fun _ s => Spares s₀ held shares s) := by
  induction items with
  | nil => exact fun s hs => hs.1
  | cons x items ih =>
    obtain ⟨key', ref'⟩ := x
    refine Prog.Triple.bind (removeEveryNthFree_spares c 1) fun removed => ?_
    refine Prog.Triple.ite (fun hremoved => ?_) fun _ => ?_
    · refine Prog.Triple.gets_bind fun size => Prog.Triple.ite (fun hsize => ?_) fun _ => ?_
      · rintro s ⟨⟨hspares, hpools, -, hne⟩, hsz⟩
        have hmem : (key', ref') ∈ s.pools.items := hpools ▸ hitems _ (List.mem_cons_self ..)
        refine ⟨hspares.delete hmem (hsz.trans hsize), Dict.mem_erase.mpr ⟨?_, hpools ▸ hkey⟩⟩
        rintro rfl
        exact hne hremoved (Dict.value_unique hmem (hpools ▸ hkey))
      · rintro s ⟨⟨hspares, hpools, -⟩, -⟩
        exact ⟨hspares, hpools ▸ hkey⟩
    · exact (ih fun x hx => hitems x (List.mem_cons_of_mem _ hx)).mono
        (fun s hs => ⟨hs.1, hs.2.1, hs.2.2.1⟩) (fun _ _ => id) fun _ _ => id

/-- `_try_to_clean` -/
theorem tryToClean_spares (c : Choice κ) {key : κ} {d : Dict κ Nat} (hkey : (key, ref) ∈ d.items) :
    Prog.Triple (fun s => Spares s₀ held shares s ∧ s.pools = d ∧ (s.objs ref).free = ∅)
      (tryToClean c)
      (fun _ s => Spares s₀ held shares s ∧ (key, ref) ∈ s.pools.items)
      (fun _ s => Spares s₀ held shares s) := by
  refine Prog.Triple.gets_bind fun items => ?_
  rintro s ⟨hs, hitems⟩
  have hshuffle : ∀ x ∈ c.shuffle items, x ∈ d.items := fun x hx => by
    rw [← hs.2.1, hitems]
    exact (c.shuffle_perm items).mem_iff.mp hx
  refine Prog.Triple.bind (cleanFree_spares c items) (fun removed => ?_) s hs
  refine Prog.Triple.ite (fun _ => ?_) fun _ => ?_
  · exact cleanFreeInRandomOrderOrRaise_spares c _ hshuffle hkey
  · exact fun s hs => ⟨hs.1, hs.2.1 ▸ hkey⟩

/-- `_clean_if_needed` -/
theorem cleanIfNeeded_spares (c : Choice κ) {key : κ} :
    Prog.Triple (fun s => Spares s₀ held shares s ∧ (key, ref) ∈ s.pools.items)
      (cleanIfNeeded c ref)
      (fun _ s => Spares s₀ held shares s ∧ (key, ref) ∈ s.pools.items)
      (fun _ s => Spares s₀ held shares s) := by
  refine Prog.Triple.gets_bind fun s₁ => Prog.Triple.ite (fun hfree => ?_) fun _ => ?_
  · cases s₁.maxsize with
    | none => exact fun s hs => hs.1.1
    | some maxsize =>
      refine Prog.Triple.ite (fun _ => ?_) fun _ => ?_
      · rintro s ⟨hs, rfl⟩
        exact tryToClean_spares c hs.2 s ⟨hs.1, rfl, hfree⟩
      · exact fun s hs => hs.1
  · exact fun s hs => hs.1

theorem newTerminal_some {key : κ} {new : Option Nat} (h : s.newTerminal key new = some t) :
    t.key = key ∧ ∀ ref' < s.count, ¬ (s.objs ref').Has t := by
  obtain ⟨hmap, hall⟩ := Option.filter_eq_some_iff.mp h
  obtain ⟨id, -, rfl⟩ := Option.map_eq_some_iff.mp hmap
  refine ⟨rfl, fun ref' hlt hhas => ?_⟩
  have hnot := of_decide_eq_true (List.all_eq_true.mp hall ref' (List.mem_range.mpr hlt))
  rcases hhas with hin | hfree
  · exact hnot.1 hin
  · exact hnot.2 hfree

/-- `_get_terminal` -/
theorem getTerminal_spares (c : Choice κ) {key : κ} :
    Prog.Triple (fun s => Spares s₀ held shares s ∧ (key, ref) ∈ s.pools.items)
      (getTerminal c key ref)
      (fun t s => Spares s₀ (insert t held) shares s)
      (fun _ s => Spares s₀ held shares s) := by
  refine Prog.Triple.gets_bind fun s₁ => Prog.Triple.bind (Q := fun t s =>
    if (s₁.objs ref).free = ∅ then
      Spares s₀ (insert t held) shares { s with closed := s.closed.erase t }
    else Spares s₀ (insert t held) shares s ∧ t ∉ s₁.closed) ?_ fun t => ?_
  · refine triple_onPool (fun s t items p hs hop => ?_) fun s e hs _ => hs.1.1
    obtain ⟨⟨hspares, hkey⟩, rfl⟩ := hs
    obtain ⟨r, hr, heq⟩ := map_ok hop
    cases heq
    obtain ⟨hinuse, hshared, hcases⟩ := Pool.get_cases hr
    have hsub : (s.objs ref).inuse ⊆ r.2.inuse := by
      rw [hinuse]
      exact Finset.subset_insert _ _
    rcases hcases with ⟨hmem, hfree⟩ | ⟨hempty, hfree, hnew⟩
    · have hne : (s.objs ref).free ≠ ∅ := Finset.ne_empty_of_mem hmem
      rw [if_neg hne, List.toFinset_nil, Finset.union_empty]
      exact ⟨hspares.acquire (hspares.inv.take hmem hinuse hfree hshared) hsub,
        (hspares.inv.fits ref).opened _ (.inr hmem)⟩
    · obtain ⟨hk, hnot⟩ := newTerminal_some hnew
      rw [if_pos hempty, List.toFinset_nil, Finset.union_empty]
      have hinv := hspares.inv.create (p := r.2) (t := r.1) (hk ▸ hkey) (fun ref' => ?_) hinuse
        (hfree.trans hempty.symm) hshared
      · exact hspares.acquire hinv hsub
      · rcases Nat.lt_or_ge ref' s.count with hlt | hle
        · exact hnot ref' hlt
        · exact hspares.inv.not_has_of_le hle
  · refine Prog.Triple.ite (fun hfree => ?_) fun hfree => Prog.Triple.ite (fun hc => ?_) fun _ => ?_
    · intro s hs
      rw [if_pos hfree] at hs
      exact hs
    · intro s hs
      rw [if_neg hfree] at hs
      exact (hs.2 hc).elim
    · intro s hs
      rw [if_neg hfree] at hs
      exact hs.1

/-- **`get`.**  Whether it returns or raises, it closes no terminal that is in
use or shared. -/
theorem get_spares (c : Choice κ) (key : κ) (maxProcesses : Option Int) :
    Prog.Triple (Spares s₀ held shares) (get c key maxProcesses)
      (fun t s => Spares s₀ (insert t held) shares s) (fun _ s => Spares s₀ held shares s) :=
  (getPool_spares c key maxProcesses).bind fun _ =>
    (cleanIfNeeded_spares c).bind fun _ => getTerminal_spares c

/-! ## `put`, `put_incr_shared`, `decr_shared` and `remove` -/

omit [DecidableEq κ] in
/-- From `s` to `s'`, no other terminal than `t` was closed. -/
def ClosesOnly (t : Terminal κ) (s s' : TerminalPools κ) : Prop :=
  ∃ items, s'.closings = s.closings ++ items ∧ ∀ u ∈ items, u = t

theorem Inv.get?_eq_some (h : Inv held shares s) (ht : (s.objs ref).Has t) :
    s.pools.get? t.key = some ref :=
  Dict.get?_eq_some.mpr ((h.fits ref).registered t ht)

/-- The pool does `op`, which closes nothing. -/
theorem putOp_stored {op : Pool (Terminal κ) → Except PoolExc (Pool (Terminal κ))}
    {isPersistent : Bool} {p : Pool (Terminal κ)} (hget : s.pools.get? t.key = some ref)
    (hstored : s.shallBeStored t isPersistent) (hop : op (s.objs ref) = .ok p) :
    putOp op t isPersistent s = .ret () (s.change ref p [] s.closed) := by
  simp only [putOp, Prog.bind_run, Prog.gets_run, hget, if_pos hstored, onPool, hop, Except.map,
    List.toFinset_nil, Finset.union_empty]

/-- The terminal is removed instead. -/
theorem putOp_removed {op : Pool (Terminal κ) → Except PoolExc (Pool (Terminal κ))}
    {isPersistent : Bool} {ref : Nat} (hget : s.pools.get? t.key = some ref)
    (hstored : ¬ s.shallBeStored t isPersistent) :
    putOp op t isPersistent s =
      .ret () (s.change ref ((s.objs ref).remove t) [t] (s.closed ∪ [t].toFinset)) := by
  simp only [putOp, Prog.bind_run, Prog.gets_run, hget, if_neg hstored, removeFrom, onPool]

/-- `_put_op` of a terminal that is in a pool, when the pool can do `op`. -/
theorem putOp_run (op : Pool (Terminal κ) → Except PoolExc (Pool (Terminal κ)))
    (isPersistent : Bool) (h : Inv held shares s) (ht : (s.objs ref).Has t)
    (hop : ∃ p, op (s.objs ref) = .ok p ∧ Inv held' shares' (s.change ref p [] s.closed)) :
    ∃ s', putOp op t isPersistent s = .ret () s' ∧ ClosesOnly t s s' ∧
      if s.shallBeStored t isPersistent then Inv held' shares' s'
      else Inv (held.erase t) (Function.update shares t 0) s' := by
  have hget := h.get?_eq_some ht
  by_cases hstored : s.shallBeStored t isPersistent
  · obtain ⟨p, hp, hinv⟩ := hop
    refine ⟨_, putOp_stored hget hstored hp, ⟨[], rfl, nofun⟩, ?_⟩
    rw [if_pos hstored]
    exact hinv
  · refine ⟨_, putOp_removed hget hstored, ⟨[t], rfl, fun u => List.mem_singleton.mp⟩, ?_⟩
    rw [if_neg hstored]
    exact h.remove ((h.fits ref).registered t ht)

theorem put_run {isPersistent : Bool} (h : Inv held shares s) (ht : t ∈ held) :
    ∃ s', put t isPersistent s = .ret () s' ∧ ClosesOnly t s s' ∧
      Inv (held.erase t)
        (Function.update shares t (if s.shallBeStored t isPersistent then shares t else 0)) s' := by
  obtain ⟨ref, hin⟩ := h.held t ht
  obtain ⟨p, hp, -⟩ := Pool.put_of_mem hin
  obtain ⟨s', hs', hcloses, hinv⟩ :=
    putOp_run (Pool.put t) isPersistent h (.inl hin) ⟨p, hp, h.put hin hp⟩
  refine ⟨s', hs', hcloses, ?_⟩
  split at hinv
  · next hstored =>
    rw [if_pos hstored, Function.update_eq_self]
    exact hinv
  · next hstored =>
    rw [if_neg hstored]
    exact hinv

theorem putIncrShared_run {isPersistent : Bool} (h : Inv held shares s) (ht : t ∈ held) :
    ∃ s', putIncrShared t isPersistent s = .ret () s' ∧ ClosesOnly t s s' ∧
      Inv (held.erase t) (Function.update shares t
        (if s.shallBeStored t isPersistent then shares t + 1 else 0)) s' := by
  obtain ⟨ref, hin⟩ := h.held t ht
  obtain ⟨p, hp, -, hfree, -⟩ := Pool.put_of_mem hin
  have hput : (s.objs ref).putIncrShared t = .ok (p.count t 1) := by
    rw [Pool.putIncrShared, hp]
    rfl
  have hput' := h.put hin hp
  have hhas : ((s.change ref p [] s.closed).objs ref).Has t := by
    rw [change_self]
    exact .inr (hfree ▸ Finset.mem_insert_self _ _)
  have hcount := hput'.count hhas (n := 1) (m := shares t + 1) (Nat.cast_succ _)
  rw [change_self, change_change] at hcount
  obtain ⟨s', hs', hcloses, hinv⟩ :=
    putOp_run (Pool.putIncrShared t) isPersistent h (.inl hin) ⟨_, hput, hcount⟩
  refine ⟨s', hs', hcloses, ?_⟩
  split at hinv
  · next hstored =>
    rw [if_pos hstored]
    exact hinv
  · next hstored =>
    rw [if_neg hstored]
    exact hinv

theorem decrShared_run {isPersistent : Bool} (h : Inv held shares s) (ht : 0 < shares t) :
    ∃ s', decrShared t isPersistent s = .ret () s' ∧ ClosesOnly t s s' ∧
      Inv (if s.shallBeStored t isPersistent then held else held.erase t)
        (Function.update shares t
          (if s.shallBeStored t isPersistent then shares t - 1 else 0)) s' := by
  obtain ⟨ref, hhas⟩ := h.shared t ht
  have hcount := h.count hhas (n := -1) (m := shares t - 1) (by omega)
  obtain ⟨s', hs', hcloses, hinv⟩ := putOp_run (fun p => .ok (p.decrShared t))
    isPersistent h hhas ⟨_, rfl, hcount⟩
  refine ⟨s', hs', hcloses, ?_⟩
  split at hinv
  · next hstored =>
    rw [if_pos hstored, if_pos hstored]
    exact hinv
  · next hstored =>
    rw [if_neg hstored, if_neg hstored]
    exact hinv

/-- A terminal whose key has no pool is not in any pool. -/
theorem Inv.not_has_of_get? (h : Inv held shares s) (hget : s.pools.get? t.key = none) :
    ¬ (s.objs ref).Has t := by
  intro hhas
  rw [h.get?_eq_some hhas] at hget
  cases hget

theorem remove_run (h : Inv held shares s) :
    ∃ s', remove t s = .ret () s' ∧ ClosesOnly t s s' ∧
      Inv (held.erase t) (Function.update shares t 0) s' := by
  cases hget : s.pools.get? t.key with
  | none =>
    have hheld : t ∉ held := fun ht => by
      obtain ⟨ref, hin⟩ := h.held t ht
      exact h.not_has_of_get? hget (.inl hin)
    have hshares : shares t = 0 := by
      by_contra hne
      obtain ⟨ref, hhas⟩ := h.shared t (Nat.pos_of_ne_zero hne)
      exact h.not_has_of_get? hget hhas
    refine ⟨s, ?_, ⟨[], (List.append_nil _).symm, nofun⟩, ?_⟩
    · simp only [remove, Prog.bind_run, Prog.gets_run, hget, Prog.pure_run]
    · rw [Finset.erase_eq_of_notMem hheld, ← hshares, Function.update_eq_self]
      exact h
  | some ref =>
    refine ⟨_, ?_, ⟨[t], rfl, fun u => List.mem_singleton.mp⟩,
      h.remove (Dict.get?_eq_some.mp hget)⟩
    simp only [remove, Prog.bind_run, Prog.gets_run, hget, removeFrom, onPool]

/-! ## A terminal that is given back is not in use -/

omit [DecidableEq κ] in
/-- Only the pool that has the terminal can have it in use. -/
theorem Inv.not_inuse_change (h : Inv held shares s) (hkey : (t.key, ref) ∈ s.pools.items)
    {p : Pool (Terminal κ)} {items : List (Terminal κ)} {closed : Finset (Terminal κ)}
    (hp : t ∉ p.inuse) (ref' : Nat) : t ∉ ((s.change ref p items closed).objs ref').inuse := by
  by_cases hr : ref' = ref
  · rw [hr, change_self]
    exact hp
  · rw [change_of_ne hr]
    exact fun hin => hr (Dict.value_unique ((h.fits ref').registered t (.inl hin)) hkey)

theorem not_inuse_remove (p : Pool (Terminal κ)) : t ∉ (p.remove t).inuse :=
  Finset.notMem_erase t p.inuse

theorem putOp_not_inuse {op : Pool (Terminal κ) → Except PoolExc (Pool (Terminal κ))}
    {isPersistent : Bool} (h : Inv held shares s) (ht : (s.objs ref).Has t)
    (hop : ∃ p, op (s.objs ref) = .ok p ∧ t ∉ p.inuse) :
    ∃ s', putOp op t isPersistent s = .ret () s' ∧ ∀ ref', t ∉ (s'.objs ref').inuse := by
  have hget := h.get?_eq_some ht
  have hkey := Dict.get?_eq_some.mp hget
  by_cases hstored : s.shallBeStored t isPersistent
  · obtain ⟨p, hp, hnot⟩ := hop
    exact ⟨_, putOp_stored hget hstored hp, h.not_inuse_change hkey hnot⟩
  · exact ⟨_, putOp_removed hget hstored, h.not_inuse_change hkey (not_inuse_remove _)⟩

theorem put_not_inuse (isPersistent : Bool) (h : Inv held shares s) (ht : t ∈ held) :
    ∃ s', put t isPersistent s = .ret () s' ∧ ∀ ref', t ∉ (s'.objs ref').inuse := by
  obtain ⟨ref, hin⟩ := h.held t ht
  obtain ⟨p, hp, hinuse, -⟩ := Pool.put_of_mem hin
  refine putOp_not_inuse h (.inl hin) ⟨p, hp, ?_⟩
  rw [hinuse]
  exact Finset.notMem_erase t _

theorem putIncrShared_not_inuse (isPersistent : Bool) (h : Inv held shares s) (ht : t ∈ held) :
    ∃ s', putIncrShared t isPersistent s = .ret () s' ∧ ∀ ref', t ∉ (s'.objs ref').inuse := by
  obtain ⟨ref, hin⟩ := h.held t ht
  obtain ⟨p, hp, hinuse, -⟩ := Pool.put_of_mem hin
  refine putOp_not_inuse h (.inl hin) ⟨p.count t 1, ?_, ?_⟩
  · rw [Pool.putIncrShared, hp]
    rfl
  · show t ∉ p.inuse
    rw [hinuse]
    exact Finset.notMem_erase t _

/-- After `remove`, `put` removes the terminal once more. -/
theorem remove_not_inuse (h : Inv held shares s) (ht : t ∈ held) :
    ∃ s', remove t s = .ret () s' ∧ ∀ isPersistent, ∃ s'', put t isPersistent s' = .ret () s'' ∧
      ∀ ref', t ∉ (s''.objs ref').inuse := by
  obtain ⟨ref, hin⟩ := h.held t ht
  have hget := h.get?_eq_some (.inl hin)
  have hkey := Dict.get?_eq_some.mp hget
  refine ⟨s.change ref ((s.objs ref).remove t) [t] (s.closed ∪ [t].toFinset), ?_,
    fun isPersistent => ⟨_, putOp_removed hget ?_, ?_⟩⟩
  · simp only [remove, Prog.bind_run, Prog.gets_run, hget, removeFrom, onPool]
  · simp [shallBeStored, change]
  · have hremoved := h.remove hkey
    exact hremoved.not_inuse_change hkey (not_inuse_remove _)

end

end TerminalPools

end InteractiveSessions
