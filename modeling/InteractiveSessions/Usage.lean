import InteractiveSessions.Ownership

/-!
# Runs of the terminal pools

The callers of `_TerminalPools`: who holds which terminals and shares.  `safe`
says that in every state they can reach

* the sets of every pool are disjoint;
* no step closes a terminal that is in use or shared, other than the one given;
* such a terminal is in the pool that is registered under its key, and `put`,
  `put_incr_shared` and `decr_shared` return.
-/

namespace InteractiveSessions

/-- `held`: obtained by `get` and neither put back nor removed since.  `shares`:
how often `put_incr_shared` was called without its `decr_shared`. -/
structure Usage (κ : Type) where
  pools : TerminalPools κ
  held : Finset (Terminal κ)
  shares : Terminal κ → Nat

namespace Usage

variable {κ : Type}

/-- The calls, with what the environment decides in them. -/
inductive Action (κ : Type) where
  | get (c : Choice κ) (key : κ) (maxProcesses : Option Int)
  | setMaxsize (maxsize : Option Int)
  | put (t : Terminal κ) (isPersistent : Bool)
  | putIncrShared (t : Terminal κ) (isPersistent : Bool)
  | decrShared (t : Terminal κ) (isPersistent : Bool)
  | remove (t : Terminal κ)

/-- The terminal that a call is given. -/
def Action.given : Action κ → Option (Terminal κ)
  | .get .. | .setMaxsize _ => none
  | .put t _ | .putIncrShared t _ | .decrShared t _ | .remove t => some t

def init : Usage κ := ⟨TerminalPools.init, ∅, fun _ => 0⟩

/-- What the callers have to keep to. -/
def Ok (a : Action κ) (u : Usage κ) : Prop :=
  match a with
  | .put t _ | .putIncrShared t _ => t ∈ u.held
  | .decrShared t _ => 0 < u.shares t
  | .get .. | .setMaxsize _ | .remove _ => True

/-- A terminal is in use or has outstanding shares. -/
def Owned (u : Usage κ) (t : Terminal κ) : Prop :=
  (∃ ref, t ∈ (u.pools.objs ref).inuse) ∨ 0 < u.shares t

def Valid (u : Usage κ) : Prop := TerminalPools.Inv u.held u.shares u.pools

variable [DecidableEq κ]

instance (a : Action κ) (u : Usage κ) : Decidable (Ok a u) :=
  match a with
  | .put t _ | .putIncrShared t _ => inferInstanceAs (Decidable (t ∈ u.held))
  | .decrShared t _ => inferInstanceAs (Decidable (0 < u.shares t))
  | .get .. | .setMaxsize _ | .remove _ => isTrue trivial

/-- The call, with the terminal that it returns. -/
def call : Action κ → Prog (TerminalPoolsExc κ) (TerminalPools κ) (Option (Terminal κ))
  | .get c key maxProcesses => do
    let t ← TerminalPools.get c key maxProcesses
    pure (some t)
  | .setMaxsize maxsize => do
    Prog.modify (TerminalPools.setMaxsize maxsize)
    pure none
  | .put t isPersistent => do
    TerminalPools.put t isPersistent
    pure none
  | .putIncrShared t isPersistent => do
    TerminalPools.putIncrShared t isPersistent
    pure none
  | .decrShared t isPersistent => do
    TerminalPools.decrShared t isPersistent
    pure none
  | .remove t => do
    TerminalPools.remove t
    pure none

/-- `held` after a call, given what it returned. -/
def heldAfter (a : Action κ) (returned : Option (Option (Terminal κ))) (u : Usage κ) :
    Finset (Terminal κ) :=
  match a with
  | .get .. =>
    match returned with
    | some (some t) => insert t u.held
    | _ => u.held
  | .setMaxsize _ => u.held
  | .put t _ | .putIncrShared t _ | .remove t => u.held.erase t
  | .decrShared t isPersistent =>
    if u.pools.shallBeStored t isPersistent then u.held else u.held.erase t

/-- `shares` after a call.  A terminal that is not stored loses its shares. -/
def sharesAfter (a : Action κ) (u : Usage κ) : Terminal κ → Nat :=
  match a with
  | .get .. | .setMaxsize _ => u.shares
  | .put t isPersistent =>
    Function.update u.shares t (if u.pools.shallBeStored t isPersistent then u.shares t else 0)
  | .putIncrShared t isPersistent =>
    Function.update u.shares t (if u.pools.shallBeStored t isPersistent then u.shares t + 1 else 0)
  | .decrShared t isPersistent =>
    Function.update u.shares t (if u.pools.shallBeStored t isPersistent then u.shares t - 1 else 0)
  | .remove t => Function.update u.shares t 0

def step (a : Action κ) (u : Usage κ) : Usage κ :=
  let result := call a u.pools
  ⟨result.state u.pools, heldAfter a result.value? u, sharesAfter a u⟩

/-- What an allowed step does: the invariant is kept, only terminals that nobody
owns are closed, apart from the one given, and a call with a terminal returns. -/
structure Kept (a : Action κ) (u : Usage κ) : Prop where
  valid : Valid (step a u)
  closings : ∃ items, (step a u).pools.closings = u.pools.closings ++ items ∧
    ∀ t ∈ items, a.given = some t ∨ ¬ u.Owned t
  returns : a.given ≠ none → ∃ s, call a u.pools = .ret none s

omit [DecidableEq κ] in
/-- What is closed is in use nowhere and has no shares. -/
theorem not_owned {u : Usage κ} {t : Terminal κ}
    (h : (∀ ref, t ∉ (u.pools.objs ref).inuse) ∧ u.shares t = 0) : ¬ u.Owned t := by
  rintro (⟨ref, hin⟩ | hpos)
  · exact h.1 ref hin
  · exact absurd h.2 (Nat.ne_of_gt hpos)

/-- A call that is given a terminal. -/
theorem kept_of_run {a : Action κ} {u : Usage κ} {t : Terminal κ} {s : TerminalPools κ}
    (hgiven : a.given = some t) (hrun : call a u.pools = .ret none s)
    (hcloses : TerminalPools.ClosesOnly t u.pools s)
    (hinv : TerminalPools.Inv (heldAfter a (some none) u) (sharesAfter a u) s) : Kept a u := by
  have hstep : step a u = ⟨s, heldAfter a (some none) u, sharesAfter a u⟩ := by
    unfold step
    rw [hrun]
    rfl
  obtain ⟨items, hitems, ht⟩ := hcloses
  refine ⟨hstep ▸ hinv, ⟨items, hstep ▸ hitems, fun x hx => .inl ?_⟩, fun _ => ⟨s, hrun⟩⟩
  rw [ht x hx, hgiven]

theorem kept_get (c : Choice κ) (key : κ) (maxProcesses : Option Int) {u : Usage κ}
    (h : Valid u) : Kept (.get c key maxProcesses) u := by
  have hspares := TerminalPools.get_spares c key maxProcesses u.pools
    (TerminalPools.Spares.refl h)
  cases hget : TerminalPools.get c key maxProcesses u.pools with
  | ret t s =>
    rw [hget] at hspares
    have hstep : step (.get c key maxProcesses) u = ⟨s, insert t u.held, u.shares⟩ := by
      unfold step
      rw [call, Prog.bind_ret hget]
      rfl
    obtain ⟨items, hitems, ht⟩ := hspares.spared
    exact ⟨hstep ▸ hspares.inv, ⟨items, hstep ▸ hitems, fun x hx => .inr (not_owned (ht x hx))⟩,
      fun hne => absurd rfl hne⟩
  | raised e s =>
    rw [hget] at hspares
    have hstep : step (.get c key maxProcesses) u = ⟨s, u.held, u.shares⟩ := by
      unfold step
      rw [call, Prog.bind_raised hget]
      rfl
    obtain ⟨items, hitems, ht⟩ := hspares.spared
    exact ⟨hstep ▸ hspares.inv, ⟨items, hstep ▸ hitems, fun x hx => .inr (not_owned (ht x hx))⟩,
      fun hne => absurd rfl hne⟩
  | hang =>
    have hstep : step (.get c key maxProcesses) u = u := by
      unfold step
      rw [call, Prog.bind_hang hget]
      rfl
    exact ⟨hstep.symm ▸ h, ⟨[], by rw [hstep, List.append_nil], nofun⟩, fun hne => absurd rfl hne⟩

/-- **Step.** -/
theorem kept_step (a : Action κ) (u : Usage κ) (h : Valid u) (ha : Ok a u) : Kept a u := by
  cases a with
  | get c key maxProcesses => exact kept_get c key maxProcesses h
  | setMaxsize maxsize =>
    have hinv : TerminalPools.Inv u.held u.shares (u.pools.setMaxsize maxsize) :=
      ⟨h.ref_lt, h.ref_inj, fun ref =>
        ⟨(h.fits ref).registered, (h.fits ref).opened, (h.fits ref).counted,
          (h.fits ref).uncounted⟩, h.held, h.shared⟩
    exact ⟨hinv, ⟨[], (List.append_nil _).symm, nofun⟩, fun hne => absurd rfl hne⟩
  | put t isPersistent =>
    obtain ⟨s, hs, hcloses, hinv⟩ := TerminalPools.put_run h ha
    exact kept_of_run rfl (Prog.bind_ret hs) hcloses hinv
  | putIncrShared t isPersistent =>
    obtain ⟨s, hs, hcloses, hinv⟩ := TerminalPools.putIncrShared_run h ha
    exact kept_of_run rfl (Prog.bind_ret hs) hcloses hinv
  | decrShared t isPersistent =>
    obtain ⟨s, hs, hcloses, hinv⟩ := TerminalPools.decrShared_run h ha
    exact kept_of_run rfl (Prog.bind_ret hs) hcloses hinv
  | remove t =>
    obtain ⟨s, hs, hcloses, hinv⟩ := TerminalPools.remove_run h (t := t)
    exact kept_of_run rfl (Prog.bind_ret hs) hcloses hinv

/-- **Run.** -/
theorem valid_run {u : Usage κ} (h : Reaches step Ok init u) : Valid u :=
  h.invariant TerminalPools.inv_init fun a u hu ha => (kept_step a u hu ha).valid

/-- The pool of an owned terminal is registered under its key. -/
theorem registered_of_owned {u : Usage κ} (h : Valid u) {t : Terminal κ} (ht : u.Owned t) :
    ∃ ref, u.pools.pools.get? t.key = some ref ∧
      ∀ ref', (u.pools.objs ref').Has t ↔ ref' = ref := by
  obtain ⟨ref, hhas⟩ : ∃ ref, (u.pools.objs ref).Has t := by
    rcases ht with ⟨ref, hin⟩ | hpos
    · exact ⟨ref, .inl hin⟩
    · exact h.shared t hpos
  refine ⟨ref, h.get?_eq_some hhas, fun ref' => ⟨fun hhas' => h.ref_unique hhas' hhas, ?_⟩⟩
  rintro rfl
  exact hhas

/-- **Ownership.**  In every state that callers reach who keep to the rules. -/
theorem safe {u : Usage κ} (h : Reaches step Ok init u) :
    (∀ ref, Disjoint (u.pools.objs ref).inuse (u.pools.objs ref).free) ∧
    (∀ a, Ok a u → ∃ items, (step a u).pools.closings = u.pools.closings ++ items ∧
      ∀ t ∈ items, a.given = some t ∨ ¬ u.Owned t) ∧
    (∀ t, u.Owned t → ∃ ref, u.pools.pools.get? t.key = some ref ∧
      ∀ ref', (u.pools.objs ref').Has t ↔ ref' = ref) ∧
    (∀ a, Ok a u → a.given ≠ none → ∃ s, call a u.pools = .ret none s) := by
  have hvalid := valid_run h
  refine ⟨fun ref => (u.pools.objs ref).disjoint, fun a ha => ?_, fun t ht => ?_, fun a ha => ?_⟩
  · exact (kept_step a u hvalid ha).closings
  · exact registered_of_owned hvalid ht
  · exact (kept_step a u hvalid ha).returns

def terminalOrder : SetOrder (Terminal Bool) :=
  SetOrder.ascending (fun t => 2 * t.id + t.key.toNat) fun t u h => by
    obtain ⟨k, i⟩ := t
    obtain ⟨l, j⟩ := u
    have hkey : k = l ∧ i = j := by
      cases k <;> cases l <;> simp only [Bool.toNat_true, Bool.toNat_false] at h <;> simp <;> omega
    rw [hkey.1, hkey.2]

/-- An environment in which a new terminal gets the given id, for two keys. -/
def choice (new : Nat) : Choice Bool where
  free := terminalOrder
  pop := terminalOrder
  shuffle := id
  shuffle_perm := List.Perm.refl
  new := some new

/-- One terminal for each of two keys, the first one shared. -/
def sharing : List (Action Bool) :=
  [.get (choice 0) false (some 2), .putIncrShared ⟨false, 0⟩ true, .setMaxsize (some 2),
    .get (choice 1) true (some 1), .put ⟨true, 1⟩ true, .get (choice 2) false (some 2),
    .get (choice 3) false (some 2)]

theorem safe_sharing :
    let u := sharing.foldl (fun u a => step a u) init
    ∃ ref, u.pools.pools.get? false = some ref ∧
      ∀ ref', (u.pools.objs ref').Has ⟨false, 0⟩ ↔ ref' = ref :=
  (safe (reaches_of_along sharing .refl (by decide +kernel))).2.2.1 ⟨false, 0⟩
    (.inr (by decide +kernel))

end Usage

end InteractiveSessions
