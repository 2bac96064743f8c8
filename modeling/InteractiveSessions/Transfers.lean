import InteractiveSessions.RunnerTerminal

/-!
# `remoteproxies`: `set_from_remote_proxy`

Proxies are made, used, handed over to each other and deleted in the session of a
`RunnerTerminal`.

* `handsOver_iff`: `set_from_remote_proxy` takes everything away from its argument,
  exactly if the argument is rejected already.
-/

namespace InteractiveSessions.RunnerTerminal

namespace Transfer

inductive Action where
  | session (a : RunnerTerminal.Action)
  /-- `setup_session`, with the `id()` of the session -/
  | setupSession (id : Nat)
  | getProxyObject (remoteObject : String) (localSpec : List String)
  | createEmptyRemoteProxy
  | asRecursiveProxy (i : Nat)
  /-- `__getattr__` of a callable -/
  | getMethod (i : Nat) (name : String)
  /-- `proxies[i].set_from_remote_proxy(proxies[j])` -/
  | setFromRemoteProxy (i j : Nat)
  deriving DecidableEq, Repr

end Transfer

def setupSession (id : Nat) (s : RunnerTerminal) : RunnerTerminal :=
  match s.sessionId with
  | none => { s with sessionId := some id }
  | some _ => s

def asRecursiveProxy (i : Nat) (s : RunnerTerminal) : RunnerTerminal :=
  match s.proxy? i with
  | none => s
  | some p =>
    if p.sessionId.Invalid s.sessionId then s
    else s.addProxy p.handle [] false

/-- `__getattr__` adds a wrapper when there is no spec. -/
def getMethod (i : Nat) (name : String) (s : RunnerTerminal) : RunnerTerminal :=
  match s.proxy? i with
  | none => s
  | some p =>
    if ¬ p.sessionId.Invalid s.sessionId ∧ p.spec = [] ∧ name ∉ p.methods then
      { s with proxies := s.proxies.set i (some { p with methods := p.methods ++ [name] }) }
    else s

def setFromRemoteProxy (i j : Nat) (s : RunnerTerminal) : RunnerTerminal :=
  match s.proxy? i, s.proxy? j with
  | some q, some p =>
    { s with proxies := (s.proxies.set i (some (q.setFrom p))).set j (some p.nullify) }
  | _, _ => s

namespace Transfer

def step : Action → RunnerTerminal → RunnerTerminal
  | .session a, s => RunnerTerminal.step a s
  | .setupSession id, s => s.setupSession id
  | .getProxyObject remoteObject localSpec, s =>
    s.addProxy (some (.object remoteObject)) localSpec false
  | .createEmptyRemoteProxy, s => s.addProxy none [] false
  | .asRecursiveProxy i, s => s.asRecursiveProxy i
  | .getMethod i name, s => s.getMethod i name
  | .setFromRemoteProxy i j, s => s.setFromRemoteProxy i j

/-- After `q.set_from_remote_proxy(p)` every access to `p` is rejected, deleting
`p` adds no garbage, and deleting `q` adds the handle of `p` if `p` owned it. -/
def HandsOver (a : Action) (s : RunnerTerminal) : Prop :=
  match a with
  | .setFromRemoteProxy i j => ∀ q p, s.sessionId.isSome → s.proxy? i = some q →
    s.proxy? j = some p →
      let t := s.setFromRemoteProxy i j
      (∀ p', t.proxy? j = some p' → p'.Rejected t.sessionId) ∧
        (t.delete j).garbageManager.garbage = t.garbageManager.garbage ∧
        (t.delete i).garbageManager.garbage =
          if p.isRemoteOwned then t.garbageManager.garbage ++ [p.handle]
          else t.garbageManager.garbage
  | _ => True

/-- The garbage are handle strings, each of them once. -/
def GarbageOk (s : RunnerTerminal) : Prop :=
  (∀ g ∈ s.garbageManager.garbage, ∃ n, g = some (.handle n)) ∧ s.garbageManager.garbage.Nodup

/-- The proxy that is handed over is rejected already. -/
def Dead (a : Action) (s : RunnerTerminal) : Prop :=
  match a with
  | .setFromRemoteProxy i j => ∀ q p, s.sessionId.isSome → s.proxy? i = some q →
    s.proxy? j = some p → p.Rejected s.sessionId
  | _ => True

section
variable {s : RunnerTerminal}

/-- What is rejected owns nothing. -/
theorem Inv.unowned_of_rejected (h : Inv s) {i : Nat} {p : RemoteProxy}
    (hp : s.proxy? i = some p) (hrejected : p.Rejected s.sessionId) : p.isRemoteOwned = false := by
  by_contra howned
  obtain ⟨hsid, hsome, -⟩ := h.owned i p hp (Bool.not_eq_false _ ▸ howned)
  obtain ⟨k, hk⟩ := Option.isSome_iff_exists.mp hsome
  have hinvalid := ((p.rejected_iff _).mp hrejected).1
  rw [hsid, hk] at hinvalid
  exact (ProxySessionId.invalid_id_iff k (some k)).mp hinvalid rfl

theorem inv_setupSession (h : Inv s) (id : Nat) : Inv (s.setupSession id) := by
  unfold setupSession
  cases hsid : s.sessionId with
  | some k => exact h
  | none =>
    exact
      { h with
        owned := fun i p hp howned => by
          have hsome := (h.owned i p hp howned).2.1
          rw [hsid] at hsome
          cases hsome
        manager := by
          rcases h.manager with hnil | ⟨hsome, -⟩
          · exact .inl hnil
          · rw [hsid] at hsome
            cases hsome }

theorem inv_asRecursiveProxy (h : Inv s) (i : Nat) : Inv (s.asRecursiveProxy i) := by
  unfold asRecursiveProxy
  cases s.proxy? i with
  | none => exact h
  | some p =>
    dsimp only
    split
    · exact h
    · exact h.addProxy _ _

theorem inv_getMethod (h : Inv s) (i : Nat) (name : String) : Inv (s.getMethod i name) := by
  unfold getMethod
  cases hp : s.proxy? i with
  | none => exact h
  | some p =>
    dsimp only
    split
    · refine h.update i _ fun p' hp' howned => ?_
      cases hp'
      exact ⟨p, hp, howned, rfl, rfl⟩
    · exact h

theorem inv_setFromRemoteProxy (h : Inv s) (i j : Nat)
    (hdead : ∀ p, s.proxy? j = some p → p.isRemoteOwned = false) :
    Inv (s.setFromRemoteProxy i j) := by
  unfold setFromRemoteProxy
  split
  · next q p hq hp =>
    have hunowned := hdead p hp
    refine Inv.update (h.update i (some (q.setFrom p)) ?_) j (some p.nullify) ?_
    · rintro p' hp' howned
      cases hp'
      cases hunowned.symm.trans howned
    · rintro p' hp' howned
      cases hp'
      cases hunowned.symm.trans howned
  · exact h

theorem inv_step (a : Action) (h : Inv s) (hdead : Dead a s) : Inv (step a s) := by
  cases a with
  | session a => exact RunnerTerminal.inv_step a h
  | setupSession id => exact inv_setupSession h id
  | getProxyObject remoteObject localSpec => exact h.addProxy _ _
  | createEmptyRemoteProxy => exact h.addProxy _ _
  | asRecursiveProxy i => exact inv_asRecursiveProxy h i
  | getMethod i name => exact inv_getMethod h i name
  | setFromRemoteProxy i j =>
    cases hq : s.proxy? i with
    | none =>
      have hnothing : s.setFromRemoteProxy i j = s := by
        simp [setFromRemoteProxy, hq]
      exact (congrArg Inv hnothing).mpr h
    | some q =>
      refine inv_setFromRemoteProxy h i j fun p hp => ?_
      cases hsid : s.sessionId with
      | none =>
        by_contra howned
        have hsome := (h.owned j p hp (by simpa using howned)).2.1
        rw [hsid] at hsome
        cases hsome
      | some k => exact Inv.unowned_of_rejected h hp (hdead q p (by rw [hsid]; rfl) hq hp)

theorem garbageOk_of_inv (h : Inv s) : GarbageOk s :=
  ⟨fun g hg => let ⟨n, hn, _⟩ := h.garbage g hg; ⟨n, hn⟩, h.nodup⟩

/-- Deleting a proxy that owns its handle adds it to the garbage. -/
theorem garbage_delete {t : RunnerTerminal} {i : Nat} {p : RemoteProxy}
    (hp : t.proxy? i = some p)
    (hmanager : t.garbageManager.garbage = [] ∨
      t.sessionId.isSome = true ∧ t.garbageManager.sessionId = t.sessionId)
    (hsid : p.isRemoteOwned = true → p.sessionId = .ofSession t.sessionId) :
    (t.delete i).garbageManager.garbage =
      if p.isRemoteOwned then t.garbageManager.garbage ++ [p.handle]
      else t.garbageManager.garbage := by
  unfold delete
  rw [hp]
  dsimp only
  rw [del]
  cases howned : p.isRemoteOwned with
  | false => rfl
  | true =>
    rw [if_pos rfl, if_pos rfl]
    have hrun := addHandleToGarbage_run
      (s := { t with proxies := t.proxies.set i none }) hmanager (hsid howned) p.handle
    rw [hrun]

theorem lt_of_proxy? {i : Nat} {p : RemoteProxy} (h : s.proxy? i = some p) :
    i < s.proxies.length := by
  by_contra hge
  rw [proxy?, List.getElem?_eq_none (Nat.le_of_not_lt hge)] at h
  cases h

section
variable {i j : Nat} {p q : RemoteProxy} (hq : s.proxy? i = some q) (hp : s.proxy? j = some p)
include hq hp

theorem setFromRemoteProxy_run :
    s.setFromRemoteProxy i j =
      { s with proxies := (s.proxies.set i (some (q.setFrom p))).set j (some p.nullify) } := by
  simp [setFromRemoteProxy, hq, hp]

theorem proxy?_argument : (s.setFromRemoteProxy i j).proxy? j = some p.nullify := by
  rw [setFromRemoteProxy_run hq hp, proxy?]
  dsimp only
  rw [List.getElem?_set_self (by simpa using lt_of_proxy? hp)]
  rfl

/-- The proxy that is set, which may be the argument itself. -/
theorem proxy?_receiver :
    ∃ r, (s.setFromRemoteProxy i j).proxy? i = some r ∧ r.isRemoteOwned = p.isRemoteOwned ∧
      r.sessionId = p.sessionId := by
  by_cases hij : i = j
  · subst hij
    exact ⟨_, proxy?_argument hq hp, rfl, rfl⟩
  · refine ⟨q.setFrom p, ?_, rfl, rfl⟩
    rw [setFromRemoteProxy_run hq hp, proxy?]
    dsimp only
    rw [List.getElem?_set_ne (Ne.symm hij), List.getElem?_set_self (lt_of_proxy? hq)]
    rfl

end

/-- **Step.** -/
theorem handsOver_step (a : Action) (h : Inv s) : HandsOver a s ↔ Dead a s := by
  cases a with
  | setFromRemoteProxy i j =>
    refine forall_congr' fun q => forall_congr' fun p => forall_congr' fun hsome =>
      forall_congr' fun hq => forall_congr' fun hp => ?_
    have hargument := proxy?_argument hq hp
    have hsid : (s.setFromRemoteProxy i j).sessionId = s.sessionId := by
      rw [setFromRemoteProxy_run hq hp]
    have hrejected : p.nullify.Rejected s.sessionId ↔ p.Rejected s.sessionId := by
      rw [RemoteProxy.rejected_iff, RemoteProxy.rejected_iff]
      rfl
    constructor
    · rintro ⟨hnullified, -⟩
      rw [hsid] at hnullified
      exact hrejected.mp (hnullified _ hargument)
    · intro hdead
      have hunowned := Inv.unowned_of_rejected h hp hdead
      have hmanager : (s.setFromRemoteProxy i j).garbageManager.garbage = [] ∨
          (s.setFromRemoteProxy i j).sessionId.isSome = true ∧
            (s.setFromRemoteProxy i j).garbageManager.sessionId =
              (s.setFromRemoteProxy i j).sessionId := by
        rw [setFromRemoteProxy_run hq hp]
        exact h.manager
      obtain ⟨r, hr, howned, -⟩ := proxy?_receiver hq hp
      refine ⟨fun p' hp' => ?_, ?_, ?_⟩
      · cases hargument.symm.trans hp'
        rw [hsid]
        exact hrejected.mpr hdead
      · have hnullified : p.nullify.isRemoteOwned = false := hunowned
        have hdelete := garbage_delete hargument hmanager fun ho => by
          cases hnullified.symm.trans ho
        rw [hnullified] at hdelete
        exact hdelete
      · have hreceiver : r.isRemoteOwned = false := howned.trans hunowned
        have hdelete := garbage_delete hr hmanager fun ho => by
          cases hreceiver.symm.trans ho
        rw [hreceiver] at hdelete
        rw [hunowned]
        exact hdelete
  | session | setupSession | getProxyObject | createEmptyRemoteProxy | asRecursiveProxy
  | getMethod => exact Iff.rfl

end

/-- **Run.**  `set_from_remote_proxy` hands over what its argument has and the
garbage are single handle strings, exactly if every argument was rejected already. -/
theorem handsOver_iff (actions : List Action) :
    Along step (fun a s => HandsOver a s ∧ GarbageOk (step a s)) actions (new none) ↔
      Along step Dead actions (new none) := by
  refine along_congr_of (I := Inv) (fun a _ => inv_step a) (fun a s h => ?_) actions (inv_new none)
  rw [handsOver_step a h]
  exact and_iff_left_of_imp fun hdead => garbageOk_of_inv (inv_step a h hdead)

/-- **A `None` in the garbage.**  The owner hands over its handle and is deleted. -/
theorem not_handsOver_owner :
    ¬ Along step (fun a s => HandsOver a s ∧ GarbageOk (step a s))
      [.setupSession 7, .session (.getProxyObjectFromCall .returns (.returns false)),
        .createEmptyRemoteProxy, .setFromRemoteProxy 1 0, .session (.delete 0)] (new none) := by
  intro h
  have hgarbage := h.2.2.2.2.1.2.1 none (by decide)
  obtain ⟨n, hn⟩ := hgarbage
  cases hn

end Transfer

end InteractiveSessions.RunnerTerminal
