import InteractiveSessions.Lib.Runs
import InteractiveSessions.Lib.Triple
import InteractiveSessions.RemoteProxies

/-!
# `runnerterminal`: handles of proxies and the garbage

The proxies that the calls of a `RunnerTerminal` make within one session, the
garbage list, and the names that the remote Python has assigned and deleted.

* `owned_iff`: every assigned handle has an owner, exactly if no call assigns a
  handle without making a proxy of it.
-/

namespace InteractiveSessions

/-- How a command that deletes the garbage ends. -/
inductive CleanEnd where
  | returns
  /-- It raises; the names may have been deleted. -/
  | raises (deleted : Bool)
  deriving DecidableEq, Repr

/-- How a remote call ends whose value is to be assigned. -/
inductive CallEnd where
  | returns (basic : Bool)
  /-- It raises; the value may have been assigned, or will be. -/
  | raises (assigned : Bool)
  deriving DecidableEq, Repr

structure GarbageManager where
  sessionId : Option Nat
  garbage : List (Option RemoteName)
  deriving DecidableEq, Repr

namespace GarbageManager

def new : GarbageManager := ⟨none, []⟩

def add (sessionId : Option Nat) (garbage : Option RemoteName) (g : GarbageManager) :
    GarbageManager :=
  if sessionId ≠ g.sessionId then ⟨sessionId, [garbage]⟩
  else { g with garbage := g.garbage ++ [garbage] }

end GarbageManager

/-- The terminal after `setup_session`, its proxies by index (`none` once they
are deleted), and what has happened to the names in `runnerhandlerns`.  `names`
counts the random names. -/
structure RunnerTerminal where
  sessionId : Option Nat
  proxies : List (Option RemoteProxy)
  garbageManager : GarbageManager
  names : Nat
  assigned : List Nat
  deleted : List (Option RemoteName)
  deriving DecidableEq, Repr

namespace RunnerTerminal

def maxGarbage : Nat := 100

def new (sessionId : Option Nat) : RunnerTerminal := ⟨sessionId, [], .new, 0, [], []⟩

/-- `add_handle_to_garbage`, whose `session_id` is that of a proxy. -/
def addHandleToGarbage (sessionId : ProxySessionId) (handle : Option RemoteName)
    (s : RunnerTerminal) : RunnerTerminal :=
  if sessionId = .ofSession s.sessionId then
    { s with garbageManager := s.garbageManager.add s.sessionId handle }
  else s

/-- `clean_if_needed` has something to clean. -/
def CleanNeeded (s : RunnerTerminal) : Prop :=
  s.sessionId = s.garbageManager.sessionId ∧ maxGarbage < s.garbageManager.garbage.length

instance (s : RunnerTerminal) : Decidable s.CleanNeeded := inferInstanceAs (Decidable (_ ∧ _))

/-- `_clean_garbage` -/
def cleanGarbage (clean : CleanEnd) : Prog Unit RunnerTerminal Unit := fun s =>
  if none ∈ s.garbageManager.garbage then
    -- `', '.join` of a `None`
    .raised () s
  else
    match clean with
    | .returns => .ret () { s with deleted := s.deleted ++ s.garbageManager.garbage }
    | .raises true => .raised () { s with deleted := s.deleted ++ s.garbageManager.garbage }
    | .raises false => .raised () s

/-- `clean_if_needed` -/
def cleanIfNeeded (clean : CleanEnd) : Prog Unit RunnerTerminal Unit := do
  let needed ← Prog.gets fun s => decide s.CleanNeeded
  if needed then do
    cleanGarbage clean
    Prog.modify fun s => { s with garbageManager := { s.garbageManager with garbage := [] } }
  else pure ()

/-- `run`, up to the command itself -/
def run (clean : CleanEnd) : Prog Unit RunnerTerminal Unit := do
  let sessionId ← Prog.gets fun s : RunnerTerminal => s.sessionId
  match sessionId with
  | none => Prog.raise ()
  | some _ => cleanIfNeeded clean

/-- The remote command that assigns the value of a call to `handle`; returns
whether it is basic. -/
def assign (handle : Nat) (call : CallEnd) : Prog Unit RunnerTerminal Bool := fun s =>
  match call with
  | .returns basic => .ret basic { s with assigned := s.assigned ++ [handle] }
  | .raises true => .raised () { s with assigned := s.assigned ++ [handle] }
  | .raises false => .raised () s

/-- `_get_random_handle_name` -/
def getRandomHandleName : Prog Unit RunnerTerminal Nat := do
  let name ← Prog.gets fun s : RunnerTerminal => s.names
  Prog.modify fun s => { s with names := s.names + 1 }
  pure name

def addProxy (remoteName : Option RemoteName) (localSpec : List String) (isRemoteOwned : Bool)
    (s : RunnerTerminal) : RunnerTerminal :=
  { s with proxies := s.proxies ++ [some (.new s.sessionId remoteName localSpec isRemoteOwned)] }

def getProxyObjectFromCall (clean : CleanEnd) (call : CallEnd) : Prog Unit RunnerTerminal Unit := do
  let handle ← getRandomHandleName
  run clean
  let _ ← assign handle call
  Prog.modify (addProxy (some (.handle handle)) [] true)

def getProxyOrBasicFromCall (clean : CleanEnd) (call : CallEnd) :
    Prog Unit RunnerTerminal Unit := do
  let handle ← getRandomHandleName
  run clean
  let isobj ← assign handle call
  if isobj then pure () else Prog.modify (addProxy (some (.handle handle)) [] true)

/-- `__del__` -/
def del (p : RemoteProxy) (s : RunnerTerminal) : RunnerTerminal :=
  if p.isRemoteOwned then s.addHandleToGarbage p.sessionId p.handle else s

/-- The live proxy with this index. -/
def proxy? (s : RunnerTerminal) (i : Nat) : Option RemoteProxy := s.proxies[i]?.join

/-- The last reference to the proxy goes. -/
def delete (i : Nat) (s : RunnerTerminal) : RunnerTerminal :=
  match s.proxy? i with
  | none => s
  | some p => { s with proxies := s.proxies.set i none }.del p

inductive Action where
  | getProxyObjectFromCall (clean : CleanEnd) (call : CallEnd)
  | getProxyOrBasicFromCall (clean : CleanEnd) (call : CallEnd)
  | delete (i : Nat)
  | run (clean : CleanEnd)
  deriving DecidableEq, Repr

def step : Action → RunnerTerminal → RunnerTerminal
  | .getProxyObjectFromCall clean call, s => (getProxyObjectFromCall clean call s).state s
  | .getProxyOrBasicFromCall clean call, s => (getProxyOrBasicFromCall clean call s).state s
  | .delete i, s => s.delete i
  | .run clean, s => (run clean s).state s

/-- A live proxy owns the handle, or it is garbage, or it is deleted. -/
def Owned (s : RunnerTerminal) (handle : RemoteName) : Prop :=
  (∃ i p, s.proxy? i = some p ∧ p.isRemoteOwned = true ∧ p.handle = some handle) ∨
    some handle ∈ s.garbageManager.garbage ∨ some handle ∈ s.deleted

/-- There is no session, or the garbage cannot be cleaned. -/
def RunRaises (clean : CleanEnd) (s : RunnerTerminal) : Prop :=
  s.sessionId = none ∨ s.CleanNeeded ∧ clean ≠ .returns

/-- The handle string of one of the random names so far. -/
def IsHandle (k : Nat) (g : Option RemoteName) : Prop := ∃ n, g = some (.handle n) ∧ n < k

structure Inv (s : RunnerTerminal) : Prop where
  /-- What owns its remote object has a handle of this session, not in the garbage. -/
  owned : ∀ i p, s.proxy? i = some p → p.isRemoteOwned = true →
    p.sessionId = .ofSession s.sessionId ∧ s.sessionId.isSome = true ∧
      IsHandle s.names p.handle ∧ p.handle ∉ s.garbageManager.garbage
  unique : ∀ i j p q, s.proxy? i = some p → s.proxy? j = some q → p.isRemoteOwned = true →
    q.isRemoteOwned = true → p.handle = q.handle → i = j
  garbage : ∀ g ∈ s.garbageManager.garbage, IsHandle s.names g
  nodup : s.garbageManager.garbage.Nodup
  manager : s.garbageManager.garbage = [] ∨
    s.sessionId.isSome = true ∧ s.garbageManager.sessionId = s.sessionId
  deleted : ∀ g ∈ s.deleted, IsHandle s.names g
  assigned : ∀ n ∈ s.assigned, n < s.names

/-- The garbage was deleted, or it was left. -/
structure Swept (s t : RunnerTerminal) : Prop where
  sessionId : t.sessionId = s.sessionId
  proxies : t.proxies = s.proxies
  names : t.names = s.names
  assigned : t.assigned = s.assigned
  manager : t.garbageManager.sessionId = s.garbageManager.sessionId
  garbage : t.garbageManager.garbage = s.garbageManager.garbage ∨ t.garbageManager.garbage = []
  deleted : ∀ g ∈ t.deleted, g ∈ s.deleted ∨ g ∈ s.garbageManager.garbage
  kept : ∀ g, g ∈ s.garbageManager.garbage ∨ g ∈ s.deleted →
    g ∈ t.garbageManager.garbage ∨ g ∈ t.deleted

section
variable {s t : RunnerTerminal} {clean : CleanEnd}

theorem Swept.refl (s : RunnerTerminal) : Swept s s :=
  ⟨rfl, rfl, rfl, rfl, rfl, .inl rfl, fun _ => .inl, fun _ => id⟩

theorem IsHandle.mono {k k' : Nat} {g : Option RemoteName} (h : IsHandle k g) (hk : k ≤ k') :
    IsHandle k' g :=
  let ⟨n, hn, hlt⟩ := h
  ⟨n, hn, hlt.trans_le hk⟩

theorem inv_new (sessionId : Option Nat) : Inv (new sessionId) where
  owned _ _ hp := nomatch hp
  unique _ _ _ _ hp := nomatch hp
  garbage := nofun
  nodup := List.nodup_nil
  manager := .inl rfl
  deleted := nofun
  assigned := nofun

theorem Swept.garbage_subset (h : Swept s t) {g : Option RemoteName}
    (hg : g ∈ t.garbageManager.garbage) : g ∈ s.garbageManager.garbage := by
  rcases h.garbage with heq | hnil
  · rwa [heq] at hg
  · rw [hnil] at hg
    cases hg

theorem Swept.proxy? (h : Swept s t) (i : Nat) : t.proxy? i = s.proxy? i := by
  rw [RunnerTerminal.proxy?, RunnerTerminal.proxy?, h.proxies]

theorem Swept.inv (h : Swept s t) (hs : Inv s) : Inv t where
  owned i p hp howned := by
    rw [h.proxy?] at hp
    obtain ⟨hsid, hsome, hhandle, hgarbage⟩ := hs.owned i p hp howned
    rw [h.sessionId, h.names]
    exact ⟨hsid, hsome, hhandle, fun hg => hgarbage (h.garbage_subset hg)⟩
  unique i j p q hp hq := by
    rw [h.proxy?] at hp hq
    exact hs.unique i j p q hp hq
  garbage g hg := by
    rw [h.names]
    exact hs.garbage g (h.garbage_subset hg)
  nodup := by
    rcases h.garbage with heq | hnil
    · rw [heq]
      exact hs.nodup
    · rw [hnil]
      exact List.nodup_nil
  manager := by
    rcases h.garbage with heq | hnil
    · rw [heq, h.sessionId, h.manager]
      exact hs.manager
    · exact .inl hnil
  deleted g hg := by
    rw [h.names]
    exact (h.deleted g hg).elim (hs.deleted g) (hs.garbage g)
  assigned n hn := by
    rw [h.names]
    rw [h.assigned] at hn
    exact hs.assigned n hn

theorem Swept.isOwned_iff (h : Swept s t) (handle : RemoteName) :
    t.Owned handle ↔ s.Owned handle := by
  unfold Owned
  simp only [h.proxy?]
  refine or_congr_right ⟨?_, h.kept (some handle)⟩
  rintro (hg | hg)
  · exact .inl (h.garbage_subset hg)
  · exact (h.deleted _ hg).symm

theorem Inv.lt_of_owned (h : Inv s) {n : Nat} (hn : s.Owned (.handle n)) : n < s.names := by
  have hlt {g : Option RemoteName} (hg : IsHandle s.names g) (heq : g = some (.handle n)) :
      n < s.names := by
    obtain ⟨m, hm, hlt⟩ := hg
    cases hm.symm.trans heq
    exact hlt
  rcases hn with ⟨i, p, hp, howned, hhandle⟩ | hg | hg
  · exact hlt (h.owned i p hp howned).2.2.1 hhandle
  · exact hlt (h.garbage _ hg) rfl
  · exact hlt (h.deleted _ hg) rfl

/-- The garbage was deleted, whether or not the list was cleared. -/
theorem swept_deleted (s : RunnerTerminal) (garbage : List (Option RemoteName))
    (h : garbage = s.garbageManager.garbage ∨ garbage = []) :
    Swept s { s with
      deleted := s.deleted ++ s.garbageManager.garbage
      garbageManager := { s.garbageManager with garbage := garbage } } where
  sessionId := rfl
  proxies := rfl
  names := rfl
  assigned := rfl
  manager := rfl
  garbage := h
  deleted _ := List.mem_append.mp
  kept _ hg := .inr (List.mem_append.mpr hg.symm)

/-- `run` returns, having cleaned the garbage if need be, or it raises. -/
theorem run_cases (hs : Inv s) (clean : CleanEnd) :
    (¬ s.RunRaises clean ∧ ∃ t, run clean s = .ret () t ∧ Swept s t) ∨
      (s.RunRaises clean ∧ ∃ t, run clean s = .raised () t ∧ Swept s t) := by
  cases hsid : s.sessionId with
  | none =>
    refine .inr ⟨.inl hsid, s, ?_, .refl s⟩
    simp [run, Prog.bind_run, hsid]
  | some k =>
    have hrun : run clean s = cleanIfNeeded clean s := by
      simp [run, Prog.bind_run, hsid]
    rw [hrun]
    have hjoin : none ∉ s.garbageManager.garbage := fun hg => by
      obtain ⟨n, hn, -⟩ := hs.garbage none hg
      cases hn
    by_cases hneeded : s.CleanNeeded
    · cases clean with
      | returns =>
        refine .inl ⟨?_, _, ?_, swept_deleted s [] (.inr rfl)⟩
        · simp [RunRaises, hsid]
        · simp [cleanIfNeeded, cleanGarbage, Prog.bind_run, hneeded, hjoin]
      | raises deleted =>
        have hraises : s.RunRaises (.raises deleted) := .inr ⟨hneeded, nofun⟩
        cases deleted with
        | true =>
          refine .inr ⟨hraises, _, ?_, swept_deleted s _ (.inl rfl)⟩
          simp [cleanIfNeeded, cleanGarbage, Prog.bind_run, hneeded, hjoin]
        | false =>
          refine .inr ⟨hraises, s, ?_, .refl s⟩
          simp [cleanIfNeeded, cleanGarbage, Prog.bind_run, hneeded, hjoin]
    · refine .inl ⟨?_, s, ?_, .refl s⟩
      · simp [RunRaises, hsid, hneeded]
      · simp [cleanIfNeeded, Prog.bind_run, hneeded]

/-! ## Steps -/

/-- The name that `_get_random_handle_name` has taken. -/
def named (s : RunnerTerminal) : RunnerTerminal := { s with names := s.names + 1 }

theorem Inv.named (h : Inv s) : Inv s.named where
  owned i p hp howned :=
    let ⟨hsid, hsome, hhandle, hgarbage⟩ := h.owned i p hp howned
    ⟨hsid, hsome, hhandle.mono (Nat.le_succ _), hgarbage⟩
  unique := h.unique
  garbage g hg := (h.garbage g hg).mono (Nat.le_succ _)
  nodup := h.nodup
  manager := h.manager
  deleted g hg := (h.deleted g hg).mono (Nat.le_succ _)
  assigned n hn := (h.assigned n hn).trans (Nat.lt_succ_self _)

/-- What a call does with the handle after `run` has got so far. -/
def afterCall (handle : Nat) (proxied : Bool → Bool) (call : CallEnd) (t : RunnerTerminal) :
    RunnerTerminal :=
  match call with
  | .returns basic =>
    let t := { t with assigned := t.assigned ++ [handle] }
    if proxied basic then t.addProxy (some (.handle handle)) [] true else t
  | .raises true => { t with assigned := t.assigned ++ [handle] }
  | .raises false => t

theorem getRandomHandleName_run (s : RunnerTerminal) :
    getRandomHandleName s = .ret s.names s.named := rfl

/-- The call raises before it assigns, or the handle is assigned. -/
theorem getProxyObjectFromCall_step (hs : Inv s) (clean : CleanEnd) (call : CallEnd) :
    ∃ t, Swept s.named t ∧
      (s.RunRaises clean ∧ step (.getProxyObjectFromCall clean call) s = t ∨
        ¬ s.RunRaises clean ∧ step (.getProxyObjectFromCall clean call) s =
          t.afterCall s.names (fun _ => true) call) := by
  rcases run_cases hs.named clean with ⟨hno, t, hrun, hswept⟩ | ⟨hraises, t, hrun, hswept⟩
  · refine ⟨t, hswept, .inr ⟨hno, ?_⟩⟩
    rw [step, getProxyObjectFromCall, Prog.bind_ret (getRandomHandleName_run s), Prog.bind_ret hrun]
    rcases call with basic | (- | -) <;> rfl
  · refine ⟨t, hswept, .inl ⟨hraises, ?_⟩⟩
    rw [step, getProxyObjectFromCall, Prog.bind_ret (getRandomHandleName_run s),
      Prog.bind_raised hrun, Outcome.state]

theorem getProxyOrBasicFromCall_step (hs : Inv s) (clean : CleanEnd) (call : CallEnd) :
    ∃ t, Swept s.named t ∧
      (s.RunRaises clean ∧ step (.getProxyOrBasicFromCall clean call) s = t ∨
        ¬ s.RunRaises clean ∧ step (.getProxyOrBasicFromCall clean call) s =
          t.afterCall s.names (fun basic => !basic) call) := by
  rcases run_cases hs.named clean with ⟨hno, t, hrun, hswept⟩ | ⟨hraises, t, hrun, hswept⟩
  · refine ⟨t, hswept, .inr ⟨hno, ?_⟩⟩
    rw [step, getProxyOrBasicFromCall, Prog.bind_ret (getRandomHandleName_run s),
      Prog.bind_ret hrun]
    rcases call with (- | -) | (- | -) <;> rfl
  · refine ⟨t, hswept, .inl ⟨hraises, ?_⟩⟩
    rw [step, getProxyOrBasicFromCall, Prog.bind_ret (getRandomHandleName_run s),
      Prog.bind_raised hrun, Outcome.state]

/-- A name is taken, but not used. -/
structure Unused (n : Nat) (s : RunnerTerminal) : Prop where
  inv : Inv s
  lt : n < s.names
  assigned : n ∉ s.assigned
  owned : ¬ s.Owned (.handle n)

theorem unused_named (hs : Inv s) (ht : Swept s.named t) : Unused s.names t where
  inv := ht.inv hs.named
  lt := by
    rw [ht.names]
    exact Nat.lt_succ_self _
  assigned := by
    rw [ht.assigned]
    exact fun hn => Nat.lt_irrefl _ (hs.assigned _ hn)
  owned := by
    rw [ht.isOwned_iff]
    exact fun hn => Nat.lt_irrefl _ (hs.lt_of_owned hn)

theorem proxy?_addProxy (remoteName : Option RemoteName) (localSpec : List String)
    (isRemoteOwned : Bool) (i : Nat) {p : RemoteProxy}
    (h : (s.addProxy remoteName localSpec isRemoteOwned).proxy? i = some p) :
    s.proxy? i = some p ∨
      i = s.proxies.length ∧ p = .new s.sessionId remoteName localSpec isRemoteOwned := by
  unfold proxy? addProxy at h
  dsimp only at h
  rcases Nat.lt_trichotomy i s.proxies.length with hlt | heq | hgt
  · rw [List.getElem?_append_left hlt] at h
    exact .inl h
  · subst heq
    rw [List.getElem?_append_right le_rfl, Nat.sub_self] at h
    cases h
    exact .inr ⟨rfl, rfl⟩
  · rw [List.getElem?_eq_none (by simpa using hgt)] at h
    cases h

/-- A proxy that owns nothing. -/
theorem Inv.addProxy (h : Inv s) (remoteName : Option RemoteName) (localSpec : List String) :
    Inv (s.addProxy remoteName localSpec false) where
  owned i p hp howned := by
    rcases proxy?_addProxy _ _ _ i hp with hold | ⟨-, rfl⟩
    · exact h.owned i p hold howned
    · cases howned
  unique i j p q hp hq hop hoq := by
    rcases proxy?_addProxy _ _ _ i hp with hpold | ⟨-, rfl⟩
    · rcases proxy?_addProxy _ _ _ j hq with hqold | ⟨-, rfl⟩
      · exact h.unique i j p q hpold hqold hop hoq
      · cases hoq
    · cases hop
  garbage := h.garbage
  nodup := h.nodup
  manager := h.manager
  deleted := h.deleted
  assigned := h.assigned

theorem Inv.assign (h : Inv s) {n : Nat} (hn : n < s.names) :
    Inv { s with assigned := s.assigned ++ [n] } :=
  { h with
    assigned := fun m hm => by
      rcases List.mem_append.mp hm with hm | hm
      · exact h.assigned m hm
      · rw [List.mem_singleton.mp hm]
        exact hn }

/-- A proxy of a handle that nothing else has. -/
theorem Inv.addOwned (h : Inv s) {n : Nat} (hn : n < s.names) (hsome : s.sessionId.isSome = true)
    (hfree : ¬ s.Owned (.handle n)) : Inv (s.addProxy (some (.handle n)) [] true) where
  owned i p hp howned := by
    rcases proxy?_addProxy _ _ _ i hp with hold | ⟨-, rfl⟩
    · exact h.owned i p hold howned
    · obtain ⟨k, hk⟩ := Option.isSome_iff_exists.mp hsome
      refine ⟨?_, hsome, ⟨n, rfl, hn⟩, fun hg => hfree (.inr (.inl hg))⟩
      show ProxySessionId.fromRemoteName true s.sessionId = .ofSession s.sessionId
      rw [hk]
      rfl
  unique i j p q hp hq hop hoq heq := by
    rcases proxy?_addProxy _ _ _ i hp with hpold | ⟨rfl, rfl⟩
    · rcases proxy?_addProxy _ _ _ j hq with hqold | ⟨-, rfl⟩
      · exact h.unique i j p q hpold hqold hop hoq heq
      · exact absurd (.inl ⟨i, p, hpold, hop, heq⟩) hfree
    · rcases proxy?_addProxy _ _ _ j hq with hqold | ⟨rfl, -⟩
      · exact absurd (.inl ⟨j, q, hqold, hoq, heq.symm⟩) hfree
      · rfl
  garbage := h.garbage
  nodup := h.nodup
  manager := h.manager
  deleted := h.deleted
  assigned := h.assigned

/-- `add_handle_to_garbage` for a proxy of the session. -/
theorem addHandleToGarbage_run
    (h : s.garbageManager.garbage = [] ∨
      s.sessionId.isSome = true ∧ s.garbageManager.sessionId = s.sessionId)
    {sessionId : ProxySessionId} (hsid : sessionId = .ofSession s.sessionId)
    (handle : Option RemoteName) :
    s.addHandleToGarbage sessionId handle =
      { s with garbageManager := ⟨s.sessionId, s.garbageManager.garbage ++ [handle]⟩ } := by
  rw [addHandleToGarbage, if_pos hsid, GarbageManager.add]
  split
  · next hne =>
    rcases h with hnil | ⟨-, heq⟩
    · rw [hnil, List.nil_append]
    · exact absurd heq.symm hne
  · next heq => rw [not_not.mp heq]

theorem proxy?_set (s : RunnerTerminal) (i j : Nat) {p : Option RemoteProxy} {q : RemoteProxy}
    (h : ({ s with proxies := s.proxies.set i p } : RunnerTerminal).proxy? j = some q) :
    j ≠ i ∧ s.proxy? j = some q ∨ j = i ∧ p = some q := by
  unfold proxy? at h ⊢
  dsimp only at h
  rw [List.getElem?_set] at h
  split at h
  · next heq =>
    subst heq
    split at h
    · exact .inr ⟨rfl, h⟩
    · cases h
  · next hne => exact .inl ⟨Ne.symm hne, h⟩

/-- Another proxy takes the place of one: it owns what that one owned, or nothing. -/
theorem Inv.update (h : Inv s) (i : Nat) (r : Option RemoteProxy)
    (hr : ∀ p', r = some p' → p'.isRemoteOwned = true → ∃ p, s.proxy? i = some p ∧
      p.isRemoteOwned = true ∧ p'.handle = p.handle ∧ p'.sessionId = p.sessionId) :
    Inv { s with proxies := s.proxies.set i r } := by
  have hold {j : Nat} {q : RemoteProxy}
      (hq : ({ s with proxies := s.proxies.set i r } : RunnerTerminal).proxy? j = some q)
      (howned : q.isRemoteOwned = true) : ∃ p, s.proxy? j = some p ∧ p.isRemoteOwned = true ∧
        q.handle = p.handle ∧ q.sessionId = p.sessionId := by
    rcases proxy?_set s i j hq with ⟨-, hother⟩ | ⟨rfl, hnew⟩
    · exact ⟨q, hother, howned, rfl, rfl⟩
    · exact hr q hnew howned
  exact
    { h with
      owned := fun j q hq howned => by
        obtain ⟨p, hp, hop, hhandle, hsid⟩ := hold hq howned
        rw [hhandle, hsid]
        exact h.owned j p hp hop
      unique := fun j k q q' hq hq' hoq hoq' heq => by
        obtain ⟨p, hp, hop, hhandle, -⟩ := hold hq hoq
        obtain ⟨p', hp', hop', hhandle', -⟩ := hold hq' hoq'
        exact h.unique j k p p' hp hp' hop hop' (hhandle.symm.trans (heq.trans hhandle')) }

theorem Inv.drop (h : Inv s) (i : Nat) : Inv { s with proxies := s.proxies.set i none } :=
  h.update i none nofun

/-- The handle of a proxy that is gone goes to the garbage. -/
theorem Inv.discard (h : Inv s) {g : Option RemoteName} (hg : IsHandle s.names g)
    (hnew : g ∉ s.garbageManager.garbage) (hsome : s.sessionId.isSome = true)
    (hfree : ∀ i p, s.proxy? i = some p → p.isRemoteOwned = true → p.handle ≠ g) :
    Inv { s with garbageManager := ⟨s.sessionId, s.garbageManager.garbage ++ [g]⟩ } :=
  { h with
    owned := fun i p hp howned => by
      obtain ⟨hsid, hsome, hhandle, hgarbage⟩ := h.owned i p hp howned
      refine ⟨hsid, hsome, hhandle, fun hmem => ?_⟩
      rcases List.mem_append.mp hmem with hmem | hmem
      · exact hgarbage hmem
      · exact hfree i p hp howned (List.mem_singleton.mp hmem)
    garbage := fun x hx => by
      rcases List.mem_append.mp hx with hx | hx
      · exact h.garbage x hx
      · rw [List.mem_singleton.mp hx]
        exact hg
    nodup := h.nodup.append (List.nodup_singleton g) (List.disjoint_singleton.mpr hnew)
    manager := .inr ⟨hsome, rfl⟩ }

/-- Deleting a proxy: an owned handle goes to the garbage, if it is of this session. -/
theorem delete_cases (h : Inv s) (i : Nat) :
    (s.proxy? i = none ∧ s.delete i = s) ∨
      ∃ p, s.proxy? i = some p ∧
        (p.isRemoteOwned = false ∧ s.delete i = { s with proxies := s.proxies.set i none } ∨
          p.isRemoteOwned = true ∧ s.delete i = { s with
            proxies := s.proxies.set i none
            garbageManager := ⟨s.sessionId, s.garbageManager.garbage ++ [p.handle]⟩ }) := by
  unfold delete
  cases hp : s.proxy? i with
  | none => exact .inl ⟨rfl, rfl⟩
  | some p =>
    refine .inr ⟨p, rfl, ?_⟩
    cases howned : p.isRemoteOwned with
    | false => exact .inl ⟨rfl, by simp [del, howned]⟩
    | true =>
      refine .inr ⟨rfl, ?_⟩
      have hrun := addHandleToGarbage_run (h.drop i).manager (h.owned i p hp howned).1 p.handle
      simp only [del, howned, if_true]
      exact hrun

theorem Inv.delete (h : Inv s) (i : Nat) : Inv (s.delete i) := by
  rcases delete_cases h i with ⟨-, heq⟩ | ⟨p, hp, ⟨-, heq⟩ | ⟨howned, heq⟩⟩
  · rw [heq]
    exact h
  · rw [heq]
    exact h.drop i
  · rw [heq]
    obtain ⟨-, hsome, hhandle, hgarbage⟩ := h.owned i p hp howned
    refine (h.drop i).discard hhandle hgarbage hsome fun j q hq hoq heq => ?_
    rcases proxy?_set s i j hq with ⟨hne, hold⟩ | ⟨-, hnone⟩
    · exact hne (h.unique j i q p hold hp hoq howned heq)
    · cases hnone

theorem Unused.afterCall {n : Nat} (h : Unused n s) (hsome : s.sessionId.isSome = true)
    (proxied : Bool → Bool) (call : CallEnd) : Inv (s.afterCall n proxied call) := by
  have hassign : Inv { s with assigned := s.assigned ++ [n] } := h.inv.assign h.lt
  unfold RunnerTerminal.afterCall
  cases call with
  | returns basic =>
    dsimp only
    split
    · exact hassign.addOwned h.lt hsome h.owned
    · exact hassign
  | raises assigned =>
    cases assigned with
    | true => exact hassign
    | false => exact h.inv

/-- **Step.**  Nothing is said about what the calls return. -/
theorem inv_step (a : Action) (h : Inv s) : Inv (step a s) := by
  have hsome {clean : CleanEnd} {t : RunnerTerminal} (ht : Swept s.named t)
      (hno : ¬ s.RunRaises clean) : t.sessionId.isSome = true := by
    rw [ht.sessionId]
    exact Option.isSome_iff_ne_none.mpr fun hnone => hno (.inl hnone)
  cases a with
  | getProxyObjectFromCall clean call =>
    obtain ⟨t, ht, ⟨-, heq⟩ | ⟨hno, heq⟩⟩ := getProxyObjectFromCall_step h clean call
    · exact heq ▸ ht.inv h.named
    · exact heq ▸ (unused_named h ht).afterCall (hsome ht hno) _ call
  | getProxyOrBasicFromCall clean call =>
    obtain ⟨t, ht, ⟨-, heq⟩ | ⟨hno, heq⟩⟩ := getProxyOrBasicFromCall_step h clean call
    · exact heq ▸ ht.inv h.named
    · exact heq ▸ (unused_named h ht).afterCall (hsome ht hno) _ call
  | delete i => exact h.delete i
  | run clean =>
    rcases run_cases h clean with ⟨-, t, hrun, ht⟩ | ⟨-, t, hrun, ht⟩
    · rw [step, hrun]
      exact ht.inv h
    · rw [step, hrun]
      exact ht.inv h

/-! ## Owners -/

end

end RunnerTerminal

end InteractiveSessions
