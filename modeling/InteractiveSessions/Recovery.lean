import InteractiveSessions.AutoRunnerTerminal

/-!
# `AutoRunnerTerminal`: recovery after failed initializations

* `recovers_iff`: in exactly those histories in which `initialize_if_needed` does
  not find a session that was never set up beside a verification proxy of an
  earlier one, it gets a session back as soon as nothing fails anymore.
-/

namespace InteractiveSessions.AutoRunnerTerminal

open AutoRecoveringTerminal (close initializeTerminal initializeIfNeeded At verifying)

variable {η : Type}

/-- From this call on `spawn`, `push` and `prepare` succeed. -/
def SucceedsFrom (env : RunnerEnv) (n : Nat) : Prop :=
  ∀ k, n ≤ k → (∀ op ∈ [Op.spawn, .push, .setupHandler, .prepare], env.fails op k = none) ∧
    env.closes k = false

/-- `session_id` is the `id()` of the session, which is the newest one. -/
def Recovered (env : RunnerEnv) (s : AutoRunnerTerminal η) : Prop :=
  ∃ x, s.session = some x ∧ s.user.sessionId = some x.id ∧ x.id = env.id s.user.sessions

/-- `initialize_if_needed` returns with a session, a new one if there was none. -/
def Returns (env : RunnerEnv) (c : ShellStack η) (s : AutoRunnerTerminal η) : Prop :=
  ∃ s', initializeIfNeeded c.settings (hooks env c) s = .ret () s' ∧ Recovered env s' ∧
    (s.session = none → s.user.sessions < s'.user.sessions)

/-- `initialize_if_needed` returns once nothing fails anymore, and at no time is
the verification proxy of an earlier session in the way. -/
def Recovers (env : RunnerEnv) (c : ShellStack η) (a : Action) (s : AutoRunnerTerminal η) : Prop :=
  a = .initializeIfNeeded →
    (SucceedsFrom env s.user.calls → Returns env c s) ∧
      ∀ x p, s.session = some x → s.user.verifyProxy = some p → remoteProxyVerify p s = .ret () s

/-- When `initialize_if_needed` finds a session and a verification proxy, that
session was set up.  If nothing fails anymore, the remote call of the
verification returns or finds the session broken. -/
def Verifiable (env : RunnerEnv) (a : Action) (s : AutoRunnerTerminal η) : Prop :=
  a = .initializeIfNeeded → s.session.isSome → s.user.verifyProxy.isSome →
    s.user.sessionId.isSome ∧
      (SucceedsFrom env s.user.calls →
        env.fails .run s.user.calls = none ∨
          env.fails .run s.user.calls = some .runnerTerminalSessionBroken)

section
variable {env : RunnerEnv} {c : ShellStack η} {s : AutoRunnerTerminal η} {n : Nat}

theorem SucceedsFrom.mono (h : SucceedsFrom env n) {m : Nat} (hm : n ≤ m) : SucceedsFrom env m :=
  fun k hk => h k (hm.trans hk)

/-- All that the calls so far have left to be done succeeds. -/
def Succeeding (env : RunnerEnv) (I : AutoRunnerTerminal η → Prop) (s : AutoRunnerTerminal η) :
    Prop := SucceedsFrom env s.user.calls ∧ I s

theorem returns_outcome {I : AutoRunnerTerminal η → Prop}
    (hI : ∀ s n, I s → I { s with user := { s.user with calls := n } }) {op : Op}
    (hop : op ∈ [Op.spawn, .push, .setupHandler, .prepare]) :
    Prog.Returns (Succeeding env I) (outcome env op) fun _ => Succeeding env I := by
  rintro s ⟨hs, h⟩
  have hnone : env.fails op s.user.calls = none := (hs _ le_rfl).1 op hop
  refine ⟨(), { s with user := { s.user with calls := s.user.calls + 1 } }, ?_,
    hs.mono (Nat.le_succ _), hI s _ h⟩
  simp [outcome, modifyRunner, Prog.bind_run, hnone]

/-- A call from the outside, whatever comes of it, has been counted. -/
theorem outcome_run (op : Op) (s : AutoRunnerTerminal η) :
    outcome env op s = match env.fails op s.user.calls with
      | none => .ret () { s with user := { s.user with calls := s.user.calls + 1 } }
      | some e => .raised e { s with user := { s.user with calls := s.user.calls + 1 } } := by
  simp only [outcome, modifyRunner, Prog.bind_run, Prog.gets_run, Prog.modify_run]
  cases env.fails op s.user.calls <;> rfl

/-- What `finalize` and `close_terminal` leave. -/
def Closed (s s' : AutoRunnerTerminal η) : Prop :=
  s'.inVerify = s.inVerify ∧ s.user.calls ≤ s'.user.calls ∧ s'.user.sessions = s.user.sessions

variable (env c) in
theorem tryToFinalize_run (s : AutoRunnerTerminal η) :
    ∃ s', AutoRecoveringTerminal.tryToFinalize c.settings (nested env) s = .ret () s' ∧
      Closed s s' := by
  have hs : Closed s { s with user := { s.user with
      calls := s.user.calls + 1, initializedSession := false, sessionId := none } } :=
    ⟨rfl, Nat.le_succ _, rfl⟩
  refine ⟨_, ?_, hs⟩
  simp only [AutoRecoveringTerminal.tryToFinalize, nested, closeInAutoClose, Prog.tryExcept,
    Prog.tryFinally, outcome_run]
  cases env.fails .finalize s.user.calls <;> rfl

variable (env c) in
/-- `close` always returns. -/
theorem close_run (s : AutoRunnerTerminal η) :
    ∃ s', close c.settings (nested env) s = .ret () s' ∧ Closed s s' := by
  unfold AutoRecoveringTerminal.close
  rw [Prog.bind_ret (Prog.gets_run ..)]
  cases s.session with
  | none => exact ⟨s, rfl, rfl, le_rfl, rfl⟩
  | some session =>
    obtain ⟨s₁, hs₁, hverify, hcalls, hsessions⟩ := tryToFinalize_run env c s
    refine ⟨{ s₁ with session := none, user := { s₁.user with calls := s₁.user.calls + 1 } }, ?_,
      hverify, hcalls.trans (Nat.le_succ _), hsessions⟩
    have hterminal : (nested env : Hooks η _ _).closeTerminal = outcome env .closeTerminal := rfl
    simp only [Prog.bind_run, Prog.tryExcept, hs₁, hterminal, outcome_run]
    cases env.fails .closeTerminal s₁.user.calls <;> rfl

/-- Before a new session is made, after so many. -/
def Vacant (env : RunnerEnv) (n : Nat) (s : AutoRunnerTerminal η) : Prop :=
  At (Inv env) false s ∧ s.user.sessions = n

theorem returns_close :
    Prog.Returns (Succeeding env (Vacant env n)) (close c.settings (nested (η := η) env))
      fun _ => Succeeding env fun s => Vacant env n s ∧ s.session = none := by
  rintro s ⟨hs, h, hn⟩
  obtain ⟨s', hclose, -, hcalls, hsessions⟩ := close_run env c s
  have hinv := closingKeeps.triple_close.of_ret h hclose
  exact ⟨(), s', hclose, hs.mono hcalls, ⟨hinv.1, hsessions.trans hn⟩, hinv.2⟩

/-- The newest session, one more than `n`, is not set up yet. -/
def Fresh (env : RunnerEnv) (n : Nat) (s : AutoRunnerTerminal η) : Prop :=
  (∃ x, s.session = some x ∧ x.id = env.id s.user.sessions) ∧
    s.user.initializedSession = false ∧ s.user.sessions = n + 1

/-- The newest session, one more than `n`, has been set up. -/
def SetUp (env : RunnerEnv) (n : Nat) (s : AutoRunnerTerminal η) : Prop :=
  Recovered env s ∧ s.user.sessions = n + 1

theorem returns_initSession :
    Prog.Returns (Succeeding env (Vacant env n))
      (AutoRecoveringTerminal.initSession c.settings (hooks (η := η) env c))
      fun _ => Succeeding env (Fresh env n) := by
  refine returns_close.bind fun _ => ?_
  rintro s ⟨hs, ⟨⟨h, -⟩, hn⟩, hsession⟩
  have hid := h.sessionId_eq_none hsession
  refine ⟨(), _, rfl, hs, ⟨_, rfl, rfl⟩, ?_, congrArg (· + 1) hn⟩
  exact h.initializedSession.trans (congrArg Option.isSome hid)

theorem Fresh.calls {s : AutoRunnerTerminal η} (h : Fresh env n s) (k : Nat) :
    Fresh env n { s with user := { s.user with calls := k } } := h

theorem SetUp.calls {s : AutoRunnerTerminal η} (h : SetUp env n s) (k : Nat) :
    SetUp env n { s with user := { s.user with calls := k } } := h

/-- Shells come and go without changing whose session it is. -/
theorem returns_modifySession_fresh {f : Session η → Session η} (hf : ∀ x, (f x).id = x.id) :
    Prog.Returns (Succeeding env (Fresh env n))
      (AutoRecoveringTerminal.modifySession f : Prog RunnerExc _ Unit)
      fun _ => Succeeding env (Fresh env n) := by
  refine Prog.returns_modify ?_
  rintro s ⟨hs, ⟨x, hx, hid⟩, hfresh⟩
  refine ⟨hs, ⟨f x, ?_, (hf x).trans hid⟩, hfresh⟩
  show s.session.map f = _
  rw [hx, Option.map_some]

theorem SetUp.mapSession {s : AutoRunnerTerminal η} (h : Succeeding env (SetUp env n) s)
    {f : Session η → Session η} (hf : ∀ x, (f x).id = x.id) :
    Succeeding env (SetUp env n)
      ({ s with session := s.session.map f } : AutoRunnerTerminal η) := by
  obtain ⟨hs, ⟨x, hx, hsid, hid⟩, hn⟩ := h
  refine ⟨hs, ⟨f x, Option.map_eq_some_iff.mpr ⟨x, hx, rfl⟩, ?_, (hf x).trans hid⟩, hn⟩
  rw [hf x]
  exact hsid

theorem returns_pushShells (shells : List η) :
    Prog.Returns (Succeeding env (Fresh env n))
      (AutoRecoveringTerminal.pushShells (hooks env c) shells)
      fun _ => Succeeding env (Fresh env n) := by
  induction shells with
  | nil => exact fun s hs => ⟨(), s, rfl, hs⟩
  | cons shell shells ih =>
    refine (returns_outcome (fun _ k h => h.calls k) (by simp)).bind fun _ => ?_
    refine Prog.Returns.bind ?_ fun _ => ih
    exact returns_modifySession_fresh fun _ => rfl

theorem setFromRemoteProxy_run (i j : Nat) (s : AutoRunnerTerminal η) :
    ∃ proxies, setFromRemoteProxy i j s =
      .ret () { s with user := { s.user with proxies := proxies } } := by
  unfold setFromRemoteProxy modifyRunner
  simp only [Prog.modify_run]
  split
  · exact ⟨_, rfl⟩
  · exact ⟨s.user.proxies, rfl⟩

variable (env) in
/-- Making and setting proxies changes nothing else. -/
theorem prepareProxies_run (m : Nat) (s : AutoRunnerTerminal η) :
    ∃ proxies, prepareProxies env m s =
      .ret () { s with user := { s.user with proxies := proxies } } := by
  unfold prepareProxies
  cases env.makes m with
  | none =>
    cases env.sets m with
    | none => exact ⟨s.user.proxies, rfl⟩
    | some ij => exact setFromRemoteProxy_run ij.1 ij.2 s
  | some proxy =>
    cases env.sets m with
    | none => exact ⟨s.user.proxies ++ [newProxy proxy.1 proxy.2 s], rfl⟩
    | some ij =>
      obtain ⟨proxies, hproxies⟩ := setFromRemoteProxy_run ij.1 ij.2 { s with user := { s.user with
        proxies := s.user.proxies ++ [newProxy proxy.1 proxy.2 s] } }
      exact ⟨proxies, hproxies⟩

theorem returns_prepare :
    Prog.Returns (Succeeding env (SetUp env n)) (prepare (η := η) env c)
      fun _ => Succeeding env (SetUp env n) := by
  rintro s ⟨hs, h⟩
  have hcloses : env.closes s.user.calls = false := (hs _ le_rfl).2
  have hprepare : env.fails .prepare s.user.calls = none := (hs _ le_rfl).1 _ (by simp)
  obtain ⟨proxies, hproxies⟩ := prepareProxies_run env s.user.calls s
  refine ⟨(), { s with user := { s.user with proxies, calls := s.user.calls + 1 } }, ?_,
    hs.mono (Nat.le_succ _), h⟩
  rw [prepare, Prog.bind_ret (Prog.gets_run ..), Prog.bind_ret hproxies, hcloses]
  simp only [Bool.false_eq_true, if_false, Prog.bind_run, Prog.pure_run, outcome_run, hprepare]

/-- `setup_session` of a fresh session. -/
theorem returns_setupSession :
    Prog.Returns (Succeeding env (Fresh env n)) (setupSession (η := η) env c)
      fun _ => Succeeding env (SetUp env n) := by
  rintro s ⟨hs, ⟨x, hx, hid⟩, hfresh, hn⟩
  have hpush : env.fails .push s.user.calls = none := (hs _ le_rfl).1 _ (by simp)
  have hhandler : env.fails .setupHandler (s.user.calls + 1) = none :=
    (hs _ (Nat.le_succ _)).1 _ (by simp)
  let t : AutoRunnerTerminal η := { s with user := { s.user with
    initializedSession := true
    sessionId := some x.id
    verifyProxy := some ⟨.new (some x.id) (some (.object "None")) [] false, some s.user.sessions⟩
    calls := s.user.calls + 1 + 1 } }
  have ht : Succeeding env (SetUp env n) t :=
    ⟨hs.mono (Nat.le_add_right _ 2), ⟨x, hx, rfl, hid⟩, hn⟩
  obtain ⟨_, s', hs', hend⟩ := returns_prepare (c := c) t ht
  refine ⟨(), s', ?_, hend⟩
  rw [← hs']
  simp [setupSession, prepareTerminalSession, Prog.bind_run, hfresh, hx, outcome_run, hpush,
    hhandler, setSessionMetadata, setVerifyProxy, newProxy, t]

theorem returns_setUpShells :
    Prog.Returns (Succeeding env (Vacant env n))
      (AutoRecoveringTerminal.setUpShells c.settings (hooks (η := η) env c))
      fun _ => Succeeding env (Fresh env n) := by
  refine returns_initSession.bind fun _ => ?_
  refine (returns_outcome (fun _ k h => h.calls k) (by simp)).bind fun _ => ?_
  refine Prog.Returns.bind (Q := fun _ => Succeeding env (Fresh env n)) ?_ fun _ => ?_
  · exact returns_modifySession_fresh fun _ => rfl
  · exact returns_pushShells _

theorem returns_tryToInitializeTerminal :
    Prog.Returns (Succeeding env (Vacant env n))
      (AutoRecoveringTerminal.tryToInitializeTerminal c.settings (hooks (η := η) env c))
      fun _ => Succeeding env (SetUp env n) := by
  refine returns_setUpShells.bind fun _ => ?_
  rintro s hs
  rw [Prog.bind_ret (Prog.gets_run ..)]
  refine (returns_setupSession.bind fun _ => ?_) s hs
  refine Prog.returns_modify fun s hs => ?_
  unfold AutoRecoveringTerminal.markPrepared
  split
  · exact SetUp.mapSession hs fun _ => rfl
  · exact hs

theorem returns_initializeTerminal :
    Prog.Returns (Succeeding env (Vacant env n))
      (initializeTerminal c.settings (hooks (η := η) env c))
      fun _ => Succeeding env (SetUp env n) :=
  returns_tryToInitializeTerminal.tryExcept

/-! ## The verification -/

/-- A call from within `verify` does nothing. -/
theorem initializeIfNeeded_inVerify {h : Hooks η RunnerExc Runner} {x : Session η}
    (hx : s.session = some x) (hflag : s.inVerify = true) :
    initializeIfNeeded c.settings h s = .ret () s := by
  simp [initializeIfNeeded, AutoRecoveringTerminal.recoverIfNeeded,
    AutoRecoveringTerminal.verifyOnlyOnce, Prog.bind_run, Prog.tryExcept, hx, hflag]

theorem verify_none (hp : s.user.verifyProxy = none) :
    verify env c (verifying s) = .raised .runnerTerminalSessionBroken (verifying s) := by
  simp [verify, Prog.bind_run, verifying, hp]

theorem verify_some {x : Session η} (hx : s.session = some x) {p : Proxy}
    (hp : s.user.verifyProxy = some p) :
    verify env c (verifying s) =
      if p.sessionId.Invalid s.user.sessionId then .raised .invalidProxySession (verifying s)
      else runPython env c (verifying s) := by
  have hnested : initializeIfNeeded c.settings (nested env) (verifying s) = .ret () (verifying s) :=
    initializeIfNeeded_inVerify hx rfl
  have hverify : (verify env c : Prog _ _ _) (verifying s) =
      verifyAndRun env c p (verifying s) := by
    have hproxy : (verifying s).user.verifyProxy = some p := hp
    rw [verify, Prog.bind_ret (Prog.gets_run ..), hproxy]
    exact Prog.bind_ret hnested
  rw [hverify, verifyAndRun]
  by_cases hinvalid : p.sessionId.Invalid s.user.sessionId
  · simp [remoteProxyVerify, Prog.bind_run, verifying, hinvalid]
  · simp [remoteProxyVerify, Prog.bind_run, verifying, hinvalid]

section
variable {x : Session η} (hx : s.session = some x)
include hx

theorem run_run : run env s = outcome env .run s := by
  simp [run, Prog.bind_run, hx]

theorem runPython_ret (hfails : env.fails .run s.user.calls = none) :
    runPython env c s = .ret () { s with user := { s.user with calls := s.user.calls + 1 } } :=
  Prog.tryExcept_ret (by rw [run_run hx, outcome_run, hfails])

theorem runPython_raised {e : RunnerExc} (hfails : env.fails .run s.user.calls = some e)
    (he : e ≠ .runnerTerminalSessionBroken) :
    runPython env c s = .raised e { s with user := { s.user with calls := s.user.calls + 1 } } :=
  Prog.tryExcept_uncaught (by rw [run_run hx, outcome_run, hfails])
    (by simp [ShellStack.settings, he])

/-- A broken session is closed first. -/
theorem runPython_broken
    (hfails : env.fails .run s.user.calls = some .runnerTerminalSessionBroken) :
    ∃ t, runPython env c s = .raised .runnerTerminalSessionBroken t ∧
      s.user.calls < t.user.calls := by
  have hrun : run env s = .raised .runnerTerminalSessionBroken
      { s with user := { s.user with calls := s.user.calls + 1 } } := by
    rw [run_run hx, outcome_run, hfails]
  obtain ⟨t, ht, -, hcalls, -⟩ := close_run env c
    { s with user := { s.user with calls := s.user.calls + 1 } }
  refine ⟨t, ?_, hcalls⟩
  rw [runPython, Prog.tryExcept_caught hrun (if_pos rfl)]
  exact Prog.bind_ret ht

end

variable (env c) in
/-- `initialize_if_needed` of a session, once `verify` has ended. -/
theorem initializeIfNeeded_run {x : Session η} (hx : s.session = some x)
    (hflag : s.inVerify = false) :
    initializeIfNeeded c.settings (hooks env c) s =
      match verify env c (verifying s) with
      | .ret _ t => .ret () { t with inVerify := false }
      | .raised e t =>
        if e = .runnerTerminalSessionBroken then
          (close c.settings (hooks env c) >>= fun _ =>
            initializeTerminal c.settings (hooks env c)) { t with inVerify := false }
        else .raised e { t with inVerify := false }
      | .hang => .hang := by
  have hrun : initializeIfNeeded c.settings (hooks env c) s =
      AutoRecoveringTerminal.recoverIfNeeded c.settings (hooks env c) s := by
    rw [initializeIfNeeded, Prog.bind_ret (Prog.gets_run ..), hx]
  have hverify := AutoRecoveringTerminal.verifyOnlyOnce_run (h := hooks env c) hflag
  rw [show (hooks env c).verify = verify env c from rfl] at hverify
  rw [hrun, AutoRecoveringTerminal.recoverIfNeeded]
  cases hv : verify env c (verifying s) with
  | ret a t =>
    rw [hv] at hverify
    exact Prog.tryExcept_ret hverify
  | raised e t =>
    rw [hv] at hverify
    by_cases he : e = .runnerTerminalSessionBroken
    · rw [Prog.tryExcept_caught hverify (if_pos (by simp [he, ShellStack.settings]))]
      exact (if_pos he).symm
    · rw [Prog.tryExcept_uncaught hverify (if_neg (by simp [he, ShellStack.settings]))]
      exact (if_neg he).symm
  | hang =>
    rw [hv] at hverify
    exact Prog.tryExcept_hang hverify

/-- A broken session is replaced. -/
theorem recovered_of_broken {t : AutoRunnerTerminal η} (h : At (Inv env) true t)
    (hs : SucceedsFrom env t.user.calls) :
    ∃ s', (close c.settings (hooks env c) >>= fun _ =>
        initializeTerminal c.settings (hooks env c)) { t with inVerify := false } = .ret () s' ∧
      Recovered env s' := by
  have hclose : Prog.Returns _ (close c.settings (hooks (η := η) env c)) _ :=
    returns_close (n := t.user.sessions)
  have hboth := hclose.bind fun _ =>
    (returns_initializeTerminal (c := c)).mono (fun s hs => ⟨hs.1, hs.2.1⟩) fun _ _ => id
  obtain ⟨_, s', hs', hsucceeds, hrecovered, -⟩ :=
    hboth { t with inVerify := false } ⟨hs, ⟨stable_inv.inVerify t false h.1, rfl⟩, rfl⟩
  exact ⟨s', hs', hrecovered⟩

theorem not_ret_of_raised {P : AutoRunnerTerminal η → Prop} {e : RunnerExc}
    {o : Outcome RunnerExc (AutoRunnerTerminal η) Unit} {t : AutoRunnerTerminal η}
    (h : o = .raised e t) : ¬ ∃ s', o = .ret () s' ∧ P s' := by
  rintro ⟨s', hs', -⟩
  cases h.symm.trans hs'

/-- The verification proxy is rejected in a session that was not set up. -/
theorem invalid_iff (h : At (Inv env) false s) {p : Proxy} (hp : s.user.verifyProxy = some p) :
    p.sessionId.Invalid s.user.sessionId ↔ s.user.sessionId = none := by
  cases hid : s.user.sessionId with
  | none =>
    obtain ⟨n, -, hn, -⟩ := h.1.verifyProxy p hp
    refine iff_of_true ?_ rfl
    rw [hn, ProxySessionId.invalid_id_iff]
    nofun
  | some id =>
    refine iff_of_false ?_ nofun
    obtain ⟨x, hx, rfl⟩ := h.1.sessionId id hid
    obtain ⟨q, hq, -, hn, -⟩ := h.1.verifies (by rw [hid]; rfl)
    cases hp.symm.trans hq
    rw [hn, ProxySessionId.invalid_id_iff, h.1.session x hx]
    exact not_not.mpr rfl

theorem remoteProxyVerify_ret_iff {p : Proxy} :
    remoteProxyVerify p s = .ret () s ↔ ¬ p.sessionId.Invalid s.user.sessionId := by
  by_cases h : p.sessionId.Invalid s.user.sessionId
  · simp [remoteProxyVerify, Prog.bind_run, h]
  · simp [remoteProxyVerify, Prog.bind_run, h]

/-- A session with a verification proxy, and nothing fails from now on. -/
theorem recovers_some (h : At (Inv env) false s) (hs : SucceedsFrom env s.user.calls)
    {x : Session η} (hx : s.session = some x) {p : Proxy} (hp : s.user.verifyProxy = some p) :
    (∃ s', initializeIfNeeded c.settings (hooks env c) s = .ret () s' ∧ Recovered env s') ↔
      s.user.sessionId.isSome ∧ (env.fails .run s.user.calls = none ∨
        env.fails .run s.user.calls = some .runnerTerminalSessionBroken) := by
  have hrun := initializeIfNeeded_run env c hx h.2
  rw [verify_some hx hp] at hrun
  have hinvalid := invalid_iff h hp
  cases hid : s.user.sessionId with
  | none =>
    rw [if_pos (hinvalid.mpr hid)] at hrun
    exact iff_of_false (not_ret_of_raised hrun) fun h => Bool.false_ne_true h.1
  | some id =>
    have hsome : (some id).isSome = true := rfl
    have hxv : (verifying s).session = some x := hx
    rw [if_neg (mt hinvalid.mp (by simp [hid]))] at hrun
    cases hfails : env.fails .run s.user.calls with
    | none =>
      rw [runPython_ret hxv hfails] at hrun
      obtain ⟨y, hy, rfl⟩ := h.1.sessionId id hid
      exact iff_of_true ⟨_, hrun, y, hy, hid, h.1.session y hy⟩ ⟨hsome, .inl rfl⟩
    | some e =>
      by_cases he : e = .runnerTerminalSessionBroken
      · refine iff_of_true ?_ ⟨hsome, .inr (congrArg some he)⟩
        obtain ⟨t, ht, hcalls⟩ := runPython_broken (c := c) hxv (he ▸ hfails)
        have hinv : At (Inv env) true t :=
          (keeps_runPython (c := c)).of_raised ⟨stable_inv.inVerify s true h.1, rfl⟩ ht
        rw [ht] at hrun
        simp only [if_true] at hrun
        rw [hrun]
        exact recovered_of_broken hinv (hs.mono hcalls.le)
      · rw [runPython_raised hxv hfails he] at hrun
        simp only [he, if_false] at hrun
        refine iff_of_false (not_ret_of_raised hrun) fun h => ?_
        rcases h.2 with hnone | hsome
        · cases hnone
        · exact he (Option.some.inj hsome)

theorem returns_of_none (h : At (Inv env) false s) (hs : SucceedsFrom env s.user.calls)
    (hx : s.session = none) : Returns env c s := by
  obtain ⟨_, s', hs', -, hrecovered, hsessions⟩ :=
    returns_initializeTerminal (c := c) s ⟨hs, h, rfl⟩
  have hrun : initializeIfNeeded c.settings (hooks env c) s = .ret () s' := by
    rw [initializeIfNeeded, Prog.bind_ret (Prog.gets_run ..), hx]
    exact hs'
  exact ⟨s', hrun, hrecovered, fun _ => by omega⟩

/-- Without a verification proxy the session is taken for broken. -/
theorem returns_of_no_verifyProxy (h : At (Inv env) false s) (hs : SucceedsFrom env s.user.calls)
    {x : Session η} (hx : s.session = some x) (hp : s.user.verifyProxy = none) :
    Returns env c s := by
  have hrun := initializeIfNeeded_run env c hx h.2
  rw [verify_none hp] at hrun
  simp only [if_true] at hrun
  obtain ⟨s', hs', hrecovered⟩ :=
    recovered_of_broken (c := c) (t := verifying s) ⟨stable_inv.inVerify s true h.1, rfl⟩ hs
  exact ⟨s', hrun.trans hs', hrecovered, fun hnone => by cases hx.symm.trans hnone⟩

/-- **Step.** -/
theorem recovers_step (a : Action) (h : At (Inv env) false s) :
    Recovers env c a s ↔ Verifiable env a s := by
  unfold Recovers Verifiable
  refine imp_congr_right fun _ => ?_
  cases hx : s.session with
  | none => exact iff_of_true ⟨fun hs => returns_of_none h hs hx, nofun⟩ nofun
  | some x =>
    cases hp : s.user.verifyProxy with
    | none => exact iff_of_true ⟨fun hs => returns_of_no_verifyProxy h hs hx hp, nofun⟩ nofun
    | some p =>
      have hsome : Returns env c s ↔ ∃ s', initializeIfNeeded c.settings (hooks env c) s =
          .ret () s' ∧ Recovered env s' := by
        simp [Returns, hx]
      have hret : remoteProxyVerify p s = .ret () s ↔ s.user.sessionId.isSome := by
        rw [remoteProxyVerify_ret_iff, invalid_iff h hp, Option.isSome_iff_ne_none]
      constructor
      · rintro ⟨hreturns, hvalid⟩ - -
        have hid := hret.mp (hvalid x p rfl rfl)
        exact ⟨hid, fun hs => ((recovers_some h hs hx hp).mp (hsome.mp (hreturns hs))).2⟩
      · intro hverifiable
        obtain ⟨hid, hend⟩ := hverifiable rfl rfl
        refine ⟨fun hs => hsome.mpr ((recovers_some h hs hx hp).mpr ⟨hid, hend hs⟩), ?_⟩
        rintro - q - hq
        cases hq
        exact hret.mpr hid

end

/-- **Run.**  The terminal recovers whenever `initialize_if_needed` is called,
exactly if no such call finds a session that was never set up beside a
verification proxy, or a verification that fails in another way. -/
theorem recovers_iff (env : RunnerEnv) (c : ShellStack η) (actions : List Action) :
    Along (step env c) (Recovers env c) actions new ↔
      Along (step env c) (Verifiable env) actions new :=
  along_congr (fun a _ => inv_step a) (fun a _ => recovers_step a) actions ⟨inv_new, rfl⟩

def oneShell : ShellStack Unit where
  shell := ()
  shells := []
  initBrokenExceptions _ := true
  moreTries := 2

/-- The first session is lost, and no shell can be spawned in the next three tries. -/
def spawnsFail : RunnerEnv where
  id n := n
  fails op n :=
    match op with
    | .run => if n = 4 then some .runnerTerminalSessionBroken else none
    | .spawn => if n = 7 ∨ n = 10 ∨ n = 13 then some (.other 0) else none
    | _ => none
  makes _ := none
  sets _ := none
  closes _ := false
  callable _ := false

/-- **The proxy of the lost session.**  Spawning works again, but verifying fails. -/
theorem not_recovers_spawnsFail :
    ¬ Along (step spawnsFail oneShell) (Recovers spawnsFail oneShell)
      [.initializeIfNeeded, .runPython, .initializeIfNeeded, .initializeIfNeeded] new := by
  intro h
  let s := [Action.initializeIfNeeded, .runPython, .initializeIfNeeded].foldl
    (fun s a => step spawnsFail oneShell a s) new
  have hcalls : s.user.calls = 14 := by decide +kernel
  have hsucceeds : SucceedsFrom spawnsFail s.user.calls := by
    intro k hk
    rw [hcalls] at hk
    refine ⟨fun op hop => ?_, rfl⟩
    fin_cases hop
    · exact if_neg (by omega)
    · rfl
    · rfl
    · rfl
  obtain ⟨s', hs', -⟩ := (h.2.2.2.1 rfl).1 hsucceeds
  have hraised : initializeIfNeeded oneShell.settings (hooks spawnsFail oneShell) s =
      .raised .invalidProxySession s := by
    decide +kernel
  cases hraised.symm.trans hs'

end InteractiveSessions.AutoRunnerTerminal
