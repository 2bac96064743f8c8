import InteractiveSessions.AutoRecoveringTerminal
import InteractiveSessions.RemoteProxies

/-!
# `autorunnerterminal`: sessions, their `id()` and proxies

`AutoRunnerTerminal` sets the callbacks of an `AutoRecoveringTerminal`.  Which
calls to the outside raise, and the `id()` of every new `InteractiveSession`,
are given by a `RunnerEnv`.

* `callables`: the callbacks are callables of an `AutoRecoveringTerminal`;
* `Inv`: what every state reached satisfies (`inv_step`): `session_id` is the
  `id()` of the current session, and a proxy has the `id()` of the session in
  which it was made.
-/

namespace InteractiveSessions

/-- The exceptions that are told apart. -/
inductive RunnerExc where
  | runnerTerminalSessionBroken
  | invalidProxySession
  | sessionInitializationFailed
  | attributeError
  | indexError
  | typeError
  | other (n : Nat)
  deriving DecidableEq, Repr

/-- A `_RemoteProxy`.  `session` is the number of the session in which its
content was made, if there was one. -/
structure Proxy extends RemoteProxy where
  session : Option Nat
  deriving DecidableEq, Repr

namespace Proxy

/-- `q.set_from_remote_proxy(p)`: what becomes of `q`. -/
def setFrom (q p : Proxy) : Proxy where
  toRemoteProxy := q.toRemoteProxy.setFrom p.toRemoteProxy
  session := p.session

/-- `q.set_from_remote_proxy(p)`: what becomes of `p`. -/
def nullify (p : Proxy) : Proxy where
  toRemoteProxy := p.toRemoteProxy.nullify
  session := p.session

end Proxy

/-- The calls to the outside. -/
inductive Op where
  | spawn
  | push
  | closeTerminal
  | setupHandler
  | prepare
  | finalize
  | run
  deriving DecidableEq, Repr

structure RunnerEnv where
  /-- The `id()` of the session with this number. -/
  id : Nat → Nat
  /-- How the call with this number ends. -/
  fails : Op → Nat → Option RunnerExc
  /-- The name and the spec of the proxy that `prepare` makes. -/
  makes : Nat → Option (String × List String)
  /-- The proxies of a `set_from_remote_proxy` in `prepare`. -/
  sets : Nat → Option (Nat × Nat)
  /-- A remote call of `prepare` finds the session broken. -/
  closes : Nat → Bool
  /-- What `iscallable` answers. -/
  callable : Nat → Bool

/-- The attributes of an `AutoRunnerTerminal` and its proxies.  `sessions`
counts the sessions so far and `calls` the calls to the outside. -/
structure Runner where
  initializedSession : Bool
  sessionId : Option Nat
  verifyProxy : Option Proxy
  proxies : List Proxy
  sessions : Nat
  calls : Nat
  deriving DecidableEq, Repr

abbrev AutoRunnerTerminal (η : Type) : Type := AutoRecoveringTerminal η Runner

/-- The arguments of `initialize_with_shells`: a shell at least, and a try. -/
structure ShellStack (η : Type) where
  shell : η
  shells : List η
  initBrokenExceptions : RunnerExc → Bool
  moreTries : Nat

def ShellStack.settings {η : Type} (c : ShellStack η) : Settings η RunnerExc where
  shells := c.shell :: c.shells
  brokenExceptions e := e = .runnerTerminalSessionBroken
  initBrokenExceptions := c.initBrokenExceptions
  maxTries := c.moreTries + 1
  isException _ := true
  sessionInitializationFailed _ := .sessionInitializationFailed
  indexError := .indexError

namespace AutoRunnerTerminal

open AutoRecoveringTerminal (close initializeTerminal initializeIfNeeded At Closable Stable
  ClosingKeeps HooksKeep)

variable {η : Type}

def modifyRunner (f : Runner → Runner) : Prog RunnerExc (AutoRunnerTerminal η) Unit :=
  Prog.modify fun s => { s with user := f s.user }

section
variable (env : RunnerEnv)

/-- The next call to the outside. -/
def outcome (op : Op) : Prog RunnerExc (AutoRunnerTerminal η) Unit := do
  let n ← Prog.gets fun s : AutoRunnerTerminal η => s.user.calls
  modifyRunner fun r => { r with calls := r.calls + 1 }
  match env.fails op n with
  | none => pure ()
  | some e => Prog.raise e

/-- `InteractiveSession()` -/
def newSession : Prog RunnerExc (AutoRunnerTerminal η) Nat := do
  modifyRunner fun r => { r with sessions := r.sessions + 1 }
  Prog.gets fun s => env.id s.user.sessions

/-- `_close_in_auto_close` -/
def closeInAutoClose : Prog RunnerExc (AutoRunnerTerminal η) Unit :=
  Prog.tryFinally (outcome env .finalize)
    (modifyRunner fun r => { r with initializedSession := false, sessionId := none })

/-- The callbacks as far as calls from within a callback get: `close` calls
neither `prepare` nor `verify`, and `_verify_only_once` keeps `verify` from
calling itself. -/
def nested : Hooks η RunnerExc Runner where
  newSession := newSession env
  spawn _ := outcome env .spawn
  push _ := outcome env .push
  closeTerminal := outcome env .closeTerminal
  prepare := Prog.hang
  finalize := closeInAutoClose env
  verify := Prog.hang

variable (c : ShellStack η)

/-- `run`, without the garbage: there is a current shell in a session only. -/
def run : Prog RunnerExc (AutoRunnerTerminal η) Unit := do
  let session ← Prog.gets fun s : AutoRunnerTerminal η => s.session
  match session with
  | none => Prog.raise .runnerTerminalSessionBroken
  | some _ => outcome env .run

/-- `run_python`, with `auto_close` as `error_handling` -/
def runPython : Prog RunnerExc (AutoRunnerTerminal η) Unit :=
  Prog.tryExcept (run env) fun e =>
    if c.settings.brokenExceptions e then
      some do
        close c.settings (nested env)
        Prog.raise e
    else none

/-- `remote_proxy_verify` -/
def remoteProxyVerify (p : Proxy) : Prog RunnerExc (AutoRunnerTerminal η) Unit := do
  let sessionId ← Prog.gets fun s : AutoRunnerTerminal η => s.user.sessionId
  if p.sessionId.Invalid sessionId then Prog.raise .invalidProxySession else pure ()

/-- What is left of an operation of a proxy that has been prepared. -/
def verifyAndRun (p : Proxy) : Prog RunnerExc (AutoRunnerTerminal η) Unit := do
  remoteProxyVerify p
  runPython env c

/-- `_verify`, with `as_local_value` -/
def verify : Prog RunnerExc (AutoRunnerTerminal η) Unit := do
  let verifyProxy ← Prog.gets fun s : AutoRunnerTerminal η => s.user.verifyProxy
  match verifyProxy with
  | none => Prog.raise .runnerTerminalSessionBroken
  | some p => do
    initializeIfNeeded c.settings (nested env)
    verifyAndRun env c p

/-- `get_proxy_object`: the proxy -/
def newProxy (remoteObject : String) (localSpec : List String) (s : AutoRunnerTerminal η) :
    Proxy where
  toRemoteProxy := .new s.user.sessionId (some (.object remoteObject)) localSpec false
  session := s.user.sessionId.map fun _ => s.user.sessions

def getProxyObject (remoteObject : String) (localSpec : List String) :
    Prog RunnerExc (AutoRunnerTerminal η) Unit :=
  Prog.modify fun s => { s with user := { s.user with
    proxies := s.user.proxies ++ [newProxy remoteObject localSpec s] } }

/-- `proxies[i].set_from_remote_proxy(proxies[j])` -/
def setFromRemoteProxy (i j : Nat) : Prog RunnerExc (AutoRunnerTerminal η) Unit :=
  modifyRunner fun r =>
    match r.proxies[i]?, r.proxies[j]? with
    | some q, some p => { r with proxies := (r.proxies.set i (q.setFrom p)).set j p.nullify }
    | _, _ => r

/-- `_prepare_terminal_session` -/
def prepareTerminalSession : Prog RunnerExc (AutoRunnerTerminal η) Unit := do
  let session ← Prog.gets fun s : AutoRunnerTerminal η => s.session
  match session with
  | none => Prog.raise .attributeError
  | some _ => outcome env .push

/-- `_set_session_metadata` -/
def setSessionMetadata : Prog RunnerExc (AutoRunnerTerminal η) Unit :=
  Prog.modify fun s => { s with user := { s.user with
    initializedSession := true
    sessionId := s.session.map fun x => x.id } }

/-- The first two statements of `_setup` -/
def setVerifyProxy : Prog RunnerExc (AutoRunnerTerminal η) Unit :=
  Prog.modify fun s => { s with user := { s.user with
    verifyProxy := some (newProxy "None" [] s) } }

/-- The proxies that `prepare` makes and sets. -/
def prepareProxies (n : Nat) : Prog RunnerExc (AutoRunnerTerminal η) Unit := do
  (match env.makes n with
    | none => pure ()
    | some (remoteObject, localSpec) => getProxyObject remoteObject localSpec)
  (match env.sets n with
    | none => pure ()
    | some (i, j) => setFromRemoteProxy i j)

/-- `prepare`, which may lose the session. -/
def prepare : Prog RunnerExc (AutoRunnerTerminal η) Unit := do
  let n ← Prog.gets fun s : AutoRunnerTerminal η => s.user.calls
  prepareProxies env n
  (if env.closes n then close c.settings (nested env) else pure ())
  outcome env .prepare

/-- `setup_session` -/
def setupSession : Prog RunnerExc (AutoRunnerTerminal η) Unit := do
  let initialized ← Prog.gets fun s : AutoRunnerTerminal η => s.user.initializedSession
  if initialized then pure ()
  else do
    prepareTerminalSession env
    outcome env .setupHandler
    setSessionMetadata
    setVerifyProxy
    prepare env c

/-- `_set_session_callbacks` -/
def hooks : Hooks η RunnerExc Runner :=
  { nested env with
    prepare := setupSession env c
    verify := verify env c }

/-- For the proxy with this index, if there is one. -/
def withProxy (i : Nat) (f : Proxy → Prog RunnerExc (AutoRunnerTerminal η) Unit) :
    Prog RunnerExc (AutoRunnerTerminal η) Unit := do
  let p ← Prog.gets fun s : AutoRunnerTerminal η => s.user.proxies[i]?
  match p with
  | none => pure ()
  | some p => f p

/-- `as_local_value`, like every operation that is decorated with `autoinitialize` -/
def asLocalValue (i : Nat) : Prog RunnerExc (AutoRunnerTerminal η) Unit := do
  initializeIfNeeded c.settings (hooks env c)
  withProxy i (verifyAndRun env c)

/-- `__add_remote_method` -/
def addRemoteMethod (i : Nat) (name : String) : Prog RunnerExc (AutoRunnerTerminal η) Unit :=
  withProxy i fun p => modifyRunner fun r =>
    { r with proxies := r.proxies.set i { p with methods := p.methods ++ [name] } }

/-- `__getattr__` of a proxy that has been prepared -/
def getRemoteAttr (i : Nat) (name : String) (p : Proxy) :
    Prog RunnerExc (AutoRunnerTerminal η) Unit := do
  remoteProxyVerify p
  match p.handle with
  | none => Prog.raise .typeError
  | some _ =>
    if p.spec = [] then do
      let n ← Prog.gets fun s : AutoRunnerTerminal η => s.user.calls
      runPython env c
      if env.callable n then addRemoteMethod i name else runPython env c
    else runPython env c

/-- `p.name`: a wrapper that is in the `__dict__` is found there. -/
def getAttr (i : Nat) (name : String) : Prog RunnerExc (AutoRunnerTerminal η) Unit :=
  withProxy i fun p =>
    if name ∈ p.methods then pure ()
    else do
      initializeIfNeeded c.settings (hooks env c)
      withProxy i (getRemoteAttr env c i name)

/-- `p.name(…)`, when `p.name` is a wrapper of `__build_wrapper` -/
def callMethod (i : Nat) (name : String) : Prog RunnerExc (AutoRunnerTerminal η) Unit :=
  withProxy i fun p =>
    if name ∈ p.methods then
      match p.handle with
      | none => Prog.raise .typeError
      | some _ => runPython env c
    else pure ()

/-! ## Histories -/

inductive Action where
  | initializeIfNeeded
  | initializeTerminal
  | close
  | runPython
  | getProxyObject (remoteObject : String) (localSpec : List String)
  | createEmptyRemoteProxy
  /-- `proxies[i].set_from_remote_proxy(proxies[j])` -/
  | setFromRemoteProxy (i j : Nat)
  | asLocalValue (i : Nat)
  | getRemoteProxyResponse (i : Nat)
  | getAttr (i : Nat) (name : String)
  | callMethod (i : Nat) (name : String)
  deriving DecidableEq, Repr

def perform : Action → Prog RunnerExc (AutoRunnerTerminal η) Unit
  | .initializeIfNeeded => initializeIfNeeded c.settings (hooks env c)
  | .initializeTerminal => initializeTerminal c.settings (hooks env c)
  | .close => close c.settings (hooks env c)
  | .runPython => runPython env c
  | .getProxyObject remoteObject localSpec => getProxyObject remoteObject localSpec
  | .createEmptyRemoteProxy =>
    modifyRunner fun r =>
      { r with proxies := r.proxies ++ [⟨.new r.sessionId none [] false, none⟩] }
  | .setFromRemoteProxy i j => setFromRemoteProxy i j
  | .asLocalValue i => asLocalValue env c i
  | .getRemoteProxyResponse i => withProxy i (verifyAndRun env c)
  | .getAttr i name => getAttr env c i name
  | .callMethod i name => callMethod env c i name

def step (a : Action) (s : AutoRunnerTerminal η) : AutoRunnerTerminal η :=
  (perform env c a s).state s

end

/-- The terminal after `initialize`. -/
def new : AutoRunnerTerminal η := ⟨none, false, 0, ⟨false, none, none, [], 0, 0⟩⟩

/-! ## What every state satisfies -/

/-- The proxy was made in the session with the number `n`, one of the first `k`. -/
def MadeIn (env : RunnerEnv) (k n : Nat) (p : Proxy) : Prop :=
  p.session = some n ∧ p.sessionId = .id (env.id n) ∧ n ≤ k

structure Inv (env : RunnerEnv) (s : AutoRunnerTerminal η) : Prop where
  initializedSession : s.user.initializedSession = s.user.sessionId.isSome
  /-- `session_id` is the `id()` of the session. -/
  sessionId : ∀ id, s.user.sessionId = some id → ∃ x, s.session = some x ∧ x.id = id
  session : ∀ x, s.session = some x → x.id = env.id s.user.sessions
  verifyProxy : ∀ p, s.user.verifyProxy = some p → ∃ n, MadeIn env s.user.sessions n p
  /-- A session that was set up has its own verification proxy. -/
  verifies : s.user.sessionId.isSome →
    ∃ p, s.user.verifyProxy = some p ∧ MadeIn env s.user.sessions s.user.sessions p
  proxies : ∀ p ∈ s.user.proxies, ∀ n, p.session = some n → MadeIn env s.user.sessions n p

section
variable {env : RunnerEnv} {c : ShellStack η} {s : AutoRunnerTerminal η} {b : Bool}

theorem MadeIn.mono {k k' n : Nat} {p : Proxy} (h : MadeIn env k n p) (hk : k ≤ k') :
    MadeIn env k' n p := ⟨h.1, h.2.1, h.2.2.trans hk⟩

theorem inv_new : Inv env (new : AutoRunnerTerminal η) where
  initializedSession := rfl
  sessionId := nofun
  session := nofun
  verifyProxy := nofun
  verifies := nofun
  proxies := nofun

/-- Without a session there is no `session_id`. -/
theorem Inv.sessionId_eq_none (h : Inv env s) (hsession : s.session = none) :
    s.user.sessionId = none := by
  cases hid : s.user.sessionId with
  | none => rfl
  | some id =>
    obtain ⟨x, hx, -⟩ := h.sessionId id hid
    cases hsession.symm.trans hx

theorem Inv.calls (h : Inv env s) (n : Nat) :
    Inv env { s with user := { s.user with calls := n } } :=
  ⟨h.initializedSession, h.sessionId, h.session, h.verifyProxy, h.verifies, h.proxies⟩

theorem Inv.addProxies (h : Inv env s) {proxies : List Proxy}
    (hp : ∀ p ∈ proxies, p ∈ s.user.proxies ∨ ∀ n, p.session = some n →
      MadeIn env s.user.sessions n p) :
    Inv env { s with user := { s.user with proxies := proxies } } :=
  ⟨h.initializedSession, h.sessionId, h.session, h.verifyProxy, h.verifies, fun p hmem n hn =>
    (hp p hmem).elim (fun hold => h.proxies p hold n hn) fun hnew => hnew n hn⟩

/-- A session without `session_id`. -/
theorem Inv.closed (h : Inv env s) :
    Inv env { s with user := { s.user with initializedSession := false, sessionId := none } } where
  initializedSession := rfl
  sessionId := nofun
  session := h.session
  verifyProxy := h.verifyProxy
  verifies := nofun
  proxies := h.proxies

theorem Inv.dropSession (h : Inv env s) (hid : s.user.sessionId = none) :
    Inv env ({ s with session := none } : AutoRunnerTerminal η) where
  initializedSession := h.initializedSession
  sessionId := by
    intro id hs
    cases hid.symm.trans hs
  session := nofun
  verifyProxy := h.verifyProxy
  verifies := h.verifies
  proxies := h.proxies

/-- A new proxy belongs to the session that is set up. -/
theorem Inv.newProxy (h : Inv env s) (remoteObject : String) (localSpec : List String) (n : Nat)
    (hn : (newProxy remoteObject localSpec s).session = some n) :
    MadeIn env s.user.sessions n (newProxy remoteObject localSpec s) := by
  cases hid : s.user.sessionId with
  | none => simp [AutoRunnerTerminal.newProxy, hid] at hn
  | some id =>
    obtain ⟨x, hx, rfl⟩ := h.sessionId id hid
    simp only [AutoRunnerTerminal.newProxy, hid, Option.map_some, Option.some.injEq] at hn
    subst hn
    refine ⟨by simp [AutoRunnerTerminal.newProxy, hid], ?_, le_rfl⟩
    simp [AutoRunnerTerminal.newProxy, RemoteProxy.new, hid, ProxySessionId.fromRemoteName,
      h.session x hx]

theorem stable_inv : Stable (Inv env : AutoRunnerTerminal η → Prop) where
  session s f hf h :=
    { h with
      sessionId := by
        intro id hid
        obtain ⟨x, hx, rfl⟩ := h.sessionId id hid
        exact ⟨f x, by rw [hx, Option.map_some], hf x⟩
      session := by
        intro y hy
        obtain ⟨x, hx, rfl⟩ := Option.map_eq_some_iff.mp hy
        exact (hf x).trans (h.session x hx) }
  inVerify s b h :=
    ⟨h.initializedSession, h.sessionId, h.session, h.verifyProxy, h.verifies, h.proxies⟩

/-- What does not depend on the number of calls is kept by a call. -/
theorem keeps_outcome {I : AutoRunnerTerminal η → Prop}
    (hI : ∀ s n, I s → I { s with user := { s.user with calls := n } }) (op : Op) :
    Prog.Keeps I (outcome env op) := by
  refine Prog.keeps_gets_bind fun n => ?_
  refine Prog.Keeps.bind (Prog.keeps_modify fun s hs => hI s _ hs) fun _ => ?_
  cases env.fails op n with
  | none => exact Prog.keeps_pure
  | some e => exact Prog.keeps_raise

theorem keeps_inv_outcome (op : Op) : Prog.Keeps (At (Inv (η := η) env) b) (outcome env op) :=
  keeps_outcome (fun _ n h => ⟨h.1.calls n, h.2⟩) op

theorem closingKeeps : ClosingKeeps (At (Inv (η := η) env) b) (nested env) where
  finalize := by
    have hlast : Prog.Triple (At (Inv env) b)
        (modifyRunner fun r => { r with initializedSession := false, sessionId := none })
        (fun _ => Closable (At (Inv (η := η) env) b)) fun _ => Closable (At (Inv env) b) :=
      fun s h => ⟨⟨h.1.closed, h.2⟩, h.1.closed.dropSession rfl, h.2⟩
    exact Prog.Triple.tryFinally (keeps_inv_outcome .finalize) (fun _ => hlast) fun _ => hlast
  closeTerminal :=
    keeps_outcome (fun _ n h => ⟨⟨h.1.1.calls n, h.1.2⟩, h.2.1.calls n, h.2.2⟩) .closeTerminal

theorem triple_newSession :
    Prog.Triple (fun s : AutoRunnerTerminal η => At (Inv env) b s ∧ s.session = none)
      (newSession env)
      (fun id s =>
        At (Inv env) b ({ s with session := some ⟨id, [], false⟩, made := s.made + 1 } :
          AutoRunnerTerminal η))
      fun _ => At (Inv env) b := by
  rintro s ⟨⟨h, hflag⟩, hsession⟩
  have hid := h.sessionId_eq_none hsession
  refine ⟨?_, hflag⟩
  exact
    { initializedSession := h.initializedSession
      sessionId := fun id hs => by cases hid.symm.trans hs
      session := fun x hx => by cases hx; rfl
      verifyProxy := fun p hp =>
        let ⟨n, hn⟩ := h.verifyProxy p hp
        ⟨n, hn.mono (Nat.le_succ _)⟩
      verifies := fun hs => by simp [hid] at hs
      proxies := fun p hp n hn => (h.proxies p hp n hn).mono (Nat.le_succ _) }

/-- The callbacks of nested calls keep the invariant. -/
theorem hooksKeep_nested (b : Bool) : HooksKeep (At (Inv (η := η) env) b) (nested env) :=
  { closingKeeps with
    newSession := triple_newSession
    spawn := fun _ => keeps_inv_outcome .spawn
    push := fun _ => keeps_inv_outcome .push
    prepare := Prog.keeps_hang
    verify := Prog.keeps_hang }

theorem keeps_runPython : Prog.Keeps (At (Inv (η := η) env) b) (runPython env c) := by
  refine Prog.Keeps.tryExcept (Prog.keeps_gets_bind fun session => ?_) fun e p hp => ?_
  · cases session with
    | none => exact Prog.keeps_raise
    | some session => exact keeps_inv_outcome .run
  · split at hp
    · cases hp
      exact closingKeeps.close.bind fun _ => Prog.keeps_raise
    · cases hp

theorem keeps_remoteProxyVerify {I : AutoRunnerTerminal η → Prop} (p : Proxy) :
    Prog.Keeps I (remoteProxyVerify p) := by
  refine Prog.keeps_gets_bind fun sessionId => ?_
  split
  · exact Prog.keeps_raise
  · exact Prog.keeps_pure

theorem keeps_verifyAndRun (p : Proxy) :
    Prog.Keeps (At (Inv (η := η) env) b) (verifyAndRun env c p) :=
  (keeps_remoteProxyVerify p).bind fun _ => keeps_runPython

theorem keeps_getProxyObject (remoteObject : String) (localSpec : List String) :
    Prog.Keeps (At (Inv (η := η) env) b) (getProxyObject remoteObject localSpec) := by
  refine Prog.keeps_modify fun s h => ⟨h.1.addProxies fun p hp => ?_, h.2⟩
  rcases List.mem_append.mp hp with hp | hp
  · exact .inl hp
  · cases List.mem_singleton.mp hp
    exact .inr (h.1.newProxy _ _)

/-- Handing over a proxy takes its session along. -/
theorem keeps_setFromRemoteProxy (i j : Nat) :
    Prog.Keeps (At (Inv (η := η) env) b) (setFromRemoteProxy i j) := by
  refine Prog.keeps_modify fun s h => ?_
  dsimp only
  split
  · next q p hq hp =>
    refine ⟨h.1.addProxies fun r hr => ?_, h.2⟩
    have hmade (r : Proxy) (hsession : r.session = p.session) (hid : r.sessionId = p.sessionId)
        (n : Nat) (hn : r.session = some n) : MadeIn env s.user.sessions n r :=
      have hp := h.1.proxies p (List.mem_of_getElem? hp) n (hsession ▸ hn)
      ⟨hn, hid.trans hp.2.1, hp.2.2⟩
    rcases List.mem_or_eq_of_mem_set hr with hr | rfl
    · rcases List.mem_or_eq_of_mem_set hr with hr | rfl
      · exact .inl hr
      · exact .inr (hmade _ rfl rfl)
    · exact .inr (hmade _ rfl rfl)
  · exact h

theorem keeps_prepareProxies (n : Nat) :
    Prog.Keeps (At (Inv (η := η) env) b) (prepareProxies env n) := by
  refine Prog.Keeps.bind ?_ fun _ => ?_
  · cases env.makes n with
    | none => exact Prog.keeps_pure
    | some proxy => exact keeps_getProxyObject _ _
  · cases env.sets n with
    | none => exact Prog.keeps_pure
    | some proxies => exact keeps_setFromRemoteProxy _ _

theorem keeps_prepare : Prog.Keeps (At (Inv (η := η) env) b) (prepare env c) := by
  refine Prog.keeps_gets_bind fun n => (keeps_prepareProxies n).bind fun _ => ?_
  refine Prog.Keeps.bind ?_ fun _ => ?_
  · split
    · exact closingKeeps.close
    · exact Prog.keeps_pure
  · exact keeps_inv_outcome .prepare

/-- Setting `session_id` and the verification proxy of a session. -/
theorem Inv.setUp (h : Inv env s) {x : Session η} (hx : s.session = some x) :
    Inv env { s with user := { s.user with
      initializedSession := true
      sessionId := some x.id
      verifyProxy := some ⟨.new (some x.id) (some (.object "None")) [] false,
        some s.user.sessions⟩ } } where
  initializedSession := rfl
  sessionId id hid := by
    cases hid
    exact ⟨x, hx, rfl⟩
  session := h.session
  verifyProxy p hp := by
    cases hp
    exact ⟨_, rfl, congrArg ProxySessionId.id (h.session x hx), le_rfl⟩
  verifies _ := ⟨_, rfl, rfl, congrArg ProxySessionId.id (h.session x hx), le_rfl⟩
  proxies := h.proxies

theorem keeps_setupSession : Prog.Keeps (At (Inv (η := η) env) b) (setupSession env c) := by
  refine Prog.keeps_gets_bind fun initialized => Prog.Triple.ite (fun _ => ?_) fun _ => ?_
  · exact Prog.keeps_pure
  -- From the push of the shell on there is a session.
  let P (s : AutoRunnerTerminal η) : Prop := At (Inv env) b s ∧ ∃ x, s.session = some x
  have houtcome (op : Op) : Prog.Keeps P (outcome env op) :=
    keeps_outcome (fun s n h => ⟨⟨h.1.1.calls n, h.1.2⟩, h.2⟩) op
  have hpush : Prog.Triple (At (Inv env) b) (prepareTerminalSession env) (fun _ => P)
      fun _ => At (Inv env) b := by
    refine Prog.Triple.gets_bind fun session => ?_
    cases session with
    | none => exact fun s h => h.1
    | some x =>
      exact (houtcome .push).mono (fun s h => ⟨h.1, x, h.2⟩) (fun _ _ => id) fun _ _ h => h.1
  refine hpush.bind fun _ => ?_
  refine ((houtcome .setupHandler).mono (fun _ => id) (fun _ _ => id) fun _ _ h => h.1).bind
    fun _ => ?_
  rintro s ⟨⟨h, hflag⟩, x, hx⟩
  have hprepare := keeps_prepare (c := c) _ ⟨h.setUp hx, hflag⟩
  simpa [setSessionMetadata, setVerifyProxy, Prog.bind_run, newProxy, hx] using hprepare

theorem keeps_verify : Prog.Keeps (At (Inv (η := η) env) b) (verify env c) := by
  refine Prog.keeps_gets_bind fun verifyProxy => ?_
  cases verifyProxy with
  | none => exact Prog.keeps_raise
  | some p =>
    exact (HooksKeep.initializeIfNeeded stable_inv hooksKeep_nested).bind fun _ =>
      keeps_verifyAndRun p

theorem hooksKeep (b : Bool) : HooksKeep (At (Inv (η := η) env) b) (hooks env c) :=
  { hooksKeep_nested b with
    prepare := keeps_setupSession
    verify := keeps_verify }

theorem keeps_withProxy {I : AutoRunnerTerminal η → Prop} {i : Nat}
    {f : Proxy → Prog RunnerExc (AutoRunnerTerminal η) Unit} (hf : ∀ p, Prog.Keeps I (f p)) :
    Prog.Keeps I (withProxy i f) := by
  refine Prog.keeps_gets_bind fun p => ?_
  cases p with
  | none => exact Prog.keeps_pure
  | some p => exact hf p

theorem keeps_initializeIfNeeded :
    Prog.Keeps (At (Inv (η := η) env) b) (initializeIfNeeded c.settings (hooks env c)) :=
  HooksKeep.initializeIfNeeded stable_inv hooksKeep

theorem keeps_addRemoteMethod (i : Nat) (name : String) :
    Prog.Keeps (At (Inv (η := η) env) b) (addRemoteMethod i name) := by
  refine Prog.Triple.gets_bind fun p => ?_
  cases p with
  | none => exact fun s h => h.1
  | some p =>
    rintro s ⟨h, hp⟩
    refine ⟨h.1.addProxies fun q hq => ?_, h.2⟩
    rcases List.mem_or_eq_of_mem_set hq with hq | rfl
    · exact .inl hq
    · exact .inr fun n hn => h.1.proxies p (List.mem_of_getElem? hp) n hn

theorem keeps_getRemoteAttr (i : Nat) (name : String) (p : Proxy) :
    Prog.Keeps (At (Inv (η := η) env) b) (getRemoteAttr env c i name p) := by
  refine (keeps_remoteProxyVerify p).bind fun _ => ?_
  cases p.handle with
  | none => exact Prog.keeps_raise
  | some handle =>
    dsimp only
    split
    · refine Prog.keeps_gets_bind fun n => keeps_runPython.bind fun _ => ?_
      split
      · exact keeps_addRemoteMethod i name
      · exact keeps_runPython
    · exact keeps_runPython

theorem keeps_getAttr (i : Nat) (name : String) :
    Prog.Keeps (At (Inv (η := η) env) b) (getAttr env c i name) := by
  refine keeps_withProxy fun p => ?_
  split
  · exact Prog.keeps_pure
  · exact keeps_initializeIfNeeded.bind fun _ => keeps_withProxy (keeps_getRemoteAttr i name)

theorem keeps_callMethod (i : Nat) (name : String) :
    Prog.Keeps (At (Inv (η := η) env) b) (callMethod env c i name) := by
  refine keeps_withProxy fun p => ?_
  split
  · cases p.handle with
    | none => exact Prog.keeps_raise
    | some handle => exact keeps_runPython
  · exact Prog.keeps_pure

/-- **Step.** -/
theorem inv_step (a : Action) (h : At (Inv env) false s) : At (Inv env) false (step env c a s) := by
  have hperform : Prog.Keeps (At (Inv env) false) (perform env c a) := by
    cases a with
    | initializeIfNeeded => exact keeps_initializeIfNeeded
    | initializeTerminal => exact (hooksKeep false).initializeTerminal stable_inv
    | close => exact closingKeeps.close
    | runPython => exact keeps_runPython
    | getProxyObject remoteObject localSpec => exact keeps_getProxyObject remoteObject localSpec
    | createEmptyRemoteProxy =>
      refine Prog.keeps_modify fun s h => ⟨h.1.addProxies fun p hp => ?_, h.2⟩
      rcases List.mem_append.mp hp with hp | hp
      · exact .inl hp
      · cases List.mem_singleton.mp hp
        exact .inr nofun
    | setFromRemoteProxy i j => exact keeps_setFromRemoteProxy i j
    | asLocalValue i =>
      exact keeps_initializeIfNeeded.bind fun _ => keeps_withProxy keeps_verifyAndRun
    | getRemoteProxyResponse i => exact keeps_withProxy keeps_verifyAndRun
    | getAttr i name => exact keeps_getAttr i name
    | callMethod i name => exact keeps_callMethod i name
  exact (hperform.endsIn h).state h

end

/-! ## The callbacks are callables -/

section
open AutoRecoveringTerminal (Callables KeepsFlag Quiet keepsFlag_close)

variable (env : RunnerEnv) (c : ShellStack η)

theorem quiet_outcome (op : Op) :
    Quiet (outcome env op : Prog RunnerExc (AutoRunnerTerminal η) _) :=
  fun _ _ _ => keeps_outcome (fun _ _ hs => hs) op

theorem quiet_modifyRunner (f : Runner → Runner) :
    Quiet (modifyRunner f : Prog RunnerExc (AutoRunnerTerminal η) _) :=
  fun _ _ _ => Prog.keeps_modify fun _ hs => hs

theorem quiet_newSession : Quiet (newSession env : Prog RunnerExc (AutoRunnerTerminal η) _) :=
  fun session inVerify made =>
    (quiet_modifyRunner _ session inVerify made).bind fun _ _ hs => hs

theorem keepsFlag_closeInAutoClose : KeepsFlag (closeInAutoClose (η := η) env) := by
  intro b
  have hfinalize := (quiet_outcome (η := η) env .finalize).keepsFlag b
  exact hfinalize.tryFinally ((quiet_modifyRunner _).keepsFlag b)

/-- The callbacks of nested calls as callables. -/
def nestedCallables : Callables η RunnerExc Runner where
  toHooks := nested env
  quiet_newSession := quiet_newSession env
  quiet_spawn _ := quiet_outcome env .spawn
  quiet_push _ := quiet_outcome env .push
  quiet_closeTerminal := quiet_outcome env .closeTerminal
  keepsFlag_prepare _ := Prog.keeps_hang
  keepsFlag_finalize := keepsFlag_closeInAutoClose env

theorem keepsFlag_prepareProxies (n : Nat) : KeepsFlag (prepareProxies (η := η) env n) := by
  intro b
  refine Prog.Keeps.bind ?_ fun _ => ?_
  · cases env.makes n with
    | none => exact Prog.keeps_pure
    | some proxy => exact Prog.keeps_modify fun _ hs => hs
  · cases env.sets n with
    | none => exact Prog.keeps_pure
    | some proxies => exact (quiet_modifyRunner _).keepsFlag b

theorem keepsFlag_prepare : KeepsFlag (prepare (η := η) env c) := by
  intro b
  refine Prog.keeps_gets_bind fun n => (keepsFlag_prepareProxies env n b).bind fun _ => ?_
  refine Prog.Keeps.bind ?_ fun _ => ?_
  · split
    · exact keepsFlag_close (c := c.settings) (k := nestedCallables env) b
    · exact Prog.keeps_pure
  · exact (quiet_outcome env .prepare).keepsFlag b

theorem keepsFlag_setupSession : KeepsFlag (setupSession (η := η) env c) := by
  intro b
  refine Prog.keeps_gets_bind fun initialized => ?_
  split
  · exact Prog.keeps_pure
  · refine Prog.Keeps.bind (Prog.keeps_gets_bind fun session => ?_) fun _ => ?_
    · cases session with
      | none => exact Prog.keeps_raise
      | some session => exact (quiet_outcome env .push).keepsFlag b
    · refine ((quiet_outcome env .setupHandler).keepsFlag b).bind fun _ => ?_
      refine Prog.Keeps.bind (Prog.keeps_modify fun _ hs => hs) fun _ => ?_
      refine Prog.Keeps.bind (Prog.keeps_modify fun _ hs => hs) fun _ => ?_
      exact keepsFlag_prepare env c b

/-- `prepare` and `verify` use the terminal, `finalize` is called by its `close`. -/
def callables : Callables η RunnerExc Runner :=
  { nestedCallables env with
    toHooks := hooks env c
    keepsFlag_prepare := keepsFlag_setupSession env c }

end

end AutoRunnerTerminal

end InteractiveSessions
