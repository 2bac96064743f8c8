import InteractiveSessions.Recovery

/-!
# `AutoRunnerTerminal`: proxies of closed sessions

* `rejectsEarlier_iff`: a proxy of a closed session is rejected in a later one,
  exactly if the two sessions do not have the same `id()` and the access is not to
  a method wrapper that the proxy keeps in its `__dict__`.
-/

namespace InteractiveSessions.AutoRunnerTerminal

open AutoRecoveringTerminal (initializeIfNeeded At)

variable {η : Type}

/-- The proxy was made in a session before the one that is set up now.  The
terminal had closed it before it made the next one. -/
def Earlier (p : Proxy) (s : AutoRunnerTerminal η) : Prop :=
  s.user.sessionId.isSome ∧ ∃ n, p.session = some n ∧ n < s.user.sessions

/-- The session of the proxy had the `id()` of the newest one. -/
def Reused (env : RunnerEnv) (p : Proxy) (s : AutoRunnerTerminal η) : Prop :=
  ∃ n, p.session = some n ∧ env.id n = env.id s.user.sessions

/-- When the proxy `p` is accessed in the state `t`, `P wrapped p t` holds if `p` is
of an earlier session.  The access is `wrapped` if it finds a wrapper in the
`__dict__` of the proxy; all others verify, most of them after an initialization. -/
def AccessesEarlier (env : RunnerEnv) (c : ShellStack η)
    (P : Bool → Proxy → AutoRunnerTerminal η → Prop) (a : Action) (s : AutoRunnerTerminal η) :
    Prop :=
  match a with
  | .asLocalValue i => ∀ t p, initializeIfNeeded c.settings (hooks env c) s = .ret () t →
    t.user.proxies[i]? = some p → Earlier p t → P false p t
  | .getRemoteProxyResponse i => ∀ p, s.user.proxies[i]? = some p → Earlier p s → P false p s
  | .getAttr i name => ∀ q, s.user.proxies[i]? = some q →
    if name ∈ q.methods then Earlier q s → P true q s
    else ∀ t p, initializeIfNeeded c.settings (hooks env c) s = .ret () t →
      t.user.proxies[i]? = some p → Earlier p t → P false p t
  | .callMethod i name => ∀ p, s.user.proxies[i]? = some p → name ∈ p.methods → Earlier p s →
    P true p s
  | _ => True

/-- Every access to a proxy of an earlier session raises, and no remote call is made. -/
def RejectsEarlier (env : RunnerEnv) (c : ShellStack η) (a : Action) (s : AutoRunnerTerminal η) :
    Prop :=
  AccessesEarlier env c (fun _ _ t => perform env c a s = .raised .invalidProxySession t) a s

/-- No access to a proxy of an earlier session finds a wrapper, or a session with
the same `id()`. -/
def Detectable (env : RunnerEnv) (c : ShellStack η) : Action → AutoRunnerTerminal η → Prop :=
  AccessesEarlier env c fun wrapped p t => wrapped = false ∧ ¬ Reused env p t

section
variable {env : RunnerEnv} {c : ShellStack η} {s t : AutoRunnerTerminal η} {p : Proxy}

theorem withProxy_run {i : Nat} (hp : s.user.proxies[i]? = some p)
    (f : Proxy → Prog RunnerExc (AutoRunnerTerminal η) Unit) : withProxy i f s = f p s := by
  rw [withProxy, Prog.bind_ret (Prog.gets_run ..), hp]

/-- In a later session the proxy is valid exactly if its session had the same `id()`. -/
theorem invalid_iff_not_reused (ht : At (Inv env) false t)
    (hp : ∀ n, p.session = some n → p.sessionId = .id (env.id n)) (h : Earlier p t) :
    p.sessionId.Invalid t.user.sessionId ↔ ¬ Reused env p t := by
  obtain ⟨hset, n, hn, -⟩ := h
  obtain ⟨id, hid⟩ := Option.isSome_iff_exists.mp hset
  obtain ⟨x, hx, rfl⟩ := ht.1.sessionId id hid
  have hreused : Reused env p t ↔ env.id n = env.id t.user.sessions := by
    constructor
    · rintro ⟨m, hm, heq⟩
      cases hn.symm.trans hm
      exact heq
    · exact fun heq => ⟨n, hn, heq⟩
  rw [hreused, hp n hn, ProxySessionId.invalid_id_iff, hid, ht.1.session x hx]
  exact not_congr ⟨fun h => (Option.some.inj h).symm, fun h => congrArg some h.symm⟩

theorem Earlier.session (h : Earlier p t) (ht : At (Inv env) false t) :
    ∃ x, t.session = some x := by
  obtain ⟨id, hid⟩ := Option.isSome_iff_exists.mp h.1
  obtain ⟨x, hx, -⟩ := ht.1.sessionId id hid
  exact ⟨x, hx⟩

/-- `run_python` in a session is a remote call, which is counted. -/
theorem lt_calls_of_runPython {e : RunnerExc} {x : Session η} (hx : s.session = some x)
    (h : runPython env c s = .raised e t) : s.user.calls < t.user.calls := by
  cases hfails : env.fails .run s.user.calls with
  | none => cases (runPython_ret hx hfails).symm.trans h
  | some e' =>
    by_cases he : e' = .runnerTerminalSessionBroken
    · obtain ⟨u, hu, hcalls⟩ := runPython_broken (c := c) hx (he ▸ hfails)
      cases hu.symm.trans h
      exact hcalls
    · cases (runPython_raised (c := c) hx hfails he).symm.trans h
      exact Nat.lt_succ_self _

theorem runPython_ne_raised (e : RunnerExc) {x : Session η} (hx : s.session = some x) :
    runPython env c s ≠ .raised e s :=
  fun h => Nat.lt_irrefl _ (lt_calls_of_runPython hx h)

/-- An operation that verifies first, and then does something that is not rejected. -/
theorem verify_bind (ht : At (Inv env) false t) (h : Earlier p t)
    (hp : ∀ n, p.session = some n → p.sessionId = .id (env.id n))
    {m : Prog RunnerExc (AutoRunnerTerminal η) Unit} (hm : m t ≠ .raised .invalidProxySession t) :
    (remoteProxyVerify p >>= fun _ => m) t = .raised .invalidProxySession t ↔
      ¬ Reused env p t := by
  rw [← invalid_iff_not_reused ht hp h]
  by_cases hinvalid : p.sessionId.Invalid t.user.sessionId
  · refine iff_of_true ?_ hinvalid
    simp [remoteProxyVerify, Prog.bind_run, hinvalid]
  · refine iff_of_false ?_ hinvalid
    rw [Prog.bind_ret (remoteProxyVerify_ret_iff.mpr hinvalid)]
    exact hm

theorem verifyAndRun_iff (ht : At (Inv env) false t) (h : Earlier p t)
    (hp : ∀ n, p.session = some n → p.sessionId = .id (env.id n)) :
    verifyAndRun env c p t = .raised .invalidProxySession t ↔
      ¬ Reused env p t := by
  obtain ⟨x, hx⟩ := h.session ht
  exact verify_bind ht h hp (runPython_ne_raised _ hx)

theorem addRemoteMethod_ne_raised (i : Nat) (name : String) (e : RunnerExc)
    (s t : AutoRunnerTerminal η) : addRemoteMethod i name s ≠ .raised e t := by
  unfold addRemoteMethod withProxy
  rw [Prog.bind_ret (Prog.gets_run ..)]
  cases s.user.proxies[i]? <;> nofun

theorem getRemoteAttr_iff (ht : At (Inv env) false t) (h : Earlier p t)
    (hp : ∀ n, p.session = some n → p.sessionId = .id (env.id n)) (i : Nat) (name : String) :
    getRemoteAttr env c i name p t = .raised .invalidProxySession t ↔
      ¬ Reused env p t := by
  obtain ⟨x, hx⟩ := h.session ht
  refine verify_bind ht h hp ?_
  cases p.handle with
  | none => nofun
  | some handle =>
    dsimp only
    split
    · intro hraised
      rw [Prog.bind_ret (Prog.gets_run ..), Prog.bind_run] at hraised
      cases hfails : env.fails .run t.user.calls with
      | none =>
        rw [runPython_ret hx hfails] at hraised
        dsimp only at hraised
        split at hraised
        · exact addRemoteMethod_ne_raised i name _ _ _ hraised
        · have hcalls := lt_calls_of_runPython (s := { t with user := { t.user with
            calls := t.user.calls + 1 } }) hx hraised
          exact absurd hcalls (Nat.not_lt_of_ge (Nat.le_succ _))
      | some e =>
        cases hrun : runPython env c t with
        | ret _ u =>
          by_cases he : e = .runnerTerminalSessionBroken
          · obtain ⟨v, hv, -⟩ := runPython_broken (c := c) hx (he ▸ hfails)
            cases hv.symm.trans hrun
          · cases (runPython_raised (c := c) hx hfails he).symm.trans hrun
        | raised e' u =>
          rw [hrun] at hraised
          cases hraised
          exact runPython_ne_raised _ hx hrun
        | hang =>
          rw [hrun] at hraised
          cases hraised
    · exact runPython_ne_raised _ hx

/-- **Step.** -/
theorem rejectsEarlier_step (a : Action) (h : At (Inv env) false s) :
    RejectsEarlier env c a s ↔ Detectable env c a s := by
  have hmade {t : AutoRunnerTerminal η} (ht : At (Inv env) false t) {i : Nat} {p : Proxy}
      (hp : t.user.proxies[i]? = some p) (n : Nat) (hn : p.session = some n) :
      p.sessionId = .id (env.id n) :=
    (ht.1.proxies p (List.mem_of_getElem? hp) n hn).2.1
  cases a with
  | asLocalValue i =>
    refine forall_congr' fun t => forall_congr' fun p => imp_congr_right fun ht =>
      imp_congr_right fun hp => imp_congr_right fun hearlier => ?_
    have hinv : At (Inv env) false t := keeps_initializeIfNeeded.of_ret h ht
    have hperform : perform env c (.asLocalValue i) s = verifyAndRun env c p t := by
      rw [perform, asLocalValue, Prog.bind_ret ht, withProxy_run hp]
    rw [hperform]
    exact (verifyAndRun_iff hinv hearlier (hmade hinv hp)).trans (and_iff_right rfl).symm
  | getRemoteProxyResponse i =>
    refine forall_congr' fun p => imp_congr_right fun hp => imp_congr_right fun hearlier => ?_
    rw [perform, withProxy_run hp]
    exact (verifyAndRun_iff h hearlier (hmade h hp)).trans (and_iff_right rfl).symm
  | getAttr i name =>
    refine forall_congr' fun q => imp_congr_right fun hq => ?_
    rw [perform, getAttr, withProxy_run hq]
    by_cases hname : name ∈ q.methods
    · rw [if_pos hname, if_pos hname, if_pos hname]
      exact imp_congr_right fun _ => iff_of_false nofun nofun
    · rw [if_neg hname, if_neg hname, if_neg hname]
      refine forall_congr' fun t => forall_congr' fun p => imp_congr_right fun ht =>
        imp_congr_right fun hp => imp_congr_right fun hearlier => ?_
      have hinv : At (Inv env) false t := keeps_initializeIfNeeded.of_ret h ht
      rw [Prog.bind_ret ht, withProxy_run hp]
      exact (getRemoteAttr_iff hinv hearlier (hmade hinv hp) i name).trans
        (and_iff_right rfl).symm
  | callMethod i name =>
    refine forall_congr' fun p => imp_congr_right fun hp => imp_congr_right fun hname =>
      imp_congr_right fun hearlier => iff_of_false (fun hraised => ?_) nofun
    rw [perform, callMethod, withProxy_run hp, if_pos hname] at hraised
    obtain ⟨x, hx⟩ := hearlier.session h
    cases hhandle : p.handle with
    | none =>
      rw [hhandle] at hraised
      cases hraised
    | some handle =>
      rw [hhandle] at hraised
      exact runPython_ne_raised _ hx hraised
  | initializeIfNeeded | initializeTerminal | close | runPython | getProxyObject
  | createEmptyRemoteProxy | setFromRemoteProxy => exact Iff.rfl

end

/-- **Run.**  Proxies of closed sessions are rejected, exactly if they are accessed
neither through a wrapper nor in a session with the `id()` of their own. -/
theorem rejectsEarlier_iff (env : RunnerEnv) (c : ShellStack η) (actions : List Action) :
    Along (step env c) (RejectsEarlier env c) actions new ↔
      Along (step env c) (Detectable env c) actions new :=
  along_congr (fun a _ => inv_step a) (fun a _ => rejectsEarlier_step a) actions ⟨inv_new, rfl⟩

/-- Every `InteractiveSession` is made where the one before was. -/
def sameAddress : RunnerEnv where
  id _ := 7
  fails _ _ := none
  makes _ := none
  sets _ := none
  closes _ := false
  callable _ := false

/-- **A reused address.**  The proxy of the first session is accepted in the second. -/
theorem not_rejectsEarlier_sameAddress :
    ¬ Along (step sameAddress oneShell) (RejectsEarlier sameAddress oneShell)
      [.initializeIfNeeded, .getProxyObject "f" [], .close, .asLocalValue 0] new := by
  intro h
  let s := [Action.initializeIfNeeded, .getProxyObject "f" [], .close].foldl
    (fun s a => step sameAddress oneShell a s) new
  let t := step sameAddress oneShell .initializeIfNeeded s
  have hp : t.user.proxies[0]? =
      some ⟨.new (some 7) (some (.object "f")) [] false, some 1⟩ := by decide +kernel
  have ht : initializeIfNeeded oneShell.settings (hooks sameAddress oneShell) s = .ret () t := by
    decide +kernel
  have hset : t.user.sessionId.isSome ∧ 1 < t.user.sessions := by decide +kernel
  have hraised := h.2.2.2.1 _ _ ht hp ⟨hset.1, 1, rfl, hset.2⟩
  have hret : perform sameAddress oneShell (.asLocalValue 0) s ≠
      .raised .invalidProxySession t := by
    decide +kernel
  exact hret hraised

/-- A wrapper runs in the next session, although its `id()` is another one. -/
example :
    let env : RunnerEnv := { sameAddress with id := id }
    let s := [Action.initializeIfNeeded, .getProxyObject "f" ["readline"], .close,
      .initializeIfNeeded].foldl (fun s a => step env oneShell a s) new
    perform env oneShell (.callMethod 0 "readline") s =
      .ret () (step env oneShell (.callMethod 0 "readline") s) := by
  decide +kernel

end InteractiveSessions.AutoRunnerTerminal
