import InteractiveSessions.SelfRepairingSession

/-!
# `SelfRepairingSession`: how many attempts there are

An attempt that ends in `RunNotStarted` is followed by another one, whatever its
number; only `SessionNotInitialized` is checked against `max_retries`.

* `stops_iff`: `run_no_validate` ends within `max_retries + 1` attempts, exactly if
  the last of them does not end so;
* `stops_after_one_more`: it always ends within one attempt more.
-/

namespace InteractiveSessions

namespace SelfRepairingSession

section

variable (env : Environment)

/-! ## What the remote calls lead to -/

/-- `_import_in_shell` from the call `n` on: whether it returns, the next call and
`_old_workdir`. -/
def importEnd (old : Bool) (n : Nat) : Bool × Nat × Bool :=
  match env.raises n with
  | none => (true, n + 1, true)
  | some .unexpectedOutputInPython =>
    if (env.raises (n + 1)).isSome then (false, n + 2, false)
    else if (env.raises (n + 2)).isSome then (false, n + 3, false)
    else (true, n + 3, false)
  | some _ => (false, n + 1, old)

/-- `_prepare_session` from the call `n` on, likewise. -/
def prepareEnd (old : Bool) (n : Nat) : Bool × Nat × Bool :=
  if (env.raises n).isSome then (false, n + 1, old)
  else if (env.raises (n + 1)).isSome then (false, n + 2, old)
  else if (env.raises (n + 2)).isSome then (false, n + 3, old)
  else importEnd env old (n + 3)

/-- The closing of a session from the call `n` on: what it raises, and the next call. -/
def closeEnd (n : Nat) : Option CallExc × Nat :=
  match env.raises n with
  | some e => (some e, n + 1)
  | none => (env.raises (n + 1), n + 2)

/-- The creation of a session from the call `n` on, when there is none: the next call
and `_old_workdir`, if there is a session afterwards.  One that could not be prepared
is there when its closing timed out. -/
def creationEnd (old : Bool) (n : Nat) : Option (Nat × Bool) :=
  if (env.raises n).isSome then none
  else
    let p := prepareEnd env old (n + 1)
    if p.1 then some p.2
    else
      match (closeEnd env p.2.1).1 with
      | some e => if isTimeout (.remote e) then some ((closeEnd env p.2.1).2, p.2.2) else none
      | none => none

/-- The fetching of a backup from the call `n` on: the next call, if there is no
backup of the run. -/
def backupEnd : Nat → Nat → Option Nat
  | 0, _ => none
  | tries + 1, n =>
    match env.raises n with
    | some .mismatchInRunId | some .backupNotFound => some (n + 1)
    | some .resultNotStoredYet => backupEnd tries (n + 1)
    | _ => none

variable (timeout : ℚ)

/-- No backup is fetched from the call `n` on: the next call. -/
def notFetched (old : Bool) (n : Nat) : Option Nat :=
  if old then backupEnd env (tries timeout) n else some n

/-- The handling of a hung run from the call `n` on: the next call, if there is a new
session and no result. -/
def hungEnd (old : Bool) (n : Nat) : Option Nat :=
  (creationEnd env old n).bind fun p => notFetched env timeout p.2 p.1

/-- The hung run is given up, and the closing of the new session returns. -/
def GivesUp (old : Bool) (n : Nat) : Prop :=
  ∃ n', hungEnd env timeout old n = some n' ∧ (closeEnd env n').1 = none

/-- An attempt from this state ends in `RunNotStarted`: there is a session, the run
hangs in it, and it is given up. -/
def NotStarted (s : SelfRepairingSession) : Prop :=
  s.session ≠ none ∧ s.shell ≠ none ∧ env.raises s.calls = some .pythonRunNotStarted ∧
    GivesUp env timeout s.oldWorkdir (s.calls + 1)

/-! ## The programs follow the remote calls -/

/-- The session is as in `s`, and the next call is `n`. -/
structure At (s : SelfRepairingSession) (n : Nat) (old : Bool) (t : SelfRepairingSession) :
    Prop where
  session : t.session = s.session
  sessions : t.sessions = s.sessions
  shell : s.shell ≠ none → t.shell ≠ none
  calls : t.calls = n
  oldWorkdir : t.oldWorkdir = old

theorem At.trans {s t u : SelfRepairingSession} {n n' : Nat} {old old' : Bool}
    (h : At s n old t) (h' : At t n' old' u) : At s n' old' u where
  session := h'.session.trans h.session
  sessions := h'.sessions.trans h.sessions
  shell hs := h'.shell (h.shell hs)
  calls := h'.calls
  oldWorkdir := h'.oldWorkdir

/-- A program that makes one remote call, in the current session. -/
def OneCall (m : Program Unit) : Prop :=
  ∀ s, s.session ≠ none →
    (∃ e t, env.raises s.calls = some e ∧ m s = .raised (.remote e) t ∧
        At s (s.calls + 1) s.oldWorkdir t) ∨
      ∃ t, env.raises s.calls = none ∧ m s = .ret () t ∧ At s (s.calls + 1) s.oldWorkdir t

variable {env} in
theorem remote_raised {s : SelfRepairingSession} {e : CallExc} (h : env.raises s.calls = some e) :
    remote env s = .raised (.remote e) s.called := by
  rw [remote, h]

variable {env} in
theorem remote_ret {s : SelfRepairingSession} (h : env.raises s.calls = none) :
    remote env s = .ret s.calls s.called := by
  rw [remote, h]

theorem at_called (s : SelfRepairingSession) : At s (s.calls + 1) s.oldWorkdir s.called :=
  ⟨rfl, rfl, id, rfl, rfl⟩

theorem currentSession_run {s : SelfRepairingSession} {x : Nat} (hs : s.session = some x) :
    currentSession s = .ret x s := by
  simp [currentSession, Prog.bind_run, hs]

theorem currentSession_none {s : SelfRepairingSession} (hs : s.session = none) :
    currentSession s = .raised .attributeError s := by
  simp [currentSession, Prog.bind_run, hs]

/-- Whatever is changed after the call. -/
theorem oneCall_of {m : Program Unit} {f : Nat → SelfRepairingSession → SelfRepairingSession}
    (hm : ∀ s x, s.session = some x →
      m s = (remote env >>= fun _ => (Prog.modify (f x) : Program Unit)) s)
    (hf : ∀ x s, At s s.calls s.oldWorkdir (f x s)) : OneCall env m := by
  intro s hs
  obtain ⟨x, hx⟩ := Option.ne_none_iff_exists'.mp hs
  rw [hm s x hx]
  cases hr : env.raises s.calls with
  | some e => exact .inl ⟨e, s.called, rfl, Prog.bind_raised (remote_raised hr), at_called s⟩
  | none =>
    refine .inr ⟨f x s.called, rfl, ?_, (at_called s).trans (hf x s.called)⟩
    rw [Prog.bind_ret (remote_ret hr)]
    rfl

theorem oneCall_clearDelaybeforesend : OneCall env (clearDelaybeforesend env) := by
  apply oneCall_of
  · intro s x hx
    rw [clearDelaybeforesend, Prog.bind_ret (currentSession_run hx)]
  · exact fun _ _ => ⟨rfl, rfl, id, rfl, rfl⟩

theorem oneCall_restoreDelaybeforesend : OneCall env (restoreDelaybeforesend env) := by
  apply oneCall_of
  · intro s x hx
    rw [restoreDelaybeforesend, Prog.bind_ret (currentSession_run hx)]
  · exact fun _ _ => ⟨rfl, rfl, id, rfl, rfl⟩

theorem oneCall_sessionCall : OneCall env (sessionCall env) := by
  apply oneCall_of (f := fun _ s => s)
  · intro s x hx
    rw [sessionCall, Prog.bind_ret (currentSession_run hx)]
    rfl
  · exact fun _ _ => ⟨rfl, rfl, id, rfl, rfl⟩

theorem oneCall_sendImportCommand : OneCall env (sendImportCommand env) :=
  oneCall_of env (f := fun _ s => s) (fun _ _ _ => rfl) fun _ _ => ⟨rfl, rfl, id, rfl, rfl⟩

theorem oneCall_transferTextFile : OneCall env (transferTextFile env) :=
  oneCall_of env (f := fun _ s => s) (fun _ _ _ => rfl) fun _ _ => ⟨rfl, rfl, id, rfl, rfl⟩

/-- The program returns or raises, as the remote calls have it. -/
def Follows (s : SelfRepairingSession) (p : Bool × Nat × Bool)
    (o : Outcome RepairExc SelfRepairingSession Unit) : Prop :=
  (∃ t, p.1 = true ∧ o = .ret () t ∧ At s p.2.1 p.2.2 t) ∨
    ∃ e t, p.1 = false ∧ o = .raised (.remote e) t ∧ At s p.2.1 p.2.2 t

/-- One call, and then what follows if it returns. -/
theorem OneCall.follows {m : Program Unit} {f : Unit → Program Unit} {s t : SelfRepairingSession}
    {n : Nat} {old : Bool} {p : Bool × Nat × Bool} (hm : OneCall env m) (h : At s n old t)
    (hs : s.session ≠ none) (hf : ∀ u, At s (n + 1) old u → Follows s p (f () u)) :
    Follows s (if (env.raises n).isSome then (false, n + 1, old) else p) ((m >>= f) t) := by
  obtain ⟨rfl, rfl⟩ : t.calls = n ∧ t.oldWorkdir = old := ⟨h.calls, h.oldWorkdir⟩
  rcases hm t (h.session ▸ hs) with ⟨e, u, hr, hrun, hu⟩ | ⟨u, hr, hrun, hu⟩
  · rw [hr]
    exact .inr ⟨e, u, rfl, Prog.bind_raised hrun, h.trans hu⟩
  · rw [hr, Prog.bind_ret hrun]
    exact hf u (h.trans hu)

/-- The only call of a program. -/
theorem OneCall.follows_last {m : Program Unit} {s t : SelfRepairingSession} {n : Nat} {old : Bool}
    (hm : OneCall env m) (h : At s n old t) (hs : s.session ≠ none) :
    Follows s (if (env.raises n).isSome then (false, n + 1, old) else (true, n + 1, old))
      (m t) := by
  obtain ⟨rfl, rfl⟩ : t.calls = n ∧ t.oldWorkdir = old := ⟨h.calls, h.oldWorkdir⟩
  rcases hm t (h.session ▸ hs) with ⟨e, u, hr, hrun, hu⟩ | ⟨u, hr, hrun, hu⟩
  · rw [hr]
    exact .inr ⟨e, u, rfl, hrun, h.trans hu⟩
  · rw [hr]
    exact .inl ⟨u, rfl, hrun, h.trans hu⟩

theorem importInShell_follows {s t : SelfRepairingSession} {n : Nat} {old : Bool}
    (h : At s n old t) (hs : s.session ≠ none) :
    Follows s (importEnd env old n) (importInShell env t) := by
  obtain ⟨rfl, rfl⟩ : t.calls = n ∧ t.oldWorkdir = old := ⟨h.calls, h.oldWorkdir⟩
  unfold importInShell
  rcases oneCall_sendImportCommand env t (h.session ▸ hs) with
    ⟨e, u, hr, hrun, hu⟩ | ⟨u, hr, hrun, hu⟩
  · by_cases he : e = .unexpectedOutputInPython
    · subst he
      rw [Prog.tryExcept_caught (Prog.bind_raised hrun) (if_pos rfl)]
      have hafter : At s (t.calls + 1) false { u with oldWorkdir := false } :=
        ⟨(h.trans hu).session, (h.trans hu).sessions, (h.trans hu).shell, hu.calls, rfl⟩
      simp only [importEnd, hr]
      exact (oneCall_transferTextFile env).follows env hafter hs fun v hv =>
        (oneCall_sendImportCommand env).follows_last env hv hs
    · rw [Prog.tryExcept_uncaught (Prog.bind_raised hrun) (by simp [he])]
      have hend : importEnd env t.oldWorkdir t.calls = (false, t.calls + 1, t.oldWorkdir) := by
        cases e <;> simp_all [importEnd]
      rw [hend]
      exact .inr ⟨e, u, rfl, rfl, h.trans hu⟩
  · have hbody : (sendImportCommand env >>= fun _ =>
        (Prog.modify fun s => { s with oldWorkdir := true } : Program Unit)) t =
          .ret () { u with oldWorkdir := true } := Prog.bind_ret hrun
    simp only [importEnd, hr]
    exact .inl ⟨_, rfl, Prog.tryExcept_ret hbody, (h.trans hu).session, (h.trans hu).sessions,
      (h.trans hu).shell, hu.calls, rfl⟩

theorem prepareSession_follows {s : SelfRepairingSession} (hs : s.session ≠ none) :
    Follows s (prepareEnd env s.oldWorkdir s.calls) (prepareSession env s) := by
  have h : At s s.calls s.oldWorkdir s := ⟨rfl, rfl, id, rfl, rfl⟩
  refine (oneCall_clearDelaybeforesend env).follows env h hs fun t ht => ?_
  refine (oneCall_sessionCall env).follows env ht hs fun u hu => ?_
  refine (oneCall_sessionCall env).follows env hu hs fun v hv => ?_
  obtain ⟨x, hx⟩ := Option.ne_none_iff_exists'.mp hs
  rw [Prog.bind_ret (currentSession_run (hv.session.trans hx))]
  rcases importInShell_follows env hv hs with ⟨w, hp, ho, hw⟩ | ⟨e, w, hp, ho, hw⟩
  · rw [Prog.bind_ret ho]
    exact .inl ⟨_, hp, rfl, ⟨hw.session, hw.sessions, fun _ => nofun, hw.calls, hw.oldWorkdir⟩⟩
  · rw [Prog.bind_raised ho]
    exact .inr ⟨e, w, hp, rfl, hw⟩

/-! ## A session is closed, and another one created -/

theorem sessionClose_raises {s : SelfRepairingSession} (hs : s.session ≠ none) (o : Option Nat)
    {e : CallExc} (he : (closeEnd env s.calls).1 = some e) :
    ∃ t, sessionClose env o s = .raised (.remote e) t ∧
      At s (closeEnd env s.calls).2 s.oldWorkdir t := by
  unfold sessionClose
  rcases oneCall_restoreDelaybeforesend env s hs with ⟨e', t, hr, hrun, ht⟩ | ⟨t, hr, hrun, ht⟩
  · simp only [closeEnd, hr, Option.some.injEq] at he ⊢
    subst he
    exact ⟨t, Prog.bind_raised hrun, ht⟩
  · simp only [closeEnd, hr] at he ⊢
    obtain ⟨x, hx⟩ := Option.ne_none_iff_exists'.mp hs
    rw [Prog.bind_ret hrun, Prog.bind_ret (currentSession_run (ht.session.trans hx))]
    have hcalled := ht.trans (at_called t)
    rw [ht.calls, ht.oldWorkdir] at hcalled
    exact ⟨t.called, Prog.bind_raised (remote_raised (ht.calls ▸ he)), hcalled⟩

theorem sessionClose_returns {s : SelfRepairingSession} (hs : s.session ≠ none)
    (hmem : ∀ x, s.session = some x → x ∈ s.sessions) (o : Option Nat)
    (he : (closeEnd env s.calls).1 = none) :
    ∃ t, sessionClose env o s = .ret () t ∧ t.session = none := by
  unfold sessionClose
  rcases oneCall_restoreDelaybeforesend env s hs with ⟨e', t, hr, hrun, ht⟩ | ⟨t, hr, hrun, ht⟩
  · simp only [closeEnd, hr] at he
    cases he
  · simp only [closeEnd, hr] at he
    obtain ⟨x, hx⟩ := Option.ne_none_iff_exists'.mp hs
    rw [Prog.bind_ret hrun, Prog.bind_ret (currentSession_run (ht.session.trans hx)),
      Prog.bind_ret (remote_ret (ht.calls ▸ he))]
    have hx' : x ∈ t.sessions := ht.sessions ▸ hmem x hx
    refine ⟨drop x { t.called with closed := insert x t.called.closed }, ?_, rfl⟩
    simp [Prog.bind_run, called, hx']

/-- The session is created from `s` on, which had none. -/
structure Created (s : SelfRepairingSession) (n : Nat) (old : Bool) (t : SelfRepairingSession) :
    Prop where
  session : t.session ≠ none
  mem : ∀ x, t.session = some x → x ∈ t.sessions
  shell : s.shell ≠ none → t.shell ≠ none
  calls : t.calls = n
  oldWorkdir : t.oldWorkdir = old

theorem At.created {s t u : SelfRepairingSession} {n n' : Nat} {old old' : Bool}
    (h : Created s n old t) (h' : At t n' old' u) : Created s n' old' u where
  session := h'.session ▸ h.session
  mem x hx := h'.sessions ▸ h.mem x (h'.session ▸ hx)
  shell hs := h'.shell (h.shell hs)
  calls := h'.calls
  oldWorkdir := h'.oldWorkdir

/-- There is a session after the creation, or not. -/
def Creates (s : SelfRepairingSession) (t : SelfRepairingSession) : Prop :=
  match creationEnd env s.oldWorkdir s.calls with
  | some (n, old) => Created s n old t
  | none => t.session = none

theorem ifSession_none {s : SelfRepairingSession} (hs : s.session = none) (body : Program Unit) :
    ifSession body s = .ret () s := by
  simp [ifSession, Prog.bind_run, hs]

theorem ifSession_some {s : SelfRepairingSession} (hs : s.session ≠ none) (body : Program Unit) :
    ifSession body s = body s := by
  simp [ifSession, Prog.bind_run, Option.isSome_iff_ne_none, hs]

/-- The handler of `_create_new_session`. -/
def cleanUp (e : RepairExc) : Program Unit := do
  ifSession (sessionClose env none)
  Prog.raise e

theorem createNewSession_of_raised {s t : SelfRepairingSession} {e : RepairExc}
    (hs : s.session = none) (h : createSession env s = .raised e t) :
    createNewSession env s = cleanUp env e t := by
  unfold createNewSession
  apply Prog.tryExcept_caught _ rfl
  rw [Prog.bind_ret (ifSession_none hs _), h]

theorem createNewSession_of_ret {s t : SelfRepairingSession}
    (hs : s.session = none) (h : createSession env s = .ret () t) :
    createNewSession env s = .ret () t := by
  unfold createNewSession
  apply Prog.tryExcept_ret
  rw [Prog.bind_ret (ifSession_none hs _), h]

/-- What leads to no session: the creation raised, or it timed out. -/
theorem meets_of_raised {s t : SelfRepairingSession} {e : CallExc}
    (h : createNewSession env s = .raised (.remote e) t)
    (hend : match creationEnd env s.oldWorkdir s.calls with
      | some (n, old) => isTimeout (.remote e) ∧ Created s n old t
      | none => isTimeout (.remote e) → t.session = none) :
    Prog.Meets False (fun _ => Creates env s)
      (fun e _ => creationEnd env s.oldWorkdir s.calls = none ∧ e ≠ .runNotStarted)
      (tryToCreateNewSession env s) := by
  unfold tryToCreateNewSession
  by_cases ht : isTimeout (.remote e)
  · rw [Prog.tryExcept_caught h (if_pos ht)]
    show Creates env s t
    unfold Creates
    revert hend
    cases creationEnd env s.oldWorkdir s.calls with
    | some p => exact fun hend => hend.2
    | none => exact fun hend => hend ht
  · rw [Prog.tryExcept_uncaught h (if_neg ht)]
    refine ⟨?_, nofun⟩
    revert hend
    cases creationEnd env s.oldWorkdir s.calls with
    | some p => exact fun hend => absurd hend.1 ht
    | none => exact fun _ => rfl

theorem creationEnd_of_prepared {s : SelfRepairingSession} (hr : env.raises s.calls = none)
    (hp : (prepareEnd env s.oldWorkdir (s.calls + 1)).1 = true) :
    creationEnd env s.oldWorkdir s.calls =
      some (prepareEnd env s.oldWorkdir (s.calls + 1)).2 := by
  simp [creationEnd, hr, hp]

theorem creationEnd_of_unprepared {s : SelfRepairingSession} {n : Nat} {old : Bool}
    (hr : env.raises s.calls = none)
    (hp : prepareEnd env s.oldWorkdir (s.calls + 1) = (false, n, old)) :
    creationEnd env s.oldWorkdir s.calls =
      match (closeEnd env n).1 with
      | some e => if isTimeout (.remote e) then some ((closeEnd env n).2, old) else none
      | none => none := by
  simp [creationEnd, hr, hp]

/-- A session that could not be prepared is closed. -/
theorem meets_of_unprepared {s t : SelfRepairingSession} {n : Nat} {old : Bool} {e : CallExc}
    (hr : env.raises s.calls = none)
    (hp : prepareEnd env s.oldWorkdir (s.calls + 1) = (false, n, old)) (ht : Created s n old t)
    (h : createNewSession env s = cleanUp env (.remote e) t) :
    Prog.Meets False (fun _ => Creates env s)
      (fun e _ => creationEnd env s.oldWorkdir s.calls = none ∧ e ≠ .runNotStarted)
      (tryToCreateNewSession env s) := by
  have hend := creationEnd_of_unprepared env hr hp
  obtain ⟨rfl, rfl⟩ : t.calls = n ∧ t.oldWorkdir = old := ⟨ht.calls, ht.oldWorkdir⟩
  rw [cleanUp] at h
  cases hclose : (closeEnd env t.calls).1 with
  | some e' =>
    obtain ⟨u, hrun, hu⟩ := sessionClose_raises env ht.session none hclose
    rw [Prog.bind_raised ((ifSession_some ht.session _).trans hrun)] at h
    apply meets_of_raised env h
    rw [hend, hclose]
    by_cases htimeout : isTimeout (.remote e')
    · simp only [htimeout, if_true]
      exact ⟨trivial, hu.created ht⟩
    · simp [htimeout]
  | none =>
    obtain ⟨u, hrun, hu⟩ := sessionClose_returns env ht.session ht.mem none hclose
    rw [Prog.bind_ret ((ifSession_some ht.session _).trans hrun)] at h
    apply meets_of_raised env h
    rw [hend, hclose]
    exact fun _ => hu

theorem tryToCreateNewSession_run {s : SelfRepairingSession} (hs : s.session = none) :
    Prog.Meets False (fun _ => Creates env s)
      (fun e _ => creationEnd env s.oldWorkdir s.calls = none ∧ e ≠ .runNotStarted)
      (tryToCreateNewSession env s) := by
  cases hr : env.raises s.calls with
  | some e =>
    have hcreate : createSession env s = .raised (.remote e) s.called :=
      Prog.bind_raised (remote_raised hr)
    apply meets_of_raised env (e := e) (t := s.called)
    · rw [createNewSession_of_raised env hs hcreate, cleanUp,
        Prog.bind_ret (ifSession_none (s := s.called) hs _)]
      rfl
    · simp only [creationEnd, hr]
      exact fun _ => hs
  | none =>
    have hcreate : createSession env s = prepareSession env s.called.adopt := by
      rw [createSession, Prog.bind_ret (remote_ret hr)]
      rfl
    have hcreated : Created s (s.calls + 1) s.oldWorkdir s.called.adopt :=
      ⟨nofun, fun x hx => by cases hx; exact Finset.mem_insert_self .., id, rfl, rfl⟩
    rcases prepareSession_follows env hcreated.session with ⟨t, hp, ho, ht⟩ | ⟨e, t, hp, ho, ht⟩
    · unfold tryToCreateNewSession
      rw [Prog.tryExcept_ret (createNewSession_of_ret env hs (hcreate.trans ho))]
      show Creates env s t
      rw [Creates, creationEnd_of_prepared env hr hp]
      exact ht.created hcreated
    · exact meets_of_unprepared env hr (Prod.ext hp rfl) (ht.created hcreated)
        (createNewSession_of_raised env hs (hcreate.trans ho))

/-! ## A hung run -/

/-- There is no backup of the run. -/
def Missing (e : RepairExc) : Prop := e = .remote .mismatchInRunId ∨ e = .remote .backupNotFound

theorem getBackedUpResultLoop_succ (k : Nat) {t : SelfRepairingSession} (ht : t.shell ≠ none) :
    getBackedUpResultLoop env (k + 1) t =
      match env.raises t.calls with
      | none => .ret (env.result t.calls) t.called
      | some e =>
        if e = .resultNotStoredYet then getBackedUpResultLoop env k t.called
        else .raised (.remote e) t.called := by
  obtain ⟨x, hx⟩ := Option.ne_none_iff_exists'.mp ht
  have hshell : runnerShell t = .ret x t := by simp [runnerShell, Prog.bind_run, hx]
  cases hr : env.raises t.calls with
  | none => simp [getBackedUpResultLoop, Prog.tryExcept, Prog.bind_run, hshell, remote, hr]
  | some e =>
    by_cases he : e = .resultNotStoredYet <;>
      simp [getBackedUpResultLoop, Prog.tryExcept, Prog.bind_run, hshell, remote, hr, he]

theorem getBackedUpResultLoop_run (k : Nat) {s t : SelfRepairingSession} {n : Nat} {old : Bool}
    (h : At s n old t) (hs : s.shell ≠ none) :
    Prog.Meets False (fun _ _ => backupEnd env k n = none)
      (fun e u => match backupEnd env k n with
        | some n => Missing e ∧ At s n old u
        | none => ¬ Missing e)
      (getBackedUpResultLoop env k t) := by
  induction k generalizing t n with
  | zero => simp [getBackedUpResultLoop, backupEnd, Missing, Prog.Meets]
  | succ k ih =>
    obtain ⟨rfl, rfl⟩ : t.calls = n ∧ t.oldWorkdir = old := ⟨h.calls, h.oldWorkdir⟩
    have hcalled : At s (t.calls + 1) t.oldWorkdir t.called := h.trans (at_called t)
    rw [getBackedUpResultLoop_succ env k (h.shell hs)]
    cases hr : env.raises t.calls with
    | none => simp [Prog.Meets, backupEnd, hr]
    | some e =>
      by_cases he : e = .resultNotStoredYet
      · subst he
        have hend : backupEnd env (k + 1) t.calls = backupEnd env k (t.calls + 1) := by
          simp [backupEnd, hr]
        simpa only [if_true, hend] using ih hcalled
      · simp only [he, if_false, Prog.Meets]
        cases e <;> simp_all [backupEnd, Missing]

/-- The program raises `RunNotStarted` exactly if `G`, and ends without a session then. -/
def EndsAs {α : Type} (G : Prop) (o : Outcome RepairExc SelfRepairingSession α) : Prop :=
  Prog.Meets False (fun _ _ => ¬ G)
    (fun e t => (e = .runNotStarted ↔ G) ∧ (G → t.session = none)) o

theorem Sound.endsAs {α : Type} {m : Program α} (hm : Sound (fun _ => True) m) {G : Prop}
    (hG : ¬ G) (s : SelfRepairingSession) : EndsAs G (m s) := by
  have h := hm s trivial
  cases hrun : m s with
  | ret a t => exact hG
  | raised e t =>
    rw [hrun] at h
    exact ⟨⟨fun he => absurd he h.2, fun hg => absurd hg hG⟩, fun hg => absurd hg hG⟩
  | hang =>
    rw [hrun] at h
    exact h

theorem endsAs_remote {α : Type} {G : Prop} (hG : ¬ G) (e : CallExc) (t : SelfRepairingSession) :
    EndsAs G (.raised (.remote e) t : Outcome RepairExc SelfRepairingSession α) :=
  ⟨⟨nofun, fun hg => absurd hg hG⟩, fun hg => absurd hg hG⟩

theorem stable_true : Stable fun _ => True where
  same _ _ _ _ _ _ _ := trivial
  adopt _ _ := trivial
  drop _ _ _ _ := trivial
  forget _ _ := trivial

/-- The backup after a new session was created. -/
theorem tryToGetBackupResult_run {s t : SelfRepairingSession} {n : Nat} {old : Bool}
    (h : At s n old t) (hs : s.shell ≠ none) :
    Prog.Meets False (fun _ _ => notFetched env timeout old n = none)
      (fun e u => match notFetched env timeout old n with
        | some n => e = .runNotStarted ∧ At s n old u
        | none => e ≠ .runNotStarted)
      (tryToGetBackupResult env timeout t) := by
  show Prog.Meets False _ _ ((if t.oldWorkdir then _ else _ : Program CommandResult) t)
  rw [h.oldWorkdir]
  cases old with
  | false => exact ⟨rfl, h⟩
  | true =>
    have hloop := getBackedUpResultLoop_run env (tries timeout) h hs
    have hsound := sound_getBackedUpResult env stable_true.toFramed timeout t trivial
    have hend : notFetched env timeout true n = backupEnd env (tries timeout) n := rfl
    rw [hend]
    cases hrun : getBackedUpResult env timeout t with
    | ret result u =>
      rw [getBackedUpResult] at hrun
      rw [hrun] at hloop
      rw [if_pos rfl, getBackedUpResult, Prog.tryExcept_ret hrun]
      exact hloop
    | raised e u =>
      rw [hrun] at hsound
      rw [getBackedUpResult] at hrun
      rw [hrun] at hloop
      rw [if_pos rfl, getBackedUpResult]
      revert hloop
      simp only [Prog.Meets]
      by_cases he : Missing e
      · rw [Prog.tryExcept_caught hrun (if_pos he)]
        cases backupEnd env (tries timeout) n with
        | none => exact fun hloop => absurd he hloop
        | some n' => exact fun hloop => ⟨rfl, hloop.2⟩
      · rw [Prog.tryExcept_uncaught hrun (if_neg he)]
        cases backupEnd env (tries timeout) n with
        | none => exact fun _ => hsound.2
        | some n' => exact fun hloop => absurd hloop.1 he
    | hang =>
      rw [hrun] at hsound
      exact hsound.elim

theorem sessionClose_none {s : SelfRepairingSession} (hs : s.session = none) (o : Option Nat) :
    sessionClose env o s = .raised .attributeError s := by
  have hrestore : restoreDelaybeforesend env s = .raised .attributeError s :=
    Prog.bind_raised (currentSession_none hs)
  exact Prog.bind_raised hrestore

theorem framed_session (x : Option Nat) : Framed fun s => s.session = x where
  same _ _ hs _ hsession _ _ := hsession.trans hs

/-- What is left after the body of the `try`. -/
theorem hungBody_run {s : SelfRepairingSession} (hs : s.session = none) (hshell : s.shell ≠ none) :
    Prog.Settles False (fun t => t = s)
      (do
        tryToCreateNewSession env
        tryToGetBackupResult env timeout : Program CommandResult)
      (fun _ _ => hungEnd env timeout s.oldWorkdir s.calls = none)
      (fun e t => match hungEnd env timeout s.oldWorkdir s.calls with
        | some n => e = .runNotStarted ∧ ∃ old, Created s n old t
        | none => e = .runNotStarted → t.session = none) := by
  rintro s rfl
  have hcreation := tryToCreateNewSession_run env hs
  cases hrun : tryToCreateNewSession env s with
  | ret _ t =>
    rw [hrun] at hcreation
    rw [Prog.bind_ret hrun]
    simp only [Prog.Meets, Creates] at hcreation
    cases hend : creationEnd env s.oldWorkdir s.calls with
    | none =>
      have hhung : hungEnd env timeout s.oldWorkdir s.calls = none := by simp [hungEnd, hend]
      rw [hend] at hcreation
      have hkept := ends_tryToGetBackupResult env (framed_session none) timeout t hcreation
      rw [hhung]
      apply Prog.meets_mono hkept
      · exact fun _ _ _ => rfl
      · exact fun _ _ hu _ => hu
    | some p =>
      have hhung : hungEnd env timeout s.oldWorkdir s.calls = notFetched env timeout p.2 p.1 := by
        simp [hungEnd, hend]
      rw [hend] at hcreation
      have hat : At t p.1 p.2 t := ⟨rfl, rfl, id, hcreation.calls, hcreation.oldWorkdir⟩
      have hbackup := tryToGetBackupResult_run env timeout hat (hcreation.shell hshell)
      rw [hhung]
      apply Prog.meets_mono hbackup
      · exact fun _ _ h => h
      · intro e u h
        cases hfetched : notFetched env timeout p.2 p.1 with
        | none =>
          rw [hfetched] at h
          exact fun he => absurd he h
        | some n =>
          rw [hfetched] at h
          exact ⟨h.1, p.2, h.2.created hcreation⟩
  | raised e t =>
    rw [hrun] at hcreation
    rw [Prog.bind_raised hrun]
    have hhung : hungEnd env timeout s.oldWorkdir s.calls = none := by
      simp [hungEnd, hcreation.1]
    rw [hhung]
    exact fun he => absurd he hcreation.2
  | hang =>
    rw [hrun] at hcreation
    exact hcreation.elim

theorem not_givesUp {old : Bool} {n : Nat} (h : hungEnd env timeout old n = none) :
    ¬ GivesUp env timeout old n := by
  rintro ⟨n', hn, -⟩
  rw [h] at hn
  cases hn

theorem givesUp_iff {old : Bool} {n n' : Nat} (h : hungEnd env timeout old n = some n') :
    GivesUp env timeout old n ↔ (closeEnd env n').1 = none := by
  simp [GivesUp, h]

/-- The `finally` part, after a `RunNotStarted` or something else. -/
theorem sessionClose_endsAs {s t : SelfRepairingSession} {e : RepairExc} (o : Option Nat)
    (h : match hungEnd env timeout s.oldWorkdir s.calls with
      | some n => e = .runNotStarted ∧ ∃ old, Created s n old t
      | none => e = .runNotStarted → t.session = none) :
    Prog.Meets False
      (fun _ u => (e = .runNotStarted ↔ GivesUp env timeout s.oldWorkdir s.calls) ∧
        (GivesUp env timeout s.oldWorkdir s.calls → u.session = none))
      (fun e u => (e = .runNotStarted ↔ GivesUp env timeout s.oldWorkdir s.calls) ∧
        (GivesUp env timeout s.oldWorkdir s.calls → u.session = none))
      (sessionClose env o t) := by
  cases hend : hungEnd env timeout s.oldWorkdir s.calls with
  | none =>
    rw [hend] at h
    have hno := not_givesUp env timeout hend
    have hends := (sound_sessionClose env stable_true o).endsAs hno t
    cases hrun : sessionClose env o t with
    | ret _ u =>
      refine ⟨⟨fun he => ?_, fun hg => absurd hg hno⟩, fun hg => absurd hg hno⟩
      rw [sessionClose_none env (h he)] at hrun
      cases hrun
    | raised e' u =>
      rw [hrun] at hends
      exact hends
    | hang =>
      rw [hrun] at hends
      exact hends
  | some n =>
    rw [hend] at h
    obtain ⟨rfl, old, hcreated⟩ := h
    cases hclose : (closeEnd env n).1 with
    | none =>
      have hg := (givesUp_iff env timeout hend).mpr hclose
      obtain ⟨u, hrun, hu⟩ := sessionClose_returns env hcreated.session hcreated.mem o
        (hcreated.calls ▸ hclose)
      rw [hrun]
      exact ⟨⟨fun _ => hg, fun _ => rfl⟩, fun _ => hu⟩
    | some e =>
      have hno : ¬ GivesUp env timeout s.oldWorkdir s.calls := by
        rw [givesUp_iff env timeout hend, hclose]
        exact Option.some_ne_none e
      obtain ⟨u, hrun, -⟩ := sessionClose_raises env hcreated.session o (hcreated.calls ▸ hclose)
      rw [hrun]
      exact endsAs_remote (α := Unit) hno e u

theorem tryToGetHungRunResult_run {s : SelfRepairingSession} (hs : s.session ≠ none)
    (hshell : s.shell ≠ none) :
    EndsAs (GivesUp env timeout s.oldWorkdir s.calls) (tryToGetHungRunResult env timeout s) := by
  have hbody := hungBody_run env timeout (s := { s with session := none }) rfl hshell
  have hlast : (if s.session.isSome then sessionClose env s.session else pure ()) =
      sessionClose env s.session := if_pos (Option.isSome_iff_ne_none.mpr hs)
  refine Prog.Settles.tryFinally hbody (fun _ t ht => ?_) (fun e t ht => ?_) _ rfl
  · rw [hlast]
    exact (sound_sessionClose env stable_true s.session).endsAs (not_givesUp env timeout ht) t
  · rw [hlast]
    exact sessionClose_endsAs env timeout (s := { s with session := none }) s.session ht

/-! ## An attempt -/

theorem not_notStarted {s : SelfRepairingSession} {e : Option CallExc}
    (h : env.raises s.calls = e) (he : e ≠ some .pythonRunNotStarted) :
    ¬ NotStarted env timeout s := fun hn => he (h.symm.trans hn.2.2.1)

theorem runWithBackup_run {s : SelfRepairingSession} (hs : s.session ≠ none) :
    EndsAs (NotStarted env timeout s) (runWithBackup env timeout s) := by
  unfold runWithBackup
  cases hshell : s.shell with
  | none =>
    have hrun : runnerRun env s = .raised .attributeError { s with runId := s.runId + 1 } := by
      simp [runnerRun, runnerShell, Prog.bind_run, hshell]
    have hno : ¬ NotStarted env timeout s := fun hn => hn.2.1 hshell
    rw [Prog.tryExcept_uncaught hrun rfl]
    exact ⟨⟨fun he => absurd he (by simp), fun hn => absurd hn hno⟩, fun hn => absurd hn hno⟩
  | some x =>
    cases hr : env.raises s.calls with
    | none =>
      have hrun : ∃ t, runnerRun env s = .ret (env.result s.calls) t := by
        simp [runnerRun, runnerShell, Prog.bind_run, hshell, remote, hr]
      obtain ⟨t, hrun⟩ := hrun
      rw [Prog.tryExcept_ret hrun]
      exact not_notStarted env timeout hr (by simp)
    | some e =>
      have hrun : runnerRun env s = .raised (.remote e) { s with runId := s.runId + 1 }.called := by
        simp [runnerRun, runnerShell, Prog.bind_run, hshell, remote, hr, called]
      by_cases houtput : e = .unexpectedTerminalOutput
      · subst houtput
        rw [Prog.tryExcept_caught hrun (if_pos rfl)]
        have hsound := (sound_tryToCreateNewSession env stable_true).bind fun _ =>
          sound_getBackedUpResult env stable_true.toFramed timeout
        exact hsound.endsAs (not_notStarted env timeout hr (by simp)) _
      · by_cases hhung : e = .pythonRunNotStarted
        · subst hhung
          rw [Prog.tryExcept_caught hrun rfl]
          have hends := tryToGetHungRunResult_run env timeout
            (s := { s with runId := s.runId + 1 }.called) hs (by simp [called, hshell])
          have hiff : GivesUp env timeout s.oldWorkdir (s.calls + 1) ↔ NotStarted env timeout s :=
            ⟨fun h => ⟨hs, by simp [hshell], hr, h⟩, fun h => h.2.2.2⟩
          rw [← hiff]
          exact hends
        · rw [Prog.tryExcept_uncaught hrun (by simp [houtput, hhung])]
          exact endsAs_remote (not_notStarted env timeout hr (by simp [hhung])) e _

theorem verifySessionAndRun_run (s : SelfRepairingSession) :
    EndsAs (NotStarted env timeout s) (verifySessionAndRun env timeout s) := by
  unfold verifySessionAndRun
  by_cases hs : s.session = none
  · have hrun : verifySession s = .raised (.remote .sessionNotInitialized) s := by
      simp [verifySession, Prog.bind_run, hs]
    rw [Prog.bind_raised hrun]
    exact endsAs_remote (fun hn => hn.1 hs) _ s
  · have hrun : verifySession s = .ret () s := by
      simp [verifySession, Prog.bind_run, Option.isSome_iff_ne_none, hs]
    rw [Prog.bind_ret hrun]
    exact runWithBackup_run env timeout hs

theorem stable_maxRetries (maxRetries : Int) : Stable fun s => s.maxRetries = maxRetries where
  same _ _ hs h _ _ _ := h.trans hs
  adopt _ hs := hs
  drop _ _ hs _ := hs
  forget _ hs := hs

theorem attempt_of_ret {s t : SelfRepairingSession} {result : CommandResult}
    (hrun : verifySessionAndRun env timeout s = .ret result t) (retryCount : Nat) :
    attempt env timeout retryCount s = .ret (some result) t := by
  unfold attempt
  apply Prog.tryExcept_ret
  rw [Prog.bind_ret hrun]
  rfl

/-- Whatever its number, another attempt follows. -/
theorem attempt_of_notStarted {s : SelfRepairingSession} (h : NotStarted env timeout s)
    (retryCount : Nat) :
    ∃ t, attempt env timeout retryCount s = .ret none t ∧ t.session = none := by
  have hends := verifySessionAndRun_run env timeout s
  cases hrun : verifySessionAndRun env timeout s with
  | ret result t =>
    rw [hrun] at hends
    exact absurd h hends
  | raised e t =>
    rw [hrun] at hends
    cases hends.1.mpr h
    exact ⟨t, Prog.tryExcept_caught (Prog.bind_raised hrun) rfl, hends.2 h⟩
  | hang =>
    rw [hrun] at hends
    exact hends.elim

/-- From the attempt `max_retries` on no new session is tried. -/
theorem handleSessionNotWorking_last {s : SelfRepairingSession} {retryCount : Nat}
    (hlast : s.maxRetries ≤ retryCount) :
    handleSessionNotWorking env retryCount s = .raised .failedToCreateSession s := by
  show (if (retryCount : Int) < s.maxRetries then _ else _ : Program Unit) s = _
  rw [if_neg (not_lt.mpr hlast)]
  rfl

/-- From the attempt `max_retries` on, another one follows for no other reason. -/
theorem notStarted_of_attempt {s t : SelfRepairingSession} {retryCount : Nat}
    (h : attempt env timeout retryCount s = .ret none t) (hlast : s.maxRetries ≤ retryCount) :
    NotStarted env timeout s := by
  have hends := verifySessionAndRun_run env timeout s
  have hkept := ends_verifySessionAndRun env (stable_maxRetries s.maxRetries) timeout s rfl
  cases hrun : verifySessionAndRun env timeout s with
  | ret result u =>
    rw [attempt_of_ret env timeout hrun] at h
    cases h
  | raised e u =>
    rw [hrun] at hends hkept
    have hlast : u.maxRetries ≤ retryCount := (show u.maxRetries = s.maxRetries from hkept) ▸ hlast
    rw [attempt] at h
    by_cases hnone : e = .runNotStarted
    · exact hends.1.mp hnone
    by_cases hinitialized : e = .remote .sessionNotInitialized
    · rw [Prog.tryExcept_caught (Prog.bind_raised hrun) (if_pos hinitialized),
        Prog.bind_raised (handleSessionNotWorking_last env hlast)] at h
      cases h
    by_cases htimeout : e = .remote .timeoutError
    · rw [Prog.tryExcept_caught (p := stopRun env >>= fun _ => Prog.raise e)
        (Prog.bind_raised hrun) (by simp [htimeout])] at h
      obtain ⟨_, v, -, hraise⟩ := Prog.ret_of_bind h
      cases hraise
    · rw [Prog.tryExcept_uncaught (Prog.bind_raised hrun)
        (by simp [hnone, hinitialized, htimeout])] at h
      cases h
  | hang =>
    rw [hrun] at hends
    exact hends.elim

/-- Without a session the attempts are over. -/
theorem attempt_without_session {s : SelfRepairingSession} {retryCount : Nat}
    (hs : s.session = none) (hlast : s.maxRetries ≤ retryCount) :
    attempt env timeout retryCount s = .raised .failedToCreateSession s := by
  have hverify : verifySession s = .raised (.remote .sessionNotInitialized) s := by
    simp [verifySession, Prog.bind_run, hs]
  have hrun : verifySessionAndRun env timeout s = .raised (.remote .sessionNotInitialized) s :=
    Prog.bind_raised hverify
  unfold attempt
  rw [Prog.tryExcept_caught (Prog.bind_raised hrun) (if_pos rfl),
    Prog.bind_raised (handleSessionNotWorking_last env hlast)]

/-! ## The rounds of the loop -/

/-- The state in which the attempt `k` starts, counted from 0, if it does. -/
def startsAt (s : SelfRepairingSession) : Nat → Option SelfRepairingSession
  | 0 => some s
  | k + 1 =>
    (startsAt s k).bind fun t =>
      match attempt env timeout k t with
      | .ret none u => some u
      | .ret (some _) _ | .raised .. | .hang => none

/-- `run_no_validate` returns or raises within `max_retries + 1` attempts. -/
def Stops (s : SelfRepairingSession) : Prop :=
  runNoValidate env timeout (s.maxRetries + 1).toNat s ≠ .hang

theorem startsAt_succ {s u : SelfRepairingSession} {k : Nat} :
    startsAt env timeout s (k + 1) = some u ↔
      ∃ t, startsAt env timeout s k = some t ∧ attempt env timeout k t = .ret none u := by
  rw [startsAt, Option.bind_eq_some_iff]
  apply exists_congr
  intro t
  apply and_congr_right
  intro _
  split <;> simp_all

/-- Once the attempts are over, no other one starts. -/
theorem startsAt_of_le {s u : SelfRepairingSession} {j k : Nat} (hjk : j ≤ k)
    (h : startsAt env timeout s k = some u) : ∃ t, startsAt env timeout s j = some t := by
  induction hjk using Nat.decreasingInduction with
  | self => exact ⟨u, h⟩
  | of_succ i hi ih =>
    obtain ⟨t, ht⟩ := ih
    obtain ⟨t', ht', -⟩ := (startsAt_succ env timeout).mp ht
    exact ⟨t', ht'⟩

/-- What an attempt keeps holds whenever one starts. -/
theorem startsAt_keeps {I : SelfRepairingSession → Prop} (h : Stable I) {s : SelfRepairingSession}
    (hs : I s) {k : Nat} {t : SelfRepairingSession} (ht : startsAt env timeout s k = some t) :
    I t := by
  induction k generalizing t with
  | zero =>
    cases ht
    exact hs
  | succ k ih =>
    obtain ⟨u, hu, hrun⟩ := (startsAt_succ env timeout).mp ht
    have hends := ends_attempt env h timeout k u (ih hu)
    rw [hrun] at hends
    exact hends

/-- The loop is not over within these rounds, exactly if still another attempt starts. -/
theorem runNoValidateFrom_hang {s : SelfRepairingSession} (rounds k : Nat)
    {t : SelfRepairingSession} (ht : startsAt env timeout s k = some t) :
    runNoValidateFrom env timeout rounds k t = .hang ↔
      ∃ u, startsAt env timeout s (k + rounds) = some u := by
  induction rounds generalizing k t with
  | zero => exact ⟨fun _ => ⟨t, ht⟩, fun _ => rfl⟩
  | succ rounds ih =>
    have hover {o : Outcome RepairExc SelfRepairingSession (Option CommandResult)}
        (hrun : attempt env timeout k t = o) (hne : ∀ u, o ≠ .ret none u) :
        ¬ ∃ u, startsAt env timeout s (k + (rounds + 1)) = some u := by
      rintro ⟨u, hu⟩
      obtain ⟨v, hv⟩ := startsAt_of_le env timeout (by omega : k + 1 ≤ k + (rounds + 1)) hu
      obtain ⟨t', ht', hrun'⟩ := (startsAt_succ env timeout).mp hv
      rw [ht] at ht'
      cases ht'
      exact hne v (hrun.symm.trans hrun')
    rw [runNoValidateFrom]
    cases hrun : attempt env timeout k t with
    | ret result u =>
      rw [Prog.bind_ret hrun]
      cases result with
      | none =>
        have hu := (startsAt_succ env timeout).mpr ⟨t, ht, hrun⟩
        have hrest := ih (k + 1) hu
        rw [Nat.add_assoc, Nat.add_comm 1] at hrest
        exact hrest
      | some result => exact ⟨nofun, fun h => absurd h (hover hrun nofun)⟩
    | raised e u =>
      rw [Prog.bind_raised hrun]
      exact ⟨nofun, fun h => absurd h (hover hrun nofun)⟩
    | hang =>
      have hends := ends_attempt env stable_true timeout k t trivial
      rw [hrun] at hends
      exact hends.elim

/-- **The last attempt must not end in `RunNotStarted`.** -/
theorem stops_iff (s : SelfRepairingSession) :
    Stops env timeout s ↔ 0 ≤ s.maxRetries ∧
      ∀ t, startsAt env timeout s s.maxRetries.toNat = some t → ¬ NotStarted env timeout t := by
  by_cases hpos : 0 ≤ s.maxRetries
  · have hrounds : (s.maxRetries + 1).toNat = s.maxRetries.toNat + 1 := by omega
    have hhang := runNoValidateFrom_hang env timeout (s := s) (s.maxRetries.toNat + 1) 0 rfl
    rw [Stops, runNoValidate, hrounds, Ne, hhang, Nat.zero_add]
    constructor
    · intro h
      refine ⟨hpos, fun t ht hn => h ?_⟩
      obtain ⟨u, hu, -⟩ := attempt_of_notStarted env timeout hn s.maxRetries.toNat
      exact ⟨u, (startsAt_succ env timeout).mpr ⟨t, ht, hu⟩⟩
    · rintro ⟨-, h⟩ ⟨u, hu⟩
      obtain ⟨t, ht, hrun⟩ := (startsAt_succ env timeout).mp hu
      have hmax : t.maxRetries = s.maxRetries :=
        startsAt_keeps env timeout (stable_maxRetries s.maxRetries) rfl ht
      exact h t ht (notStarted_of_attempt env timeout hrun (by omega))
  · have hrounds : (s.maxRetries + 1).toNat = 0 := by omega
    rw [Stops, runNoValidate, hrounds]
    exact ⟨fun h => absurd rfl h, fun h => absurd h.1 hpos⟩

/-- One attempt more, and the loop is over: there is no session then. -/
theorem stops_after_one_more (s : SelfRepairingSession) :
    runNoValidate env timeout (s.maxRetries.toNat + 2) s ≠ .hang := by
  have hhang := runNoValidateFrom_hang env timeout (s := s) (s.maxRetries.toNat + 2) 0 rfl
  rw [runNoValidate, Ne, hhang, Nat.zero_add]
  rintro ⟨v, hv⟩
  obtain ⟨u, hu, hrun⟩ := (startsAt_succ env timeout).mp hv
  obtain ⟨t, ht, hrun'⟩ := (startsAt_succ env timeout).mp hu
  have hmax : t.maxRetries = s.maxRetries :=
    startsAt_keeps env timeout (stable_maxRetries s.maxRetries) rfl ht
  have hmax' : u.maxRetries = s.maxRetries :=
    startsAt_keeps env timeout (stable_maxRetries s.maxRetries) rfl hu
  have hnotStarted := notStarted_of_attempt env timeout hrun' (by omega)
  obtain ⟨u', hu', hnone⟩ := attempt_of_notStarted env timeout hnotStarted s.maxRetries.toNat
  rw [hrun'] at hu'
  cases hu'
  rw [attempt_without_session env timeout hnone (by omega)] at hrun
  cases hrun

end

/-- The first run hangs, and both sessions made need the module to be transferred: the
working directory is new, and lost with a restart of the node. -/
def hungRun : Environment where
  raises n :=
    if n = 7 then some .pythonRunNotStarted
    else if n = 4 ∨ n = 12 then some .unexpectedOutputInPython
    else none
  result _ := ⟨"0", [], []⟩
  isHung _ := false

/-- With `max_retries = 1` there is a third attempt. -/
theorem third_attempt :
    ¬ Stops hungRun (-1) (new 1 fun _ => 0) ∧
      ∃ s, runNoValidate hungRun (-1) 3 (new 1 fun _ => 0) = .raised .failedToCreateSession s := by
  constructor
  · intro h
    exact h rfl
  · exact ⟨_, rfl⟩

end SelfRepairingSession

end InteractiveSessions
