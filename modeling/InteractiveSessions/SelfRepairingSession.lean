import InteractiveSessions.Lib.Triple
import Mathlib.Data.List.DropRight

/-!
# `SelfRepairingSession`: commands are run again in a new session

`run_no_validate` makes attempts until one returns or raises something that is not
handled.  The runner and the sessions are on the other side of a terminal: every
call there may raise, in any pattern.
-/

namespace InteractiveSessions

/-- What the calls of the session factory, the sessions and the runner raise. -/
inductive CallExc where
  /-- the `TimeoutError` of the shells -/
  | timeoutError
  /-- `pexpect.TIMEOUT` -/
  | pexpectTimeout
  | sessionNotInitialized
  | pythonRunNotStarted
  | unexpectedTerminalOutput
  | unexpectedOutputInPython
  | mismatchInRunId
  | backupNotFound
  | resultNotStoredYet
  | other
  deriving DecidableEq, Repr

inductive RepairExc where
  | remote (e : CallExc)
  | runNotStarted
  | failedToCreateSession
  | restoreTimedOut
  /-- a method of `None` -/
  | attributeError
  /-- `remove` of what is not in the set -/
  | keyError
  deriving DecidableEq, Repr

structure CommandResult where
  status : String
  out : List Char
  err : List Char
  deriving DecidableEq, Repr

/-- The other side: what each remote call raises, and what it returns if it is a run
or asks whether the terminal hangs. -/
structure Environment where
  raises : Nat → Option CallExc
  result : Nat → CommandResult
  isHung : Nat → Bool

/-- The fields that change, and of the runner its shell and run id.  Sessions are
numbered as they are made; `closed` are those whose `close` returned, `calls` counts
the remote calls. -/
structure SelfRepairingSession where
  maxRetries : Int
  session : Option Nat
  sessions : Finset Nat
  savedDelaybeforesend : ℚ
  oldWorkdir : Bool
  shell : Option Nat
  runId : Nat
  delaybeforesend : Nat → ℚ
  created : Nat
  closed : Finset Nat
  calls : Nat

namespace SelfRepairingSession

/-- The state after `__init__`. -/
def new (maxRetries : Int) (delaybeforesend : Nat → ℚ) : SelfRepairingSession :=
  ⟨maxRetries, none, ∅, 1 / 20, false, none, 0, delaybeforesend, 0, ∅, 0⟩

def called (s : SelfRepairingSession) : SelfRepairingSession := { s with calls := s.calls + 1 }

abbrev Program (α : Type) : Type := Prog RepairExc SelfRepairingSession α

/-- A method of `self._session`. -/
def currentSession : Program Nat := do
  let session ← Prog.gets fun s : SelfRepairingSession => s.session
  match session with
  | some x => pure x
  | none => Prog.raise .attributeError

/-- A method of the `_shell` of the runner. -/
def runnerShell : Program Nat := do
  let shell ← Prog.gets fun s : SelfRepairingSession => s.shell
  match shell with
  | some x => pure x
  | none => Prog.raise .attributeError

section

variable (env : Environment)

/-- A remote call; its number. -/
def remote : Program Nat := fun s =>
  match env.raises s.calls with
  | some e => .raised (.remote e) s.called
  | none => .ret s.calls s.called

/-! ## `LocalShellSubprocess` -/

def runnerRun : Program CommandResult := do
  Prog.modify fun s => { s with runId := s.runId + 1 }
  let _ ← runnerShell
  let call ← remote env
  pure (env.result call)

/-- `stop_and_warn_if_running`, when nothing is running: a hung shell is stopped, and
what it returned is read. -/
def stopAndWarnIfRunning : Program Unit := do
  let _ ← runnerShell
  let call ← remote env
  if env.isHung call then do
    let _ ← remote env
    Prog.tryExcept
      (do
        let _ ← remote env
        pure ())
      fun e => if e = .remote .unexpectedTerminalOutput then some (pure ()) else none
  else pure ()

/-- The loop of `get_backed_up_result`. -/
def getBackedUpResultLoop : Nat → Program CommandResult
  | 0 => Prog.raise .restoreTimedOut
  | tries + 1 =>
    Prog.tryExcept
      (do
        let _ ← runnerShell
        let call ← remote env
        pure (env.result call))
      fun e => if e = .remote .resultNotStoredYet then some (getBackedUpResultLoop tries) else none

/-- `_get_expect_timeout` -/
def getExpectTimeout (timeout : ℚ) : ℚ := if 0 < timeout then timeout + 1 else timeout

/-- `int(max_retries)` of `get_backed_up_result` -/
def tries (timeout : ℚ) : Nat :=
  if 1 < getExpectTimeout timeout then (getExpectTimeout timeout).floor.toNat else 1

def getBackedUpResult (timeout : ℚ) : Program CommandResult :=
  getBackedUpResultLoop env (tries timeout)

/-! ## Sessions -/

def clearDelaybeforesend : Program Unit := do
  let x ← currentSession
  let _ ← remote env
  Prog.modify fun s =>
    { s with
      savedDelaybeforesend := s.delaybeforesend x
      delaybeforesend := Function.update s.delaybeforesend x 0 }

def restoreDelaybeforesend : Program Unit := do
  let x ← currentSession
  let _ ← remote env
  Prog.modify fun s =>
    { s with delaybeforesend := Function.update s.delaybeforesend x s.savedDelaybeforesend }

/-- `_sessions.remove` and `_session = None` -/
def drop (x : Nat) (s : SelfRepairingSession) : SelfRepairingSession :=
  { s with sessions := s.sessions.erase x, session := none }

/-- `_session_close`.  Its argument is only logged. -/
def sessionClose (_session : Option Nat) : Program Unit := do
  restoreDelaybeforesend env
  let x ← currentSession
  let _ ← remote env
  Prog.modify fun s => { s with closed := insert x s.closed }
  let sessions ← Prog.gets fun s : SelfRepairingSession => s.sessions
  if x ∈ sessions then Prog.modify (drop x) else Prog.raise .keyError

def sendImportCommand : Program Unit := do
  let _ ← remote env
  pure ()

def transferTextFile : Program Unit := do
  let _ ← remote env
  pure ()

def importInShell : Program Unit :=
  Prog.tryExcept
    (do
      sendImportCommand env
      Prog.modify fun s => { s with oldWorkdir := true })
    fun e =>
      if e = .remote .unexpectedOutputInPython then some do
        Prog.modify fun s => { s with oldWorkdir := false }
        transferTextFile env
        sendImportCommand env
      else none

/-- `setup_working_directory`, `push` and so on of the current session -/
def sessionCall : Program Unit := do
  let _ ← currentSession
  let _ ← remote env
  pure ()

def prepareSession : Program Unit := do
  clearDelaybeforesend env
  sessionCall env
  sessionCall env
  let x ← currentSession
  importInShell env
  Prog.modify fun s => { s with shell := some x }

/-- The assignment of the new session. -/
def adopt (s : SelfRepairingSession) : SelfRepairingSession :=
  { s with
    session := some s.created
    sessions := insert s.created s.sessions
    created := s.created + 1 }

def createSession : Program Unit := do
  let _ ← remote env
  Prog.modify adopt
  prepareSession env

/-- `if self._session: …` -/
def ifSession (body : Program Unit) : Program Unit := do
  let session ← Prog.gets fun s : SelfRepairingSession => s.session
  if session.isSome then body else pure ()

def createNewSession : Program Unit :=
  Prog.tryExcept
    (do
      ifSession do
        stopAndWarnIfRunning env
        sessionClose env none
      createSession env)
    fun e => some do
      ifSession (sessionClose env none)
      Prog.raise e

def isTimeout (e : RepairExc) : Bool :=
  e = .remote .pexpectTimeout || e = .remote .timeoutError

/-- After a timeout it sleeps. -/
def tryToCreateNewSession : Program Unit :=
  Prog.tryExcept (createNewSession env) fun e => if isTimeout e then some (pure ()) else none

/-! ## Attempts -/

section

variable (timeout : ℚ)

def tryToGetBackupResult : Program CommandResult := do
  let oldWorkdir ← Prog.gets fun s : SelfRepairingSession => s.oldWorkdir
  if oldWorkdir then
    Prog.tryExcept (getBackedUpResult env timeout) fun e =>
      if e = .remote .mismatchInRunId ∨ e = .remote .backupNotFound then
        some (Prog.raise .runNotStarted)
      else none
  else Prog.raise .runNotStarted

def tryToGetHungRunResult : Program CommandResult := do
  let originalSession ← Prog.gets fun s : SelfRepairingSession => s.session
  Prog.modify fun s => { s with session := none }
  Prog.tryFinally
    (do
      tryToCreateNewSession env
      tryToGetBackupResult env timeout)
    (if originalSession.isSome then sessionClose env originalSession else pure ())

def runWithBackup : Program CommandResult :=
  Prog.tryExcept (runnerRun env) fun e =>
    if e = .remote .unexpectedTerminalOutput then some do
      tryToCreateNewSession env
      getBackedUpResult env timeout
    else if e = .remote .pythonRunNotStarted then some (tryToGetHungRunResult env timeout)
    else none

def verifySession : Program Unit := do
  let session ← Prog.gets fun s : SelfRepairingSession => s.session
  if session.isSome then pure () else Prog.raise (.remote .sessionNotInitialized)

def verifySessionAndRun : Program CommandResult := do
  verifySession
  runWithBackup env timeout

def handleSessionNotWorking (retryCount : Nat) : Program Unit := do
  let maxRetries ← Prog.gets fun s : SelfRepairingSession => s.maxRetries
  if (retryCount : Int) < maxRetries then tryToCreateNewSession env
  else Prog.raise .failedToCreateSession

/-- `stop_run` of the current shell -/
def stopRun : Program Unit := sessionCall env

/-- One round of the loop of `run_no_validate`, within `_handle_run_exceptions`: the
result, or `none` when the next round follows. -/
def attempt (retryCount : Nat) : Program (Option CommandResult) :=
  Prog.tryExcept
    (do
      let result ← verifySessionAndRun env timeout
      pure (some result))
    fun e =>
      if e = .remote .sessionNotInitialized then some do
        handleSessionNotWorking env retryCount
        pure none
      else if e = .runNotStarted then some (pure none)
      else if e = .remote .timeoutError then some do
        stopRun env
        Prog.raise e
      else none

/-- `rstrip('\r\n')` -/
def rstrip (l : List Char) : List Char := l.rdropWhile fun c => c = '\r' || c = '\n'

def stripFromRight (result : CommandResult) : CommandResult :=
  ⟨result.status, rstrip result.out, rstrip result.err⟩

/-- The loop of `run_no_validate` from the round `retryCount` on, with so many rounds
left. -/
def runNoValidateFrom : Nat → Nat → Program CommandResult
  | 0, _ => Prog.hang
  | rounds + 1, retryCount => do
    let result ← attempt env timeout retryCount
    match result with
    | some result => pure (stripFromRight result)
    | none => runNoValidateFrom rounds (retryCount + 1)

def runNoValidate (rounds : Nat) : Program CommandResult := runNoValidateFrom env timeout rounds 0

def reset : Program Unit := Prog.tryExcept (createNewSession env) fun _ => some (pure ())

end

end

/-! ## What the programs keep -/

/-- What depends on the sessions only. -/
structure Framed (I : SelfRepairingSession → Prop) : Prop where
  same : ∀ s t, I s → t.maxRetries = s.maxRetries → t.session = s.session →
    t.sessions = s.sessions → t.created = s.created → I t

/-- It is kept when a session is made, dropped or forgotten. -/
structure Stable (I : SelfRepairingSession → Prop) : Prop extends Framed I where
  adopt : ∀ s, I s → I s.adopt
  drop : ∀ s x, I s → s.session = some x → I (s.drop x)
  forget : ∀ s, I s → I { s with session := none }

/-- The program ends, keeps `I` and does not raise `RunNotStarted`. -/
def Sound {α : Type} (I : SelfRepairingSession → Prop) (m : Program α) : Prop :=
  Prog.Settles False I m (fun _ => I) fun e s => I s ∧ e ≠ .runNotStarted

section

variable {I J : SelfRepairingSession → Prop} {α β : Type} {m : Program α}

theorem sound_pure {a : α} : Sound I (pure a : Program α) := fun _ hs => hs

theorem sound_raise {e : RepairExc} (h : e ≠ .runNotStarted) : Sound I (Prog.raise e : Program α) :=
  fun _ hs => ⟨hs, h⟩

theorem sound_modify {f : SelfRepairingSession → SelfRepairingSession} (h : ∀ s, I s → I (f s)) :
    Sound I (Prog.modify f) := h

theorem Sound.bind {f : α → Program β} (hm : Sound I m) (hf : ∀ a, Sound I (f a)) :
    Sound I (m >>= f) := Prog.Settles.bind hm hf

theorem sound_gets_bind {f : SelfRepairingSession → β} {g : β → Program α}
    (h : ∀ b, Sound I (g b)) : Sound I (Prog.gets f >>= g) := fun s hs => h (f s) s hs

theorem Sound.tryExcept {handler : RepairExc → Option (Program α)} (hm : Sound I m)
    (hh : ∀ e p, e ≠ .runNotStarted → handler e = some p → Sound I p) :
    Sound I (Prog.tryExcept m handler) := by
  apply Prog.Settles.tryExcept hm
  · exact fun e p hp s hs => hh e p hs.2 hp s hs.1
  · exact fun e s _ hs => hs

theorem sound_ite {c : Prop} [Decidable c] {n : Program α} (hm : c → Sound I m)
    (hn : ¬ c → Sound I n) : Sound I (if c then m else n) := by
  split
  · next h => exact hm h
  · next h => exact hn h

theorem Sound.ifSession {body : Program Unit} (h : Sound I body) : Sound I (ifSession body) :=
  sound_gets_bind fun _ => sound_ite (fun _ => h) fun _ => sound_pure

/-- What else of the state changes. -/
theorem sound_change (h : Framed I) {f : SelfRepairingSession → SelfRepairingSession}
    (hf : ∀ s, (f s).maxRetries = s.maxRetries ∧ (f s).session = s.session ∧
      (f s).sessions = s.sessions ∧ (f s).created = s.created) : Sound I (Prog.modify f) :=
  fun s hs => h.same s _ hs (hf s).1 (hf s).2.1 (hf s).2.2.1 (hf s).2.2.2

theorem sound_currentSession : Sound I currentSession := by
  apply sound_gets_bind
  intro session
  cases session with
  | none => exact sound_raise nofun
  | some x => exact sound_pure

theorem sound_runnerShell : Sound I runnerShell := by
  apply sound_gets_bind
  intro shell
  cases shell with
  | none => exact sound_raise nofun
  | some x => exact sound_pure

variable (env : Environment)

theorem sound_remote (h : Framed I) : Sound I (remote env) := by
  intro s hs
  have hcalled : I s.called := h.same s _ hs rfl rfl rfl rfl
  unfold remote
  split
  · exact ⟨hcalled, nofun⟩
  · exact hcalled

theorem sound_runnerRun (h : Framed I) : Sound I (runnerRun env) := by
  refine Sound.bind (sound_change h fun _ => ⟨rfl, rfl, rfl, rfl⟩) fun _ => ?_
  apply sound_runnerShell.bind
  intro _
  exact (sound_remote env h).bind fun _ => sound_pure

theorem sound_stopAndWarnIfRunning (h : Framed I) : Sound I (stopAndWarnIfRunning env) := by
  apply sound_runnerShell.bind
  intro _
  apply (sound_remote env h).bind
  intro call
  apply sound_ite
  · intro _
    apply (sound_remote env h).bind
    intro _
    apply Sound.tryExcept ((sound_remote env h).bind fun _ => sound_pure)
    intro e p _ hp
    split at hp
    · cases hp
      exact sound_pure
    · cases hp
  · exact fun _ => sound_pure

theorem sound_getBackedUpResult (h : Framed I) (timeout : ℚ) :
    Sound I (getBackedUpResult env timeout) := by
  unfold getBackedUpResult
  induction tries timeout with
  | zero => exact sound_raise nofun
  | succ n ih =>
    apply Sound.tryExcept
    · apply sound_runnerShell.bind
      intro _
      exact (sound_remote env h).bind fun _ => sound_pure
    · intro e p _ hp
      split at hp
      · cases hp
        exact ih
      · cases hp

theorem sound_sessionCall (h : Framed I) : Sound I (sessionCall env) := by
  apply sound_currentSession.bind
  intro _
  exact (sound_remote env h).bind fun _ => sound_pure

theorem sound_restoreDelaybeforesend (h : Framed I) : Sound I (restoreDelaybeforesend env) := by
  apply sound_currentSession.bind
  intro _
  apply (sound_remote env h).bind
  intro _
  exact sound_change h fun _ => ⟨rfl, rfl, rfl, rfl⟩

/-- `_session_close` drops the session that is current after `restore`. -/
theorem sound_sessionClose (h : Stable I) (o : Option Nat) : Sound I (sessionClose env o) := by
  apply (sound_restoreDelaybeforesend env h.toFramed).bind
  intro _ s hs
  cases hx : s.session with
  | none =>
    have hrun : currentSession s = .raised .attributeError s := by
      simp [currentSession, Prog.bind_run, hx]
    simp only [Prog.bind_raised hrun]
    exact ⟨hs, nofun⟩
  | some x =>
    have hrun : currentSession s = .ret x s := by
      simp [currentSession, Prog.bind_run, hx]
    rw [Prog.bind_ret hrun]
    have hcalled : I s.called := h.same s _ hs rfl rfl rfl rfl
    cases hr : env.raises s.calls with
    | some e =>
      rw [Prog.bind_raised (by rw [remote, hr])]
      exact ⟨hcalled, nofun⟩
    | none =>
      rw [Prog.bind_ret (by rw [remote, hr])]
      have hclosed : I { s.called with closed := insert x s.called.closed } :=
        h.same _ _ hcalled rfl rfl rfl rfl
      by_cases hmem : x ∈ s.sessions
      · simpa [Prog.bind_run, called, hmem, Prog.Meets] using h.drop _ x hclosed hx
      · simpa [Prog.bind_run, called, hmem, Prog.Meets] using hclosed

theorem sound_prepareSession (h : Framed I) : Sound I (prepareSession env) := by
  have himport : Sound I (sendImportCommand env) := (sound_remote env h).bind fun _ => sound_pure
  have htransfer : Sound I (transferTextFile env) := (sound_remote env h).bind fun _ => sound_pure
  apply Sound.bind
  · apply sound_currentSession.bind
    intro _
    apply (sound_remote env h).bind
    intro _
    exact sound_change h fun _ => ⟨rfl, rfl, rfl, rfl⟩
  intro _
  apply (sound_sessionCall env h).bind
  intro _
  apply (sound_sessionCall env h).bind
  intro _
  apply sound_currentSession.bind
  intro x
  apply Sound.bind
  · apply Sound.tryExcept
    · apply himport.bind
      intro _
      exact sound_change h fun _ => ⟨rfl, rfl, rfl, rfl⟩
    · intro e p _ hp
      split at hp
      · cases hp
        refine Sound.bind (sound_change h fun _ => ⟨rfl, rfl, rfl, rfl⟩) fun _ => ?_
        exact htransfer.bind fun _ => himport
      · cases hp
  intro _
  exact sound_change h fun _ => ⟨rfl, rfl, rfl, rfl⟩

theorem sound_createNewSession (h : Stable I) : Sound I (createNewSession env) := by
  apply Sound.tryExcept
  · apply Sound.bind
    · apply Sound.ifSession
      exact (sound_stopAndWarnIfRunning env h.toFramed).bind fun _ => sound_sessionClose env h none
    intro _
    apply (sound_remote env h.toFramed).bind
    intro _
    exact Sound.bind (sound_modify h.adopt) fun _ => sound_prepareSession env h.toFramed
  · intro e p he hp
    cases hp
    exact (sound_sessionClose env h none).ifSession.bind fun _ => sound_raise he

theorem sound_tryToCreateNewSession (h : Stable I) : Sound I (tryToCreateNewSession env) := by
  apply Sound.tryExcept (sound_createNewSession env h)
  intro e p _ hp
  split at hp
  · cases hp
    exact sound_pure
  · cases hp

/-- The program ends and keeps `I`. -/
def Ends {α : Type} (I : SelfRepairingSession → Prop) (m : Program α) : Prop :=
  Prog.Settles False I m (fun _ => I) fun _ => I

theorem Sound.ends (h : Sound I m) : Ends I m := by
  apply Prog.Settles.mono h
  · exact fun s hs => hs
  · exact fun a s hs => hs
  · exact fun e s hs => hs.1

theorem ends_tryToGetBackupResult (h : Framed I) (timeout : ℚ) :
    Ends I (tryToGetBackupResult env timeout) := by
  intro s hs
  show Prog.Meets False _ _ ((if s.oldWorkdir then _ else _ : Program CommandResult) s)
  split
  · apply Prog.Settles.tryExcept (sound_getBackedUpResult env h timeout) _ _ s hs
    · intro e p hp s hs
      split at hp
      · cases hp
        exact hs.1
      · cases hp
    · exact fun e s _ hs => hs.1
  · exact hs

/-- The original session is forgotten before anything else. -/
theorem meets_tryToGetHungRunResult (h : Stable I) (timeout : ℚ) {s : SelfRepairingSession}
    (hs : I { s with session := none }) :
    Prog.Meets False (fun _ => I) (fun _ => I) (tryToGetHungRunResult env timeout s) := by
  have hbody : Ends I (do
      tryToCreateNewSession env
      tryToGetBackupResult env timeout) :=
    (sound_tryToCreateNewSession env h).ends.bind fun _ =>
      ends_tryToGetBackupResult env h.toFramed timeout
  have hlast : Ends I (if s.session.isSome then sessionClose env s.session else pure ()) := by
    split
    · exact (sound_sessionClose env h _).ends
    · exact fun _ hs => hs
  exact Prog.Settles.tryFinally hbody (fun _ => hlast) (fun _ => hlast) _ hs

theorem ends_runWithBackup (h : Stable I) (timeout : ℚ) : Ends I (runWithBackup env timeout) := by
  apply Prog.Settles.tryExcept (sound_runnerRun env h.toFramed).ends
  · intro e p hp
    split at hp
    · cases hp
      exact ((sound_tryToCreateNewSession env h).bind fun _ =>
        sound_getBackedUpResult env h.toFramed timeout).ends
    · split at hp
      · cases hp
        exact fun s hs => meets_tryToGetHungRunResult env h timeout (h.forget s hs)
      · cases hp
  · exact fun e s _ hs => hs

theorem ends_verifySessionAndRun (h : Stable I) (timeout : ℚ) :
    Ends I (verifySessionAndRun env timeout) := by
  have hverify : Sound I verifySession :=
    sound_gets_bind fun _ => sound_ite (fun _ => sound_pure) fun _ => sound_raise nofun
  exact hverify.ends.bind fun _ => ends_runWithBackup env h timeout

theorem ends_attempt (h : Stable I) (timeout : ℚ) (retryCount : Nat) :
    Ends I (attempt env timeout retryCount) := by
  apply Prog.Settles.tryExcept
  · exact (ends_verifySessionAndRun env h timeout).bind fun _ _ hs => hs
  · intro e p hp
    split at hp
    · cases hp
      apply Sound.ends
      apply Sound.bind
      · exact sound_gets_bind fun _ => sound_ite (fun _ => sound_tryToCreateNewSession env h)
          fun _ => sound_raise nofun
      · exact fun _ => sound_pure
    · split at hp
      · cases hp
        exact fun _ hs => hs
      · split at hp
        · cases hp
          exact (sound_sessionCall env h.toFramed).ends.bind fun _ _ hs => hs
        · cases hp
  · exact fun e s _ hs => hs

theorem ends_reset (h : Stable I) : Ends I (reset env) := by
  apply Prog.Settles.tryExcept (sound_createNewSession env h).ends
  · intro e p hp
    cases hp
    exact fun _ hs => hs
  · exact fun e s _ hs => hs

end

/-! ## The set of sessions -/

/-- The current session is in the set, and only sessions that were made are. -/
structure Inv (s : SelfRepairingSession) : Prop where
  current : ∀ x, s.session = some x → x ∈ s.sessions
  made : ∀ x ∈ s.sessions, x < s.created

theorem inv_new (maxRetries : Int) (delaybeforesend : Nat → ℚ) :
    Inv (new maxRetries delaybeforesend) := ⟨nofun, nofun⟩

theorem stable_inv : Stable Inv where
  same s t h _ hsession hsessions hcreated := by
    constructor
    · rw [hsession, hsessions]
      exact h.current
    · rw [hsessions, hcreated]
      exact h.made
  adopt s h := by
    constructor
    · rintro x ⟨⟩
      exact Finset.mem_insert_self ..
    · intro x hx
      rcases Finset.mem_insert.mp hx with rfl | hx
      · exact Nat.lt_succ_self _
      · exact Nat.lt_succ_of_lt (h.made x hx)
  drop s x h _ := ⟨nofun, fun y hy => h.made y (Finset.mem_of_mem_erase hy)⟩
  forget s h := ⟨nofun, h.made⟩

/-- The session `x` is in the set and not the current one. -/
structure Leaked (x : Nat) (s : SelfRepairingSession) : Prop where
  mem : x ∈ s.sessions
  not_current : s.session ≠ some x
  made : x < s.created

theorem stable_leaked (x : Nat) : Stable (Leaked x) where
  same s t h _ hsession hsessions hcreated :=
    ⟨hsessions ▸ h.mem, hsession ▸ h.not_current, hcreated ▸ h.made⟩
  adopt s h := by
    refine ⟨Finset.mem_insert_of_mem h.mem, ?_, Nat.lt_succ_of_lt h.made⟩
    rintro ⟨⟩
    exact h.made.false
  drop s y h hy := by
    refine ⟨Finset.mem_erase.mpr ⟨?_, h.mem⟩, nofun, h.made⟩
    rintro rfl
    exact h.not_current hy
  forget s h := ⟨h.mem, nofun, h.made⟩

/-! ## A hung run -/

section

variable (env : Environment) (timeout : ℚ)

/-- The session `x` is created for a hung run. -/
def CreatesSession (x : Nat) (s : SelfRepairingSession) : Prop :=
  ∃ t, createNewSession env { s with session := none } = .ret () t ∧ t.session = some x

/-- After the hung run the original session is closed and not in the set any more; a
new one that was created is open, current and in the set. -/
def HandsOver (original : Nat) (s : SelfRepairingSession) : Prop :=
  let t := (tryToGetHungRunResult env timeout s).state s
  original ∈ t.closed ∧ original ∉ t.sessions ∧
    ∀ x, CreatesSession env x s → x ∉ t.closed ∧ t.session = some x ∧ x ∈ t.sessions

/-- Whatever else happens, the original session stays in the set: `_session_close`
closes the session that is current. -/
theorem leaked_tryToGetHungRunResult {original : Nat} {s : SelfRepairingSession} (h : Inv s)
    (hs : s.session = some original) :
    Leaked original ((tryToGetHungRunResult env timeout s).state s) := by
  have hmem := h.current original hs
  have hforgotten : Leaked original { s with session := none } := ⟨hmem, nofun, h.made _ hmem⟩
  have hends := meets_tryToGetHungRunResult env (stable_leaked original) timeout hforgotten
  cases hrun : tryToGetHungRunResult env timeout s with
  | ret result t =>
    rw [hrun] at hends
    exact hends
  | raised e t =>
    rw [hrun] at hends
    exact hends
  | hang =>
    rw [hrun] at hends
    exact hends.elim

/-- **No hung run is handed over.** -/
theorem not_handsOver {original : Nat} {s : SelfRepairingSession} (h : Inv s)
    (hs : s.session = some original) : ¬ HandsOver env timeout original s :=
  fun hover => hover.2.1 (leaked_tryToGetHungRunResult env timeout h hs).mem

end

/-- Every remote call returns. -/
def calm : Environment := ⟨fun _ => none, fun _ => ⟨"0", [], []⟩, fun _ => false⟩

/-- The one session was made by `reset`, and a run hangs in it. -/
def oneSession : SelfRepairingSession :=
  { new 10 fun _ => 0 with session := some 0, sessions := {0}, shell := some 0, created := 1 }

theorem inv_oneSession : Inv oneSession := by
  constructor <;> simp [oneSession]

theorem not_handsOver_timeout :
    ¬ HandsOver { calm with raises := fun n => if n = 0 then some .pexpectTimeout else none } (-1) 0
      oneSession :=
  not_handsOver _ (-1) inv_oneSession rfl

/-- All calls return, and the new session is the one that is closed. -/
theorem closes_other :
    ¬ HandsOver calm (-1) 0 oneSession ∧
      (tryToGetHungRunResult calm (-1) oneSession).value? = some ⟨"0", [], []⟩ ∧
      ((tryToGetHungRunResult calm (-1) oneSession).state oneSession).closed = {1} ∧
      ((tryToGetHungRunResult calm (-1) oneSession).state oneSession).sessions = {0} ∧
      ((tryToGetHungRunResult calm (-1) oneSession).state oneSession).session = none := by
  constructor
  · intro h
    have hkept : 0 ∈ ((tryToGetHungRunResult calm (-1) oneSession).state oneSession).sessions := by
      decide
    exact h.2.1 hkept
  · decide

end SelfRepairingSession

end InteractiveSessions
