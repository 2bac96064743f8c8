import InteractiveSessions.Lib.Decimal
import InteractiveSessions.Lib.Runs

/-!
# `ShellSubprocess`: runs that leave their result in a file

`LocalShellSubprocess.run` numbers the runs and sends each of them to a remote Python.
There `RunShellSubprocess` writes a placeholder to the backup file, executes the command
in a thread, replaces the placeholder by the result and prints it.  A session may hang
and another one be made, so runs are taken up late, at the same time or never.

* `returns_own`: whatever is interleaved, killed or printed in between, a result that
  the local side returns for a run is the result of the only execution of its command;
* `backup_tells`: as long as runs neither overlap nor overtake each other, the file tells
  a run that has not started from one that has, and how far it came, also when its
  process was killed on the way.
-/

namespace InteractiveSessions.ShellSubprocess

/-! ## Results -/

structure Completed where
  returncode : Int
  out : Bytes
  err : Bytes
  deriving DecidableEq, Repr

structure SuccessfulExecutionResult where
  runId : Nat
  cmd : String
  result : Completed
  deriving DecidableEq, Repr

/-- The exception of a `FailedExecutionResult`, with its argument. -/
inductive RunExc where
  | resultNotStoredYet
  | backupNotFound
  | remoteTimeoutError (result : Option SuccessfulExecutionResult)
  | interruptedWithSigint (result : Option SuccessfulExecutionResult)
  /-- A method of `None`. -/
  | attributeError
  /-- `pickle.load` of an empty file. -/
  | eofError
  | other
  deriving DecidableEq, Repr

inductive ExecutionResult where
  | successful (r : SuccessfulExecutionResult)
  | failed (runId : Nat) (cmd : String) (e : RunExc)
  deriving DecidableEq, Repr

namespace ExecutionResult

def runId : ExecutionResult → Nat
  | successful r => r.runId
  | failed runId _ _ => runId

/-- The result of a command in it. -/
def success? : ExecutionResult → Option SuccessfulExecutionResult
  | successful r => some r
  | failed _ _ (.remoteTimeoutError result) => result
  | failed _ _ (.interruptedWithSigint result) => result
  | failed _ _ _ => none

end ExecutionResult

/-- What is pickled: `_result` is `None` until the thread has set it. -/
abbrev Pickled : Type := Option ExecutionResult

def pickled (result : Option SuccessfulExecutionResult) : Pickled :=
  result.map ExecutionResult.successful

/-- How `_get_result_from_output` ends. -/
inductive LocalEnd where
  | returns (result : Completed)
  | mismatchInRunId
  | raises (e : RunExc)
  deriving DecidableEq, Repr

/-- `get_result` of an unpickled object. -/
def getResult (runId : Nat) : Pickled → LocalEnd
  | none => .raises .attributeError
  | some r =>
    if r.runId = runId then
      match r with
      | .successful r => .returns r.result
      | .failed _ _ e => .raises e
    else .mismatchInRunId

/-- `_try_to_get_backup_result` raises `RunNotStarted`. -/
def LocalEnd.NotStarted (e : LocalEnd) : Prop := e = .mismatchInRunId ∨ e = .raises .backupNotFound

/-! ## `RunShellSubprocess` -/

/-- The file `pickled_backup`.  It is empty between `open` and the end of `dump`. -/
inductive Backup where
  | notFound
  | empty
  | stored (x : Pickled)
  deriving DecidableEq, Repr

/-- Where the main thread of a run is. -/
inductive Control where
  | init
  /-- The file is open for the placeholder. -/
  | opened
  | written
  | created
  | joining
  /-- The command was terminated after the timeout. -/
  | terminating
  | joined
  /-- The file is open for the result. -/
  | reopened
  | stored
  /-- The result is printed. -/
  | done
  /-- An error is printed; it was raised there. -/
  | failed (place : Control)
  /-- Its process was killed there, with the session. -/
  | killed (place : Control)
  deriving DecidableEq, Repr

namespace Control

/-- How far the main thread came. -/
def place : Control → Control
  | .failed c | .killed c => c.place
  | c => c

/-- The placeholder is written, and the file is not open for the result. -/
def Unstored : Control → Prop
  | .written | .created | .joining | .terminating | .joined => True
  | .failed c | .killed c => c.Unstored
  | _ => False

def Killed : Control → Prop
  | .killed _ => True
  | _ => False

instance : (c : Control) → Decidable c.Killed
  | .killed _ => isTrue trivial
  | .init | .opened | .written | .created | .joining | .terminating | .joined | .reopened
  | .stored | .done | .failed _ => isFalse id

/-- The main thread has ended. -/
def Over : Control → Prop
  | .done | .failed _ | .killed _ => True
  | _ => False

instance : (c : Control) → Decidable c.Over
  | .done | .failed _ | .killed _ => isTrue trivial
  | .init | .opened | .written | .created | .joining | .terminating | .joined | .reopened
  | .stored => isFalse id

end Control

inductive ThreadState where
  | none
  | created
  /-- Alive, before `_run_process` is set. -/
  | starting
  | running
  | dead
  deriving DecidableEq, Repr

structure Run where
  runId : Nat
  cmd : String
  /-- `None` is no timeout. -/
  timeout : Option ℚ
  control : Control
  thread : ThreadState
  result : Option SuccessfulExecutionResult
  deriving DecidableEq, Repr

namespace Run

def new (runId : Nat) (cmd : String) (timeout : Option ℚ) : Run :=
  ⟨runId, cmd, timeout, .init, .none, none⟩

def success (r : Run) (c : Completed) : SuccessfulExecutionResult := ⟨r.runId, r.cmd, c⟩

/-- The first backup. -/
def placeholder (r : Run) : Backup := .stored (some (.failed r.runId r.cmd .resultNotStoredYet))

/-- What `_error_serialization` prints. -/
def error (r : Run) (e : RunExc) : Pickled := some (.failed r.runId r.cmd e)

/-- The next step of the main thread, with the file and what is printed.  `late`: the
timeout of `join` has passed. -/
def main (late : Bool) (r : Run) (b : Backup) : Run × Backup × List Pickled :=
  match r.control with
  | .init => ({ r with control := .opened }, .empty, [])
  | .opened => ({ r with control := .written }, r.placeholder, [])
  | .written => ({ r with control := .created, thread := .created }, b, [])
  | .created => ({ r with control := .joining, thread := .starting }, b, [])
  | .joining =>
    if r.thread = .dead then ({ r with control := .joined }, b, [])
    else if late ∧ r.timeout.isSome then
      if r.thread = .running then ({ r with control := .terminating }, b, [])
      else ({ r with control := .failed r.control }, b, [r.error .attributeError])
    else (r, b, [])
  | .terminating =>
    if r.thread = .dead then
      ({ r with control := .failed r.control }, b, [r.error (.remoteTimeoutError r.result)])
    else (r, b, [])
  | .joined => ({ r with control := .reopened }, .empty, [])
  | .reopened => ({ r with control := .stored }, .stored (pickled r.result), [])
  | .stored => ({ r with control := .done }, b, [pickled r.result])
  | .done | .failed _ | .killed _ => (r, b, [])

/-- The file is opened or written next. -/
def AtFile (r : Run) : Prop :=
  r.control = .init ∨ r.control = .opened ∨ r.control = .joined ∨ r.control = .reopened

instance (r : Run) : Decidable r.AtFile := inferInstanceAs (Decidable (_ ∨ _))

def kill (r : Run) : Run :=
  { r with
    control := .killed r.control
    thread := if r.thread = .none then .none else .dead }

end Run

/-! ## The local and the remote side -/

/-- `commands` are the calls of `run`, of which the last has the current `_run_id`;
`requests` were sent, each with its run id, and not taken up.  `started`, `executions`
and `returned` are records: the run ids of the commands that were started, how commands
have ended, and what `run` and `get_backed_up_result` have returned.  `latest` is the
run that was taken up last. -/
structure System where
  commands : List (String × Option ℚ)
  requests : List (Nat × String × Option ℚ)
  backup : Backup
  runs : Nat → Option Run
  outputs : List Pickled
  latest : Nat
  started : List Nat
  executions : List SuccessfulExecutionResult
  returned : List (Nat × Completed)

namespace System

def init : System := ⟨[], [], .notFound, fun _ => none, [], 0, [], [], []⟩

/-- `_run_id` of the `LocalShellSubprocess` -/
def runId (s : System) : Nat := s.commands.length

/-- The `timeout` that is sent. -/
def joinTimeout (timeout : ℚ) : Option ℚ := if 0 < timeout then some timeout else none

def setRun (r : Run) (s : System) : System := { s with runs := Function.update s.runs r.runId r }

def print (xs : List Pickled) (s : System) : System := { s with outputs := s.outputs ++ xs }

/-- What `ReadonlyShellSubprocess` prints. -/
def restored (runId : Nat) : Backup → Pickled
  | .notFound => some (.failed runId "" .backupNotFound)
  | .empty => some (.failed runId "" .eofError)
  | .stored x => x

inductive Action where
  /-- `run` of the local side, up to the reading of the output. -/
  | run (cmd : String) (timeout : ℚ)
  /-- A request never comes to the remote Python. -/
  | lose (i : Nat)
  /-- The remote Python takes up a request. -/
  | start (i : Nat)
  | main (runId : Nat) (late : Bool)
  /-- An operation on the file raises. -/
  | raises (runId : Nat)
  /-- `Popen` returns or raises. -/
  | popen (runId : Nat) (returns : Bool)
  /-- `communicate` returns, or it raises. -/
  | communicate (runId : Nat) (result : Option Completed)
  /-- The handler of `SIGINT`.  `result`: the command ends while it waits. -/
  | sigint (runId : Nat) (result : Option Completed)
  | kill (runId : Nat)
  | restore (runId : Nat)
  /-- The local side reads something that was printed. -/
  | receive (i : Nat)
  deriving DecidableEq

/-- The thread of a run has got its result. -/
def complete (r : Run) (c : Completed) (s : System) : System :=
  { s with executions := s.executions ++ [r.success c] }.setRun
    { r with thread := .dead, result := some (r.success c) }

/-- `_sigint_handler` -/
def sigintHandler (r : Run) (result : Option Completed) (s : System) : System :=
  match r.thread with
  | .none | .starting => s.print [r.error .attributeError]
  | .created => s
  | .running =>
    match result with
    | none => s.print [r.error (.interruptedWithSigint none)]
    | some c => (s.complete r c).print [r.error (.interruptedWithSigint (some (r.success c)))]
  | .dead => if r.result.isSome then s.print [pickled r.result] else s

def step (a : Action) (s : System) : System :=
  match a with
  | .run cmd timeout =>
    { s with
      commands := s.commands ++ [(cmd, joinTimeout timeout)]
      requests := s.requests ++ [(s.runId + 1, cmd, joinTimeout timeout)] }
  | .lose i => { s with requests := s.requests.eraseIdx i }
  | .start i =>
    match s.requests[i]? with
    | none => s
    | some (runId, cmd, timeout) =>
      { s with requests := s.requests.eraseIdx i, latest := runId }.setRun (.new runId cmd timeout)
  | .main runId late =>
    match s.runs runId with
    | none => s
    | some r =>
      let (r', backup, printed) := r.main late s.backup
      ({ s with backup }.setRun r').print printed
  | .raises runId =>
    match s.runs runId with
    | none => s
    | some r =>
      if r.AtFile then (s.setRun { r with control := .failed r.control }).print [r.error .other]
      else s
  | .popen runId returns =>
    match s.runs runId with
    | none => s
    | some r =>
      if r.thread = .starting then
        if returns then
          { s with started := s.started ++ [runId] }.setRun { r with thread := .running }
        else s.setRun { r with thread := .dead }
      else s
  | .communicate runId result =>
    match s.runs runId with
    | none => s
    | some r =>
      if r.thread = .running then
        match result with
        | some c => s.complete r c
        | none => s.setRun { r with thread := .dead }
      else s
  | .sigint runId result =>
    match s.runs runId with
    | none => s
    | some r => if r.control.Killed then s else s.sigintHandler r result
  | .kill runId =>
    match s.runs runId with
    | none => s
    | some r => s.setRun r.kill
  | .restore runId => s.print [restored runId s.backup]
  | .receive i =>
    match s.outputs[i]? with
    | none => s
    | some x =>
      match getResult s.runId x with
      | .returns c => { s with returned := s.returned ++ [(s.runId, c)] }
      | _ => s

end System

/-! ## What a step of the main thread does -/

namespace Run

/-- The thread belongs to where the main thread is. -/
def Fits (r : Run) : Prop :=
  match r.control with
  | .init | .opened | .written => r.thread = .none
  | .created => r.thread = .created
  | .joining => r.thread ≠ .none ∧ r.thread ≠ .created
  | .terminating => r.thread = .running ∨ r.thread = .dead
  | .joined | .reopened | .stored | .done => r.thread = .dead
  | .failed c => c.place ≠ .stored ∧ c.place ≠ .done
  | .killed _ => r.thread = .none ∨ r.thread = .dead

/-- The command was started, if it could be. -/
def Started (r : Run) : Prop := r.thread = .running ∨ r.thread = .dead

/-- The command in a pickled object is that of the run. -/
def Tells (r : Run) (x : Pickled) : Prop :=
  ∀ e, x = some e → ∀ y, e.success? = some y → r.result = some y

/-- The same run at another point, no earlier than before. -/
structure Continues (r r' : Run) : Prop where
  runId : r'.runId = r.runId
  cmd : r'.cmd = r.cmd
  timeout : r'.timeout = r.timeout
  fits : r'.Fits
  started : r.Started → r'.Started
  dead : r.thread = .dead → r'.thread = .dead

theorem tells_pickled (r : Run) : r.Tells (pickled r.result) := by
  intro e he y hy
  obtain ⟨x, hx, rfl⟩ := Option.map_eq_some_iff.mp he
  cases hy
  exact hx

theorem tells_error {r : Run} {e : RunExc}
    (h : ∀ y, (ExecutionResult.failed r.runId r.cmd e).success? = some y → r.result = some y) :
    r.Tells (r.error e) := by
  rintro e ⟨⟩
  exact h

theorem main_result (late : Bool) (r : Run) (b : Backup) :
    (r.main late b).1.result = r.result := by
  cases hc : r.control <;> simp only [main, hc] <;> split_ifs <;> rfl

theorem main_running (late : Bool) (r : Run) (b : Backup)
    (h : (r.main late b).1.thread = .running) : r.thread = .running := by
  revert h
  cases hc : r.control <;> simp only [main, hc, imp_self, reduceCtorEq, false_imp_iff] <;>
    split_ifs <;> simp

/-- **Inversion.**  Only the result is written and printed. -/
theorem main_spec (late : Bool) {r : Run} (h : r.Fits) (b : Backup) :
    r.Continues (r.main late b).1 ∧
      (∀ x, (r.main late b).2.1 = .stored x → b = .stored x ∨ r.Tells x) ∧
      ∀ x ∈ (r.main late b).2.2, r.Tells x := by
  have hsame : r.Continues r := ⟨rfl, rfl, rfl, h, id, id⟩
  have hkept : ∀ x, b = .stored x → b = .stored x ∨ r.Tells x := fun x => .inl
  have hplaceholder : ∀ x, r.placeholder = .stored x → b = .stored x ∨ r.Tells x := by
    rintro x ⟨⟩
    exact .inr (tells_error (by simp [ExecutionResult.success?]))
  cases hc : r.control <;> simp only [Fits, hc] at h <;> simp only [main, hc]
  case init => exact ⟨⟨rfl, rfl, rfl, h, id, id⟩, by simp, by simp⟩
  case opened => exact ⟨⟨rfl, rfl, rfl, h, id, id⟩, hplaceholder, by simp⟩
  case written =>
    exact ⟨⟨rfl, rfl, rfl, rfl, by simp [Started, h], by simp [h]⟩, hkept, by simp⟩
  case created =>
    exact ⟨⟨rfl, rfl, rfl, by simp [Fits], by simp [Started, h], by simp [h]⟩, hkept, by simp⟩
  case joining =>
    by_cases hdead : r.thread = .dead
    · rw [if_pos hdead]
      exact ⟨⟨rfl, rfl, rfl, hdead, id, id⟩, hkept, by simp⟩
    · rw [if_neg hdead]
      by_cases hlate : late ∧ r.timeout.isSome
      · rw [if_pos hlate]
        by_cases hrunning : r.thread = .running
        · rw [if_pos hrunning]
          exact ⟨⟨rfl, rfl, rfl, .inl hrunning, id, id⟩, hkept, by simp⟩
        · rw [if_neg hrunning]
          refine ⟨⟨rfl, rfl, rfl, by simp [Fits, Control.place], id, id⟩, hkept, ?_⟩
          simpa using tells_error (by simp [ExecutionResult.success?])
      · rw [if_neg hlate]
        exact ⟨hsame, hkept, by simp⟩
  case terminating =>
    by_cases hdead : r.thread = .dead
    · rw [if_pos hdead]
      refine ⟨⟨rfl, rfl, rfl, by simp [Fits, Control.place], id, id⟩, hkept, ?_⟩
      simpa using tells_error (by simp [ExecutionResult.success?])
    · rw [if_neg hdead]
      exact ⟨hsame, hkept, by simp⟩
  case joined => exact ⟨⟨rfl, rfl, rfl, h, id, id⟩, by simp, by simp⟩
  case reopened =>
    refine ⟨⟨rfl, rfl, rfl, h, id, id⟩, ?_, by simp⟩
    rintro x ⟨⟩
    exact .inr r.tells_pickled
  case stored =>
    exact ⟨⟨rfl, rfl, rfl, h, id, id⟩, hkept, by simpa using r.tells_pickled⟩
  case done => exact ⟨hsame, hkept, by simp⟩
  case failed => exact ⟨hsame, hkept, by simp⟩
  case killed => exact ⟨hsame, hkept, by simp⟩

/-- A thread that runs may die: the main thread still waits for it, or does not care. -/
theorem continues_dead {r : Run} (h : r.Fits) (hthread : r.thread = .running) :
    r.Continues { r with thread := .dead } := by
  refine ⟨rfl, rfl, rfl, ?_, fun _ => .inr rfl, fun _ => rfl⟩
  cases hc : r.control <;> simp_all [Fits]

theorem kill_thread (r : Run) : r.kill.thread = .none ∨ r.kill.thread = .dead := by
  by_cases h : r.thread = .none <;> simp [kill, h]

theorem continues_kill (r : Run) : r.Continues r.kill := by
  refine ⟨rfl, rfl, rfl, r.kill_thread, ?_, ?_⟩
  · rintro (h | h) <;> exact .inr (by simp [kill, h])
  · intro h
    simp [kill, h]

/-! ### The file -/

/-- The main thread of the run has ended. -/
def Over (r : Run) : Prop := r.control.Over

instance (r : Run) : Decidable r.Over := inferInstanceAs (Decidable r.control.Over)

theorem Over.main {r : Run} (h : r.Over) (late : Bool) (b : Backup) :
    r.main late b = (r, b, []) := by
  cases hc : r.control <;> simp only [Over, Control.Over, hc] at h <;> simp only [Run.main, hc]

/-- The placeholder was written. -/
def Wrote (r : Run) : Prop := r.control.place ≠ .init ∧ r.control.place ≠ .opened

/-- What is in the file if the run was taken up last and came to this point. -/
def FileAt (r : Run) (b : Backup) : Control → Prop
  | .init => r.thread = .none
  | .opened | .reopened => b = .empty
  | .written | .created | .joining | .terminating | .joined => b = r.placeholder
  | .stored | .done => b = .stored (pickled r.result)
  | .failed c | .killed c => r.FileAt b c

def FileIs (r : Run) (b : Backup) : Prop := r.FileAt b r.control

/-- The main thread is where it was. -/
structure Stays (r r' : Run) : Prop where
  runId : r'.runId = r.runId
  cmd : r'.cmd = r.cmd
  control : r'.control = r.control
  none : r.thread = .none → r'.thread = .none
  result : r.thread ≠ .running → r'.result = r.result

theorem Wrote.main {r : Run} (late : Bool) (b : Backup) (h : r.Wrote) :
    (r.main late b).1.Wrote := by
  obtain ⟨hinit, hopened⟩ := h
  cases hc : r.control <;> simp only [hc, Control.place] at hinit hopened <;>
    simp only [Run.main, hc]
  case init => exact absurd rfl hinit
  case opened => exact absurd rfl hopened
  case joining => split_ifs <;> simp [Wrote, Control.place, hc]
  case terminating => split_ifs <;> simp [Wrote, Control.place, hc]
  case failed | killed => simpa only [Wrote, Control.place, hc] using ⟨hinit, hopened⟩
  all_goals simp [Wrote, Control.place, hc]

/-- What is written to the file has the run's own id. -/
theorem main_backup {r : Run} {late : Bool} {b : Backup} {e : ExecutionResult}
    (hresult : ∀ x, r.result = some x → x.runId = r.runId)
    (h : (r.main late b).2.1 = .stored (some e)) :
    b = (r.main late b).2.1 ∨ e.runId = r.runId ∧ (r.main late b).1.Wrote := by
  cases hc : r.control <;> simp only [Run.main, hc] at h ⊢
  case init => cases h
  case opened =>
    cases h
    exact .inr ⟨rfl, by simp [Wrote, Control.place]⟩
  case joined => cases h
  case reopened =>
    refine .inr ⟨?_, by simp [Wrote, Control.place]⟩
    obtain ⟨x, hx, rfl⟩ := Option.map_eq_some_iff.mp (Backup.stored.inj h)
    exact hresult x hx
  case joining => split_ifs <;> exact .inl rfl
  case terminating => split_ifs <;> exact .inl rfl
  all_goals exact .inl trivial

theorem Stays.over {r r' : Run} (h : r.Stays r') (hr : r.Over) : r'.Over := by
  rw [Over, h.control]
  exact hr

theorem Stays.wrote {r r' : Run} (h : r.Stays r') (hr : r.Wrote) : r'.Wrote := by
  rw [Wrote, h.control]
  exact hr

theorem Stays.placeholder {r r' : Run} (h : r.Stays r') : r'.placeholder = r.placeholder := by
  simp only [Run.placeholder, h.runId, h.cmd]

/-- The file is that of the run, whatever else becomes of it. -/
theorem FileAt.congr {r r' : Run} {b : Backup} {c : Control} (h : r.FileAt b c)
    (hplaceholder : r'.placeholder = r.placeholder)
    (hnone : r.thread = .none → r'.thread = .none)
    (hresult : c.place = .stored ∨ c.place = .done → r'.result = r.result) : r'.FileAt b c := by
  induction c with
  | init => exact hnone h
  | opened | reopened => exact h
  | written | created | joining | terminating | joined => exact h.trans hplaceholder.symm
  | stored =>
    rw [FileAt, hresult (.inl rfl)]
    exact h
  | done =>
    rw [FileAt, hresult (.inr rfl)]
    exact h
  | failed c ih | killed c ih => exact ih h hresult

theorem Stays.fileIs {r r' : Run} (h : r.Stays r') (hfits : r.Fits) {b : Backup}
    (hb : r.FileIs b) : r'.FileIs b := by
  rw [FileIs, h.control]
  refine hb.congr h.placeholder h.none fun hplace => h.result ?_
  cases hc : r.control <;> simp only [hc, Control.place, reduceCtorEq, or_self] at hplace <;>
    simp only [Fits, hc] at hfits
  case stored | done => simp [hfits]
  case failed => exact absurd hplace (not_or.mpr hfits)
  case killed => rcases hfits with hth | hth <;> simp [hth]

/-- The main thread writes the file as it should be. -/
theorem FileIs.main {r : Run} {b : Backup} (late : Bool) (hb : r.FileIs b) :
    (r.main late b).1.FileIs (r.main late b).2.1 := by
  cases hc : r.control <;> simp only [FileIs, hc] at hb <;> simp only [Run.main, hc]
  case joining =>
    split_ifs
    · exact hb
    · exact hb
    · exact hb
    · simpa only [FileIs, hc] using hb
  case terminating =>
    split_ifs
    · exact hb
    · simpa only [FileIs, hc] using hb
  case init | opened | joined | reopened => rfl
  case written | created | stored => exact hb
  case done | failed | killed => simpa only [FileIs, hc] using hb

section
variable {r : Run} {b : Backup} {c : Control}

theorem FileAt.of_emptied (h : r.FileAt b c) (hc : c.place = .opened ∨ c.place = .reopened) :
    b = .empty := by
  induction c with
  | opened | reopened => exact h
  | failed c ih | killed c ih => exact ih h hc
  | _ => simp [Control.place] at hc

theorem FileAt.of_unstored (h : r.FileAt b c) (hc : c.Unstored) : b = r.placeholder := by
  induction c with
  | written | created | joining | terminating | joined => exact h
  | failed c ih | killed c ih => exact ih h hc
  | _ => exact hc.elim

theorem FileAt.of_stored (h : r.FileAt b c) (hc : c.place = .stored ∨ c.place = .done) :
    b = .stored (pickled r.result) := by
  induction c with
  | stored | done => exact h
  | failed c ih | killed c ih => exact ih h hc
  | _ => simp [Control.place] at hc

/-- How far the run came tells what is in the file. -/
theorem FileAt.cases (h : r.FileAt b c) :
    c.place = .init ∧ r.thread = .none ∨ b = .empty ∨
      c.Unstored ∧ b = r.placeholder ∨ b = .stored (pickled r.result) := by
  induction c with
  | init => exact .inl ⟨rfl, h⟩
  | opened | reopened => exact .inr (.inl h)
  | written | created | joining | terminating | joined => exact .inr (.inr (.inl ⟨trivial, h⟩))
  | stored | done => exact .inr (.inr (.inr h))
  | failed c ih | killed c ih => exact ih h

end

theorem FileIs.fail {r : Run} {b : Backup} (hb : r.FileIs b) :
    Run.FileIs { r with control := .failed r.control } b :=
  hb.congr rfl id fun _ => rfl

theorem FileIs.kill {r : Run} {b : Backup} (hb : r.FileIs b) : r.kill.FileIs b :=
  hb.congr rfl (fun h => by simp [Run.kill, h]) fun _ => rfl

end Run

namespace System

/-! ## Whose result it is -/

/-- `run` number `runId` was called with this command. -/
def Given (s : System) (runId : Nat) (cmd : String × Option ℚ) : Prop :=
  0 < runId ∧ s.commands[runId - 1]? = some cmd

/-- A pickled result is that of an execution. -/
def Authentic (s : System) (x : Pickled) : Prop :=
  ∀ e, x = some e → ∀ y, e.success? = some y → y ∈ s.executions

structure Inv (s : System) : Prop where
  requests : ∀ q ∈ s.requests, s.Given q.1 q.2 ∧ s.runs q.1 = none
  distinct : (s.requests.map Prod.fst).Nodup
  runs : ∀ id r, s.runs id = some r → r.runId = id ∧ s.Given id (r.cmd, r.timeout) ∧ r.Fits
  started : s.started.Nodup
  executed : (s.executions.map SuccessfulExecutionResult.runId).Nodup
  ran : ∀ id ∈ s.started, ∃ r, s.runs id = some r ∧ r.Started
  ended : ∀ x ∈ s.executions, x.runId ∈ s.started ∧
    ∃ r, s.runs x.runId = some r ∧ r.thread = .dead ∧ x.cmd = r.cmd
  results : ∀ id r x, s.runs id = some r → r.result = some x →
    x ∈ s.executions ∧ x.runId = id
  backup : ∀ x, s.backup = .stored x → s.Authentic x
  outputs : ∀ x ∈ s.outputs, s.Authentic x
  returned : ∀ y ∈ s.returned, ∃ x ∈ s.executions, x.runId = y.1 ∧ x.result = y.2

theorem inv_init : Inv init := by
  constructor <;> simp [init]

variable {s : System}

/-- A run that is there has its own id. -/
theorem Inv.run_eq (h : Inv s) {id : Nat} {r : Run} (hr : s.runs id = some r) :
    s.runs r.runId = some r := by
  rw [(h.runs id r hr).1]
  exact hr

theorem runs_setRun (r : Run) (id : Nat) :
    (s.setRun r).runs id = if id = r.runId then some r else s.runs id :=
  Function.update_apply ..

theorem runs_setRun_self (r : Run) : (s.setRun r).runs r.runId = some r :=
  Function.update_self ..

theorem Inv.print (h : Inv s) {xs : List Pickled} (hxs : ∀ x ∈ xs, s.Authentic x) :
    Inv (s.print xs) :=
  { h with
    outputs := fun x hx => by
      rcases List.mem_append.mp hx with hx | hx
      · exact h.outputs x hx
      · exact hxs x hx }

theorem Inv.setBackup (h : Inv s) {b : Backup} (hb : ∀ x, b = .stored x → s.Authentic x) :
    Inv { s with backup := b } := { h with backup := hb }

/-- A run goes on, or it gets a result that was recorded. -/
theorem Inv.setRun (h : Inv s) {r r' : Run} (hr : s.runs r.runId = some r) (hc : r.Continues r')
    (hresult : ∀ x, r'.result = some x → x ∈ s.executions ∧ x.runId = r.runId) :
    Inv (s.setRun r') := by
  have hkey : ∀ id r'', (s.setRun r').runs id = some r'' →
      id = r.runId ∧ r'' = r' ∨ id ≠ r.runId ∧ s.runs id = some r'' := by
    intro id r'' hrun
    rw [runs_setRun, hc.runId] at hrun
    split at hrun
    · next heq =>
      cases hrun
      exact .inl ⟨heq, rfl⟩
    · next hne => exact .inr ⟨hne, hrun⟩
  have hsame : (s.setRun r').runs r.runId = some r' := hc.runId ▸ runs_setRun_self r'
  have hother : ∀ {id}, id ≠ r.runId → (s.setRun r').runs id = s.runs id := fun {id} hne => by
    rw [runs_setRun, hc.runId, if_neg hne]
  refine { h with requests := ?_, runs := ?_, ran := ?_, ended := ?_, results := ?_ }
  · intro q hq
    obtain ⟨hgiven, hnone⟩ := h.requests q hq
    have hne : q.1 ≠ r.runId := fun heq => by simp [heq, hr] at hnone
    exact ⟨hgiven, (hother hne).trans hnone⟩
  · intro id r'' hrun
    rcases hkey id r'' hrun with ⟨rfl, rfl⟩ | ⟨hne, hrun⟩
    · obtain ⟨-, hgiven, -⟩ := h.runs _ r hr
      exact ⟨hc.runId, by rw [hc.cmd, hc.timeout]; exact hgiven, hc.fits⟩
    · exact h.runs id r'' hrun
  · intro id hid
    obtain ⟨r₀, hr₀, hstarted⟩ := h.ran id hid
    by_cases heq : id = r.runId
    · subst heq
      cases hr.symm.trans hr₀
      exact ⟨r', hsame, hc.started hstarted⟩
    · exact ⟨r₀, (hother heq).trans hr₀, hstarted⟩
  · intro x hx
    obtain ⟨hid, r₀, hr₀, hdead, hcmd⟩ := h.ended x hx
    refine ⟨hid, ?_⟩
    by_cases heq : x.runId = r.runId
    · rw [heq] at hr₀ ⊢
      cases hr.symm.trans hr₀
      exact ⟨r', hsame, hc.dead hdead, hcmd.trans hc.cmd.symm⟩
    · exact ⟨r₀, (hother heq).trans hr₀, hdead, hcmd⟩
  · intro id r'' x hrun hx
    rcases hkey id r'' hrun with ⟨rfl, rfl⟩ | ⟨-, hrun⟩
    · exact hresult x hx
    · exact h.results id r'' x hrun hx

/-- `communicate` returns. -/
theorem Inv.complete (h : Inv s) {r : Run} (hr : s.runs r.runId = some r)
    (hrunning : r.thread = .running) (hstarted : r.runId ∈ s.started)
    (hfits : r.Continues { r with thread := .dead }) (c : Completed) : Inv (s.complete r c) := by
  have hmono : ∀ {x : Pickled}, s.Authentic x →
      Authentic { s with executions := s.executions ++ [r.success c] } x :=
    fun hx e he y hy => List.mem_append_left _ (hx e he y hy)
  have hnone : ∀ x ∈ s.executions, x.runId ≠ r.runId := by
    intro x hx heq
    obtain ⟨-, r₀, hr₀, hdead, -⟩ := h.ended x hx
    rw [heq] at hr₀
    cases hr.symm.trans hr₀
    rw [hrunning] at hdead
    cases hdead
  have hdead := h.setRun hr hfits fun x hx => h.results _ r x hr hx
  have hrun : (s.setRun { r with thread := .dead }).runs r.runId =
      some { r with thread := .dead } := runs_setRun_self _
  -- The record of the execution is made when the thread is dead already.
  have hrecord : Inv { s.setRun { r with thread := .dead } with
      executions := s.executions ++ [r.success c] } := by
    refine { hdead with
      executed := ?_, ended := ?_, results := ?_, backup := ?_, outputs := ?_, returned := ?_ }
    · rw [List.map_append, List.nodup_append]
      refine ⟨h.executed, List.nodup_singleton _, ?_⟩
      rintro a ha b hb rfl
      obtain ⟨x, hx, hxa⟩ := List.mem_map.mp ha
      exact hnone x hx (hxa.trans (List.mem_singleton.mp hb))
    · intro x hx
      rcases List.mem_append.mp hx with hx | hx
      · exact hdead.ended x hx
      · cases List.mem_singleton.mp hx
        exact ⟨hstarted, _, hrun, rfl, rfl⟩
    · intro id r' x hr' hx
      obtain ⟨hmem, hid⟩ := hdead.results id r' x hr' hx
      exact ⟨List.mem_append_left _ hmem, hid⟩
    · exact fun x hx => hmono (h.backup x hx)
    · exact fun x hx => hmono (h.outputs x hx)
    · intro y hy
      obtain ⟨x, hx, hxy⟩ := h.returned y hy
      exact ⟨x, List.mem_append_left _ hx, hxy⟩
  have hgoes : Run.Continues { r with thread := .dead }
      { r with thread := .dead, result := some (r.success c) } :=
    ⟨rfl, rfl, rfl, hfits.fits, id, id⟩
  have hset := hrecord.setRun hrun hgoes (by
      rintro x ⟨⟩
      exact ⟨List.mem_append_right _ (List.mem_singleton_self _), rfl⟩)
  have heq : (s.complete r c) = { s.setRun { r with thread := .dead } with
      executions := s.executions ++ [r.success c] }.setRun
        { r with thread := .dead, result := some (r.success c) } := by
    simp [System.complete, System.setRun]
  rw [heq]
  exact hset

/-! ## The steps -/

/-- A command runs only once it is recorded. -/
def Recorded (s : System) : Prop :=
  ∀ id r, s.runs id = some r → r.thread = .running → id ∈ s.started

theorem Recorded.setRun (h : s.Recorded) {r : Run}
    (hr : r.thread = .running → r.runId ∈ s.started) : (s.setRun r).Recorded := by
  intro id r' hrun hrunning
  rw [runs_setRun] at hrun
  split at hrun
  · next heq =>
    cases hrun
    rw [heq]
    exact hr hrunning
  · exact h id r' hrun hrunning

theorem Given.le {id : Nat} {cmd : String × Option ℚ} (h : s.Given id cmd) : id ≤ s.runId := by
  obtain ⟨hpos, hcmd⟩ := h
  have hlt := (List.getElem?_eq_some_iff.mp hcmd).1
  simp only [System.runId]
  omega

theorem Given.append {id : Nat} {cmd : String × Option ℚ} (h : s.Given id cmd)
    (x : String × Option ℚ) : Given { s with commands := s.commands ++ [x] } id cmd := by
  refine ⟨h.1, ?_⟩
  rw [List.getElem?_append_left (List.getElem?_eq_some_iff.mp h.2).1]
  exact h.2

theorem getResult_returns {id : Nat} {x : Pickled} {c : Completed}
    (h : getResult id x = .returns c) :
    ∃ y, x = some (.successful y) ∧ y.runId = id ∧ y.result = c := by
  cases x with
  | none => simp [getResult] at h
  | some r =>
    cases r with
    | successful y =>
      by_cases hid : y.runId = id
      · refine ⟨y, rfl, hid, ?_⟩
        simpa [getResult, ExecutionResult.runId, hid] using h
      · simp [getResult, ExecutionResult.runId, hid] at h
    | failed id' cmd e =>
      by_cases hid : id' = id <;> simp [getResult, ExecutionResult.runId, hid] at h

theorem Inv.authentic (h : Inv s) {id : Nat} {r : Run} (hr : s.runs id = some r) {x : Pickled}
    (hx : r.Tells x) : s.Authentic x :=
  fun e he y hy => (h.results id r y hr (hx e he y hy)).1

theorem Inv.result_runId (h : Inv s) {id : Nat} {r : Run} (hr : s.runs id = some r)
    {x : SuccessfulExecutionResult} (hx : r.result = some x) : x.runId = r.runId :=
  (h.results _ r x (h.run_eq hr) hx).2

theorem Inv.restored (h : Inv s) (id : Nat) : s.Authentic (restored id s.backup) := by
  cases hb : s.backup with
  | stored x => exact h.backup x hb
  | _ =>
    rintro e ⟨⟩ y hy
    cases hy

theorem Inv.call (h : Inv s) (cmd : String) (timeout : ℚ) : Inv (s.step (.run cmd timeout)) := by
  have hfresh : s.runs (s.runId + 1) = none := by
    by_contra hne
    obtain ⟨r, hr⟩ := Option.ne_none_iff_exists'.mp hne
    exact absurd (h.runs _ r hr).2.1.le (by omega)
  refine { h with requests := ?_, distinct := ?_, runs := ?_ }
  · intro q hq
    rcases List.mem_append.mp hq with hq | hq
    · exact ⟨(h.requests q hq).1.append _, (h.requests q hq).2⟩
    · cases List.mem_singleton.mp hq
      exact ⟨⟨Nat.succ_pos _, List.getElem?_concat_length⟩, hfresh⟩
  · simp only [step, List.map_append, List.nodup_append]
    refine ⟨h.distinct, List.nodup_singleton _, ?_⟩
    rintro id hid _ hlast rfl
    obtain ⟨q, hq, rfl⟩ := List.mem_map.mp hid
    have hle := (h.requests q hq).1.le
    have heq := List.mem_singleton.mp hlast
    omega
  · intro id r hr
    exact ⟨(h.runs id r hr).1, (h.runs id r hr).2.1.append _, (h.runs id r hr).2.2⟩

theorem Inv.lose (h : Inv s) (i : Nat) : Inv (s.step (.lose i)) :=
  { h with
    requests := fun q hq => h.requests q (List.eraseIdx_subset hq)
    distinct := h.distinct.sublist ((List.eraseIdx_sublist ..).map _) }

theorem distinct_index {α β : Type} {f : α → β} {xs : List α} (h : (xs.map f).Nodup) {i j : Nat}
    (hi : i < xs.length) (hj : j < xs.length) (heq : f xs[i] = f xs[j]) : i = j := by
  have hi' : i < (xs.map f).length := by simpa using hi
  have hj' : j < (xs.map f).length := by simpa using hj
  have hsame : (xs.map f)[i] = (xs.map f)[j] := by simpa using heq
  exact h.getElem_inj_iff.mp hsame

/-- A request that is taken up is the only one for its run, which is new. -/
theorem Inv.start (h : Inv s) (i : Nat) : Inv (s.step (.start i)) := by
  cases hi : s.requests[i]? with
  | none => simpa only [step, hi] using h
  | some q =>
    obtain ⟨hlt, hget⟩ := List.getElem?_eq_some_iff.mp hi
    obtain ⟨hgiven, hnone⟩ := h.requests q (hget ▸ List.getElem_mem hlt)
    have hother : ∀ id, id ≠ q.1 →
        (s.step (.start i)).runs id = s.runs id := fun id hne => by
      simp only [step, hi, runs_setRun]
      exact if_neg hne
    have hstill : ∀ id r, s.runs id = some r → (s.step (.start i)).runs id = some r := by
      intro id r hr
      rw [hother id (fun heq => by simp [heq, hnone] at hr)]
      exact hr
    have hnew : (s.step (.start i)).runs q.1 = some (.new q.1 q.2.1 q.2.2) := by
      simp only [step, hi, runs_setRun]
      exact if_pos rfl
    have hrequests : (s.step (.start i)).requests = s.requests.eraseIdx i := by
      simp only [step, hi]
      rfl
    have hruns : ∀ id r, (s.step (.start i)).runs id = some r →
        id = q.1 ∧ r = .new q.1 q.2.1 q.2.2 ∨ s.runs id = some r := by
      intro id r hr
      by_cases heq : id = q.1
      · subst heq
        exact .inl ⟨rfl, Option.some_inj.mp (hr.symm.trans hnew)⟩
      · exact .inr ((hother id heq).symm.trans hr)
    have hrest : (s.step (.start i)).commands = s.commands ∧
        (s.step (.start i)).started = s.started ∧
        (s.step (.start i)).executions = s.executions ∧
        (s.step (.start i)).backup = s.backup ∧ (s.step (.start i)).outputs = s.outputs ∧
        (s.step (.start i)).returned = s.returned := by
      simp only [step, hi]
      exact ⟨rfl, rfl, rfl, rfl, rfl, rfl⟩
    obtain ⟨hcommands, hstarted, hexecutions, hbackup, houtputs, hreturned⟩ := hrest
    constructor <;> simp only [hrequests, hstarted, hexecutions, hbackup, houtputs, hreturned,
      Given, Authentic, hcommands]
    case requests =>
      intro p hp
      obtain ⟨hpgiven, hpnone⟩ := h.requests p (List.eraseIdx_subset hp)
      obtain ⟨j, hj, hne, hp⟩ := List.mem_eraseIdx_iff_getElem.mp hp
      rw [hother p.1 fun heq => hne (distinct_index h.distinct hj hlt (by rw [hp, hget, heq]))]
      exact ⟨hpgiven, hpnone⟩
    case distinct => exact h.distinct.sublist ((List.eraseIdx_sublist ..).map _)
    case runs =>
      intro id r hr
      rcases hruns id r hr with ⟨rfl, rfl⟩ | hr
      · exact ⟨rfl, hgiven, rfl⟩
      · exact h.runs id r hr
    case started => exact h.started
    case executed => exact h.executed
    case ran =>
      intro id hid
      obtain ⟨r, hr, hst⟩ := h.ran id hid
      exact ⟨r, hstill id r hr, hst⟩
    case ended =>
      intro x hx
      obtain ⟨hid, r, hr, hdead⟩ := h.ended x hx
      exact ⟨hid, r, hstill _ r hr, hdead⟩
    case results =>
      intro id r x hr hx
      rcases hruns id r hr with ⟨rfl, rfl⟩ | hr
      · cases hx
      · exact h.results id r x hr hx
    case backup => exact h.backup
    case outputs => exact h.outputs
    case returned => exact h.returned

/-- The command is started: it had not been, since its thread has just begun. -/
theorem Inv.begin (h : Inv s) {r : Run} (hr : s.runs r.runId = some r) (hstarted : r.Started)
    (hnew : r.runId ∉ s.started) : Inv { s with started := s.started ++ [r.runId] } := by
  refine { h with started := ?_, ran := ?_, ended := ?_ }
  · rw [List.nodup_append]
    refine ⟨h.started, List.nodup_singleton _, ?_⟩
    rintro a ha b hb rfl
    rw [List.mem_singleton.mp hb] at ha
    exact hnew ha
  · intro id hid
    rcases List.mem_append.mp hid with hid | hid
    · exact h.ran id hid
    · rw [List.mem_singleton.mp hid]
      exact ⟨r, hr, hstarted⟩
  · intro x hx
    exact ⟨List.mem_append_left _ (h.ended x hx).1, (h.ended x hx).2⟩

theorem inv_popen (h : Inv s) (hrec : s.Recorded) (id : Nat) (returns : Bool) :
    Inv (s.step (.popen id returns)) ∧ (s.step (.popen id returns)).Recorded := by
  cases hr : s.runs id with
  | none => simpa only [step, hr] using ⟨h, hrec⟩
  | some r =>
    have hrun := h.run_eq hr
    obtain ⟨hid, -, hfits⟩ := h.runs id r hr
    subst hid
    by_cases hthread : r.thread = .starting
    · have hjoining : r.control = .joining ∨ ∃ c, r.control = .failed c := by
        cases hc : r.control <;> simp_all [Run.Fits]
      have hcontinues : ∀ th, th = .running ∨ th = .dead → r.Continues { r with thread := th } := by
        intro th hth
        refine ⟨rfl, rfl, rfl, ?_, by simp [Run.Started, hthread], by simp [hthread]⟩
        have hfailed : ∀ c, r.control = .failed c → c.place ≠ .stored ∧ c.place ≠ .done := by
          intro c hc
          simpa only [Run.Fits, hc] using hfits
        rcases hjoining with hc | ⟨c, hc⟩ <;> rcases hth with rfl | rfl <;>
          simp [Run.Fits, hc, hfailed]
      have hresult := fun x hx => h.results _ r x hrun hx
      cases returns with
      | false =>
        simp only [step, hrun, if_pos hthread]
        exact ⟨h.setRun hrun (hcontinues .dead (.inr rfl)) hresult, hrec.setRun (by simp)⟩
      | true =>
        simp only [step, hrun, if_pos hthread]
        have hset := h.setRun hrun (hcontinues .running (.inl rfl)) hresult
        have hnew : r.runId ∉ s.started := fun hmem => by
          obtain ⟨r', hr', hst⟩ := h.ran _ hmem
          cases hrun.symm.trans hr'
          simp [Run.Started, hthread] at hst
        have hst : Run.Started { r with thread := .running } := .inl rfl
        refine ⟨hset.begin (r := { r with thread := .running }) (runs_setRun_self _) hst hnew, ?_⟩
        refine Recorded.setRun (s := { s with started := s.started ++ [r.runId] }) ?_ ?_
        · exact fun id r' hr' hth => List.mem_append_left _ (hrec id r' hr' hth)
        · exact fun _ => List.mem_append_right _ (List.mem_singleton_self _)
    · simpa only [step, hr, if_neg hthread] using ⟨h, hrec⟩

theorem inv_complete (h : Inv s) (hrec : s.Recorded) {r : Run} (hr : s.runs r.runId = some r)
    (hthread : r.thread = .running) (c : Completed) :
    Inv (s.complete r c) ∧ (s.complete r c).Recorded :=
  ⟨h.complete hr hthread (hrec _ r hr hthread) (Run.continues_dead (h.runs _ r hr).2.2 hthread) c,
    Recorded.setRun (s := { s with executions := s.executions ++ [r.success c] }) hrec (by simp)⟩

theorem inv_communicate (h : Inv s) (hrec : s.Recorded) (id : Nat) (result : Option Completed) :
    Inv (s.step (.communicate id result)) ∧ (s.step (.communicate id result)).Recorded := by
  cases hr : s.runs id with
  | none => simpa only [step, hr] using ⟨h, hrec⟩
  | some r =>
    have hrun := h.run_eq hr
    by_cases hthread : r.thread = .running
    · cases result with
      | some c => simpa only [step, hr, if_pos hthread] using inv_complete h hrec hrun hthread c
      | none =>
        simp only [step, hr, if_pos hthread]
        have hcontinues := Run.continues_dead (h.runs id r hr).2.2 hthread
        exact ⟨h.setRun hrun hcontinues fun x hx => h.results _ r x hrun hx, hrec.setRun (by simp)⟩
    · simpa only [step, hr, if_neg hthread] using ⟨h, hrec⟩

theorem inv_sigint (h : Inv s) (hrec : s.Recorded) (id : Nat) (result : Option Completed) :
    Inv (s.step (.sigint id result)) ∧ (s.step (.sigint id result)).Recorded := by
  cases hr : s.runs id with
  | none => simpa only [step, hr] using ⟨h, hrec⟩
  | some r =>
    have hrun := h.run_eq hr
    have herror : ∀ e, (ExecutionResult.failed r.runId r.cmd e).success? = none →
        Inv (s.print [r.error e]) ∧ (s.print [r.error e]).Recorded := by
      intro e he
      refine ⟨h.print ?_, hrec⟩
      rintro x hx _ hsome y hy
      cases (List.mem_singleton.mp hx).symm.trans hsome
      simp [he] at hy
    by_cases hkilled : r.control.Killed
    · simpa only [step, hr, if_pos hkilled] using ⟨h, hrec⟩
    simp only [step, hr, if_neg hkilled, sigintHandler]
    cases hthread : r.thread with
    | none => exact herror _ rfl
    | starting => exact herror _ rfl
    | created => exact ⟨h, hrec⟩
    | running =>
      cases result with
      | none => exact herror _ rfl
      | some c =>
        obtain ⟨hdone, hdonerec⟩ := inv_complete h hrec hrun hthread c
        refine ⟨hdone.print ?_, hdonerec⟩
        rintro x hx e hsome y hy
        cases (List.mem_singleton.mp hx).symm.trans hsome
        cases hy
        exact List.mem_append_right _ (List.mem_singleton_self _)
    | dead =>
      by_cases hsome : r.result.isSome
      · simp only [if_pos hsome]
        refine ⟨h.print fun x hx => ?_, hrec⟩
        rw [List.mem_singleton.mp hx]
        exact h.authentic hr r.tells_pickled
      · simp only [if_neg hsome]
        exact ⟨h, hrec⟩

theorem inv_main (h : Inv s) (hrec : s.Recorded) (id : Nat) (late : Bool) :
    Inv (s.step (.main id late)) ∧ (s.step (.main id late)).Recorded := by
  cases hr : s.runs id with
  | none => simpa only [step, hr] using ⟨h, hrec⟩
  | some r =>
    have hrun := h.run_eq hr
    obtain ⟨hcontinues, hbackup, hprinted⟩ := Run.main_spec late (h.runs id r hr).2.2 s.backup
    have hset := h.setRun hrun hcontinues fun x hx => by
      rw [Run.main_result] at hx
      exact h.results _ r x hrun hx
    simp only [step, hr]
    refine ⟨Inv.print (hset.setBackup fun x hx => ?_) fun x hx => ?_, ?_⟩
    · rcases hbackup x hx with hx | hx
      · exact h.backup x hx
      · exact h.authentic hr hx
    · exact h.authentic hr (hprinted x hx)
    · refine Recorded.setRun hrec fun hrunning => ?_
      rw [hcontinues.runId]
      exact hrec _ r hrun (Run.main_running late r s.backup hrunning)

theorem inv_raises (h : Inv s) (hrec : s.Recorded) (id : Nat) :
    Inv (s.step (.raises id)) ∧ (s.step (.raises id)).Recorded := by
  cases hr : s.runs id with
  | none => simpa only [step, hr] using ⟨h, hrec⟩
  | some r =>
    have hrun := h.run_eq hr
    by_cases hfile : r.AtFile
    · simp only [step, hr, if_pos hfile]
      have hfits : r.control.place ≠ .stored ∧ r.control.place ≠ .done := by
        rcases hfile with hc | hc | hc | hc <;> simp [hc, Control.place]
      have hset : Inv (s.setRun { r with control := .failed r.control }) :=
        h.setRun hrun ⟨rfl, rfl, rfl, hfits, fun h => h, fun h => h⟩
          fun x hx => h.results _ r x hrun hx
      refine ⟨hset.print ?_, hrec.setRun fun hrunning => hrec _ r hrun hrunning⟩
      rintro x hx e hsome y hy
      cases (List.mem_singleton.mp hx).symm.trans hsome
      cases hy
    · simpa only [step, hr, if_neg hfile] using ⟨h, hrec⟩

theorem Inv.receive (h : Inv s) (i : Nat) : Inv (s.step (.receive i)) := by
  cases hi : s.outputs[i]? with
  | none => simpa only [step, hi] using h
  | some x =>
    cases hx : getResult s.runId x with
    | returns c =>
      simp only [step, hi, hx]
      refine { h with returned := ?_ }
      intro y hy
      rcases List.mem_append.mp hy with hy | hy
      · exact h.returned y hy
      · obtain ⟨z, rfl, hid, hc⟩ := getResult_returns hx
        have hmem := h.outputs _ (List.mem_of_getElem? hi) _ rfl z rfl
        rw [List.mem_singleton.mp hy]
        exact ⟨z, hmem, hid, hc⟩
    | _ => simpa only [step, hi, hx] using h

theorem inv_kill (h : Inv s) (hrec : s.Recorded) (id : Nat) :
    Inv (s.step (.kill id)) ∧ (s.step (.kill id)).Recorded := by
  cases hr : s.runs id with
  | none => simpa only [step, hr] using ⟨h, hrec⟩
  | some r =>
    have hrun := h.run_eq hr
    simp only [step, hr]
    refine ⟨h.setRun hrun r.continues_kill fun x hx => h.results _ r x hrun hx, hrec.setRun ?_⟩
    intro hrunning
    rcases r.kill_thread with hth | hth <;> cases hth.symm.trans hrunning

/-- **One step.** -/
theorem inv_step (h : Inv s) (hrec : s.Recorded) (a : Action) :
    Inv (s.step a) ∧ (s.step a).Recorded := by
  cases a with
  | run cmd timeout => exact ⟨h.call cmd timeout, hrec⟩
  | lose i => exact ⟨h.lose i, hrec⟩
  | start i =>
    refine ⟨h.start i, ?_⟩
    cases hi : s.requests[i]? with
    | none => simpa only [step, hi] using hrec
    | some q =>
      simp only [step, hi]
      exact Recorded.setRun hrec (by simp [Run.new])
  | main id late => exact inv_main h hrec id late
  | raises id => exact inv_raises h hrec id
  | popen id returns => exact inv_popen h hrec id returns
  | communicate id result => exact inv_communicate h hrec id result
  | sigint id result => exact inv_sigint h hrec id result
  | kill id => exact inv_kill h hrec id
  | restore id =>
    refine ⟨h.print fun x hx => ?_, hrec⟩
    rw [List.mem_singleton.mp hx]
    exact h.restored id
  | receive i =>
    refine ⟨h.receive i, ?_⟩
    cases hi : s.outputs[i]? with
    | none => simpa only [step, hi] using hrec
    | some x =>
      simp only [step, hi]
      split <;> exact hrec

/-- `c` is the result of run number `runId`, whose command was started once. -/
def Own (s : System) (runId : Nat) (c : Completed) : Prop :=
  ∃ cmd, s.Given runId cmd ∧ s.started.count runId = 1 ∧
    s.executions.filter (fun x => x.runId = runId) = [⟨runId, cmd.1, c⟩]

theorem filter_eq_singleton {α β : Type} [DecidableEq β] {f : α → β} {xs : List α} {x : α}
    (h : (xs.map f).Nodup) (hx : x ∈ xs) : xs.filter (fun y => f y = f x) = [x] := by
  induction xs with
  | nil => cases hx
  | cons y ys ih =>
    obtain ⟨hy, hys⟩ := List.nodup_cons.mp h
    rcases List.mem_cons.mp hx with rfl | hx
    · have hnone : ys.filter (fun y => f y = f x) = [] := by
        rw [List.filter_eq_nil_iff]
        intro z hz heq
        exact hy (List.mem_map.mpr ⟨z, hz, by simpa using heq⟩)
      simp [hnone]
    · have hne : f y ≠ f x := fun heq => hy (heq ▸ List.mem_map_of_mem hx)
      simp [hne, ih hys hx]

theorem Inv.own (h : Inv s) {x : SuccessfulExecutionResult} (hx : x ∈ s.executions) :
    s.Own x.runId x.result := by
  obtain ⟨hid, r, hr, -, hcmd⟩ := h.ended x hx
  refine ⟨(r.cmd, r.timeout), (h.runs _ r hr).2.1, List.count_eq_one_of_mem h.started hid, ?_⟩
  rw [filter_eq_singleton h.executed hx, ← hcmd]

theorem reachable (h : Reaches step (fun _ _ => True) init s) : Inv s ∧ s.Recorded :=
  h.invariant (I := fun t => Inv t ∧ t.Recorded) ⟨inv_init, by simp [Recorded, init]⟩
    fun a _ ht _ => inv_step ht.1 ht.2 a

/-- **Own results.**  A result that is returned for a run is that of the only execution
of its command. -/
theorem returns_own (h : Reaches step (fun _ _ => True) init s) :
    ∀ y ∈ s.returned, s.Own y.1 y.2 := by
  intro y hy
  obtain ⟨x, hx, hid, hc⟩ := (reachable h).1.returned y hy
  rw [← hid, ← hc]
  exact (reachable h).1.own hx

def echo : Completed := ⟨0, [97], []⟩

/-- Two runs at the same time; the second is killed, and both outputs are read late. -/
def together : List Action :=
  [.run "sleep" 1, .run "echo" 0, .start 1, .main 2 false, .start 0, .main 1 false, .main 2 false,
    .main 2 false, .main 2 false, .popen 2 true, .main 1 false, .communicate 2 (some echo),
    .main 2 true, .main 2 true, .main 2 true, .kill 2, .restore 2, .main 1 false, .receive 0]

theorem returns_own_together :
    (together.foldl (fun s a => step a s) init).returned = [(2, echo)] ∧
      ∀ y ∈ (together.foldl (fun s a => step a s) init).returned,
        (together.foldl (fun s a => step a s) init).Own y.1 y.2 :=
  ⟨by decide +kernel,
    returns_own (reaches_of_along together .refl (by decide +kernel))⟩

/-! ## What the file tells -/

/-- Runs are taken up in the order of the calls, and only when the main threads of those
before have ended. -/
def Ok : Action → System → Prop
  | .start i, s => ∀ q ∈ s.requests[i]?, ∀ id ≤ s.runId, ∀ r ∈ s.runs id, r.Over ∧ id < q.1
  | _, _ => True

instance : (a : Action) → (s : System) → Decidable (Ok a s)
  | .start i, s => inferInstanceAs (Decidable (∀ q ∈ s.requests[i]?, ∀ id ≤ s.runId,
      ∀ r ∈ s.runs id, r.Over ∧ id < q.1))
  | .run .., _ | .lose _, _ | .main .., _ | .raises _, _ | .popen .., _ | .communicate .., _
  | .sigint .., _ | .kill _, _ | .restore _, _ | .receive _, _ => inferInstanceAs (Decidable True)

/-- The file is that of the latest run, once that has opened it. -/
structure FileInv (s : System) : Prop where
  le : s.latest ≤ s.runId
  owner : ∀ e, s.backup = .stored (some e) → ∃ r, s.runs e.runId = some r ∧ r.Wrote
  others : ∀ id r, s.runs id = some r → id ≠ s.latest → id < s.latest ∧ r.Over
  file : ∀ r, s.runs s.latest = some r → r.FileIs s.backup

theorem fileInv_init : FileInv init := by
  constructor <;> simp [init, runId]

/-- A run that has written stays one. -/
theorem owner_setRun {r r' : Run} (hr : s.runs r.runId = some r) (hid : r'.runId = r.runId)
    (hwrote : r.Wrote → r'.Wrote) {id : Nat} (h : ∃ r, s.runs id = some r ∧ r.Wrote) :
    ∃ r, (s.setRun r').runs id = some r ∧ r.Wrote := by
  obtain ⟨r₀, hr₀, hw⟩ := h
  by_cases heq : id = r.runId
  · subst heq
    cases hr.symm.trans hr₀
    exact ⟨r', hid ▸ runs_setRun_self r', hwrote hw⟩
  · refine ⟨r₀, ?_, hw⟩
    rw [runs_setRun, hid, if_neg heq]
    exact hr₀

/-- The file stays, and a run of which the main thread does not move. -/
theorem FileInv.setRun (h : FileInv s) {r r' : Run} (hr : s.runs r.runId = some r) (hfits : r.Fits)
    (hs : r.Stays r') : FileInv (s.setRun r') := by
  refine ⟨h.le, fun e he => owner_setRun hr hs.runId hs.wrote (h.owner e he), ?_, ?_⟩
  · intro id r'' hrun hne
    rw [runs_setRun] at hrun
    split at hrun
    · next heq =>
      cases hrun
      rw [heq, hs.runId] at hne ⊢
      exact ⟨(h.others _ r hr hne).1, hs.over (h.others _ r hr hne).2⟩
    · exact h.others id r'' hrun hne
  · intro r'' hrun
    rw [runs_setRun] at hrun
    split at hrun
    · next heq =>
      cases hrun
      rw [hs.runId] at heq
      exact hs.fileIs hfits (h.file r (heq ▸ hr))
    · exact h.file r'' hrun

theorem FileInv.print (h : FileInv s) (xs : List Pickled) : FileInv (s.print xs) :=
  ⟨h.le, h.owner, h.others, h.file⟩

theorem FileInv.record (h : FileInv s) (ids : List Nat) (xs : List SuccessfulExecutionResult) :
    FileInv { s with started := ids, executions := xs } :=
  ⟨h.le, h.owner, h.others, h.file⟩

theorem FileInv.complete (h : FileInv s) (hinv : Inv s) {r : Run} (hr : s.runs r.runId = some r)
    (hthread : r.thread = .running) (c : Completed) : FileInv (s.complete r c) :=
  (h.record s.started (s.executions ++ [r.success c])).setRun hr (hinv.runs _ r hr).2.2
    ⟨rfl, rfl, rfl, by simp [hthread], by simp [hthread]⟩

/-- The run that is taken up is now the latest. -/
theorem FileInv.start (h : FileInv s) (hinv : Inv s) {i : Nat} (hok : Ok (.start i) s) :
    FileInv (s.step (.start i)) := by
  cases hi : s.requests[i]? with
  | none => simpa only [step, hi] using h
  | some q =>
    obtain ⟨hlt, hget⟩ := List.getElem?_eq_some_iff.mp hi
    obtain ⟨hgiven, hnone⟩ := hinv.requests q (hget ▸ List.getElem_mem hlt)
    simp only [step, hi]
    refine ⟨hgiven.le, ?_, ?_, ?_⟩
    · intro e he
      obtain ⟨r, hr, hwrote⟩ := h.owner e he
      have hne : e.runId ≠ q.1 := fun heq => by simp [heq, hnone] at hr
      refine ⟨r, ?_, hwrote⟩
      rw [runs_setRun, if_neg (show e.runId ≠ (Run.new q.1 q.2.1 q.2.2).runId from hne)]
      exact hr
    · intro id r hrun hne
      rw [runs_setRun, if_neg (show id ≠ (Run.new q.1 q.2.1 q.2.2).runId from hne)] at hrun
      obtain ⟨hover, hlt⟩ := hok q hi id (hinv.runs id r hrun).2.1.le r hrun
      exact ⟨hlt, hover⟩
    · intro r hrun
      cases (runs_setRun_self (.new q.1 q.2.1 q.2.2)).symm.trans hrun
      trivial

/-- The main thread of the latest run moves on; those of others have ended. -/
theorem FileInv.advance (h : FileInv s) {r r' : Run} (hr : s.runs r.runId = some r)
    (hid : r'.runId = r.runId) (hwrote : r.Wrote → r'.Wrote) {b : Backup}
    (howner : ∀ e, b = .stored (some e) → s.backup = b ∨ e.runId = r.runId ∧ r'.Wrote)
    (hfile : r.FileIs s.backup → r'.FileIs b) (hover : r.Over → r'.Over ∧ b = s.backup) :
    FileInv ({ s with backup := b }.setRun r') := by
  refine ⟨h.le, ?_, ?_, ?_⟩
  · intro e he
    rcases howner e he with hsame | ⟨heq, hw⟩
    · exact owner_setRun (s := { s with backup := b }) hr hid hwrote (h.owner e (hsame.trans he))
    · rw [heq, ← hid]
      exact ⟨r', runs_setRun_self r', hw⟩
  · intro id r'' hrun hne
    rw [runs_setRun, hid] at hrun
    split at hrun
    · next heq =>
      cases hrun
      subst heq
      exact ⟨(h.others _ r hr hne).1, (hover (h.others _ r hr hne).2).1⟩
    · exact h.others id r'' hrun hne
  · intro r'' hrun
    rw [runs_setRun, hid] at hrun
    split at hrun
    · next heq =>
      cases hrun
      exact hfile (h.file r (heq ▸ hr))
    · next hne =>
      have hlatest : r.runId ≠ s.latest := fun heq => hne heq.symm
      rw [(hover (h.others _ r hr hlatest).2).2]
      exact h.file r'' hrun

theorem FileInv.sigint (h : FileInv s) (hinv : Inv s) (id : Nat) (result : Option Completed) :
    FileInv (s.step (.sigint id result)) := by
  cases hr : s.runs id with
  | none => simpa only [step, hr] using h
  | some r =>
    have hrun := hinv.run_eq hr
    by_cases hkilled : r.control.Killed
    · simpa only [step, hr, if_pos hkilled] using h
    simp only [step, hr, if_neg hkilled, sigintHandler]
    cases hthread : r.thread with
    | none => exact h.print _
    | starting => exact h.print _
    | created => exact h
    | running =>
      cases result with
      | none => exact h.print _
      | some c => exact (h.complete hinv hrun hthread c).print _
    | dead =>
      simp only
      split_ifs
      · exact h.print _
      · exact h

theorem fileInv_step (h : FileInv s) (hinv : Inv s) {a : Action} (hok : Ok a s) :
    FileInv (s.step a) := by
  cases a with
  | run cmd timeout =>
    refine ⟨?_, h.owner, h.others, h.file⟩
    have hle := h.le
    simp only [step, System.runId, List.length_append, List.length_singleton] at hle ⊢
    omega
  | lose i => exact ⟨h.le, h.owner, h.others, h.file⟩
  | start i => exact h.start hinv hok
  | main id late =>
    cases hr : s.runs id with
    | none => simpa only [step, hr] using h
    | some r =>
      have hrun := hinv.run_eq hr
      simp only [step, hr]
      refine FileInv.print (h.advance hrun ?_ (Run.Wrote.main late s.backup) ?_
        (Run.FileIs.main late) ?_) _
      · exact (Run.main_spec late (hinv.runs id r hr).2.2 s.backup).1.runId
      · exact fun e he => Run.main_backup (fun x hx => hinv.result_runId hr hx) he
      · intro hover
        rw [hover.main]
        exact ⟨hover, rfl⟩
  | raises id =>
    cases hr : s.runs id with
    | none => simpa only [step, hr] using h
    | some r =>
      by_cases hfile : r.AtFile
      · simp only [step, hr, if_pos hfile]
        have hover : Run.Over { r with control := .failed r.control } := trivial
        have hid : Run.runId { r with control := .failed r.control } = r.runId := rfl
        exact FileInv.print (h.advance (hinv.run_eq hr) hid (fun hwrote => hwrote)
          (fun e he => .inl rfl) Run.FileIs.fail fun _ => ⟨hover, rfl⟩) _
      · simpa only [step, hr, if_neg hfile] using h
  | popen id returns =>
    cases hr : s.runs id with
    | none => simpa only [step, hr] using h
    | some r =>
      by_cases hthread : r.thread = .starting
      · simp only [step, hr, if_pos hthread]
        have hfits := (hinv.runs id r hr).2.2
        cases returns with
        | true =>
          exact (h.record (s.started ++ [id]) s.executions).setRun (hinv.run_eq hr) hfits
            ⟨rfl, rfl, rfl, by simp [hthread], by simp [hthread]⟩
        | false =>
          exact h.setRun (hinv.run_eq hr) hfits
            ⟨rfl, rfl, rfl, by simp [hthread], by simp [hthread]⟩
      · simpa only [step, hr, if_neg hthread] using h
  | communicate id result =>
    cases hr : s.runs id with
    | none => simpa only [step, hr] using h
    | some r =>
      by_cases hthread : r.thread = .running
      · simp only [step, hr, if_pos hthread]
        cases result with
        | some c => exact h.complete hinv (hinv.run_eq hr) hthread c
        | none =>
          exact h.setRun (hinv.run_eq hr) (hinv.runs id r hr).2.2
            ⟨rfl, rfl, rfl, by simp [hthread], by simp [hthread]⟩
      · simpa only [step, hr, if_neg hthread] using h
  | sigint id result => exact h.sigint hinv id result
  | kill id =>
    cases hr : s.runs id with
    | none => simpa only [step, hr] using h
    | some r =>
      simp only [step, hr]
      have hover : r.kill.Over := trivial
      have hid : r.kill.runId = r.runId := rfl
      exact h.advance (hinv.run_eq hr) hid (fun hwrote => hwrote) (fun e he => .inl rfl)
        Run.FileIs.kill fun _ => ⟨hover, rfl⟩
  | restore id => exact h.print _
  | receive i =>
    cases hi : s.outputs[i]? with
    | none => simpa only [step, hi] using h
    | some x =>
      simp only [step, hi]
      split
      · exact ⟨h.le, h.owner, h.others, h.file⟩
      · exact h

/-- What reading the file for the current run tells.  A killed or failed run counts as
being where it was killed or failed. -/
structure Told (s : System) : Prop where
  notStarted : (getResult s.runId (restored s.runId s.backup)).NotStarted → s.runId ∉ s.started
  returns : ∀ c, getResult s.runId (restored s.runId s.backup) = .returns c → s.Own s.runId c
  notStoredYet : getResult s.runId (restored s.runId s.backup) = .raises .resultNotStoredYet →
    ∃ r, s.runs s.runId = some r ∧ r.control.Unstored
  unstored : ∀ r, s.runs s.runId = some r → r.control.Unstored →
    getResult s.runId (restored s.runId s.backup) = .raises .resultNotStoredYet
  emptied : ∀ r, s.runs s.runId = some r →
    r.control.place = .opened ∨ r.control.place = .reopened →
    getResult s.runId (restored s.runId s.backup) = .raises .eofError
  stored : ∀ r, s.runs s.runId = some r →
    r.control.place = .stored ∨ r.control.place = .done →
    getResult s.runId (restored s.runId s.backup) = getResult s.runId (pickled r.result)

/-- A run's own backup never passes for that of another. -/
theorem not_notStarted {r : Run} {b : Backup} (hresult : ∀ x, r.result = some x → x.runId = r.runId)
    (hb : b = .empty ∨ b = r.placeholder ∨ b = .stored (pickled r.result)) :
    ¬ (getResult r.runId (restored r.runId b)).NotStarted := by
  rcases hb with rfl | rfl | rfl
  · simp [restored, getResult, ExecutionResult.runId, LocalEnd.NotStarted]
  · simp [restored, Run.placeholder, getResult, ExecutionResult.runId, LocalEnd.NotStarted]
  · cases hx : r.result with
    | none => simp [restored, pickled, getResult, LocalEnd.NotStarted]
    | some x =>
      simp [restored, pickled, getResult, ExecutionResult.runId, LocalEnd.NotStarted, hresult x hx]

/-- The current run, when it was taken up, was taken up last. -/
theorem FileInv.current (h : FileInv s) {r : Run} (hr : s.runs s.runId = some r) :
    r.FileIs s.backup := by
  by_cases heq : s.runId = s.latest
  · exact h.file r (heq ▸ hr)
  · exact absurd (h.others _ r hr heq).1 (not_lt.mpr h.le)

/-- The placeholder is only read where it was written and not replaced. -/
theorem FileIs.notStoredYet {r : Run} {b : Backup} (hb : r.FileIs b) (hwrote : r.Wrote)
    {cmd : String} (h : b = .stored (some (.failed r.runId cmd .resultNotStoredYet))) :
    r.control.Unstored := by
  subst h
  rcases Run.FileAt.cases hb with ⟨hinit, -⟩ | hb | ⟨hunstored, -⟩ | hb
  · exact absurd hinit hwrote.1
  · cases hb
  · exact hunstored
  · cases hx : r.result <;> simp [pickled, hx] at hb

theorem getResult_notStoredYet {id : Nat} {b : Backup}
    (h : getResult id (restored id b) = .raises .resultNotStoredYet) :
    ∃ cmd, b = .stored (some (.failed id cmd .resultNotStoredYet)) := by
  cases b with
  | notFound => simp [restored, getResult, ExecutionResult.runId] at h
  | empty => simp [restored, getResult, ExecutionResult.runId] at h
  | stored x =>
    cases x with
    | none => simp [restored, getResult] at h
    | some e =>
      by_cases hid : e.runId = id
      · cases e with
        | successful y => simp [restored, getResult, hid] at h
        | failed id' cmd e =>
          simp only [restored, getResult, if_pos hid] at h
          cases hid
          cases LocalEnd.raises.inj h
          exact ⟨cmd, rfl⟩
      · simp [restored, getResult, hid] at h

theorem told (h : Inv s) (hfile : FileInv s) : Told s where
  notStarted hns hmem := by
    obtain ⟨r, hr, hst⟩ := h.ran _ hmem
    obtain ⟨hid, -, hfits⟩ := h.runs _ r hr
    have hth : r.thread ≠ .none := by
      rcases hst with hth | hth <;> simp [hth]
    rw [← hid] at hns
    refine not_notStarted (fun x hx => h.result_runId hr hx) ?_ hns
    rcases Run.FileAt.cases (hfile.current hr) with ⟨-, hnone⟩ | hb | ⟨-, hb⟩ | hb
    · exact absurd hnone hth
    · exact .inl hb
    · exact .inr (.inl hb)
    · exact .inr (.inr hb)
  returns c hc := by
    obtain ⟨y, hy, hid, rfl⟩ := getResult_returns hc
    rw [← hid]
    exact h.own (h.restored _ _ hy y rfl)
  notStoredYet hns := by
    obtain ⟨cmd, hb⟩ := getResult_notStoredYet hns
    obtain ⟨r, hr, hwrote⟩ := hfile.owner _ hb
    have hid : r.runId = s.runId := (h.runs _ r hr).1
    rw [← hid] at hb
    exact ⟨r, hr, FileIs.notStoredYet (hfile.current hr) hwrote hb⟩
  unstored r hr hunstored := by
    have hid : r.runId = s.runId := (h.runs _ r hr).1
    rw [Run.FileAt.of_unstored (hfile.current hr) hunstored, ← hid]
    simp [restored, Run.placeholder, getResult, ExecutionResult.runId]
  emptied r hr hplace := by
    rw [Run.FileAt.of_emptied (hfile.current hr) hplace]
    simp [restored, getResult, ExecutionResult.runId]
  stored r hr hplace := by
    rw [Run.FileAt.of_stored (hfile.current hr) hplace]
    rfl

/-- **The backup.** -/
theorem backup_tells (h : Reaches step Ok init s) : Told s := by
  have hboth : (Inv s ∧ s.Recorded) ∧ FileInv s :=
    h.invariant (I := fun t => (Inv t ∧ t.Recorded) ∧ FileInv t)
      ⟨⟨inv_init, by simp [Recorded, init]⟩, fileInv_init⟩
      fun a _ ht hok => ⟨inv_step ht.1.1 ht.1.2 a, fileInv_step ht.2 ht.1.1 hok⟩
  exact told hboth.1.1 hboth.2

/-- A run is killed when its result is in the file, and the next one did not start. -/
def restarted : List Action :=
  [.run "echo" 0, .start 0, .main 1 false, .main 1 false, .main 1 false, .main 1 false,
    .popen 1 true, .communicate 1 (some echo), .main 1 true, .main 1 true, .main 1 true, .kill 1,
    .restore 1, .receive 0, .run "sleep" 1, .lose 0]

theorem backup_tells_restarted :
    (restarted.foldl (fun s a => step a s) init).returned = [(1, echo)] ∧
      getResult 2 (restored 2 (restarted.foldl (fun s a => step a s) init).backup) =
        .mismatchInRunId ∧
      Told (restarted.foldl (fun s a => step a s) init) :=
  ⟨by decide +kernel, by decide +kernel,
    backup_tells (reaches_of_along restarted .refl (by decide +kernel))⟩

end System

end InteractiveSessions.ShellSubprocess
