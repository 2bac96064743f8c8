import InteractiveSessions.Lib.Prog
import InteractiveSessions.Lib.Runs

/-!
# `msgpythonshell`: the latch of fatal errors

The calls of a started `MsgPythonShell`.  What its client returns or raises, and
what its raw Python shell does, is given by a `ShellEnv`.

* `silent_iff`: after a fatal error nothing more is written, exactly if by then an
  `ExecCommandRequest` has failed for good or an `ExitRequest` was sent, and
  `send_command` is not called.
-/

namespace InteractiveSessions

/-- An exception with its `str`. -/
inductive ShellExc where
  | fatalPythonError (msg : String)
  | terminalClientFatalError (msg : String)
  | terminalClientError (msg : String)
  | timeoutError (msg : String)
  | other (msg : String)
  deriving DecidableEq, Repr

/-- A `FatalPythonError` or a `TerminalClientFatalError`. -/
def ShellExc.isFatal : ShellExc → Bool
  | .fatalPythonError _ | .terminalClientFatalError _ => true
  | .terminalClientError _ | .timeoutError _ | .other _ => false

/-- What the client is called with. -/
inductive ShellMsg where
  | execCommandRequest (cmd : String)
  | serverIdRequest
  | sendCommandRequest (cmd : String)
  | exitRequest
  deriving DecidableEq, Repr

/-- How the call with this number ends. -/
structure ShellEnv where
  /-- `out` or `server_id` of the reply -/
  sendAndReceive : Nat → ShellMsg → Except ShellExc String
  send : Nat → ShellMsg → Except ShellExc Unit
  /-- The methods of `RawPythonShell` -/
  raw : Nat → Except ShellExc String

/-- `_fatalerror` is the text of the `FatalPythonError`.  `log` records the messages
that the client was called with, each with what the client raised. -/
structure MsgPythonShell where
  fatalerror : Option String
  log : List (ShellMsg × Option ShellExc)
  calls : Nat
  deriving DecidableEq, Repr

namespace MsgPythonShell

def written (s : MsgPythonShell) : List ShellMsg := s.log.map Prod.fst

/-- The client has raised a fatal error. -/
def Met (s : MsgPythonShell) : Prop := ∃ x ∈ s.log, ∃ e, x.2 = some e ∧ e.isFatal = true

instance (s : MsgPythonShell) : Decidable s.Met :=
  decidable_of_iff (s.log.any fun x => x.2.any ShellExc.isFatal) (by simp [Met, Option.any_eq_true])

section
variable {α : Type} (env : ShellEnv)

/-- A call of the client with `msg`. -/
def onClient (msg : ShellMsg) (reply : Nat → ShellMsg → Except ShellExc α) :
    Prog ShellExc MsgPythonShell α := fun s =>
  match reply s.calls msg with
  | .ok a => .ret a { s with log := s.log ++ [(msg, none)], calls := s.calls + 1 }
  | .error e => .raised e { s with log := s.log ++ [(msg, some e)], calls := s.calls + 1 }

def onRaw : Prog ShellExc MsgPythonShell String := fun s =>
  match env.raw s.calls with
  | .ok a => .ret a { s with calls := s.calls + 1 }
  | .error e => .raised e { s with calls := s.calls + 1 }

def setFatalerror (msg : String) : Prog ShellExc MsgPythonShell Unit :=
  Prog.modify fun s => { s with fatalerror := some msg }

/-- `_exit_serve` -/
def exitServe : Prog ShellExc MsgPythonShell Unit := onClient .exitRequest env.send

/-- `_fatalerror_handling`: a swallowed exception leaves no value. -/
def fatalerrorHandling (m : Prog ShellExc MsgPythonShell α) :
    Prog ShellExc MsgPythonShell (Option α) :=
  Prog.tryExcept (m >>= fun a => pure (some a)) fun e =>
    match e with
    | .fatalPythonError msg => some (setFatalerror msg >>= fun _ => Prog.raise e)
    | .terminalClientFatalError msg => some (setFatalerror msg >>= fun _ => Prog.raise e)
    | .terminalClientError _ | .timeoutError _ => none
    | .other msg => some do
      setFatalerror msg
      exitServe env
      pure none

/-- `str` of a `FatalPythonError` -/
def fatalStr (msg : String) : String := "FatalPythonError: " ++ msg

/-- `exec_command`, which has no value if and only if the exception was swallowed. -/
def execCommand (cmd : String) : Prog ShellExc MsgPythonShell (Option String) := do
  let fatalerror ← Prog.gets fun s => s.fatalerror
  let ret ← match fatalerror with
    | none => fatalerrorHandling env (onClient (.execCommandRequest cmd) env.sendAndReceive)
    | some _ => pure none
  let fatalerror ← Prog.gets fun s => s.fatalerror
  pure (match fatalerror with
    | none => ret
    | some msg => some (fatalStr msg))

def getPromptFromTerminal : Prog ShellExc MsgPythonShell String := do
  let fatalerror ← Prog.gets fun s => s.fatalerror
  match fatalerror with
  | none => onClient .serverIdRequest env.sendAndReceive
  | some _ => onRaw env

def sendCommand (cmd : String) : Prog ShellExc MsgPythonShell Unit :=
  onClient (.sendCommandRequest cmd) env.send

def exit : Prog ShellExc MsgPythonShell Unit := do
  let fatalerror ← Prog.gets fun s => s.fatalerror
  match fatalerror with
  | none => do
    exitServe env
    setFatalerror "Python server stopped"
  | some _ => pure ()
  let _ ← onRaw env

end

/-! ## Runs -/

inductive Call where
  | execCommand (cmd : String)
  | getPromptFromTerminal
  | sendCommand (cmd : String)
  | exit
  deriving DecidableEq, Repr

/-- A call; what it returns does not matter. -/
def perform (env : ShellEnv) : Call → MsgPythonShell → MsgPythonShell
  | .execCommand cmd, s => (execCommand env cmd s).state s
  | .getPromptFromTerminal, s => (getPromptFromTerminal env s).state s
  | .sendCommand cmd, s => (sendCommand env cmd s).state s
  | .exit, s => (exit env s).state s

/-- A started shell. -/
def started : MsgPythonShell := ⟨none, [], 0⟩

/-- After a fatal error nothing is written. -/
def Silent (env : ShellEnv) (a : Call) (s : MsgPythonShell) : Prop :=
  s.Met → (perform env a s).written = s.written

/-- An `ExecCommandRequest` that has ended with another exception than a timeout or a
`TerminalClientError`, or an `ExitRequest` that was sent. -/
def Closing : ShellMsg × Option ShellExc → Prop
  | (.execCommandRequest _, some e) => e.isFatal = true ∨ ∃ msg, e = .other msg
  | (.exitRequest, none) => True
  | _ => False

/-- Once the client has raised a fatal error, one of its calls was a closing one, and
`send_command` is not called. -/
def Closed (a : Call) (s : MsgPythonShell) : Prop :=
  s.Met → (∃ x ∈ s.log, Closing x) ∧ ∀ cmd, a ≠ .sendCommand cmd

section
variable {env : ShellEnv} {s : MsgPythonShell}

theorem onClient_log {α : Type} (msg : ShellMsg) (reply : Nat → ShellMsg → Except ShellExc α) :
    ∃ r, ((onClient msg reply s).state s).log = s.log ++ [(msg, r)] := by
  unfold onClient
  cases reply s.calls msg with
  | ok a => exact ⟨none, rfl⟩
  | error e => exact ⟨some e, rfl⟩

theorem onRaw_log : ((onRaw env s).state s).log = s.log := by
  unfold onRaw
  cases env.raw s.calls <;> rfl

theorem written_of_log {t : MsgPythonShell} (h : t.log = s.log) : t.written = s.written :=
  congrArg (List.map Prod.fst) h

theorem written_ne_of_log {t : MsgPythonShell} {l : List (ShellMsg × Option ShellExc)}
    (h : t.log = s.log ++ l) (hl : l ≠ []) : t.written ≠ s.written := by
  intro heq
  have hlength := congrArg List.length heq
  simp only [written, h, List.map_append, List.length_append, List.length_map] at hlength
  exact hl (List.length_eq_zero_iff.mp (by omega))

/-! ## With the latch set -/

/-- With the latch set only `send_command` gets to the client. -/
theorem log_of_latched {msg : String} (h : s.fatalerror = some msg) {a : Call}
    (ha : ∀ cmd, a ≠ .sendCommand cmd) : (perform env a s).log = s.log := by
  cases a with
  | execCommand cmd => simp [perform, execCommand, Prog.bind_run, h, Outcome.state]
  | getPromptFromTerminal =>
    simp only [perform, getPromptFromTerminal, Prog.bind_run, Prog.gets_run, h]
    exact onRaw_log
  | sendCommand cmd => exact absurd rfl (ha cmd)
  | exit =>
    have hraw : ((onRaw env s).state s).log = s.log := onRaw_log
    simp only [perform, exit, Prog.bind_run, Prog.gets_run, h, Prog.pure_run]
    cases hend : onRaw env s <;> rw [hend] at hraw <;> exact hraw

theorem written_of_latched {msg : String} (h : s.fatalerror = some msg) (a : Call) :
    (perform env a s).written = s.written ↔ ∀ cmd, a ≠ .sendCommand cmd := by
  constructor
  · rintro hwritten cmd rfl
    obtain ⟨r, hr⟩ := onClient_log (s := s) (.sendCommandRequest cmd) env.send
    exact written_ne_of_log hr (List.cons_ne_nil _ _) hwritten
  · exact fun ha => written_of_log (log_of_latched h ha)

/-- The latch stays set. -/
theorem fatalerror_of_latched {msg : String} (h : s.fatalerror = some msg) (a : Call) :
    (perform env a s).fatalerror = some msg := by
  have hraw : ((onRaw env s).state s).fatalerror = some msg := by
    unfold onRaw
    cases env.raw s.calls <;> exact h
  cases a with
  | execCommand cmd => simp [perform, execCommand, Prog.bind_run, h, Outcome.state]
  | getPromptFromTerminal =>
    simp only [perform, getPromptFromTerminal, Prog.bind_run, Prog.gets_run, h]
    exact hraw
  | sendCommand cmd =>
    cases hsend : env.send s.calls (.sendCommandRequest cmd) <;>
      simp [perform, sendCommand, onClient, hsend, Outcome.state, h]
  | exit =>
    simp only [perform, exit, Prog.bind_run, Prog.gets_run, h, Prog.pure_run]
    cases hend : onRaw env s <;> rw [hend] at hraw <;> exact hraw

/-! ## Without it -/

/-- The call gets to the client, and sets the latch if one of its messages is closing. -/
def Writes (env : ShellEnv) (a : Call) (s : MsgPythonShell) : Prop :=
  ∃ l, l ≠ [] ∧ (perform env a s).log = s.log ++ l ∧
    ((perform env a s).fatalerror.isSome = true ↔ ∃ x ∈ l, Closing x)

theorem writes_execCommand (h : s.fatalerror = none) (cmd : String) :
    Writes env (.execCommand cmd) s := by
  cases hreply : env.sendAndReceive s.calls (.execCommandRequest cmd) with
  | ok out =>
    refine ⟨[(.execCommandRequest cmd, none)], List.cons_ne_nil _ _, ?_, ?_⟩ <;>
      simp [perform, execCommand, fatalerrorHandling, onClient, Prog.bind_run, Prog.tryExcept, h,
        hreply, Outcome.state, Closing]
  | error e =>
    by_cases hother : ∃ msg, e = .other msg
    · obtain ⟨msg, rfl⟩ := hother
      -- The server is asked to exit.
      cases hsend : env.send (s.calls + 1) .exitRequest with
      | ok a =>
        refine ⟨[(.execCommandRequest cmd, some (.other msg)), (.exitRequest, none)],
          List.cons_ne_nil _ _, ?_, ?_⟩ <;>
          simp [perform, execCommand, fatalerrorHandling, onClient, exitServe, setFatalerror,
            Prog.bind_run, Prog.tryExcept, h, hreply, hsend, Outcome.state, Closing]
      | error e =>
        refine ⟨[(.execCommandRequest cmd, some (.other msg)), (.exitRequest, some e)],
          List.cons_ne_nil _ _, ?_, ?_⟩ <;>
          simp [perform, execCommand, fatalerrorHandling, onClient, exitServe, setFatalerror,
            Prog.bind_run, Prog.tryExcept, h, hreply, hsend, Outcome.state, Closing]
    · refine ⟨[(.execCommandRequest cmd, some e)], List.cons_ne_nil _ _, ?_, ?_⟩
      all_goals
        cases e with
        | other msg => exact absurd ⟨msg, rfl⟩ hother
        | _ =>
          simp [perform, execCommand, fatalerrorHandling, onClient, setFatalerror, Prog.bind_run,
            Prog.tryExcept, h, hreply, Outcome.state, Closing, ShellExc.isFatal]

theorem writes_exit (h : s.fatalerror = none) : Writes env .exit s := by
  cases hsend : env.send s.calls .exitRequest with
  | ok a =>
    refine ⟨[(.exitRequest, none)], List.cons_ne_nil _ _, ?_, ?_⟩ <;>
      cases hraw : env.raw (s.calls + 1) <;>
      simp [perform, exit, exitServe, setFatalerror, onClient, onRaw, Prog.bind_run, h, hsend, hraw,
        Outcome.state, Closing]
  | error e =>
    refine ⟨[(.exitRequest, some e)], List.cons_ne_nil _ _, ?_, ?_⟩ <;>
      simp [perform, exit, exitServe, onClient, Prog.bind_run, h, hsend, Outcome.state, Closing]

/-- A call of the client with a message that closes nothing. -/
theorem writes_onClient {α : Type} {a : Call} {msg : ShellMsg}
    {reply : Nat → ShellMsg → Except ShellExc α} (h : s.fatalerror = none)
    (hperform : perform env a s = (onClient msg reply s).state s)
    (hclosing : ∀ r, ¬ Closing (msg, r)) : Writes env a s := by
  obtain ⟨r, hlog⟩ := onClient_log (s := s) msg reply
  have hlatch : ((onClient msg reply s).state s).fatalerror = none := by
    unfold onClient
    cases reply s.calls msg <;> exact h
  refine ⟨[(msg, r)], List.cons_ne_nil _ _, hperform ▸ hlog, ?_⟩
  rw [hperform, hlatch]
  refine iff_of_false nofun ?_
  rintro ⟨x, hx, hx'⟩
  cases List.mem_singleton.mp hx
  exact hclosing r hx'

variable (env) in
theorem writes_of_not_latched (h : s.fatalerror = none) (a : Call) : Writes env a s := by
  cases a with
  | execCommand cmd => exact writes_execCommand h cmd
  | getPromptFromTerminal =>
    have hperform : perform env .getPromptFromTerminal s =
        (onClient .serverIdRequest env.sendAndReceive s).state s := by
      simp only [perform, getPromptFromTerminal, Prog.bind_run, Prog.gets_run, h]
    exact writes_onClient h hperform fun r hr => by cases r <;> exact hr
  | sendCommand cmd =>
    exact writes_onClient h rfl fun r hr => by cases r <;> exact hr
  | exit => exact writes_exit h

/-! ## Which calls latch -/

/-- **Invariant.**  The latch is set exactly when a call of the client was a closing one. -/
def LatchInv (s : MsgPythonShell) : Prop :=
  s.fatalerror.isSome = true ↔ ∃ x ∈ s.log, Closing x

theorem latchInv_step (a : Call) (h : s.LatchInv) : (perform env a s).LatchInv := by
  cases hlatch : s.fatalerror with
  | some msg =>
    obtain ⟨x, hx, hclosing⟩ := h.mp (hlatch ▸ rfl)
    refine iff_of_true (by rw [fatalerror_of_latched hlatch a]; rfl) ⟨x, ?_, hclosing⟩
    by_cases ha : ∃ cmd, a = .sendCommand cmd
    · obtain ⟨cmd, rfl⟩ := ha
      obtain ⟨r, hr⟩ := onClient_log (s := s) (.sendCommandRequest cmd) env.send
      exact hr ▸ List.mem_append_left _ hx
    · rw [log_of_latched hlatch fun cmd heq => ha ⟨cmd, heq⟩]
      exact hx
  | none =>
    obtain ⟨l, -, hlog, hset⟩ := writes_of_not_latched env hlatch a
    have hnone : ¬ ∃ x ∈ s.log, Closing x := fun hx => by
      have hset := h.mpr hx
      rw [hlatch] at hset
      cases hset
    unfold LatchInv
    rw [hset, hlog]
    constructor
    · rintro ⟨x, hx, hclosing⟩
      exact ⟨x, List.mem_append_right _ hx, hclosing⟩
    · rintro ⟨x, hx, hclosing⟩
      rcases List.mem_append.mp hx with hx | hx
      · exact absurd ⟨x, hx, hclosing⟩ hnone
      · exact ⟨x, hx, hclosing⟩

/-- **Step.** -/
theorem silent_step (h : s.LatchInv) (a : Call) : Silent env a s ↔ Closed a s := by
  have hiff : s.fatalerror.isSome = true ↔ ∃ x ∈ s.log, Closing x := h
  refine imp_congr_right fun _ => ?_
  rw [← hiff]
  cases hlatch : s.fatalerror with
  | none =>
    obtain ⟨l, hl, hlog, -⟩ := writes_of_not_latched env hlatch a
    exact iff_of_false (written_ne_of_log hlog hl) fun hs => Bool.false_ne_true hs.1
  | some msg =>
    exact (written_of_latched hlatch a).trans ⟨fun hs => ⟨rfl, hs⟩, fun hs => hs.2⟩

end

/-- **Run.**  After a fatal error no call writes, exactly if by then a call of the client was
a closing one, and none is `send_command`. -/
theorem silent_iff (env : ShellEnv) (calls : List Call) :
    Along (perform env) (Silent env) calls started ↔ Along (perform env) Closed calls started :=
  along_congr (fun a _ h => latchInv_step a h) (fun a _ h => silent_step h a) calls
    (iff_of_false Bool.false_ne_true (by simp [started]))

/-- The server is gone when `get_prompt_from_terminal` asks for its id. -/
def serverGone : ShellEnv where
  sendAndReceive n _ := if n = 0 then .error (.fatalPythonError "") else .ok ""
  send _ _ := .ok ()
  raw _ := .ok ""

/-- **A fatal error without the latch.**  `exec_command` writes after it. -/
theorem not_silent_serverGone :
    ¬ Along (perform serverGone) (Silent serverGone)
      [.getPromptFromTerminal, .execCommand "s = 0"] started := by
  intro h
  have hwritten := h.2.1 (by decide +kernel)
  revert hwritten
  decide +kernel

end MsgPythonShell

end InteractiveSessions
