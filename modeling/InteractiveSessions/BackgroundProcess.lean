import InteractiveSessions.Lib.Runs
import InteractiveSessions.Process

/-!
# `_process`: waiting for a background process and killing it

After `run()` the callers have the process itself.  Each call of
`wait_background_execution` and `kill_background_execution` brings the replies of its
remote steps, and the pools as the other processes have left them.

`settled_of_ok`: as long as no call kills a process that has a result, every call after
the first result returns this result and does nothing else.
-/

namespace InteractiveSessions

/-- What a background process does to the remote process, to its response and to the share
of its terminal. -/
inductive BackgroundEvent where
  | signal (sig : Nat)
  | query (handle : Nat) (timeout : ℚ)
  | decrShared
  deriving DecidableEq

/-- `process` has the terminal and the pools, and `events` is what was done so far. -/
structure BackgroundProcess (κ : Type) where
  process : Process κ
  handle : Nat
  result : Option RunResult
  terminationTimeout : ℚ
  isPersistent : Bool
  events : List BackgroundEvent

namespace BackgroundProcess

variable {κ α : Type}

def onProcess (m : Prog (ProcessExc κ) (Process κ) α) :
    Prog (ProcessExc κ) (BackgroundProcess κ) α :=
  Prog.zoom process (fun process s => { s with process }) m

def log (event : BackgroundEvent) : Prog (ProcessExc κ) (BackgroundProcess κ) Unit :=
  Prog.modify fun s => { s with events := s.events ++ [event] }

/-- `signal.SIGTERM` -/
def sigterm : Nat := 15

/-- `_kill_and_raise_or_return_handle` -/
def killAndRaiseOrReturnHandle (handle sig : Nat) (r : KillReplies) :
    Prog (ProcessExc κ) (BackgroundProcess κ) Nat :=
  Prog.tryExcept
    (do
      log (.signal sig)
      onProcess (Process.kill r)
      let terminationTimeout ← Prog.gets fun s : BackgroundProcess κ => s.terminationTimeout
      log (.query handle terminationTimeout)
      let result ← onProcess (Process.getResult r.response r.returncode)
      Prog.raise (.runnerTimeout (some result)))
    fun
    | .remote (.remoteTimeout handle) => some (pure handle)
    | _ => none

/-- The remote steps of a `kill_background_execution`. -/
structure KillRun where
  sigterm : KillReplies
  sigkill : KillReplies
  killedPid : Except RemoteExc Nat

section
variable [DecidableEq κ]

/-- `_kill_run_and_raise` -/
def killRunAndRaise (handle : Nat) (r : KillRun) :
    Prog (ProcessExc κ) (BackgroundProcess κ) RunResult := do
  let handle ← killAndRaiseOrReturnHandle handle sigterm r.sigterm
  let handle ← killAndRaiseOrReturnHandle handle 9 r.sigkill
  let pid ← onProcess (Process.remote r.killedPid)
  let t ← onProcess Process.selfTerminal
  onProcess (Process.onPools (TerminalPools.remove t))
  Prog.raise (.failedToKillProcess pid handle)

/-- `self.terminalpools.decr_shared(self.terminal)` -/
def decrShared : Prog (ProcessExc κ) (BackgroundProcess κ) Unit := do
  log .decrShared
  let isPersistent ← Prog.gets fun s : BackgroundProcess κ => s.isPersistent
  onProcess do
    let t ← Process.selfTerminal
    Process.onPools (TerminalPools.decrShared t isPersistent)

/-- Both methods set `result` and then give the share back. -/
def setResult (result : RunResult) : Prog (ProcessExc κ) (BackgroundProcess κ) RunResult := do
  Prog.modify fun s => { s with result := some result }
  decrShared
  pure result

def waitBackgroundExecution (timeout : ℚ) (response : Except RemoteExc (Bytes × Bytes))
    (returncode : Except RemoteExc Int) :
    Prog (ProcessExc κ) (BackgroundProcess κ) RunResult := do
  let s ← Prog.gets fun s : BackgroundProcess κ => s
  match s.result with
  | none => do
    log (.query s.handle timeout)
    let result ← onProcess (Process.getResult response returncode)
    setResult result
  | some result => pure result

/-- The `RunnerTimeout` that is caught has a result. -/
def killBackgroundExecution (r : KillRun) :
    Prog (ProcessExc κ) (BackgroundProcess κ) RunResult := do
  let handle ← Prog.gets fun s : BackgroundProcess κ => s.handle
  Prog.tryExcept (killRunAndRaise handle r) fun
    | .runnerTimeout (some result) => some (setResult result)
    | _ => none

end

/-! ## The process without its events -/

/-- `m` does to the process what `m'` does. -/
def Does (m : Prog (ProcessExc κ) (BackgroundProcess κ) α)
    (m' : Prog (ProcessExc κ) (Process κ) α) : Prop :=
  ∀ s, match m s with
    | .ret a t => m' s.process = .ret a t.process
    | .raised e t => m' s.process = .raised e t.process
    | .hang => m' s.process = .hang

theorem does_onProcess (m : Prog (ProcessExc κ) (Process κ) α) : Does (onProcess m) m := by
  intro s
  unfold onProcess Prog.zoom
  cases m s.process <;> rfl

theorem does_log_bind {event : BackgroundEvent}
    {f : Unit → Prog (ProcessExc κ) (BackgroundProcess κ) α}
    {m' : Prog (ProcessExc κ) (Process κ) α} (h : Does (f ()) m') : Does (log event >>= f) m' :=
  fun s => h { s with events := s.events ++ [event] }

theorem does_gets_bind {β : Type} {g : BackgroundProcess κ → β}
    {f : β → Prog (ProcessExc κ) (BackgroundProcess κ) α}
    {m' : Prog (ProcessExc κ) (Process κ) α} (h : ∀ b, Does (f b) m') :
    Does (Prog.gets g >>= f) m' :=
  fun s => h (g s) s

theorem Does.bind {β : Type} {m : Prog (ProcessExc κ) (BackgroundProcess κ) α}
    {m' : Prog (ProcessExc κ) (Process κ) α}
    {f : α → Prog (ProcessExc κ) (BackgroundProcess κ) β}
    {f' : α → Prog (ProcessExc κ) (Process κ) β} (hm : Does m m') (hf : ∀ a, Does (f a) (f' a)) :
    Does (m >>= f) (m' >>= f') := by
  intro s
  have hs := hm s
  rw [Prog.bind_run]
  cases hrun : m s with
  | ret a t =>
    rw [hrun] at hs
    rw [Prog.bind_ret hs]
    exact hf a t
  | raised e t =>
    rw [hrun] at hs
    exact Prog.bind_raised hs
  | hang =>
    rw [hrun] at hs
    exact Prog.bind_hang hs

theorem Does.tryExcept {m : Prog (ProcessExc κ) (BackgroundProcess κ) α}
    {m' : Prog (ProcessExc κ) (Process κ) α}
    {handler : ProcessExc κ → Option (Prog (ProcessExc κ) (BackgroundProcess κ) α)}
    {handler' : ProcessExc κ → Option (Prog (ProcessExc κ) (Process κ) α)} (hm : Does m m')
    (hh : ∀ e, handler e = none ∧ handler' e = none ∨
      ∃ p p', handler e = some p ∧ handler' e = some p' ∧ Does p p') :
    Does (Prog.tryExcept m handler) (Prog.tryExcept m' handler') := by
  intro s
  have hs := hm s
  cases hrun : m s with
  | ret a t =>
    rw [hrun] at hs
    rw [Prog.tryExcept_ret hrun]
    exact Prog.tryExcept_ret hs
  | raised e t =>
    rw [hrun] at hs
    rcases hh e with ⟨hnone, hnone'⟩ | ⟨p, p', hp, hp', hdoes⟩
    · rw [Prog.tryExcept_uncaught hrun hnone]
      exact Prog.tryExcept_uncaught hs hnone'
    · rw [Prog.tryExcept_caught hrun hp, Prog.tryExcept_caught hs hp']
      exact hdoes t
  | hang =>
    rw [hrun] at hs
    rw [Prog.tryExcept_hang hrun]
    exact Prog.tryExcept_hang hs

/-- A round does what the round of any process does. -/
theorem does_round (handle sig : Nat) (r : KillReplies) :
    Does (killAndRaiseOrReturnHandle handle sig r : Prog _ (BackgroundProcess κ) _)
      (Process.killAndRaiseOrReturnHandle r) := by
  apply Does.tryExcept
  · apply does_log_bind
    apply Does.bind (does_onProcess _)
    intro _
    apply does_gets_bind
    intro timeout
    apply does_log_bind
    apply Does.bind (does_onProcess _)
    intro result s
    rfl
  · intro e
    match e with
    | .remote (.remoteTimeout handle) => exact .inr ⟨_, _, rfl, rfl, fun _ => rfl⟩
    | .remote (.osError errno) => exact .inl ⟨rfl, rfl⟩
    | .remote .other => exact .inl ⟨rfl, rfl⟩
    | .runnerTimeout result => exact .inl ⟨rfl, rfl⟩
    | .failedToKillProcess pid handle => exact .inl ⟨rfl, rfl⟩
    | .terminalPools e => exact .inl ⟨rfl, rfl⟩
    | .attributeError => exact .inl ⟨rfl, rfl⟩

/-- A background process is killed as any other one. -/
theorem does_killRunAndRaise [DecidableEq κ] (handle : Nat) (e : RunEnv κ) :
    Does (killRunAndRaise handle
        ⟨e.replies.sigterm, e.replies.sigkill, e.replies.killedPid⟩)
      (Process.killRunAndRaise e) := by
  apply Does.bind (does_round _ _ _)
  intro handle
  apply Does.bind (does_round _ _ _)
  intro handle
  apply Does.bind (does_onProcess _)
  intro pid
  apply Does.bind (does_onProcess _)
  intro t
  apply Does.bind (does_onProcess _)
  intro _ s
  rfl

/-! ## Calls -/

/-- A call, with what the remote steps reply and the pools at that time. -/
inductive Call (κ : Type) where
  | wait (pools : TerminalPools κ) (timeout : ℚ) (response : Except RemoteExc (Bytes × Bytes))
      (returncode : Except RemoteExc Int)
  | kill (pools : TerminalPools κ) (r : KillRun)

namespace Call

variable [DecidableEq κ]

def outcome (c : Call κ) (s : BackgroundProcess κ) :
    Outcome (ProcessExc κ) (BackgroundProcess κ) RunResult :=
  match c with
  | .wait pools timeout response returncode =>
    waitBackgroundExecution timeout response returncode
      { s with process := { s.process with pools } }
  | .kill pools r => killBackgroundExecution r { s with process := { s.process with pools } }

/-- A call, where `x.2` is the first result that was returned. -/
def step (c : Call κ) (x : BackgroundProcess κ × Option RunResult) :
    BackgroundProcess κ × Option RunResult :=
  ((c.outcome x.1).state x.1, x.2 <|> (c.outcome x.1).value?)

/-- After the first result a call returns this result and does nothing, and the share was
given back once. -/
def Settled (c : Call κ) (x : BackgroundProcess κ × Option RunResult) : Prop :=
  (∀ result, x.2 = some result →
      ∃ s, c.outcome x.1 = .ret result s ∧ s.events = x.1.events) ∧
    ((c.step x).2 ≠ none → (c.step x).1.events.count .decrShared = 1)

/-- A process that has a result is not killed. -/
def Ok (c : Call κ) (x : BackgroundProcess κ × Option RunResult) : Prop :=
  match c with
  | .wait .. => True
  | .kill .. => x.1.result = none

end Call

/-- What `run()` returns. -/
def started (process : Process κ) (handle : Nat) (terminationTimeout : ℚ) (isPersistent : Bool) :
    BackgroundProcess κ where
  process
  handle
  result := none
  terminationTimeout
  isPersistent
  events := []

/-! ## One call -/

/-- There is no result, and the share was not given back. -/
def PendingOn (result : Option RunResult) (events : List BackgroundEvent) : Prop :=
  result = none ∧ events.count .decrShared = 0

def Pending (s : BackgroundProcess κ) : Prop := PendingOn s.result s.events

/-- There is a result, and the share was given back once. -/
def Recorded (result : RunResult) (s : BackgroundProcess κ) : Prop :=
  s.result = some result ∧ s.events.count .decrShared = 1

/-- The result and the events are apart from the process and its terminal. -/
theorem keeps_onProcess (P : Option RunResult → List BackgroundEvent → Prop)
    (m : Prog (ProcessExc κ) (Process κ) α) :
    Prog.Keeps (fun s : BackgroundProcess κ => P s.result s.events) (onProcess m) := by
  intro s hs
  unfold onProcess Prog.zoom
  cases m s.process with
  | ret a t => exact hs
  | raised e t => exact hs
  | hang => trivial

section
variable {P : Option RunResult → List BackgroundEvent → Prop}
  (hP : ∀ result events event, event ≠ .decrShared → P result events → P result (events ++ [event]))
include hP

theorem keeps_log {event : BackgroundEvent} (h : event ≠ .decrShared) :
    Prog.Keeps (fun s : BackgroundProcess κ => P s.result s.events)
      (log event : Prog (ProcessExc κ) _ _) := by
  apply Prog.keeps_modify
  intro s hs
  exact hP s.result s.events event h hs

/-- A round starts with a signal. -/
theorem triple_round {P₀ : BackgroundProcess κ → Prop} (handle sig : Nat) (r : KillReplies)
    (h : ∀ s, P₀ s → P s.result (s.events ++ [.signal sig])) :
    Prog.Triple P₀ (killAndRaiseOrReturnHandle handle sig r) (fun _ s => P s.result s.events)
      fun _ s => P s.result s.events := by
  refine Prog.Triple.tryExcept (E := fun _ s => P s.result s.events) ?_ ?_ fun _ _ _ => id
  · apply Prog.Triple.modify_bind fun s : BackgroundProcess κ => P s.result s.events
    · apply Prog.Keeps.bind (keeps_onProcess P _)
      intro _
      apply Prog.keeps_gets_bind
      intro terminationTimeout
      apply Prog.Keeps.bind (keeps_log hP (by simp))
      intro _
      apply Prog.Keeps.bind (keeps_onProcess P _)
      intro result
      exact Prog.keeps_raise
    · exact h
  · intro e p hp
    split at hp
    · cases hp
      exact Prog.keeps_pure
    · cases hp

/-- `_kill_run_and_raise` leaves the result and the share to its caller. -/
theorem triple_killRunAndRaise [DecidableEq κ] {P₀ : BackgroundProcess κ → Prop} (handle : Nat)
    (r : KillRun) (h : ∀ s, P₀ s → P s.result (s.events ++ [.signal sigterm])) :
    Prog.Triple P₀ (killRunAndRaise handle r) (fun _ s => P s.result s.events)
      fun _ s => P s.result s.events := by
  apply Prog.Triple.bind (triple_round hP _ _ _ h)
  intro handle
  apply Prog.Keeps.bind
  · apply triple_round hP
    intro s hs
    exact hP s.result s.events _ (by simp) hs
  · intro handle
    apply Prog.Keeps.bind (keeps_onProcess P _)
    intro pid
    apply Prog.Keeps.bind (keeps_onProcess P _)
    intro t
    apply Prog.Keeps.bind (keeps_onProcess P _)
    intro _
    exact Prog.keeps_raise

end

theorem pendingOn_log (result : Option RunResult) (events : List BackgroundEvent)
    (event : BackgroundEvent) (h : event ≠ .decrShared) (hs : PendingOn result events) :
    PendingOn result (events ++ [event]) := by
  refine ⟨hs.1, ?_⟩
  rw [List.count_append, hs.2, List.count_singleton, if_neg (by simpa using h)]

variable [DecidableEq κ]

/-- `_kill_run_and_raise` never returns. -/
theorem killRunAndRaise_ne_ret (handle : Nat) (r : KillRun) (s s' : BackgroundProcess κ)
    (result : RunResult) : killRunAndRaise handle r s ≠ .ret result s' := by
  intro h
  obtain ⟨_, _, -, h⟩ := Prog.ret_of_bind h
  obtain ⟨_, _, -, h⟩ := Prog.ret_of_bind h
  obtain ⟨_, _, -, h⟩ := Prog.ret_of_bind h
  obtain ⟨_, _, -, h⟩ := Prog.ret_of_bind h
  obtain ⟨_, _, -, h⟩ := Prog.ret_of_bind h
  cases h

/-- The result is set and the share given back, whether `decr_shared` raises or not. -/
theorem triple_setResult (result : RunResult) :
    Prog.Triple Pending (setResult result : Prog _ (BackgroundProcess κ) _)
      (fun returned s => returned = result ∧ Recorded result s) fun _ => Recorded result := by
  have honProcess : ∀ {α : Type} (m : Prog (ProcessExc κ) (Process κ) α),
      Prog.Keeps (Recorded result) (onProcess m) := fun m =>
    keeps_onProcess (fun r events => r = some result ∧ events.count .decrShared = 1) m
  have hdecr : Prog.Triple
      (fun s : BackgroundProcess κ => s.result = some result ∧ s.events.count .decrShared = 0)
      decrShared (fun _ => Recorded result) fun _ => Recorded result := by
    apply Prog.Triple.modify_bind (Recorded result)
    · apply Prog.keeps_gets_bind
      intro isPersistent
      exact honProcess _
    · rintro s ⟨hresult, hcount⟩
      refine ⟨hresult, ?_⟩
      rw [List.count_append, hcount]
      rfl
  apply Prog.Triple.modify_bind
    fun s : BackgroundProcess κ => s.result = some result ∧ s.events.count .decrShared = 0
  · apply Prog.Triple.bind hdecr
    intro _ s hs
    exact ⟨rfl, hs⟩
  · rintro s ⟨-, hcount⟩
    exact ⟨rfl, hcount⟩

/-- The end of a call of a process without a result. -/
def Ends (o : Outcome (ProcessExc κ) (BackgroundProcess κ) RunResult) : Prop :=
  Prog.Meets True Recorded (fun _ s => Pending s ∨ ∃ result, Recorded result s) o

omit [DecidableEq κ] in
theorem ends_of_triple {m : Prog (ProcessExc κ) (BackgroundProcess κ) RunResult}
    (h : Prog.Triple Pending m Recorded fun _ s => Pending s ∨ ∃ result, Recorded result s)
    {s : BackgroundProcess κ} (hs : Pending s) : Ends (m s) := Prog.settles_true.mpr h s hs

theorem triple_setResult_ends (result : RunResult) :
    Prog.Triple Pending (setResult result : Prog _ (BackgroundProcess κ) _) Recorded
      fun _ s => Pending s ∨ ∃ result, Recorded result s := by
  apply (triple_setResult result).mono (fun _ => id)
  · rintro returned s ⟨rfl, hs⟩
    exact hs
  · intro _ s hs
    exact .inr ⟨result, hs⟩

theorem ends_wait {s : BackgroundProcess κ} (hs : Pending s) (timeout : ℚ)
    (response : Except RemoteExc (Bytes × Bytes)) (returncode : Except RemoteExc Int) :
    Ends (waitBackgroundExecution timeout response returncode s) := by
  rw [waitBackgroundExecution, Prog.bind_ret (Prog.gets_run _ s), hs.1]
  refine ends_of_triple ?_ hs
  apply Prog.Triple.bind (Q := fun _ => Pending)
  · exact (keeps_log pendingOn_log (by simp)).mono (fun _ => id) (fun _ _ => id) fun _ _ => .inl
  · intro _
    apply Prog.Triple.bind (Q := fun _ => Pending)
    · exact (keeps_onProcess PendingOn _).mono (fun _ => id) (fun _ _ => id) fun _ _ => .inl
    · exact triple_setResult_ends

theorem ends_kill {s : BackgroundProcess κ} (hs : Pending s) (r : KillRun) :
    Ends (killBackgroundExecution r s) := by
  refine ends_of_triple ?_ hs
  apply Prog.Triple.gets_bind
  intro handle
  refine Prog.Triple.tryExcept (E := fun _ => Pending) ?_ ?_ ?_
  · intro s hs
    have hkeeps := triple_killRunAndRaise pendingOn_log handle r
      (fun t ht => pendingOn_log t.result t.events _ (by simp) ht) s hs.1
    cases hrun : killRunAndRaise handle r s with
    | ret result s' => exact absurd hrun (killRunAndRaise_ne_ret handle r s s' result)
    | raised e s' =>
      rw [hrun] at hkeeps
      exact hkeeps
    | hang => trivial
  · intro e p hp
    split at hp
    · cases hp
      exact triple_setResult_ends _
    · cases hp
  · intro e s _ hs
    exact .inl hs

theorem keeps_setResult (events : List BackgroundEvent) (result : RunResult) :
    Prog.Keeps (fun s : BackgroundProcess κ => events <+: s.events) (setResult result) := by
  apply Prog.Triple.modify_bind fun s : BackgroundProcess κ => events <+: s.events
  · apply Prog.Keeps.bind
    · apply Prog.Keeps.bind
      · apply Prog.keeps_modify
        intro s hs
        exact hs.trans (List.prefix_append s.events _)
      · intro _
        apply Prog.keeps_gets_bind
        intro isPersistent
        exact keeps_onProcess (fun _ log => events <+: log) _
    · intro _
      exact Prog.keeps_pure
  · intro s hs
    exact hs

/-- A kill starts with a signal, whether there is a result or not. -/
theorem signal_of_kill (r : KillRun) (s : BackgroundProcess κ) :
    (killBackgroundExecution r s).EndsIn fun s' => s.events ++ [.signal sigterm] <+: s'.events := by
  have hlog : ∀ (_ : Option RunResult) (log : List BackgroundEvent) (event : BackgroundEvent),
      event ≠ .decrShared → s.events ++ [.signal sigterm] <+: log →
        s.events ++ [.signal sigterm] <+: log ++ [event] :=
    fun _ _ _ _ h => h.trans (List.prefix_append _ _)
  have hkill : Prog.Triple (fun t => t = s) (killRunAndRaise s.handle r)
      (fun _ t => s.events ++ [.signal sigterm] <+: t.events)
      fun _ t => s.events ++ [.signal sigterm] <+: t.events := by
    apply triple_killRunAndRaise hlog
    rintro t rfl
    exact List.prefix_rfl
  rw [killBackgroundExecution, Prog.bind_ret (Prog.gets_run _ s)]
  refine Prog.Triple.endsIn (P := fun t => t = s) ?_ rfl
  refine Prog.Triple.tryExcept hkill ?_ fun _ _ _ => id
  intro e p hp
  split at hp
  · cases hp
    exact keeps_setResult _ _
  · cases hp

/-! ## Runs -/

namespace Call

/-- Between calls. -/
def Consistent (x : BackgroundProcess κ × Option RunResult) : Prop :=
  Pending x.1 ∧ x.2 = none ∨ ∃ result, Recorded result x.1 ∧ (x.2 = none ∨ x.2 = some result)

variable {x : BackgroundProcess κ × Option RunResult}

theorem ends_outcome (c : Call κ) {s : BackgroundProcess κ} (hs : Pending s) :
    Ends (c.outcome s) := by
  cases c with
  | wait pools timeout response returncode =>
    exact ends_wait (s := { s with process := { s.process with pools } }) hs _ _ _
  | kill pools r => exact ends_kill (s := { s with process := { s.process with pools } }) hs _

/-- A process with a result is not touched by `wait_background_execution`. -/
theorem outcome_recorded {c : Call κ} {result : RunResult} (hs : Recorded result x.1)
    (hok : c.Ok x) : ∃ s, c.outcome x.1 = .ret result s ∧ Recorded result s ∧
      s.events = x.1.events := by
  cases c with
  | wait pools timeout response returncode =>
    refine ⟨{ x.1 with process := { x.1.process with pools } }, ?_, hs, rfl⟩
    rw [outcome, waitBackgroundExecution, Prog.bind_ret (Prog.gets_run _ _)]
    dsimp only
    rw [hs.1]
    rfl
  | kill pools r =>
    have hresult := hs.1
    rw [show x.1.result = none from hok] at hresult
    cases hresult

theorem consistent_step (c : Call κ) (h : Consistent x) (hok : c.Ok x) :
    Consistent (c.step x) := by
  unfold step
  rcases h with ⟨hpending, hnone⟩ | ⟨result, hrecorded, hreturned⟩
  · have hends := ends_outcome c hpending
    rw [hnone]
    cases hrun : c.outcome x.1 with
    | ret result s =>
      rw [hrun] at hends
      exact .inr ⟨result, hends, .inr rfl⟩
    | raised e s =>
      rw [hrun] at hends
      rcases hends with hs | ⟨result, hs⟩
      · exact .inl ⟨hs, rfl⟩
      · exact .inr ⟨result, hs, .inl rfl⟩
    | hang => exact .inl ⟨hpending, rfl⟩
  · obtain ⟨s, hrun, hs, -⟩ := outcome_recorded hrecorded hok
    rw [hrun]
    refine .inr ⟨result, hs, .inr ?_⟩
    rcases hreturned with hnone | hsome
    · rw [hnone]
      rfl
    · rw [hsome]
      rfl

theorem settled_of_consistent (c : Call κ) (h : Consistent x) (hok : c.Ok x) : c.Settled x := by
  constructor
  · intro result hresult
    rcases h with ⟨-, hnone⟩ | ⟨result', hrecorded, hnone | hsome⟩
    · rw [hnone] at hresult
      cases hresult
    · rw [hnone] at hresult
      cases hresult
    · obtain rfl : result' = result := Option.some.inj (hsome.symm.trans hresult)
      obtain ⟨s, hrun, -, hevents⟩ := outcome_recorded hrecorded hok
      exact ⟨s, hrun, hevents⟩
  · intro hreturned
    rcases consistent_step c h hok with ⟨-, hnone⟩ | ⟨result, hrecorded, -⟩
    · exact absurd hnone hreturned
    · exact hrecorded.2

/-- A kill after the first result does not settle. -/
theorem not_settled_kill {result : RunResult} (hreturned : x.2 = some result)
    (pools : TerminalPools κ) (r : KillRun) : ¬ (kill pools r).Settled x := by
  rintro ⟨hsettled, -⟩
  obtain ⟨s, hrun, hevents⟩ := hsettled result hreturned
  have hsignal : (outcome (kill pools r) x.1).EndsIn fun s' =>
      x.1.events ++ [.signal sigterm] <+: s'.events := signal_of_kill r _
  rw [hrun] at hsignal
  have hlen := List.IsPrefix.length_le hsignal
  rw [hevents, List.length_append, List.length_singleton] at hlen
  omega

/-- After the first result exactly the kills do not settle. -/
theorem settled_iff {result : RunResult} (h : Consistent x) (hreturned : x.2 = some result)
    (c : Call κ) : c.Settled x ↔ c.Ok x := by
  constructor
  · intro hsettled
    cases c with
    | wait pools timeout response returncode => trivial
    | kill pools r => exact absurd hsettled (not_settled_kill hreturned pools r)
  · exact settled_of_consistent c h

end Call

/-- **Every run.**  If no call kills a process that has a result, then all calls after the
first result return it and do nothing else, and the share is given back once. -/
theorem settled_of_ok (process : Process κ) (handle : Nat) (terminationTimeout : ℚ)
    (isPersistent : Bool) (calls : List (Call κ))
    (hok : Along Call.step Call.Ok calls
      (started process handle terminationTimeout isPersistent, none)) :
    Along Call.step Call.Settled calls
      (started process handle terminationTimeout isPersistent, none) := by
  apply Along.of_invariant (I := Call.Consistent) _ _ calls _ hok
  · intro c x hx hc
    exact Call.consistent_step c hx hc
  · intro c x hx hc
    exact Call.settled_of_consistent c hx hc
  · exact .inl ⟨⟨rfl, rfl⟩, rfl⟩

/-- Pools with a terminal in use. -/
def somePools : TerminalPools Bool :=
  (TerminalPools.get (Usage.choice 0) false (some 1) TerminalPools.init).state TerminalPools.init

def someProcess : Process Bool := ⟨somePools, some ⟨false, 0⟩⟩

/-- The process has ended with status 0. -/
def waitEnded : Call Bool := .wait somePools 5 (.ok ([], [])) (.ok 0)

def killEnded : Call Bool :=
  .kill somePools
    { sigterm := ⟨.error (.osError Process.esrch), .ok ([], []), .ok 0⟩
      sigkill := ⟨.error .other, .error .other, .error .other⟩
      killedPid := .error .other }

theorem settled_waitEnded :
    Along Call.step Call.Settled [killEnded, waitEnded, waitEnded]
      (started someProcess 3 10 false, none) :=
  settled_of_ok someProcess 3 10 false [killEnded, waitEnded, waitEnded]
    ⟨rfl, trivial, trivial, trivial⟩

/-- **A kill after a result.**  The process id is signalled and the response queried again. -/
theorem not_settled_killEnded :
    ¬ Along Call.step Call.Settled [waitEnded, killEnded]
      (started someProcess 3 10 false, none) := by
  rintro ⟨-, hkill, -⟩
  have hreturned : (waitEnded.step (started someProcess 3 10 false, none)).2 =
      some ⟨0, [], []⟩ := by decide +kernel
  exact Call.not_settled_kill hreturned _ _ hkill

end BackgroundProcess

end InteractiveSessions
