import InteractiveSessions.Lib.Decimal
import InteractiveSessions.Usage

/-!
# `_process`: the terminal of a run

The four process classes over the terminal pools.  `Replies` holds what the
remote steps of one `run()` return or raise.  The terminal is put back or
removed in

* `_communicate_with_cleanup` of the foreground classes;
* `put_incr_shared` of the background class, after `_communicate`;
* the context manager of the nohup class, around everything.

`released_iff`: a run leaves its terminal in use exactly if a remote step before
that raises.
-/

namespace InteractiveSessions

/-- What `_process` distinguishes among the exceptions of remote steps. -/
inductive RemoteExc where
  | remoteTimeout (handle : Nat)
  | osError (errno : Nat)
  | other
  deriving DecidableEq, Repr

structure RunResult where
  status : Int
  stdout : Bytes
  stderr : Bytes
  deriving DecidableEq, Repr

inductive ProcessExc (κ : Type) where
  | remote (e : RemoteExc)
  | runnerTimeout (result : Option RunResult)
  | failedToKillProcess (pid : Nat) (handle : Nat)
  | terminalPools (e : TerminalPoolsExc κ)
  /-- An attribute of `None`. -/
  | attributeError
  deriving DecidableEq

/-- The remote steps of one `_kill_and_raise_or_return_handle`: `kill` is
`killpg(getpgid(pid), sig)`. -/
structure KillReplies where
  kill : Except RemoteExc Unit
  response : Except RemoteExc (Bytes × Bytes)
  returncode : Except RemoteExc Int

/-- The remote steps of a `run()`, each with its reply.  `lines` are the lines
with the time since the start at which each one was read, and `linesEnd` how the
iterator ends. -/
structure Replies where
  environ : Except RemoteExc Unit
  popen : Except RemoteExc Unit
  communicateAttribute : Except RemoteExc Unit
  linesIterator : Except RemoteExc Unit
  pid : Except RemoteExc Nat
  lines : List (ℚ × Bytes)
  linesEnd : Except RemoteExc Unit
  communicate : Except RemoteExc (Bytes × Bytes)
  returncode : Except RemoteExc Int
  sigterm : KillReplies
  sigkill : KillReplies
  killedPid : Except RemoteExc Nat
  communicateAsync : Except RemoteExc Unit
  daemonPopen : Except RemoteExc Nat

inductive ProcessClass where
  | foregroundProcessWithoutPty
  | asyncProcessWithoutPty
  | backgroundProcessWithoutPty
  | noCommBackgroudProcess
  deriving DecidableEq, Repr

def ProcessClass.zone : ProcessClass → Option String
  | .foregroundProcessWithoutPty | .asyncProcessWithoutPty => none
  | .backgroundProcessWithoutPty | .noCommBackgroudProcess => some "background"

/-- What `run()` returns: a result, the process itself, or what `daemon_popen`
returns. -/
inductive Returned where
  | result (r : RunResult)
  | process
  | pid (n : Nat)
  deriving DecidableEq, Repr

/-- `terminal` is the attribute of the process. -/
structure Process (κ : Type) where
  pools : TerminalPools κ
  terminal : Option (Terminal κ)

/-- The arguments of a process, and the environment of its run.  `key` is the key
of the shells in a zone. -/
structure RunEnv (κ : Type) where
  key : Option String → κ
  maxProcesses : Option Int
  choice : Choice κ
  isPersistent : Bool
  timeout : ℚ
  replies : Replies

namespace Process

variable {κ α : Type}

/-- A remote step. -/
def remote (reply : Except RemoteExc α) : Prog (ProcessExc κ) (Process κ) α := fun s =>
  match reply with
  | .ok a => .ret a s
  | .error e => .raised (.remote e) s

/-- `self.terminalpools` -/
def onPools (m : Prog (TerminalPoolsExc κ) (TerminalPools κ) α) :
    Prog (ProcessExc κ) (Process κ) α := fun s =>
  match m s.pools with
  | .ret a pools => .ret a { s with pools }
  | .raised e pools => .raised (.terminalPools e) { s with pools }
  | .hang => .hang

/-- `self.terminal`, when it is used. -/
def selfTerminal : Prog (ProcessExc κ) (Process κ) (Terminal κ) := do
  let terminal ← Prog.gets fun s : Process κ => s.terminal
  match terminal with
  | none => Prog.raise .attributeError
  | some t => pure t

/-- `errno.ESRCH` -/
def esrch : Nat := 3

/-- `_kill` -/
def kill (r : KillReplies) : Prog (ProcessExc κ) (Process κ) Unit :=
  Prog.tryExcept (remote r.kill) fun
    | .remote (.osError errno) => if errno = esrch then some (pure ()) else none
    | _ => none

/-- `_get_result` -/
def getResult (func : Except RemoteExc (Bytes × Bytes)) (returncode : Except RemoteExc Int) :
    Prog (ProcessExc κ) (Process κ) RunResult := do
  let (stdout, stderr) ← remote func
  let status ← remote returncode
  pure ⟨status, stdout, stderr⟩

def killAndRaiseOrReturnHandle (r : KillReplies) : Prog (ProcessExc κ) (Process κ) Nat :=
  Prog.tryExcept
    (do
      kill r
      let result ← getResult r.response r.returncode
      Prog.raise (.runnerTimeout (some result)))
    fun
    | .remote (.remoteTimeout handle) => some (pure handle)
    | _ => none

section
variable [DecidableEq κ] (e : RunEnv κ)

def killRunAndRaise : Prog (ProcessExc κ) (Process κ) RunResult := do
  let _ ← killAndRaiseOrReturnHandle e.replies.sigterm
  let handle ← killAndRaiseOrReturnHandle e.replies.sigkill
  let pid ← remote e.replies.killedPid
  let t ← selfTerminal
  onPools (TerminalPools.remove t)
  Prog.raise (.failedToKillProcess pid handle)

/-- `_initialize_terminal` -/
def initializeTerminal (zone : Option String) : Prog (ProcessExc κ) (Process κ) Unit := do
  let t ← onPools (TerminalPools.get e.choice (e.key zone) e.maxProcesses)
  Prog.modify fun s => { s with terminal := some t }
  remote e.replies.environ

/-- `_finalize_terminal` -/
def finalizeTerminal : Prog (ProcessExc κ) (Process κ) Unit := do
  let t ← selfTerminal
  onPools (TerminalPools.put t e.isPersistent)

def communicateWithCleanup : Prog (ProcessExc κ) (Process κ) RunResult :=
  Prog.tryFinally
    (Prog.tryExcept (getResult e.replies.communicate e.replies.returncode) fun
      | .remote (.remoteTimeout _) => some (killRunAndRaise e)
      | _ => none)
    (finalizeTerminal e)

/-- The loop over `timeout_generator`. -/
def readLines (linesEnd : Except RemoteExc Unit) (timeout : ℚ) :
    List (ℚ × Bytes) → Prog (ProcessExc κ) (Process κ) Bytes
  | [] => do
    remote linesEnd
    pure []
  | (elapsed, line) :: lines =>
    if timeout < elapsed then Prog.raise (.runnerTimeout none)
    else do
      let rest ← readLines linesEnd timeout lines
      pure (line ++ rest)

/-- `communicate` of `_AsyncProcessWithoutPty` -/
def communicateAsync : Prog (ProcessExc κ) (Process κ) RunResult := do
  remote e.replies.linesIterator
  let _ ← remote e.replies.pid
  let stdout ← readLines e.replies.linesEnd e.timeout e.replies.lines
  let ret ← communicateWithCleanup e
  pure ⟨ret.status, stdout, ret.stderr⟩

/-- `communicate` of `_BackgroundProcessBase` -/
def communicateBackground : Prog (ProcessExc κ) (Process κ) Unit := do
  remote e.replies.communicateAsync
  let t ← selfTerminal
  onPools (TerminalPools.putIncrShared t e.isPersistent)

def communicate (cls : ProcessClass) : Prog (ProcessExc κ) (Process κ) Returned :=
  match cls with
  | .foregroundProcessWithoutPty => do
    let r ← communicateWithCleanup e
    pure (.result r)
  | .asyncProcessWithoutPty => do
    let r ← communicateAsync e
    pure (.result r)
  | .backgroundProcessWithoutPty | .noCommBackgroudProcess => do
    communicateBackground e
    pure .process

/-- `run` of `_ProcessBase` -/
def runBase (cls : ProcessClass) : Prog (ProcessExc κ) (Process κ) Returned := do
  initializeTerminal e cls.zone
  remote e.replies.popen
  remote e.replies.communicateAttribute
  communicate e cls

/-- `_finalize_terminal` of `_NoCommBackgroudProcess` -/
def finalizeTerminalIfAny : Prog (ProcessExc κ) (Process κ) Unit := do
  let terminal ← Prog.gets fun s : Process κ => s.terminal
  match terminal with
  | none => pure ()
  | some t => onPools (TerminalPools.put t e.isPersistent)

/-- `run` of `_NoCommBackgroudProcess` -/
def runNoComm (zone : Option String) : Prog (ProcessExc κ) (Process κ) Returned :=
  Prog.tryFinally
    (do
      initializeTerminal e zone
      let pid ← remote e.replies.daemonPopen
      pure (.pid pid))
    (finalizeTerminalIfAny e)

def run (cls : ProcessClass) : Prog (ProcessExc κ) (Process κ) Returned :=
  match cls with
  | .noCommBackgroudProcess => runNoComm e cls.zone
  | _ => runBase e cls

end

/-! ## The terminal between `get` and the clean-up -/

/-- `terminal` is held. -/
def Holds (t : Terminal κ) (s : Process κ) : Prop :=
  s.terminal = some t ∧ ∃ held shares, TerminalPools.Inv held shares s.pools ∧ t ∈ held

/-- No pool has the terminal in use. -/
def Released (t : Terminal κ) (s : Process κ) : Prop := ∀ ref, t ∉ (s.pools.objs ref).inuse

variable [DecidableEq κ] {e : RunEnv κ} {t : Terminal κ} {s : Process κ}

/-- `terminal` can be put, after which no pool has it in use. -/
def CanPut (t : Terminal κ) (s : Process κ) : Prop :=
  s.terminal = some t ∧ ∀ isPersistent, ∃ pools,
    TerminalPools.put t isPersistent s.pools = .ret () pools ∧ ∀ ref, t ∉ (pools.objs ref).inuse

theorem Holds.canPut (h : Holds t s) : CanPut t s := by
  obtain ⟨hterminal, held, shares, hinv, ht⟩ := h
  exact ⟨hterminal, fun isPersistent => TerminalPools.put_not_inuse isPersistent hinv ht⟩

omit [DecidableEq κ] in
theorem selfTerminal_run (h : s.terminal = some t) : selfTerminal s = .ret t s := by
  simp only [selfTerminal, Prog.bind_run, Prog.gets_run, h, Prog.pure_run]

omit [DecidableEq κ] in
theorem onPools_ret {m : Prog (TerminalPoolsExc κ) (TerminalPools κ) α} {a : α}
    {pools : TerminalPools κ} (h : m s.pools = .ret a pools) :
    onPools m s = .ret a { s with pools } := by
  simp only [onPools, h]

omit [DecidableEq κ] in
theorem triple_remote {P : Process κ → Prop} (reply : Except RemoteExc α) :
    Prog.Triple P (remote reply) (fun _ => P) fun _ => P := by
  intro s hs
  cases reply <;> exact hs

omit [DecidableEq κ] in
theorem triple_getResult {P : Process κ → Prop} (func : Except RemoteExc (Bytes × Bytes))
    (returncode : Except RemoteExc Int) :
    Prog.Triple P (getResult func returncode) (fun _ => P) fun _ => P :=
  (triple_remote func).bind fun _ => (triple_remote returncode).bind fun _ _ hs => hs

omit [DecidableEq κ] in
theorem triple_kill {P : Process κ → Prop} (r : KillReplies) :
    Prog.Triple P (kill r) (fun _ => P) fun _ => P := by
  refine (triple_remote r.kill).tryExcept (fun exc p hp => ?_) fun _ _ _ => id
  split at hp
  · split at hp
    · cases hp
      exact fun s hs => hs
    · cases hp
  · cases hp

omit [DecidableEq κ] in
theorem triple_killAndRaiseOrReturnHandle {P : Process κ → Prop} (r : KillReplies) :
    Prog.Triple P (killAndRaiseOrReturnHandle r) (fun _ => P) fun _ => P := by
  refine Prog.Triple.tryExcept (E := fun _ => P) ?_ (fun exc p hp => ?_) fun _ _ _ => id
  · exact (triple_kill r).bind fun _ => (triple_getResult _ _).bind fun _ _ hs => hs
  · split at hp
    · cases hp
      exact fun s hs => hs
    · cases hp

/-- The process is killed, or the terminal is removed. -/
theorem triple_killRunAndRaise :
    Prog.Triple (Holds t) (killRunAndRaise e) (fun _ => CanPut t) fun _ => CanPut t := by
  have hkill : ∀ r, Prog.Triple (Holds t) (killAndRaiseOrReturnHandle r) (fun _ => Holds t)
      fun _ => CanPut t := fun r =>
    (triple_killAndRaiseOrReturnHandle r).mono (fun _ => id) (fun _ _ => id)
      fun _ _ => Holds.canPut
  refine (hkill _).bind fun _ => (hkill _).bind fun handle => ?_
  refine Prog.Triple.bind (Q := fun _ => Holds t) ?_ fun pid => ?_
  · exact (triple_remote _).mono (fun _ => id) (fun _ _ => id) fun _ _ => Holds.canPut
  · rintro s ⟨hterminal, held, shares, hinv, ht⟩
    obtain ⟨pools, hremove, hput⟩ := TerminalPools.remove_not_inuse hinv ht
    rw [Prog.bind_ret (selfTerminal_run hterminal), Prog.bind_ret (onPools_ret hremove)]
    exact ⟨hterminal, hput⟩

theorem triple_finalizeTerminal :
    Prog.Triple (CanPut t) (finalizeTerminal e) (fun _ => Released t) fun _ => Released t := by
  rintro s ⟨hterminal, hput⟩
  obtain ⟨pools, hs, hout⟩ := hput e.isPersistent
  rw [finalizeTerminal, Prog.bind_ret (selfTerminal_run hterminal), onPools_ret hs]
  exact hout

/-- **The foreground clean-up.**  Whatever the remote steps do. -/
theorem triple_communicateWithCleanup :
    Prog.Triple (Holds t) (communicateWithCleanup e) (fun _ => Released t) fun _ => Released t := by
  refine Prog.Triple.tryFinally (Q := fun _ => CanPut t) (E := fun _ => CanPut t) ?_
    (fun _ => triple_finalizeTerminal) fun _ => triple_finalizeTerminal
  refine Prog.Triple.tryExcept (E := fun _ => Holds t)
    ((triple_getResult _ _).mono (fun _ => id) (fun _ _ => Holds.canPut) fun _ _ => id)
    (fun exc p hp => ?_) fun _ _ _ => Holds.canPut
  split at hp
  · cases hp
    exact triple_killRunAndRaise
  · cases hp

/-! ## The steps before the clean-up -/

/-- Each remote step before the clean-up succeeds, and no line is late. -/
def UpToCleanup (e : RunEnv κ) : ProcessClass → Prop
  | .foregroundProcessWithoutPty =>
    e.replies.environ.isOk ∧ e.replies.popen.isOk ∧ e.replies.communicateAttribute.isOk
  | .asyncProcessWithoutPty =>
    e.replies.environ.isOk ∧ e.replies.popen.isOk ∧ e.replies.communicateAttribute.isOk ∧
      e.replies.linesIterator.isOk ∧ e.replies.pid.isOk ∧
      (∀ x ∈ e.replies.lines, x.1 ≤ e.timeout) ∧ e.replies.linesEnd.isOk
  | .backgroundProcessWithoutPty =>
    e.replies.environ.isOk ∧ e.replies.popen.isOk ∧ e.replies.communicateAttribute.isOk ∧
      e.replies.communicateAsync.isOk
  | .noCommBackgroudProcess => True

omit [DecidableEq κ] in
theorem Holds.not_released (h : Holds t s) : ¬ Released t s := by
  obtain ⟨-, held, shares, hinv, ht⟩ := h
  obtain ⟨ref, hin⟩ := hinv.held t ht
  exact fun hreleased => hreleased ref hin

/-- `m` changes nothing, and it returns exactly if `ok`. -/
def Checks (m : Prog (ProcessExc κ) (Process κ) α) (s : Process κ) (ok : Prop) : Prop :=
  (ok ∧ ∃ a, m s = .ret a s) ∨ (¬ ok ∧ ∃ exc, m s = .raised exc s)

omit [DecidableEq κ] in
theorem checks_remote (reply : Except RemoteExc α) : Checks (remote reply) s reply.isOk := by
  cases reply with
  | ok a => exact .inl ⟨rfl, a, rfl⟩
  | error exc => exact .inr ⟨Bool.false_ne_true, _, rfl⟩

omit [DecidableEq κ] in
theorem checks_readLines (linesEnd : Except RemoteExc Unit) (timeout : ℚ)
    (lines : List (ℚ × Bytes)) : Checks (readLines linesEnd timeout lines) s
      ((∀ x ∈ lines, x.1 ≤ timeout) ∧ linesEnd.isOk) := by
  induction lines with
  | nil =>
    cases linesEnd with
    | ok a => exact .inl ⟨⟨nofun, rfl⟩, [], rfl⟩
    | error exc => exact .inr ⟨fun h => Bool.false_ne_true h.2, _, rfl⟩
  | cons x lines ih =>
    obtain ⟨elapsed, line⟩ := x
    rw [readLines]
    by_cases hlate : timeout < elapsed
    · rw [if_pos hlate]
      exact .inr ⟨fun h => absurd (h.1 _ (List.mem_cons_self ..)) (not_le.mpr hlate), _, rfl⟩
    · rw [if_neg hlate]
      rcases ih with ⟨⟨hlines, hend⟩, rest, hrest⟩ | ⟨hnot, exc, hrest⟩
      · refine .inl ⟨⟨List.forall_mem_cons.mpr ⟨not_lt.mp hlate, hlines⟩, hend⟩, line ++ rest, ?_⟩
        rw [Prog.bind_ret hrest]
        rfl
      · refine .inr ⟨fun h => hnot ⟨fun x hx => h.1 x (List.mem_cons_of_mem _ hx), h.2⟩, exc, ?_⟩
        rw [Prog.bind_raised hrest]

omit [DecidableEq κ] in
/-- **Step.**  One more remote step before the clean-up. -/
theorem endsIn_bind {β : Type} {m : Prog (ProcessExc κ) (Process κ) α}
    {f : α → Prog (ProcessExc κ) (Process κ) β} {ok rest : Prop} (hs : Holds t s)
    (hm : Checks m s ok) (hf : ∀ a, (f a s).EndsIn (Released t) ↔ rest) :
    ((m >>= f) s).EndsIn (Released t) ↔ ok ∧ rest := by
  rcases hm with ⟨hok, a, ha⟩ | ⟨hnot, exc, hexc⟩
  · rw [Prog.bind_ret ha, hf a]
    exact (and_iff_right hok).symm
  · rw [Prog.bind_raised hexc]
    exact iff_of_false hs.not_released fun h => hnot h.1

theorem endsIn_communicateBackground (hs : Holds t s) :
    (communicateBackground e s).EndsIn (Released t) ↔ e.replies.communicateAsync.isOk := by
  rw [← and_true (e.replies.communicateAsync.isOk = true)]
  refine endsIn_bind hs (checks_remote _) fun _ => iff_true_intro ?_
  obtain ⟨hterminal, held, shares, hinv, ht⟩ := hs
  obtain ⟨pools, hput, hout⟩ := TerminalPools.putIncrShared_not_inuse e.isPersistent hinv ht
  rw [Prog.bind_ret (selfTerminal_run hterminal), onPools_ret hput]
  exact hout

theorem endsIn_communicateAsync (hs : Holds t s) :
    (communicateAsync e s).EndsIn (Released t) ↔
      e.replies.linesIterator.isOk ∧ e.replies.pid.isOk ∧
        ((∀ x ∈ e.replies.lines, x.1 ≤ e.timeout) ∧ e.replies.linesEnd.isOk) ∧ True := by
  refine endsIn_bind hs (checks_remote _) fun _ => ?_
  refine endsIn_bind hs (checks_remote _) fun _ => ?_
  refine endsIn_bind hs (checks_readLines _ _ _) fun stdout => iff_true_intro ?_
  have htriple : Prog.Triple (Holds t) (communicateWithCleanup e >>= fun ret =>
      (pure ⟨ret.status, stdout, ret.stderr⟩ : Prog (ProcessExc κ) (Process κ) RunResult))
      (fun _ => Released t) fun _ => Released t :=
    triple_communicateWithCleanup.bind fun _ _ hs => hs
  exact htriple.endsIn hs

/-- A foreground or background run from the terminal that `get` returned. -/
theorem endsIn_runBase {cls : ProcessClass} {s₀ : Process κ} {pools : TerminalPools κ}
    {rest : Prop}
    (hget : TerminalPools.get e.choice (e.key cls.zone) e.maxProcesses s₀.pools = .ret t pools)
    (hs : Holds t ⟨pools, some t⟩)
    (hrest : (communicate e cls ⟨pools, some t⟩).EndsIn (Released t) ↔ rest) :
    (runBase e cls s₀).EndsIn (Released t) ↔ e.replies.environ.isOk ∧ e.replies.popen.isOk ∧
      e.replies.communicateAttribute.isOk ∧ rest := by
  have hinit : initializeTerminal e cls.zone s₀ = remote e.replies.environ ⟨pools, some t⟩ := by
    rw [initializeTerminal, Prog.bind_ret (onPools_ret hget)]
    rfl
  rw [runBase, Prog.bind_run, hinit, ← Prog.bind_run]
  refine endsIn_bind hs (checks_remote _) fun _ => ?_
  refine endsIn_bind hs (checks_remote _) fun _ => ?_
  exact endsIn_bind hs (checks_remote _) fun _ => hrest

/-- A nohup run, whatever the remote steps do. -/
theorem endsIn_runNoComm {zone : Option String} {s₀ : Process κ} {pools : TerminalPools κ}
    (hget : TerminalPools.get e.choice (e.key zone) e.maxProcesses s₀.pools = .ret t pools)
    (hs : Holds t ⟨pools, some t⟩) : (runNoComm e zone s₀).EndsIn (Released t) := by
  have hinit : initializeTerminal e zone s₀ = remote e.replies.environ ⟨pools, some t⟩ := by
    rw [initializeTerminal, Prog.bind_ret (onPools_ret hget)]
    rfl
  have hlast : Prog.Triple (CanPut t) (finalizeTerminalIfAny e) (fun _ => Released t)
      fun _ => Released t := by
    rintro s ⟨hterminal, hput⟩
    obtain ⟨pools, hs, hout⟩ := hput e.isPersistent
    simp only [finalizeTerminalIfAny, Prog.bind_run, Prog.gets_run, hterminal, onPools_ret hs]
    exact hout
  have htriple : Prog.Triple (fun s => s = s₀)
      (initializeTerminal e zone >>= fun _ => remote e.replies.daemonPopen >>= fun pid =>
        (pure (.pid pid) : Prog (ProcessExc κ) (Process κ) Returned))
      (fun _ => CanPut t) fun _ => CanPut t := by
    refine Prog.Triple.bind (Q := fun _ => CanPut t) ?_ fun _ =>
      (triple_remote _).bind fun _ _ hs => hs
    rintro s rfl
    rw [hinit]
    exact triple_remote (P := CanPut t) _ _ hs.canPut
  exact (htriple.tryFinally (fun _ => hlast) fun _ => hlast).endsIn rfl

theorem endsIn_run {cls : ProcessClass} {s₀ : Process κ} {pools : TerminalPools κ}
    (hget : TerminalPools.get e.choice (e.key cls.zone) e.maxProcesses s₀.pools = .ret t pools)
    (hs : Holds t ⟨pools, some t⟩) :
    (run e cls s₀).EndsIn (Released t) ↔ UpToCleanup e cls := by
  cases cls with
  | foregroundProcessWithoutPty =>
    have htriple : Prog.Triple (Holds t) (communicate e .foregroundProcessWithoutPty)
        (fun _ => Released t) fun _ => Released t :=
      triple_communicateWithCleanup.bind fun _ _ hs => hs
    have h := endsIn_runBase hget hs (iff_true_intro (htriple.endsIn hs))
    rwa [and_true] at h
  | asyncProcessWithoutPty =>
    have h := endsIn_runBase hget hs
      (Prog.endsIn_bind_pure.trans (endsIn_communicateAsync hs))
    rwa [and_true] at h
  | backgroundProcessWithoutPty =>
    exact endsIn_runBase hget hs (Prog.endsIn_bind_pure.trans (endsIn_communicateBackground hs))
  | noCommBackgroudProcess => exact iff_true_intro (endsIn_runNoComm hget hs)

/-- **The terminal of a run.**  A run of a new process that obtains a terminal
leaves it in use exactly if a step before the clean-up fails. -/
theorem released_iff {u : Usage κ} (hu : Reaches Usage.step Usage.Ok Usage.init u)
    (e : RunEnv κ) (cls : ProcessClass) {t : Terminal κ} {pools : TerminalPools κ}
    (hget : TerminalPools.get e.choice (e.key cls.zone) e.maxProcesses u.pools = .ret t pools) :
    (run e cls ⟨u.pools, none⟩).EndsIn (Released t) ↔ UpToCleanup e cls := by
  have hspares := (TerminalPools.get_spares e.choice (e.key cls.zone) e.maxProcesses).of_ret
    (TerminalPools.Spares.refl (Usage.valid_run hu)) hget
  exact endsIn_run hget
    ⟨rfl, insert t u.held, u.shares, hspares.inv, Finset.mem_insert_self t _⟩

/-- A first run in which the environment is read as given, two lines are read and
everything else raises. -/
def firstRun (environ : Except RemoteExc Unit) : RunEnv Bool where
  key zone := zone.isSome
  maxProcesses := some 1
  choice := Usage.choice 0
  isPersistent := true
  timeout := 2
  replies :=
    let fails : KillReplies := ⟨.error .other, .error .other, .error .other⟩
    { environ, popen := .ok (), communicateAttribute := .ok (), linesIterator := .ok (),
      pid := .ok 17, lines := [(1, [104]), (2, [105])], linesEnd := .ok (),
      communicate := .error .other, returncode := .error .other, sigterm := fails,
      sigkill := fails, killedPid := .error .other, communicateAsync := .error .other,
      daemonPopen := .error .other }

/-- The last step raises, and the terminal is released. -/
theorem released_firstRun :
    (run (firstRun (.ok ())) .asyncProcessWithoutPty ⟨TerminalPools.init, none⟩).EndsIn
      (Released ⟨false, 0⟩) := by
  obtain ⟨pools, hget⟩ := Outcome.ret_of_value?
    (o := TerminalPools.get (Usage.choice 0) false (some 1) TerminalPools.init)
    (a := ⟨false, 0⟩) (by decide +kernel)
  exact (released_iff (u := Usage.init) .refl (firstRun (.ok ())) .asyncProcessWithoutPty hget).mpr
    ⟨rfl, rfl, rfl, rfl, rfl, by simp [firstRun], rfl⟩

/-- **A leak.**  The environment cannot be read, and the terminal stays in use. -/
theorem not_released_environ :
    ¬ (run (firstRun (.error (.remoteTimeout 0))) .foregroundProcessWithoutPty
      ⟨TerminalPools.init, none⟩).EndsIn (Released ⟨false, 0⟩) := by
  intro h
  have hstate := h.state (s := ⟨TerminalPools.init, none⟩) fun ref => Finset.notMem_empty _
  exact hstate 0 (by decide +kernel)

end Process

end InteractiveSessions
