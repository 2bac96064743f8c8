import InteractiveSessions.RemoteCalls
import InteractiveSessions.Responses

/-!
# Response threads

The `_RunnerHandler` starts a thread for the response of a call.  If it is alive after the
timeout, or the timeout is negative, the answer is the id of the response, and the thread
goes on while other commands are executed.  Which threads are that slow and when they end
is given by a `Threads`.

* `runs_as_asked`: over every list of calls the remote side does exactly what was asked for,
  each thread once and as late as it takes;
* `proxy_denotes`: a proxy stands for the object that its call returned, as long as its
  handle is neither deleted nor assigned again.

A thread is taken as a whole: it does what it does at one moment between two commands.
-/

namespace InteractiveSessions

namespace RemoteCall

open PyLiteral PyExpr

variable {ε ω ν κ κ' τ τ' : Type}

/-- What is decided outside: the `id()` of the `_Response` of the `n`-th command, whether its
thread is alive after the timeout, and the threads that end behind the command. -/
structure Threads where
  responseId : Nat → Nat
  alive : Nat → Bool
  ended : Nat → List Nat

/-- The remote side: the objects, the number of commands, the threads by the ids of their
responses, and the responses of those that have ended. -/
structure Handler (κ ε ω ν : Type) where
  remote : Remote ω ν
  commands : Nat
  running : List (Nat × κ)
  stored : Responses.RunnerHandler ε (Response ν)

namespace Handler

def new (remote : Remote ω ν) : Handler κ ε ω ν := ⟨remote, 0, [], .empty⟩

def onRemote {α : Type} (p : Prog ε (Remote ω ν) α) : Prog ε (Handler κ ε ω ν) α :=
  Prog.zoom remote (fun remote m => { m with remote }) p

def onStored {α : Type} (p : Prog ε (Responses.RunnerHandler ε (Response ν)) α) :
    Prog ε (Handler κ ε ω ν) α :=
  Prog.zoom stored (fun stored m => { m with stored }) p

/-- `set_response` at the end of a thread -/
def setResponse (responseId : Nat) (response : Except ε (Response ν)) (remote : Remote ω ν)
    (m : Handler κ ε ω ν) : Handler κ ε ω ν :=
  { m with
    remote
    running := m.running.filter fun x => x.1 ≠ responseId
    stored := m.stored.addResponse ⟨responseId, response⟩ }

section
variable (body : κ → Prog ε (Remote ω ν) (Response ν))

/-- `_Response.run` -/
def run (responseId : Nat) (m : Handler κ ε ω ν) : Handler κ ε ω ν :=
  match m.running.find? fun x => x.1 = responseId with
  | none => m
  | some x =>
    match body x.2 m.remote with
    | .ret r remote => m.setResponse responseId (.ok r) remote
    | .raised e remote => m.setResponse responseId (.error e) remote
    | .hang => m

/-- `get_response_with_timeout` -/
def getResponseWithTimeout (responseId : Nat) (negative alive : Bool) :
    Prog ε (Handler κ ε ω ν) (Responses.Output ε (Response ν)) := do
  Prog.modify fun m => if negative || alive then m else m.run body responseId
  let r ← Prog.gets fun m : Handler κ ε ω ν => m.stored.responses.get? responseId
  match r with
  | some r => onStored (r.getResponseWithTimeout negative)
  | none => pure (.timeout responseId)

/-- `run_in_thread` -/
def runInThread (responseId : Nat) (job : κ) (negative alive : Bool) :
    Prog ε (Handler κ ε ω ν) (Responses.Output ε (Response ν)) := do
  Prog.modify fun m => { m with running := m.running ++ [(responseId, job)] }
  getResponseWithTimeout body responseId negative alive

/-- `_responses`, by their ids -/
def responseIds (m : Handler κ ε ω ν) : List Nat :=
  m.running.map Prod.fst ++ m.stored.responses.keys

variable (py : Python ε ω ν)

/-- `get_response` -/
def getResponse (responseId : Nat) (negative alive : Bool) :
    Prog ε (Handler κ ε ω ν) (Responses.Output ε (Response ν)) := do
  let responseIds ← Prog.gets responseIds
  if responseId ∈ responseIds then getResponseWithTimeout body responseId negative alive
  else Prog.raise (py.keyError (.int responseId))

variable (threads : Threads) (start : τ → Prog ε (Remote ω ν) (Option (Request κ)))

/-- The answer to the `n`-th command. -/
def answer (n : Nat) (x : τ) :
    Prog ε (Handler κ ε ω ν) (Option (Responses.Output ε (Response ν))) := do
  let request ← onRemote (start x)
  match request with
  | none => pure none
  | some (.thread job negative) => do
    let out ← runInThread body (threads.responseId n) job negative (threads.alive n)
    pure (some out)
  | some (.getResponse responseId negative) => do
    let out ← getResponse body py responseId negative (threads.alive n)
    pure (some out)

/-- Behind the `n`-th command. -/
def endThreads (n : Nat) (m : Handler κ ε ω ν) : Handler κ ε ω ν :=
  (threads.ended n).foldl (fun m responseId => m.run body responseId)
    { m with commands := n + 1 }

def command (x : τ) :
    Prog ε (Handler κ ε ω ν) (Option (Responses.Output ε (Response ν))) := fun m =>
  (answer body py threads start m.commands x m).mapState (endThreads body threads m.commands)

end

end Handler

section
variable (py : Python ε ω ν) (threads : Threads)

/-- A command as its text. -/
def execText (cmd : Text) :
    Prog ε (Handler Job ε ω ν) (Option (Responses.Output ε (Response ν))) :=
  Handler.command (Job.body py) py threads (exec py) cmd

/-- The call that is asked for. -/
def Call.perform (call : Call ν) :
    Prog ε (Handler (ThreadCall ν) ε ω ν) (Option (Responses.Output ε (Response ν))) :=
  Handler.command (ThreadCall.perform py) py threads (Call.start py) call

end

/-! ## The threads of other jobs -/

namespace Handler

/-- The same threads with other jobs. -/
def map (f : κ → κ') (m : Handler κ ε ω ν) : Handler κ' ε ω ν :=
  { m with running := m.running.map (Prod.map id f) }

section
variable {f : κ → κ'} {body : κ → Prog ε (Remote ω ν) (Response ν)}
  {body' : κ' → Prog ε (Remote ω ν) (Response ν)}

theorem setResponse_map (responseId : Nat) (response : Except ε (Response ν))
    (remote : Remote ω ν) (m : Handler κ ε ω ν) :
    (m.map f).setResponse responseId response remote =
      (m.setResponse responseId response remote).map f := by
  simp only [setResponse, map, List.filter_map]
  rfl

theorem run_map (hbody : ∀ job, body' (f job) = body job) (responseId : Nat)
    (m : Handler κ ε ω ν) : (m.map f).run body' responseId = (m.run body responseId).map f := by
  have hfind : (m.map f).running.find? (fun x => x.1 = responseId) =
      (m.running.find? fun x => x.1 = responseId).map (Prod.map id f) := by
    rw [map, List.find?_map]
    rfl
  unfold run
  rw [hfind]
  cases m.running.find? fun x => x.1 = responseId with
  | none => rfl
  | some x =>
    simp only [Option.map_some, Prod.map_snd, hbody]
    show (match body x.2 m.remote with
      | .ret r remote => (m.map f).setResponse responseId (.ok r) remote
      | .raised e remote => (m.map f).setResponse responseId (.error e) remote
      | .hang => m.map f) = _
    cases body x.2 m.remote with
    | ret r remote | raised e remote => exact setResponse_map ..
    | hang => rfl

theorem simulates_onRemote {α : Type} (p : Prog ε (Remote ω ν) α) :
    Prog.Simulates (map (ν := ν) f) (onRemote p) (onRemote p) := by
  apply Prog.simulates_zoom
  · exact fun _ => rfl
  · exact fun _ _ => rfl

theorem simulates_onStored {α : Type} (p : Prog ε (Responses.RunnerHandler ε (Response ν)) α) :
    Prog.Simulates (map (ω := ω) f) (onStored p) (onStored p) := by
  apply Prog.simulates_zoom
  · exact fun _ => rfl
  · exact fun _ _ => rfl

theorem simulates_getResponseWithTimeout (hbody : ∀ job, body' (f job) = body job)
    (responseId : Nat) (negative alive : Bool) :
    Prog.Simulates (map f) (getResponseWithTimeout body responseId negative alive)
      (getResponseWithTimeout body' responseId negative alive) := by
  refine (Prog.simulates_modify fun m => ?_).bind fun _ =>
    (Prog.simulates_gets fun _ => rfl).bind fun r => ?_
  · split
    · rfl
    · exact run_map hbody responseId m
  · cases r with
    | none => exact Prog.simulates_pure _
    | some r => exact simulates_onStored _

theorem simulates_runInThread (hbody : ∀ job, body' (f job) = body job) (responseId : Nat)
    (job : κ) (negative alive : Bool) :
    Prog.Simulates (map f) (runInThread body responseId job negative alive)
      (runInThread body' responseId (f job) negative alive) := by
  refine (Prog.simulates_modify fun m => ?_).bind fun _ =>
    simulates_getResponseWithTimeout hbody responseId negative alive
  simp [map]

theorem responseIds_map (m : Handler κ ε ω ν) : (m.map f).responseIds = m.responseIds := by
  simp [responseIds, map]

variable {py : Python ε ω ν}

theorem simulates_getResponse (hbody : ∀ job, body' (f job) = body job) (responseId : Nat)
    (negative alive : Bool) :
    Prog.Simulates (map f) (getResponse body py responseId negative alive)
      (getResponse body' py responseId negative alive) := by
  refine (Prog.simulates_gets responseIds_map).bind fun responseIds => ?_
  split
  · exact simulates_getResponseWithTimeout hbody responseId negative alive
  · exact Prog.simulates_raise _

variable {threads : Threads} {start : τ → Prog ε (Remote ω ν) (Option (Request κ))}
  {start' : τ' → Prog ε (Remote ω ν) (Option (Request κ'))}

theorem simulates_answer (hbody : ∀ job, body' (f job) = body job) {x : τ} {x' : τ'}
    (hstart : start' x' = (do
      let request ← start x
      pure (request.map (Request.map f)))) (n : Nat) :
    Prog.Simulates (map f) (answer body py threads start n x)
      (answer body' py threads start' n x') := by
  have hremote : (onRemote (start' x') : Prog ε (Handler κ' ε ω ν) _) = (do
      let request ← onRemote (start x)
      pure (request.map (Request.map f))) := by
    rw [hstart]
    exact Prog.zoom_bind_pure _ _
  rw [answer, answer, hremote, Prog.bind_bind]
  refine (simulates_onRemote (start x)).bind fun request => ?_
  rcases request with - | ⟨job, negative⟩ | ⟨responseId, negative⟩
  · exact Prog.simulates_pure _
  · exact (simulates_runInThread hbody _ job negative _).map
  · exact (simulates_getResponse hbody responseId negative _).map

theorem endThreads_map (hbody : ∀ job, body' (f job) = body job) (n : Nat)
    (m : Handler κ ε ω ν) :
    endThreads body' threads n (m.map f) = (endThreads body threads n m).map f := by
  show List.foldl _ (Handler.map f { m with commands := n + 1 }) _ = _
  apply List.foldl_hom (Handler.map f)
  exact fun m responseId => run_map hbody responseId m

theorem simulates_command (hbody : ∀ job, body' (f job) = body job) {x : τ} {x' : τ'}
    (hstart : start' x' = (do
      let request ← start x
      pure (request.map (Request.map f)))) :
    Prog.Simulates (map f) (command body py threads start x)
      (command body' py threads start' x') := by
  intro m
  exact (simulates_answer hbody hstart m.commands).mapState
    (fun m' => endThreads_map hbody m.commands m') m

end

end Handler

/-- **Step.**  The text of a call is the call. -/
theorem simulates_execText (printable : Char → Bool) (py : Python ε ω ν) (threads : Threads)
    (call : Call ν) :
    Prog.Simulates (Handler.map (ThreadCall.job printable py)) (call.perform py threads)
      (execText py threads (call.cmd printable py)) :=
  Handler.simulates_command (body_job printable py) (exec_cmd py call)

/-- What each of the commands returns or raises, and the state after them. -/
def outcomes {σ α : Type} (send : τ → Prog ε σ α) :
    List τ → σ → List (Option α × Option ε) × σ
  | [], s => ([], s)
  | x :: xs, s =>
    let o := send x s
    let rest := outcomes send xs (o.state s)
    ((o.value?, o.exception?) :: rest.1, rest.2)

theorem outcomes_simulates {σ ρ α : Type} {f : σ → ρ} {send : τ → Prog ε σ α}
    {send' : τ → Prog ε ρ α} (h : ∀ x, Prog.Simulates f (send x) (send' x)) (xs : List τ) (s : σ) :
    outcomes send' xs (f s) = ((outcomes send xs s).1, f (outcomes send xs s).2) := by
  induction xs generalizing s with
  | nil => rfl
  | cons x xs ih =>
    simp only [outcomes, h x s, Outcome.value?_mapState, Outcome.exception?_mapState,
      Outcome.state_mapState, ih]

/-- **Run.**  The texts of the calls are the calls: they have the same answers and exceptions,
and leave the same objects, responses and threads. -/
theorem runs_as_asked (printable : Char → Bool) (py : Python ε ω ν) (threads : Threads)
    (calls : List (Call ν)) (m : Handler (ThreadCall ν) ε ω ν) :
    let asked := outcomes (Call.perform py threads) calls m
    outcomes (fun call => execText py threads (call.cmd printable py)) calls
        (m.map (ThreadCall.job printable py)) =
      (asked.1, asked.2.map (ThreadCall.job printable py)) :=
  outcomes_simulates (simulates_execText printable py threads) calls m

/-! ## Proxies -/

def Handle.remoteName (h : Handle) : RemoteName := ⟨h.expr, wf_handle h⟩

/-- The name of a method of a proxy: `'.'.join([self._handle, method_name])` -/
def Handle.method (h : Handle) (n : Name) : RemoteName := ⟨.attr h.expr n, wf_handle h⟩

/-- The handle stands for the object, and its methods are those of the object. -/
structure Denotes (py : Python ε ω ν) (h : Handle) (v : Value ν) (s : Remote ω ν) : Prop where
  arg : argValue py (.proxy h.remoteName) s = .ret v s
  method : ∀ n args kwargs, apply py (h.method n) args kwargs s = (do
    let m ← py.getAttr v n
    let a ← values py kwargs.items args
    py.callValue m a.1 a.2) s

/-- The task assigns the handle. -/
def ThreadCall.Touches (h : Handle) : ThreadCall ν → Prop
  | .getProxyObjectFromCall handle .. | .getProxyOrBasicFromCall handle .. => handle = h
  | .runPython _ | .runPythonCall .. | .runAndReturnHandledPython _ => False

/-- The call assigns the handle or deletes it. -/
def Call.Touches (h : Handle) : Call ν → Prop
  | .task _ t => t.Touches h
  | .cleanGarbage first garbage => h ∈ first :: garbage
  | .getResponse .. => False

instance (h : Handle) : (task : ThreadCall ν) → Decidable (task.Touches h)
  | .getProxyObjectFromCall handle .. | .getProxyOrBasicFromCall handle .. =>
    inferInstanceAs (Decidable (handle = h))
  | .runPython _ | .runPythonCall .. | .runAndReturnHandledPython _ =>
    inferInstanceAs (Decidable False)

instance (h : Handle) : (call : Call ν) → Decidable (call.Touches h)
  | .task _ t => inferInstanceAs (Decidable (t.Touches h))
  | .cleanGarbage first garbage => inferInstanceAs (Decidable (h ∈ first :: garbage))
  | .getResponse .. => inferInstanceAs (Decidable False)

/-- What is called and assigned to a handle. -/
def ThreadCall.Assigns (h : Handle) (functionName : RemoteName) (args : List (Arg ν))
    (kwargs : Dict Name (Arg ν)) (task : ThreadCall ν) : Prop :=
  task = .getProxyObjectFromCall h functionName args kwargs ∨
    task = .getProxyOrBasicFromCall h functionName args kwargs

/-- A call is sent as its text, or a thread ends. -/
inductive Action (ν : Type) where
  | call (call : Call ν)
  | ends (responseId : Nat)

def step (printable : Char → Bool) (py : Python ε ω ν) (threads : Threads) (a : Action ν)
    (m : Handler Job ε ω ν) : Handler Job ε ω ν :=
  match a with
  | .call call =>
    let answer := Handler.answer (Job.body py) py threads (exec py) m.commands
    { (answer (call.cmd printable py) m).state m with commands := m.commands + 1 }
  | .ends responseId => m.run (Job.body py) responseId

/-- A call neither assigns the handle nor deletes it. -/
def Ok (h : Handle) (a : Action ν) (_ : Handler Job ε ω ν) : Prop :=
  match a with
  | .call call => ¬ call.Touches h
  | .ends _ => True

instance (h : Handle) (a : Action ν) (m : Handler Job ε ω ν) : Decidable (Ok h a m) := by
  unfold Ok
  split <;> infer_instance

section
variable {printable : Char → Bool} {py : Python ε ω ν} {h : Handle} {v : Value ν}

def Has (h : Handle) (v : Value ν) (s : Remote ω ν) : Prop := s.ns.get? h.key = some v

theorem denotes_of_has {s : Remote ω ν} (hs : Has h v s) : Denotes py h v s := by
  have hval : h.expr.eval py.remote s = .ret v s := by
    have hget : s.ns.get? h.key = some v := hs
    rw [eval_handle, Python.getItem, if_neg (key_ne h)]
    simp only [Prog.bind_run, Prog.gets_run, hget, Prog.pure_run]
  refine ⟨hval, fun n args kwargs => ?_⟩
  have hmethod : (Primary.attr h.expr n).eval py.remote s = py.getAttr v n s := by
    rw [Primary.eval, Prog.bind_ret hval]
    rfl
  rw [apply, Handle.method, Prog.bind_run, hmethod, ← Prog.bind_run]

/-- Other objects have no access to it. -/
theorem keeps_lift {γ : Type} (m : Prog ε ω γ) :
    Prog.Keeps (Has h v) (lift m : Prog ε (Remote ω ν) γ) := by
  intro s hs
  simp only [lift, Prog.zoom]
  cases m s.world with
  | ret a t | raised e t => exact hs
  | hang => trivial

theorem keeps_deserialize (content : Value ν) :
    Prog.Keeps (Has h v) (deserialize py content : Prog ε (Remote ω ν) (Value ν)) := by
  unfold deserialize
  cases content with
  | bytes b =>
    dsimp only
    cases py.loads b with
    | ok o => exact Prog.keeps_pure
    | error e => exact Prog.keeps_raise
  | str s =>
    dsimp only
    cases py.loads (Utf8.encode s) with
    | ok o => exact Prog.keeps_pure
    | error e => exact Prog.keeps_raise
  | _ => exact Prog.keeps_raise

theorem keeps_getItem (w k : Value ν) : Prog.Keeps (Has h v) (py.getItem w k) := by
  unfold Python.getItem
  split
  · split
    · exact Prog.keeps_pure
    · apply Prog.keeps_gets_bind
      intro x
      cases x with
      | some x => exact Prog.keeps_pure
      | none => exact Prog.keeps_raise
  · exact keeps_lift _

theorem keeps_remote (py : Python ε ω ν) : py.remote.Keeps (Has h v) where
  name n := by
    show Prog.Keeps _ (py.getName n)
    unfold Python.getName
    split_ifs
    · exact Prog.keeps_pure
    · exact Prog.keeps_pure
    · exact Prog.keeps_pure
    · exact keeps_lift _
  neg w := by
    show Prog.Keeps _ (py.negative w)
    unfold Python.negative
    split
    · exact Prog.keeps_pure
    · exact keeps_lift _
  attr w n := by
    show Prog.Keeps _ (py.getAttr w n)
    unfold Python.getAttr
    split
    · split
      · exact Prog.keeps_pure
      · exact keeps_lift _
    · split
      · exact Prog.keeps_pure
      · exact keeps_lift _
    · exact keeps_lift _
  item w k := keeps_getItem w k
  call w args kwargs := by
    show Prog.Keeps _ (py.callValue w args kwargs)
    unfold Python.callValue
    split
    · split
      · exact keeps_deserialize _
      · exact keeps_lift _
    · exact Prog.keeps_pure
    · exact keeps_lift _

theorem keeps_apply (functionName : RemoteName) (args : List (Arg ν))
    (kwargs : Dict Name (Arg ν)) : Prog.Keeps (Has h v) (apply py functionName args kwargs) := by
  rw [← eval_callExpr]
  exact Primary.eval_keeps (keeps_remote py) _

theorem key_inj {g : Handle} (heq : g.key = h.key) : g = h := by
  obtain ⟨name, _⟩ := g
  obtain ⟨name', _⟩ := h
  obtain rfl : name = name' := List.append_cancel_left heq
  rfl

theorem keeps_assign {g : Handle} (hne : g ≠ h) (x : Value ν) :
    Prog.Keeps (Has h v) (assign g x : Prog ε (Remote ω ν) Unit) := by
  apply Prog.keeps_modify
  intro s hs
  have hkey : h.key ≠ g.key := fun heq => hne (key_inj heq.symm)
  exact (Dict.get?_set_of_ne hkey).trans hs

theorem keeps_deleteHandles {gs : List Handle} (hmem : h ∉ gs) :
    Prog.Keeps (Has h v) (deleteHandles py gs) := by
  induction gs with
  | nil => exact Prog.keeps_pure
  | cons g gs ih =>
    obtain ⟨hne, hgs⟩ := not_or.mp (fun hor => hmem (List.mem_cons.mpr hor))
    refine Prog.Keeps.bind ?_ fun _ => ih hgs
    apply Prog.keeps_gets_bind
    intro x
    cases x with
    | some x =>
      apply Prog.keeps_modify
      intro s hs
      have hkey : h.key ≠ g.key := fun heq => hne (key_inj heq)
      exact (Dict.get?_erase_of_ne hkey).trans hs
    | none => exact Prog.keeps_raise

/-- **Step.** -/
theorem keeps_perform (task : ThreadCall ν) (htask : ¬ task.Touches h) :
    Prog.Keeps (Has h v) (task.perform py) := by
  cases task with
  | runPython cmd => exact (Primary.eval_keeps (keeps_remote py) _).bind fun _ => Prog.keeps_pure
  | runPythonCall functionName args kwargs =>
    exact (keeps_apply functionName args kwargs).bind fun _ => Prog.keeps_pure
  | getProxyObjectFromCall handle functionName args kwargs =>
    exact (keeps_apply functionName args kwargs).bind fun x =>
      (keeps_assign htask x).bind fun _ => Prog.keeps_pure
  | getProxyOrBasicFromCall handle functionName args kwargs =>
    exact (keeps_apply functionName args kwargs).bind fun x =>
      (keeps_assign htask x).bind fun _ => Prog.keeps_pure
  | runAndReturnHandledPython handle =>
    exact (Primary.eval_keeps (keeps_remote py) _).bind fun _ => Prog.keeps_pure

end

/-! ### What the threads keep -/

namespace Handler

/-- The objects are in order, and what the threads do is safe. -/
structure Guards (I : Remote ω ν → Prop) (Safe : κ → Prop) (m : Handler κ ε ω ν) : Prop where
  remote : I m.remote
  running : ∀ x ∈ m.running, Safe x.2

section
variable {I : Remote ω ν → Prop} {Safe : κ → Prop}
  {body : κ → Prog ε (Remote ω ν) (Response ν)}

theorem Guards.setResponse {m : Handler κ ε ω ν} (h : Guards I Safe m) {remote : Remote ω ν}
    (hremote : I remote) (responseId : Nat) (response : Except ε (Response ν)) :
    Guards I Safe (m.setResponse responseId response remote) :=
  ⟨hremote, fun x hx => h.running x (List.mem_filter.mp hx).1⟩

theorem Guards.run {m : Handler κ ε ω ν} (h : Guards I Safe m)
    (hbody : ∀ job, Safe job → Prog.Keeps I (body job)) (responseId : Nat) :
    Guards I Safe (m.run body responseId) := by
  unfold Handler.run
  cases hfind : m.running.find? fun x => x.1 = responseId with
  | none => exact h
  | some x =>
    have hkeeps := hbody x.2 (h.running x (List.mem_of_find?_eq_some hfind)) m.remote h.remote
    dsimp only
    cases hrun : body x.2 m.remote with
    | ret r remote | raised e remote =>
      rw [hrun] at hkeeps
      exact h.setResponse hkeeps responseId _
    | hang => exact h

theorem keeps_getResponseWithTimeout (hbody : ∀ job, Safe job → Prog.Keeps I (body job))
    (responseId : Nat) (negative alive : Bool) :
    Prog.Keeps (Guards I Safe) (getResponseWithTimeout body responseId negative alive) := by
  refine (Prog.keeps_modify fun m hm => ?_).bind fun _ => Prog.keeps_gets_bind fun r => ?_
  · split
    · exact hm
    · exact hm.run hbody responseId
  · cases r with
    | none => exact Prog.keeps_pure
    | some r =>
      cases negative with
      | true => exact fun m hm => ⟨hm.remote, hm.running⟩
      | false => exact fun m hm => ⟨hm.remote, hm.running⟩

theorem keeps_getResponse (py : Python ε ω ν)
    (hbody : ∀ job, Safe job → Prog.Keeps I (body job)) (responseId : Nat) (negative alive : Bool) :
    Prog.Keeps (Guards I Safe) (getResponse body py responseId negative alive) := by
  refine Prog.keeps_gets_bind fun responseIds => ?_
  split
  · exact keeps_getResponseWithTimeout hbody responseId negative alive
  · exact Prog.keeps_raise

theorem keeps_runInThread (hbody : ∀ job, Safe job → Prog.Keeps I (body job)) (responseId : Nat)
    {job : κ} (hjob : Safe job) (negative alive : Bool) :
    Prog.Keeps (Guards I Safe) (runInThread body responseId job negative alive) := by
  refine (Prog.keeps_modify fun m hm => ⟨hm.remote, fun x hx => ?_⟩).bind fun _ =>
    keeps_getResponseWithTimeout hbody responseId negative alive
  rcases List.mem_append.mp hx with hx | hx
  · exact hm.running x hx
  · cases List.mem_singleton.mp hx
    exact hjob

/-- The job that is asked for, if there is one. -/
def Asks (Safe : κ → Prop) (request : Option (Request κ)) : Prop :=
  ∀ job negative, request = some (.thread job negative) → Safe job

theorem keeps_answer (py : Python ε ω ν) (threads : Threads)
    {start : τ → Prog ε (Remote ω ν) (Option (Request κ))} {x : τ}
    (hbody : ∀ job, Safe job → Prog.Keeps I (body job))
    (hstart : Prog.Triple I (start x) (fun request s => I s ∧ Asks Safe request) fun _ => I)
    (n : Nat) : Prog.Keeps (Guards I Safe) (answer body py threads start n x) := by
  have hremote : Prog.Triple (Guards I Safe) (onRemote (start x))
      (fun request m => Guards I Safe m ∧ Asks Safe request) fun _ => Guards I Safe := by
    intro m hm
    have h := hstart m.remote hm.remote
    unfold onRemote Prog.zoom
    cases hrun : start x m.remote with
    | ret request remote =>
      rw [hrun] at h
      exact ⟨⟨h.1, hm.running⟩, h.2⟩
    | raised e remote =>
      rw [hrun] at h
      exact ⟨h, hm.running⟩
    | hang => trivial
  refine Prog.Triple.bind hremote fun request => ?_
  rcases request with - | ⟨job, negative⟩ | ⟨responseId, negative⟩
  · exact fun m hm => hm.1
  · rintro m ⟨hm, hjob⟩
    exact ((keeps_runInThread hbody _ (hjob job negative rfl) negative _).bind
      fun _ => Prog.keeps_pure) m hm
  · rintro m ⟨hm, -⟩
    exact ((keeps_getResponse py hbody responseId negative _).bind fun _ => Prog.keeps_pure) m hm

end

end Handler

section
variable {printable : Char → Bool} {py : Python ε ω ν} {h : Handle} {v : Value ν}

/-- The thread leaves the handle alone. -/
def Job.Spares (printable : Char → Bool) (py : Python ε ω ν) (h : Handle) (job : Job) : Prop :=
  ∃ task : ThreadCall ν, ¬ task.Touches h ∧ job = task.job printable py

theorem Job.Spares.keeps {job : Job} (hjob : job.Spares printable py h) :
    Prog.Keeps (Has h v) (job.body py) := by
  obtain ⟨task, htask, rfl⟩ := hjob
  rw [body_job]
  exact keeps_perform task htask

/-- Only the names are deleted that are in the list. -/
theorem triple_exec {call : Call ν} (hcall : ¬ call.Touches h) :
    Prog.Triple (Has h v) (exec py (call.cmd printable py))
      (fun request s => Has h v s ∧ Handler.Asks (Job.Spares printable py h) request)
      fun _ => Has h v := by
  rw [exec_cmd]
  cases call with
  | task timeout task =>
    intro s hs
    refine ⟨hs, ?_⟩
    rintro job negative ⟨⟩
    exact ⟨task, hcall, rfl⟩
  | getResponse responseId timeout =>
    intro s hs
    refine ⟨hs, ?_⟩
    rintro job negative ⟨⟩
  | cleanGarbage first garbage =>
    rw [Call.start, Prog.bind_bind]
    refine Prog.Triple.bind (keeps_deleteHandles hcall) fun _ s hs => ⟨hs, ?_⟩
    rintro job negative ⟨⟩

/-- **Step.** -/
theorem guards_step {threads : Threads} {m : Handler Job ε ω ν}
    (hm : m.Guards (Has h v) (Job.Spares printable py h)) {a : Action ν} (ha : Ok h a m) :
    (step printable py threads a m).Guards (Has h v) (Job.Spares printable py h) := by
  have hbody : ∀ job, Job.Spares printable py h job → Prog.Keeps (Has h v) (job.body py) :=
    fun job hjob => hjob.keeps
  cases a with
  | call call =>
    have hanswer := Handler.keeps_answer py threads hbody (triple_exec ha) m.commands
    have hstate := (hanswer.endsIn hm).state hm
    exact ⟨hstate.remote, hstate.running⟩
  | ends responseId => exact hm.run hbody responseId

/-- The object that was called for is assigned. -/
theorem has_of_assigns {functionName : RemoteName} {args : List (Arg ν)}
    {kwargs : Dict Name (Arg ν)} {task : ThreadCall ν}
    (htask : task.Assigns h functionName args kwargs) {s s' : Remote ω ν}
    {r : Response ν} (hret : task.perform py s = .ret r s') :
    ∃ v s₁, apply py functionName args kwargs s = .ret v s₁ ∧ Has h v s' := by
  rcases htask with rfl | rfl
  · obtain ⟨v, s₁, happly, hrest⟩ := Prog.ret_of_bind hret
    cases hrest
    exact ⟨v, s₁, happly, Dict.get?_set_self⟩
  · obtain ⟨v, s₁, happly, hrest⟩ := Prog.ret_of_bind hret
    cases hrest
    exact ⟨v, s₁, happly, Dict.get?_set_self⟩

end

/-- **Run.**  A proxy stands for the object that its call returned: from the moment at which
the thread of the call has assigned it, with no other thread left that assigns this handle. -/
theorem proxy_denotes {printable : Char → Bool} {py : Python ε ω ν} (threads : Threads)
    {h : Handle} {functionName : RemoteName} {args : List (Arg ν)} {kwargs : Dict Name (Arg ν)}
    {task : ThreadCall ν} (htask : task.Assigns h functionName args kwargs) {timeout : Timeout}
    {s₀ s₁ s s' : Remote ω ν} {job : Job} {negative : Bool} {r : Response ν}
    (hexec : exec py ((Call.task timeout task).cmd printable py) s₀ =
      .ret (some (.thread job negative)) s₁)
    (hret : job.body py s = .ret r s') :
    ∃ v s₂, apply py functionName args kwargs s = .ret v s₂ ∧
      ∀ m t : Handler Job ε ω ν, m.remote = s' →
        (∀ x ∈ m.running, x.2.Spares printable py h) →
        Reaches (step printable py threads) (Ok h) m t → Denotes py h v t.remote := by
  rw [exec_cmd] at hexec
  obtain rfl : task.job printable py = job := by
    cases hexec
    rfl
  rw [body_job] at hret
  obtain ⟨v, s₂, happly, hs'⟩ := has_of_assigns htask hret
  refine ⟨v, s₂, happly, fun m t hremote hrunning ht => denotes_of_has ?_⟩
  have hm : m.Guards (Has h v) (Job.Spares printable py h) := ⟨hremote ▸ hs', hrunning⟩
  exact (ht.invariant hm fun a u hu hok => guards_step hu hok).remote

/-- Every name is the same function, which returns how often it was called. -/
def counter : Python Text Nat Nat where
  objects := {
    name := fun _ => pure (.other 0)
    str := .str
    bytes := .bytes
    num := .float false
    int := .int
    neg := pure
    attr := fun v _ => pure v
    item := fun v _ => pure v
    call := fun _ _ _ => do
      Prog.modify (· + 1)
      let n ← Prog.gets id
      pure (.other n)
    setName := fun _ _ => pure ()
    setAttr := fun _ _ _ => pure ()
    setItem := fun _ _ _ => pure ()
    delName := fun _ => pure ()
    delAttr := fun _ _ => pure ()
    delItem := fun _ _ => pure ()
    typeError := [] }
  dumps n := List.replicate n 0
  loads b := .ok b.length
  loads_dumps o := by rw [List.length_replicate]
  keyError key := match key with
    | .str key => key
    | _ => []
  syntaxError := []
  isHandled _ := false

def hour : Timeout := ⟨false, ⟨chars "3600", chars "0", by decide⟩⟩

def openName : RemoteName := ⟨.name ⟨chars "open", by decide⟩, trivial⟩

def firstHandle : Handle := ⟨chars "a1", by decide⟩

def secondHandle : Handle := ⟨chars "b2", by decide⟩

/-- The thread of the third command is slow. -/
def slowThird : Threads := ⟨id, fun n => n = 2, fun _ => []⟩

/-- A proxy is made, a method of it is called, another proxy is made, late, and deleted. -/
def openCalls : List (Action Nat) :=
  [.call (.task hour (.runPythonCall (firstHandle.method ⟨chars "read", by decide⟩) [.value 1]
      .empty)),
    .call (.task hour (.getProxyOrBasicFromCall secondHandle openName
      [.proxy firstHandle.remoteName] .empty)),
    .ends 2, .call (.getResponse 2 hour), .call (.cleanGarbage secondHandle [])]

theorem proxy_denotes_counter :
    let made : ThreadCall Nat := .getProxyObjectFromCall firstHandle openName [.value 2] .empty
    let m : Handler Job Text Nat Nat := step (fun _ => true) counter slowThird
      (.call (.task hour made)) (.new ⟨.empty, 0⟩)
    let t := openCalls.foldl (fun t a => step (fun _ => true) counter slowThird a t) m
    t.remote.world = 3 ∧ Denotes counter firstHandle (.other 1) t.remote := by
  intro made m t
  have hexec : exec counter ((Call.task hour made).cmd (fun _ => true) counter) ⟨.empty, 0⟩ =
      .ret (some (.thread (made.job (fun _ => true) counter) false)) ⟨.empty, 0⟩ := by
    decide +kernel
  have hret : (made.job (fun _ => true) counter).body counter ⟨.empty, 0⟩ =
      .ret (.run, .none) m.remote := by decide +kernel
  have happly : apply counter openName [.value 2] .empty ⟨.empty, 0⟩ =
      .ret (.other 1) ⟨.empty, 1⟩ := by decide +kernel
  obtain ⟨v, s₂, hv, hdenotes⟩ := proxy_denotes slowThird (.inl rfl) hexec hret
  rw [happly] at hv
  cases hv
  have hrunning : m.running = [] := by decide +kernel
  exact ⟨by decide +kernel, hdenotes m t rfl (by simp [hrunning])
    (reaches_of_along openCalls .refl (by decide +kernel))⟩

end RemoteCall

end InteractiveSessions
