import InteractiveSessions.PythonCmdline
import InteractiveSessions.ResponseThreads

/-!
# Remote calls over a lossy link

`RunnerTerminal` gives the text of a call to a `MsgPythonShell`, and at the other end the
`PythonCmdline` of the server compiles and evaluates it.

* `Exchange.answers_calls`: the replies are those of the calls when they are performed on
  the remote objects, one after the other, whatever the link loses.
-/

namespace InteractiveSessions

namespace RemoteCall

open PyLiteral PyExpr

variable {ε ω ν : Type}

/-- What the replies have of the answer to a command, and of an exception that the command
itself raises: that of a response thread is in the answer. -/
structure ReplyBytes (ε ν : Type) where
  value : Option (Option (Responses.Output ε (Response ν))) → Bytes
  errorObj : CmdlineExc ε → Text → Bytes

/-- The Python of the server, of which the code objects are texts.  A command that does not
end is like one that ends the server: no reply comes, and no other command is executed. -/
def interpreter (py : Python ε ω ν) (threads : Threads) (bytes : ReplyBytes ε ν) :
    InteractiveSessions.Python Text (Handler Job ε ω ν)
      (Option (Responses.Output ε (Response ν))) ε where
  compileEval text :=
    match compileEval text with
    | some _ => .ok text
    | none => .error (.syntaxError "invalid syntax")
  compileExec text :=
    match compileSingle text with
    | some _ => .ok text
    | none => .error (.syntaxError "invalid syntax")
  eval text m :=
    match execText py threads text m with
    | .ret out m' => (.ok out, m')
    | .raised e m' => (.error (some e), m')
    | .hang => (.error none, m)
  value := bytes.value
  errorObj := bytes.errorObj

/-- How a call ends for the handler of its command. -/
def result {σ : Type} (bytes : ReplyBytes ε ν) (cmd : Text) :
    Outcome ε σ (Option (Responses.Output ε (Response ν))) → ExecResult
  | .ret out _ => .value (bytes.value (some out))
  | .raised e _ => .error (bytes.errorObj (.raised e) cmd)
  | .hang => .exit

section
variable (printable : Char → Bool) (py : Python ε ω ν) (threads : Threads)
  (bytes : ReplyBytes ε ν)

/-- The calls on the remote objects, one after the other. -/
def performAll : Handler (ThreadCall ν) ε ω ν → List (Call ν) → List ExecResult
  | _, [] => []
  | m, call :: calls =>
    let o := call.perform py threads m
    result bytes (call.cmd printable py) o :: performAll (o.state m) calls

/-- A command is complete, and is not read as a part of a block. -/
theorem getCodeObject_cmd (call : Call ν) :
    PythonCmdline.getCodeObject (interpreter py threads bytes) (call.cmd printable py) =
      .ok (call.cmd printable py) := by
  unfold PythonCmdline.getCodeObject interpreter
  dsimp only
  cases heval : compileEval (call.cmd printable py) with
  | some e => rfl
  | none =>
    cases hsingle : compileSingle (call.cmd printable py) with
    | some stmt => rfl
    | none =>
      have hcompiles : compileEval (call.cmd printable py) ≠ none ∨
          compileSingle (call.cmd printable py) ≠ none := compiles_cmd py call
      exact hcompiles.elim (absurd heval) (absurd hsingle)

/-- **Step.**  The server's interpreter performs the call, and no line waits. -/
theorem execCommand_cmd {s : PythonCmdline (Handler Job ε ω ν)} (hmulti : s.multilinecmd = [])
    {m : Handler (ThreadCall ν) ε ω ν} (hs : s.globals = m.map (ThreadCall.job printable py))
    (call : Call ν) :
    let text := call.cmd printable py
    let o := call.perform py threads m
    let r := PythonCmdline.execCommand (interpreter py threads bytes) text s
    PythonCmdline.execResult (interpreter py threads bytes) r = result bytes text o ∧
      r.2.multilinecmd = [] ∧ r.2.globals = (o.state m).map (ThreadCall.job printable py) := by
  intro text o r
  have hcode : PythonCmdline.getCodeObject (interpreter py threads bytes)
      (s.multilinecmd ++ text) = .ok text := by
    rw [hmulti, List.nil_append]
    exact getCodeObject_cmd printable py threads bytes call
  have hr : r = PythonCmdline.getResponse (interpreter py threads bytes) text
      { s with currentCmd := some (s.multilinecmd ++ text), multilinecmd := [] } := by
    show PythonCmdline.execCommand _ _ _ = _
    unfold PythonCmdline.execCommand
    simp only [hcode]
  have ho : execText py threads text s.globals =
      o.mapState (Handler.map (ThreadCall.job printable py)) :=
    hs ▸ simulates_execText printable py threads call m
  rw [hr, PythonCmdline.getResponse]
  simp only [interpreter, ho]
  cases o with
  | ret out m' => exact ⟨rfl, rfl, rfl⟩
  | raised e m' =>
    refine ⟨?_, rfl, rfl⟩
    rw [hmulti]
    rfl
  | hang => exact ⟨rfl, rfl, hs⟩

/-- **Run.**  The commands of a session are the calls. -/
theorem execResults_calls {cmd : Msg → Text} {call : Msg → Call ν} {msgs : List Msg}
    (hcmd : ∀ msg ∈ msgs, cmd msg = (call msg).cmd printable py)
    {s : PythonCmdline (Handler Job ε ω ν)} (hmulti : s.multilinecmd = [])
    {m : Handler (ThreadCall ν) ε ω ν} (hs : s.globals = m.map (ThreadCall.job printable py)) :
    PythonCmdline.execResults (interpreter py threads bytes) cmd s msgs =
      performAll printable py threads bytes m (msgs.map call) := by
  induction msgs generalizing s m with
  | nil => rfl
  | cons msg msgs ih =>
    obtain ⟨hresult, hnext, hglobals⟩ :=
      execCommand_cmd printable py threads bytes hmulti hs (call msg)
    rw [PythonCmdline.execResults, List.map_cons, performAll, hcmd msg (List.mem_cons_self ..),
      hresult, ih (fun msg' hmsg => hcmd msg' (List.mem_cons_of_mem _ hmsg)) hnext hglobals]

end

end RemoteCall

namespace Exchange

open PyLiteral RemoteCall

variable {ε ω ν : Type}

section
variable (printable : Char → Bool) (py : RemoteCall.Python ε ω ν) (threads : Threads)
  (bytes : ReplyBytes ε ν) (call : Msg → Call ν)

/-- The server's interpreter has these remote objects. -/
def remoteEnv (cmd : Msg → Text) (m : Handler (ThreadCall ν) ε ω ν) (env : Env) : Env :=
  env.withCmdline (interpreter py threads bytes) cmd (m.map (ThreadCall.job printable py))

/-- The commands are the texts of calls. -/
def SendsCalls (cmd : Msg → Text) (x : Exchange) : Prop :=
  ∀ msg ∈ x.server.executed, cmd msg = (call msg).cmd printable py

instance (cmd : Msg → Text) (x : Exchange) : Decidable (SendsCalls printable py call cmd x) :=
  List.decidableBAll _ _

/-- The replies that the client has are those of the calls that were sent, each performed
once and in their order: calls that have not returned may be missing. -/
structure AnswersCalls (m : Handler (ThreadCall ν) ε ω ν) (x : Exchange) : Prop where
  order : (x.server.executed.filter Server.isExec).Sublist x.client.requests
  replies : ∀ msg r, (msg, r) ∈ x.client.returned → Server.isExec msg = true →
    ∃ (n : Nat) (result : ExecResult) (out : Bytes),
      (∀ k, x.server.executed[k]? = some msg ↔ k = n) ∧
      (performAll printable py threads bytes m (x.server.executed.map call))[n]? = some result ∧
      Server.outObj? result = some out ∧ r = msg.createReply .execCommandReply out
  all : (∀ msg ∈ x.client.requests, Server.isExec msg = true → ∃ r, (msg, r) ∈ x.client.returned) →
    x.server.executed.filter Server.isExec = x.client.requests.filter Server.isExec

end

/-- **Run.**  To its caller a session over the lossy link is the remote objects. -/
theorem answers_calls {printable : Char → Bool} {py : RemoteCall.Python ε ω ν} {threads : Threads}
    {bytes : ReplyBytes ε ν} {call : Msg → Call ν} {cmd : Msg → Text}
    {m : Handler (ThreadCall ν) ε ω ν} (env : Env) {x : Exchange}
    (h : Reaches (step (remoteEnv printable py threads bytes cmd m env)) Ok
      (init (remoteEnv printable py threads bytes cmd m env)) x)
    (hcmd : SendsCalls printable py call cmd x) :
    AnswersCalls printable py threads bytes call m x := by
  have hinv : Inv x := h.invariant inv_init fun _ _ hx hok => inv_step hx hok
  have hordered : Ordered (remoteEnv printable py threads bytes cmd m env) x :=
    h.invariant ordered_init fun a _ hx _ => ordered_step hx a
  have hlocal := Ordered.answersAsLocal hordered hinv
  have hcalls := execResults_calls printable py threads bytes hcmd
    (s := .new (m.map (ThreadCall.job printable py))) rfl rfl
  refine ⟨hlocal.order, fun msg r hr hexec => ?_, hlocal.all⟩
  obtain ⟨n, result, out, hn, hresult, hout, hreply⟩ := hlocal.replies msg r hr hexec
  rw [hcalls] at hresult
  exact ⟨n, result, out, hn, hresult, hout, hreply⟩

/-- The digit of a number that is returned, and `t` for a timeout. -/
def digits : ReplyBytes Text Nat where
  value
    | some (some (.value (_, .other n))) => [UInt8.ofNat (48 + n)]
    | some (some (.timeout _)) => ascii "t"
    | _ => []
  errorObj _ _ := ascii "error"

/-- An object is made, and a method of it is called. -/
def madeAndRead (msg : Msg) : Call Nat :=
  if msg.uid = 0 then
    .task hour (.getProxyObjectFromCall firstHandle openName [.value 2] .empty)
  else .task hour (.runPythonCall (firstHandle.method ⟨chars "readline", by decide⟩) [] .empty)

/-- The request with the text of its call. -/
def sent (uid : Nat) : Msg :=
  let cmd := (madeAndRead ⟨.execCommandRequest, uid, []⟩).cmd (fun _ => true) counter
  ⟨.execCommandRequest, uid, cmd.map fun c => UInt8.ofNat c.toNat⟩

/-- The first command is sent twice, and a message is lost. -/
def readTwice : List Action :=
  [.receive, .call (sent 0), .timeout, .serve, .serve, .serve, .receive, .receive,
    .loseToServer 0, .call (sent 1), .serve, .receive, .receive, .receive, .receive, .receive]

/-- The thread of the first command is slow, and ends behind it. -/
def slowFirst : Threads := ⟨id, fun n => n = 0, fun n => if n = 0 then [0] else []⟩

theorem answers_calls_readTwice :
    let m : Handler (ThreadCall Nat) Text Nat Nat := .new ⟨.empty, 0⟩
    let env := remoteEnv (fun _ => true) counter slowFirst digits text m calm
    let x := readTwice.foldl (fun x a => step env a x) (init env)
    x.client.returned.map (fun y => y.2.arg) = [ascii "t", ascii "2"] ∧
      AnswersCalls (fun _ => true) counter slowFirst digits madeAndRead m x := by
  intro m env x
  have hcmd : SendsCalls (fun _ => true) counter madeAndRead text x := by decide +kernel
  exact ⟨by decide +kernel,
    answers_calls calm (reaches_of_along readTwice .refl (by decide +kernel)) hcmd⟩

end Exchange

end InteractiveSessions
