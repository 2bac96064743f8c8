import InteractiveSessions.ExecutionOrder

/-!
# `PythonCmdline`: the interpreter at the remote end

A command is compiled behind the lines that are not complete yet.  What a text compiles
to, and what the code does, is given by a `Python`.

* `typed`: but for the lines at which `compile` raises no `SyntaxError` but another exception,
  the lines are cut into blocks, in their order; the text of each block is evaluated or
  refused once, and the lines behind the last one wait for more;
* `Exchange.answers_as_local`: over a link that loses messages, the replies to the calls
  are those of a local `PythonCmdline`.
-/

namespace InteractiveSessions

/-- What `compile` raises. -/
inductive CompileExc where
  | syntaxError (msg : String)
  | indentationError (msg : String)
  /-- Another exception, such as `ValueError` for a null byte. -/
  | other
  deriving DecidableEq

/-- `except SyntaxError`, of which `IndentationError` is a subclass -/
def CompileExc.isSyntaxError (e : CompileExc) : Bool := e ≠ .other

/-- Whether more lines may complete the text. -/
def CompileExc.isIncomplete : CompileExc → Bool
  | .syntaxError msg => msg.startsWith "unexpected EOF"
  | .indentationError _ => true
  | .other => false

/-- What `exec_command` raises. -/
inductive CmdlineExc (ξ : Type) where
  | compile (e : CompileExc)
  | raised (e : ξ)
  /-- `SystemExit` or `KeyboardInterrupt` -/
  | exit
  deriving DecidableEq

/-- The remote Python.  `eval` raises no exception of the class `Exception` if it ends with
`none`; `value` and `errorObj` are what a reply has of a value and of an error of the
current command. -/
structure Python (γ ν ω ξ : Type) where
  compileEval : List Char → Except CompileExc γ
  compileExec : List Char → Except CompileExc γ
  eval : γ → ν → Except (Option ξ) ω × ν
  value : Option ω → Bytes
  errorObj : CmdlineExc ξ → List Char → Bytes

structure PythonCmdline (ν : Type) where
  multilinecmd : List Char
  globals : ν
  currentCmd : Option (List Char)
  deriving DecidableEq

/-- How `exec_command` ends.  A line that waits returns `None`. -/
abbrev CmdlineResult (ω ξ : Type) : Type := Except (CmdlineExc ξ) (Option ω)

namespace PythonCmdline

variable {γ ν ω ξ : Type}

def new (globals : ν) : PythonCmdline ν := ⟨[], globals, none⟩

section
variable (py : Python γ ν ω ξ)

/-- `get_code_object` -/
def getCodeObject (cmd : List Char) : Except CompileExc γ :=
  match py.compileEval cmd with
  | .ok code => .ok code
  | .error e => if e.isSyntaxError then py.compileExec cmd else .error e

/-- `_get_response` -/
def getResponse (code : γ) (s : PythonCmdline ν) : CmdlineResult ω ξ × PythonCmdline ν :=
  match py.eval code s.globals with
  | (.ok out, globals) => (.ok (some out), { s with globals })
  | (.error (some e), globals) => (.error (.raised e), { s with globals })
  | (.error none, globals) => (.error .exit, { s with globals })

def execCommand (cmd : List Char) (s : PythonCmdline ν) : CmdlineResult ω ξ × PythonCmdline ν :=
  let text := s.multilinecmd ++ cmd
  let s := { s with currentCmd := some text }
  match getCodeObject py text with
  | .ok code => getResponse py code { s with multilinecmd := [] }
  | .error e =>
    if e.isSyntaxError then
      if e.isIncomplete then
        (.ok none, { s with multilinecmd := s.multilinecmd ++ (cmd ++ ['\n']) })
      else (.error (.compile e), { s with multilinecmd := [] })
    else (.error (.compile e), s)

/-- The state after some commands. -/
def session (s : PythonCmdline ν) (cmds : List (List Char)) : PythonCmdline ν :=
  cmds.foldl (fun s cmd => (execCommand py cmd s).2) s

/-- What the commands give, one after the other. -/
def responses : PythonCmdline ν → List (List Char) → List (CmdlineResult ω ξ)
  | _, [] => []
  | s, cmd :: cmds => (execCommand py cmd s).1 :: responses (execCommand py cmd s).2 cmds

end

/-! ## Blocks -/

/-- Lines with their ends. -/
def joined (lines : List (List Char)) : List Char := lines.flatMap fun line => line ++ ['\n']

/-- What becomes of a line. -/
inductive Fate where
  | waits
  | completes
  /-- It is in no text. -/
  | dropped
  deriving DecidableEq

/-- The lines that wait behind one more. -/
def Fate.pending (pending : List (List Char)) (cmd : List Char) : Fate → List (List Char)
  | .waits => pending ++ [cmd]
  | .completes => []
  | .dropped => pending

/-- Lines that have waited, and the one that completes them. -/
structure Block where
  before : List (List Char)
  last : List Char

/-- The lines as one text, without the end of the last one. -/
def Block.text (b : Block) : List Char := joined b.before ++ b.last

def waiting (lines : List (List Char)) : List (Fate × List Char) := lines.map (Prod.mk .waits)

def Block.lines (b : Block) : List (Fate × List Char) := waiting b.before ++ [(.completes, b.last)]

section
variable (py : Python γ ν ω ξ)

/-- A line is dropped if `compile` raises no `SyntaxError` but another exception. -/
def fate (pending : List (List Char)) (cmd : List Char) : Fate :=
  match getCodeObject py (joined pending ++ cmd) with
  | .ok _ => .completes
  | .error .other => .dropped
  | .error e => if e.isIncomplete then .waits else .completes

/-- The lines behind those that wait, each with what becomes of it. -/
def fates : List (List Char) → List (List Char) → List (Fate × List Char)
  | _, [] => []
  | pending, cmd :: cmds =>
    let fate := fate py pending cmd
    (fate, cmd) :: fates (fate.pending pending cmd) cmds

/-- A text is evaluated or refused. -/
def evaluateText (text : List Char) (globals : ν) : CmdlineResult ω ξ × ν :=
  match getCodeObject py text with
  | .error e => (.error (.compile e), globals)
  | .ok code =>
    match py.eval code globals with
    | (.ok out, globals) => (.ok (some out), globals)
    | (.error (some e), globals) => (.error (.raised e), globals)
    | (.error none, globals) => (.error .exit, globals)

/-- Each text is evaluated once, in the globals that the one before has left. -/
def evaluate : List (List Char) → ν → List (CmdlineResult ω ξ) × ν
  | [], globals => ([], globals)
  | text :: texts, globals =>
    let (r, globals) := evaluateText py text globals
    let (rs, globals) := evaluate texts globals
    (r :: rs, globals)

end

/-- Every line that completes a text gives the next of the results. -/
def answers : List Fate → List (CmdlineResult ω ξ) → List (CmdlineResult ω ξ)
  | .completes :: fates, r :: rs => r :: answers fates rs
  | .waits :: fates, rs => .ok none :: answers fates rs
  | .dropped :: fates, rs => .error (.compile .other) :: answers fates rs
  | _, _ => []

@[simp] theorem joined_nil : joined [] = [] := rfl

theorem joined_concat (lines : List (List Char)) (line : List Char) :
    joined (lines ++ [line]) = joined lines ++ (line ++ ['\n']) := by
  simp [joined]

section
variable (py : Python γ ν ω ξ)

theorem map_fates (pending cmds : List (List Char)) :
    (fates py pending cmds).map Prod.snd = cmds := by
  induction cmds generalizing pending with
  | nil => rfl
  | cons cmd cmds ih => simp [fates, ih]

theorem getResponse_eq (code : γ) (s : PythonCmdline ν) {text : List Char}
    (hcode : getCodeObject py text = .ok code) :
    getResponse py code s =
      ((evaluateText py text s.globals).1,
        { s with globals := (evaluateText py text s.globals).2 }) := by
  simp only [getResponse, evaluateText, hcode]
  rcases py.eval code s.globals with ⟨(_ | _) | _, globals⟩ <;> rfl

/-- What a line does by its fate. -/
structure Does (pending : List (List Char)) (cmd : List Char) (globals : ν)
    (r : CmdlineResult ω ξ × PythonCmdline ν) : Prop where
  multilinecmd : r.2.multilinecmd = joined ((fate py pending cmd).pending pending cmd)
  completes : fate py pending cmd = .completes →
    (r.1, r.2.globals) = evaluateText py (joined pending ++ cmd) globals
  waits : fate py pending cmd = .waits → (r.1, r.2.globals) = (.ok none, globals)
  dropped : fate py pending cmd = .dropped →
    (r.1, r.2.globals) = (.error (.compile .other), globals)

/-- **Step.** -/
theorem execCommand_does {pending : List (List Char)} {s : PythonCmdline ν}
    (hs : s.multilinecmd = joined pending) (cmd : List Char) :
    Does py pending cmd s.globals (execCommand py cmd s) := by
  unfold execCommand
  rw [hs]
  dsimp only
  cases hcode : getCodeObject py (joined pending ++ cmd) with
  | ok code =>
    have hfate : fate py pending cmd = .completes := by simp [fate, hcode]
    simp only [getResponse_eq py code _ hcode]
    constructor <;> simp [hfate, Fate.pending]
  | error e =>
    have hrefused : evaluateText py (joined pending ++ cmd) s.globals =
        (.error (.compile e), s.globals) := by simp [evaluateText, hcode]
    cases e with
    | other =>
      have hfate : fate py pending cmd = .dropped := by simp [fate, hcode]
      constructor <;> simp [hfate, Fate.pending, CompileExc.isSyntaxError]
    | indentationError msg =>
      have hfate : fate py pending cmd = .waits := by simp [fate, hcode, CompileExc.isIncomplete]
      constructor <;>
        simp [hfate, joined_concat, Fate.pending, CompileExc.isSyntaxError, CompileExc.isIncomplete]
    | syntaxError msg =>
      cases hincomplete : CompileExc.isIncomplete (.syntaxError msg) with
      | true =>
        have hfate : fate py pending cmd = .waits := by simp [fate, hcode, hincomplete]
        constructor <;>
          simp [hfate, joined_concat, hincomplete, Fate.pending, CompileExc.isSyntaxError]
      | false =>
        have hfate : fate py pending cmd = .completes := by simp [fate, hcode, hincomplete]
        constructor <;>
          simp [hfate, hrefused, hincomplete, Fate.pending, CompileExc.isSyntaxError]

end

/-- A session behind lines that wait: what is not dropped are the lines of the blocks, in
their order, and those that wait in the end.  The texts of the blocks are evaluated one
after the other. -/
structure Typed (py : Python γ ν ω ξ) (pending : List (List Char)) (cmds : List (List Char))
    (s : PythonCmdline ν) (blocks : List Block) (rest : List (List Char)) : Prop where
  lines : waiting pending ++ (fates py pending cmds).filter (fun x => x.1 ≠ .dropped) =
    blocks.flatMap Block.lines ++ waiting rest
  responses : responses py s cmds = answers ((fates py pending cmds).map Prod.fst)
    (evaluate py (blocks.map Block.text) s.globals).1
  globals : (session py s cmds).globals = (evaluate py (blocks.map Block.text) s.globals).2
  multilinecmd : (session py s cmds).multilinecmd = joined rest

/-- A line that completes no block only changes what waits. -/
theorem Typed.cons {py : Python γ ν ω ξ} {pending cmds : List (List Char)} {cmd : List Char}
    {s : PythonCmdline ν} {r : CmdlineResult ω ξ} {blocks : List Block} {rest : List (List Char)}
    (hwaiting : waiting pending ++
        [(fate py pending cmd, cmd)].filter (fun x => x.1 ≠ .dropped) =
      waiting ((fate py pending cmd).pending pending cmd))
    (hanswers : ∀ fates rs, answers (fate py pending cmd :: fates) rs = r :: answers fates rs)
    (hr : ((execCommand py cmd s).1, (execCommand py cmd s).2.globals) = (r, s.globals))
    (h : Typed py ((fate py pending cmd).pending pending cmd) cmds (execCommand py cmd s).2
      blocks rest) : Typed py pending (cmd :: cmds) s blocks rest := by
  obtain ⟨hr, hglobals⟩ := Prod.mk.inj hr
  have hresponses := h.responses
  rw [hglobals] at hresponses
  refine ⟨?_, ?_, hglobals ▸ h.globals, h.multilinecmd⟩
  · rw [← h.lines, ← hwaiting, List.append_assoc, ← List.filter_append]
    rfl
  · rw [PythonCmdline.responses, fates, List.map_cons, hanswers, hr, hresponses]

theorem typed_behind (py : Python γ ν ω ξ) {pending : List (List Char)}
    {s : PythonCmdline ν} (hs : s.multilinecmd = joined pending) (cmds : List (List Char)) :
    ∃ blocks rest, Typed py pending cmds s blocks rest := by
  induction cmds generalizing pending s with
  | nil => exact ⟨[], pending, by simp [fates], rfl, rfl, hs⟩
  | cons cmd cmds ih =>
    have hdoes := execCommand_does py hs cmd
    obtain ⟨blocks, rest, h⟩ := ih hdoes.multilinecmd
    cases hfate : fate py pending cmd with
    | waits =>
      refine ⟨blocks, rest, h.cons ?_ ?_ (hdoes.waits hfate)⟩ <;> rw [hfate]
      · simp [waiting, Fate.pending]
      · exact fun _ _ => rfl
    | dropped =>
      refine ⟨blocks, rest, h.cons ?_ ?_ (hdoes.dropped hfate)⟩ <;> rw [hfate]
      · simp [Fate.pending]
      · exact fun _ _ => rfl
    | completes =>
      have hevaluate := hdoes.completes hfate
      have hlines := h.lines
      have hresponses := h.responses
      rw [hfate] at hlines
      -- the lines that waited are a block now
      refine ⟨⟨pending, cmd⟩ :: blocks, rest, ?_, ?_, ?_, h.multilinecmd⟩
      · simpa [fates, hfate, waiting, Fate.pending, Block.lines] using hlines
      · simp [responses, fates, hfate, answers, evaluate, Block.text, ← hevaluate, hresponses]
      · simp [evaluate, Block.text, ← hevaluate, ← h.globals, session]

/-- **Run.**  No line is lost, evaluated twice or moved, unless the compiler cannot read it. -/
theorem typed (py : Python γ ν ω ξ) (globals : ν) (cmds : List (List Char)) :
    (fates py [] cmds).map Prod.snd = cmds ∧
      ∃ blocks rest, Typed py [] cmds (new globals) blocks rest :=
  ⟨map_fates py [] cmds, typed_behind py rfl cmds⟩

/-! ## The server's interpreter -/

section
variable (py : Python γ ν ω ξ) (cmd : Msg → List Char)

/-- How the command ends for the handler: an `ExecCommandErrorObj` has the current
command. -/
def execResult : CmdlineResult ω ξ × PythonCmdline ν → ExecResult
  | (.ok out, _) => .value (py.value out)
  | (.error .exit, _) => .exit
  | (.error e, s) => .error (py.errorObj e (s.currentCmd.getD []))

/-- How the commands end, one after the other. -/
def execResults : PythonCmdline ν → List Msg → List ExecResult
  | _, [] => []
  | s, msg :: msgs =>
    execResult py (execCommand py (cmd msg) s) ::
      execResults (execCommand py (cmd msg) s).2 msgs

/-- How a command ends behind others. -/
def executor (globals : ν) (before : List Msg) (msg : Msg) : ExecResult :=
  execResult py (execCommand py (cmd msg) (session py (new globals) (before.map cmd)))

theorem execResults_get {s : PythonCmdline ν} {msgs : List Msg} {n : Nat} {msg : Msg}
    (hn : msgs[n]? = some msg) :
    (execResults py cmd s msgs)[n]? =
      some (execResult py (execCommand py (cmd msg) (session py s ((msgs.take n).map cmd)))) := by
  induction msgs generalizing s n with
  | nil => cases hn
  | cons m msgs ih =>
    cases n with
    | zero =>
      cases hn
      rfl
    | succ n => exact ih hn

end

end PythonCmdline

/-- The commands of the server are those of one `PythonCmdline`. -/
def Env.withCmdline {γ ν ω ξ : Type} (env : Env) (py : Python γ ν ω ξ) (cmd : Msg → List Char)
    (globals : ν) : Env :=
  { env with exec := PythonCmdline.executor py cmd globals }

namespace Exchange

variable {γ ν ω ξ : Type}

section
variable (py : Python γ ν ω ξ) (cmd : Msg → List Char) (globals : ν)

/-- The replies that the client has are those of a local `PythonCmdline`, which is given
the commands that were executed: commands whose calls have not returned may be missing. -/
structure AnswersAsLocal (x : Exchange) : Prop where
  order : (x.server.executed.filter Server.isExec).Sublist x.client.requests
  replies : ∀ msg r, (msg, r) ∈ x.client.returned → Server.isExec msg = true →
    ∃ (n : Nat) (result : ExecResult) (out : Bytes),
      (∀ k, x.server.executed[k]? = some msg ↔ k = n) ∧
      (PythonCmdline.execResults py cmd (.new globals) x.server.executed)[n]? = some result ∧
      Server.outObj? result = some out ∧ r = msg.createReply .execCommandReply out
  all : (∀ msg ∈ x.client.requests, Server.isExec msg = true → ∃ r, (msg, r) ∈ x.client.returned) →
    x.server.executed.filter Server.isExec = x.client.requests.filter Server.isExec

end

section
variable {py : Python γ ν ω ξ} {cmd : Msg → List Char} {globals : ν} {env : Env} {x : Exchange}

/-- Every command whose call has returned was executed. -/
theorem filter_executed (hsub : (x.server.executed.filter Server.isExec).Sublist x.client.requests)
    (honce : x.ExecutesExactlyOnce env) (hnodup : x.client.requests.Nodup)
    (hall : ∀ msg ∈ x.client.requests, Server.isExec msg = true →
      ∃ r, (msg, r) ∈ x.client.returned) :
    x.server.executed.filter Server.isExec = x.client.requests.filter Server.isExec := by
  have hsub' := hsub.filter Server.isExec
  simp only [List.filter_filter, Bool.and_self] at hsub'
  refine hsub'.eq_of_length_le (List.Subperm.length_le ?_)
  refine (hnodup.filter _).subperm fun msg hmsg => ?_
  obtain ⟨hmem, hexec⟩ := List.mem_filter.mp hmsg
  obtain ⟨r, hr⟩ := hall msg hmem hexec
  obtain ⟨n, out, hn, -⟩ := honce msg r hr hexec
  exact List.mem_filter.mpr ⟨List.mem_of_getElem? ((hn n).mpr rfl), hexec⟩

theorem Ordered.answersAsLocal (hordered : Ordered (env.withCmdline py cmd globals) x)
    (hinv : Inv x) : AnswersAsLocal py cmd globals x := by
  have honce := hordered.executesExactlyOnce hinv
  have hnodup : x.client.requests.Nodup :=
    hordered.requests_lt.imp fun hm heq => by simp [heq] at hm
  refine ⟨hordered.sublist_requests, fun msg r hr hexec => ?_,
    filter_executed hordered.sublist_requests honce hnodup⟩
  obtain ⟨n, out, hn, hout, hreply⟩ := honce msg r hr hexec
  exact ⟨n, _, out, hn, PythonCmdline.execResults_get py cmd ((hn n).mpr rfl), hout, hreply⟩

/-- **Run.**  The lossy link is a local session to its caller. -/
theorem answers_as_local (py : Python γ ν ω ξ) (cmd : Msg → List Char) (globals : ν) (env : Env)
    {x : Exchange} (h : Reaches (step (env.withCmdline py cmd globals)) Ok
      (init (env.withCmdline py cmd globals)) x) : AnswersAsLocal py cmd globals x :=
  Ordered.answersAsLocal (h.invariant ordered_init fun a _ hx _ => ordered_step hx a)
    (h.invariant inv_init fun _ _ hx hok => inv_step hx hok)

end

/-- A Python in which a text with a colon at its end waits for more lines.  It numbers its
evaluations. -/
def countingPython : Python (List Char) Nat Nat Empty where
  compileEval text := if ':' ∈ text then .error (.syntaxError "invalid syntax") else .ok text
  compileExec text :=
    if text.getLast? = some ':' then .error (.indentationError "expected an indented block")
    else .ok text
  eval _ n := (.ok n, n + 1)
  value out := out.elim [] fun n => [UInt8.ofNat (48 + n)]
  errorObj _ _ := []

def text (msg : Msg) : List Char := msg.arg.map fun c => Char.ofNat c.toNat

/-- A block of two lines, of which the first is sent twice. -/
def twoLines : List Action :=
  [.receive, .call ⟨.execCommandRequest, 0, ascii "if 1:"⟩, .timeout, .serve, .serve, .serve,
    .receive, .receive, .loseToServer 0, .call ⟨.execCommandRequest, 0, ascii " 2"⟩, .serve,
    .receive, .receive, .receive, .receive, .receive]

theorem answers_as_local_twoLines :
    let env := calm.withCmdline countingPython text 0
    let x := twoLines.foldl (fun x a => step env a x) (init env)
    x.client.returned.map (fun y => y.2.arg) = [[], ascii "0"] ∧
      AnswersAsLocal countingPython text 0 x :=
  ⟨by decide +kernel, answers_as_local countingPython text 0 calm
    (reaches_of_along twoLines .refl (by decide +kernel))⟩

end Exchange

end InteractiveSessions
