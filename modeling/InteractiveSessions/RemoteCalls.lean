import InteractiveSessions.Lib.Dict
import InteractiveSessions.Lib.PyExpr
import InteractiveSessions.Lib.Runs
import InteractiveSessions.Lib.Utf8

/-!
# `runnerterminal`: remote calls as Python texts

A call is sent as a text.  The arguments are pickled, and their bytes are literals in the
text of the call, which is a literal in the command.  `_RunnerHandler` compiles it again.

* `exec_cmd`: a command asks the `_RunnerHandler` for what was meant;
* `body_job`: the response thread of a call does what was asked for.
-/

namespace InteractiveSessions

namespace RemoteCall

open PyLiteral PyExpr

variable {ε ω ν α : Type}

/-! ## The remote side -/

namespace Names

def runnerhandlerns : Name := ⟨chars "runnerhandlerns", by decide⟩

def pickle : Name := ⟨chars "pickle", by decide⟩

def unpickler : Name := ⟨chars "Unpickler", by decide⟩

def locals : Name := ⟨chars "locals", by decide⟩

def deserialize : Name := ⟨chars "deserialize", by decide⟩

def run : Name := ⟨chars "run", by decide⟩

def assignAndRun : Name := ⟨chars "assign_and_run", by decide⟩

def runAndReturnHandled : Name := ⟨chars "run_and_return_handled", by decide⟩

def getResponse : Name := ⟨chars "get_response", by decide⟩

def timeout : Name := ⟨chars "timeout", by decide⟩

def localsArg : Name := ⟨chars "locals_", by decide⟩

end Names

/-- The objects that a terminal makes when it is set up, literals, and all other objects. -/
inductive Value (ν : Type) where
  | none
  | str (s : Text)
  | bytes (b : Bytes)
  | float (negative : Bool) (x : Number)
  | int (n : Nat)
  | runnerhandlerns
  | runnerhandler
  /-- A method of the handler. -/
  | method (n : Name)
  | pickle
  | unpickler
  | localsFunction
  | locals
  | other (o : ν)
  deriving DecidableEq

/-- `ns` is what else is in `runnerhandlerns` than the handler. -/
structure Remote (ω ν : Type) where
  ns : Dict Text (Value ν)
  world : ω
  deriving DecidableEq

/-- What Python does with other objects, which have no access to `runnerhandlerns`. -/
structure Python (ε ω ν : Type) where
  objects : Objects ε ω (Value ν)
  dumps : ν → Bytes
  loads : Bytes → Except ε ν
  loads_dumps : ∀ o, loads (dumps o) = .ok o
  keyError : Value ν → ε
  syntaxError : ε
  /-- `_is_in_handled_types` -/
  isHandled : Value ν → Bool

/-- The methods of the handler that are modelled. -/
def methods : List Name :=
  [Names.deserialize, Names.run, Names.assignAndRun, Names.runAndReturnHandled,
    Names.getResponse]

def lift (m : Prog ε ω α) : Prog ε (Remote ω ν) α :=
  Prog.zoom Remote.world (fun w s => { s with world := w }) m

def runnerhandlerKey : Text := chars "_RUNNERHANDLER"

/-- `deserialize(content, pickle.Unpickler)` -/
def deserialize (py : Python ε ω ν) (content : Value ν) : Prog ε (Remote ω ν) (Value ν) :=
  let load (b : Bytes) : Prog ε (Remote ω ν) (Value ν) :=
    match py.loads b with
    | .ok o => pure (.other o)
    | .error e => Prog.raise e
  match content with
  | .bytes b => load b
  | .str s => load (Utf8.encode s)
  | _ => Prog.raise py.objects.typeError

def Python.getItem (py : Python ε ω ν) (v key : Value ν) : Prog ε (Remote ω ν) (Value ν) :=
  match v, key with
  | .runnerhandlerns, .str key =>
    if key = runnerhandlerKey then pure .runnerhandler
    else do
      let v ← Prog.gets fun s : Remote ω ν => s.ns.get? key
      match v with
      | some v => pure v
      | none => Prog.raise (py.keyError (.str key))
  | v, key => lift (py.objects.item v key)

def Python.setItem (py : Python ε ω ν) (v key x : Value ν) : Prog ε (Remote ω ν) Unit :=
  match v, key with
  | .runnerhandlerns, .str key =>
    if key = runnerhandlerKey then lift (py.objects.setItem .runnerhandlerns (.str key) x)
    else Prog.modify fun s => { s with ns := s.ns.set key x }
  | v, key => lift (py.objects.setItem v key x)

def Python.delItem (py : Python ε ω ν) (v key : Value ν) : Prog ε (Remote ω ν) Unit :=
  match v, key with
  | .runnerhandlerns, .str key =>
    if key = runnerhandlerKey then lift (py.objects.delItem .runnerhandlerns (.str key))
    else do
      let v ← Prog.gets fun s : Remote ω ν => s.ns.get? key
      match v with
      | some _ => Prog.modify fun s => { s with ns := s.ns.erase key }
      | none => Prog.raise (py.keyError (.str key))
  | v, key => lift (py.objects.delItem v key)

/-- A call in a text that the handler evaluates. -/
def Python.callValue (py : Python ε ω ν) (v : Value ν) (args : List (Value ν))
    (kwargs : List (Name × Value ν)) : Prog ε (Remote ω ν) (Value ν) :=
  match v, args, kwargs with
  | .method n, [content, .unpickler], [] =>
    if n = Names.deserialize then deserialize py content
    else lift (py.objects.call v args kwargs)
  | .localsFunction, [], [] => pure .locals
  | _, _, _ => lift (py.objects.call v args kwargs)

def Python.getAttr (py : Python ε ω ν) (v : Value ν) (n : Name) : Prog ε (Remote ω ν) (Value ν) :=
  match v with
  | .runnerhandler =>
    if n ∈ methods then pure (.method n) else lift (py.objects.attr .runnerhandler n)
  | .pickle => if n = Names.unpickler then pure .unpickler else lift (py.objects.attr v n)
  | v => lift (py.objects.attr v n)

def Python.getName (py : Python ε ω ν) (n : Name) : Prog ε (Remote ω ν) (Value ν) :=
  if n = Names.runnerhandlerns then pure .runnerhandlerns
  else if n = Names.pickle then pure .pickle
  else if n = Names.locals then pure .localsFunction
  else lift (py.objects.name n)

def Python.negative (py : Python ε ω ν) (v : Value ν) : Prog ε (Remote ω ν) (Value ν) :=
  match v with
  | .float negative x => pure (.float (!negative) x)
  | v => lift (py.objects.neg v)

def Python.remote (py : Python ε ω ν) : Objects ε (Remote ω ν) (Value ν) where
  name := py.getName
  str := .str
  bytes := .bytes
  num := .float false
  int := .int
  neg := py.negative
  attr := py.getAttr
  item := py.getItem
  call := py.callValue
  setName n v := lift (py.objects.setName n v)
  setAttr v n x := lift (py.objects.setAttr v n x)
  setItem := py.setItem
  delName n := lift (py.objects.delName n)
  delAttr v n := lift (py.objects.delAttr v n)
  delItem := py.delItem
  typeError := py.objects.typeError

/-! ### `_RunnerHandler` -/

inductive SteeringString where
  | run
  | handled
  | nothandled
  deriving DecidableEq

/-- `eval(code_obj, locals_)`, whatever the code object is. -/
def execStmt (py : Python ε ω ν) : Stmt → Prog ε (Remote ω ν) (Value ν)
  | .expr e => do
    let _ ← e.eval py.remote
    pure .none
  | .assign target e => do
    let v ← e.eval py.remote
    target.assign py.remote v
    pure .none
  | .del targets => do
    deleteAll py.remote targets
    pure .none

/-- `_get_object` -/
def getObject (py : Python ε ω ν) (code : Text) : Prog ε (Remote ω ν) (Value ν) :=
  match compileEval code with
  | some e => e.eval py.remote
  | none =>
    match compileSingle code with
    | some stmt => execStmt py stmt
    | none => Prog.raise py.syntaxError

abbrev Response (ν : Type) : Type := SteeringString × Value ν

/-- `run` -/
def run (py : Python ε ω ν) (code : Text) : Prog ε (Remote ω ν) (Response ν) := do
  let v ← getObject py code
  pure (.run, v)

/-- `_get_handled` -/
def getHandled (py : Python ε ω ν) (code : Text) : Prog ε (Remote ω ν) (Response ν) := do
  let v ← getObject py code
  pure (if py.isHandled v then (.handled, v) else (.nothandled, .none))

/-- `assign_and_run` -/
def assignAndRun (py : Python ε ω ν) (handle code : Text) : Prog ε (Remote ω ν) (Response ν) := do
  let _ ← getObject py (handle ++ chars " = " ++ code)
  getHandled py handle

/-- `run_and_return_handled` -/
def runAndReturnHandled (py : Python ε ω ν) (code : Text) : Prog ε (Remote ω ν) (Response ν) :=
  getHandled py code

/-- A method with a response thread, and the arguments that the thread gets. -/
inductive Job where
  | run (code : Text)
  | assignAndRun (handle code : Text)
  | runAndReturnHandled (code : Text)
  deriving DecidableEq

/-- What the thread does. -/
def Job.body (py : Python ε ω ν) : Job → Prog ε (Remote ω ν) (Response ν)
  | .run code => RemoteCall.run py code
  | .assignAndRun handle code => RemoteCall.assignAndRun py handle code
  | .runAndReturnHandled code => RemoteCall.runAndReturnHandled py code

/-- What the handler is asked for: to start a response thread, or for the response of an
earlier one.  `negative`: the timeout is below zero. -/
inductive Request (κ : Type) where
  | thread (job : κ) (negative : Bool)
  | getResponse (responseId : Nat) (negative : Bool)
  deriving DecidableEq

/-- Whether a float is below zero, which `-0.0` is not. -/
def isBelowZero (negative : Bool) (x : Number) : Bool :=
  negative && !(x.whole ++ x.frac).all (· = '0')

/-- The method and the arguments of a response thread -/
def job? (n : Name) : List (Value ν) → Option Job
  | [.str code] =>
    if n = Names.run then some (.run code)
    else if n = Names.runAndReturnHandled then some (.runAndReturnHandled code)
    else none
  | [.str handle, .str code] =>
    if n = Names.assignAndRun then some (.assignAndRun handle code) else none
  | _ => none

/-- The arguments of `get_response` -/
def responseId? (n : Name) : List (Value ν) → Option Nat
  | [.int responseId] => if n = Names.getResponse then some responseId else none
  | _ => none

/-- A call of another method of the handler than `deserialize` -/
def callMethod (py : Python ε ω ν) (n : Name) (args : List (Value ν))
    (kwargs : List (Name × Value ν)) : Prog ε (Remote ω ν) (Request Job) :=
  let request? : Option (Request Job) :=
    match kwargs with
    | [(key, .float negative x), (key', _)] =>
      if key = Names.timeout ∧ key' = Names.localsArg then
        (job? n args).map fun job => .thread job (isBelowZero negative x)
      else none
    | [(key, .float negative x)] =>
      if key = Names.timeout then
        (responseId? n args).map fun responseId => .getResponse responseId (isBelowZero negative x)
      else none
    | _ => none
  match request? with
  | some request => pure request
  | none => Prog.raise py.objects.typeError

/-- A command, up to what it asks the handler for. -/
def exec (py : Python ε ω ν) (cmd : Text) : Prog ε (Remote ω ν) (Option (Request Job)) :=
  match compileEval cmd with
  | some (.primary (.call p args)) => do
    let v ← p.eval py.remote
    let a ← args.eval py.remote
    match v with
    | .method n =>
      if n = Names.deserialize then do
        let _ ← py.callValue v a.1 a.2
        pure none
      else do
        let request ← callMethod py n a.1 a.2
        pure (some request)
    | v => do
      let _ ← py.callValue v a.1 a.2
      pure none
  | some e => do
    let _ ← e.eval py.remote
    pure none
  | none =>
    match compileSingle cmd with
    | some stmt => do
      let _ ← execStmt py stmt
      pure none
    | none => Prog.raise py.syntaxError

/-! ## `RunnerTerminal` -/

/-- The text of a `float` -/
structure Timeout where
  negative : Bool
  seconds : Number

def Timeout.text (t : Timeout) : Text :=
  if t.negative then '-' :: t.seconds.text else t.seconds.text

/-- An expression of the remote side: a name of a function, or a handle. -/
structure RemoteName where
  expr : Primary
  wf : expr.WF

/-- `_get_random_name`: hexadecimal digits -/
structure Handle where
  name : Text
  hex : (name.all fun c => c.isDigit || ('a' ≤ c && c ≤ 'f')) = true
  deriving DecidableEq

/-- `_get_handle_for_name` -/
def Handle.text (h : Handle) : Text :=
  chars "runnerhandlerns['_PROXY_CONTAINER.handle_" ++ h.name ++ chars "']"

inductive Arg (ν : Type) where
  | value (o : ν)
  | proxy (handle : RemoteName)

section
variable (printable : Char → Bool)

def RemoteName.text (r : RemoteName) : Text := r.expr.text printable

/-- `_RUNNERCALL` -/
def runnerCall (method args : Text) : Text :=
  chars "runnerhandlerns['_RUNNERHANDLER']." ++ method ++ chars "(" ++ args ++ chars ")"

/-- `_RUNNERLOCALS` -/
def runnerLocals (method args : Text) : Text :=
  runnerCall method (args ++ chars ", locals_=locals()")

/-- `_RUN_TEMPLATE` -/
def runTemplate (cmd : Text) (timeout : Timeout) : Text :=
  runnerLocals (chars "run") (PyLiteral.repr printable cmd ++ chars ", timeout=" ++ timeout.text)

/-- `_ASSIGN_AND_RUN_TEMPLATE` -/
def assignAndRunTemplate (handle cmd : Text) (timeout : Timeout) : Text :=
  runnerLocals (chars "assign_and_run") (PyLiteral.repr printable handle ++ chars ", " ++
    PyLiteral.repr printable cmd ++ chars ", timeout=" ++ timeout.text)

/-- `_RUN_AND_RETURN_HANDLED_TEMPLATE` -/
def runAndReturnHandledTemplate (handle : Text) (timeout : Timeout) : Text :=
  runnerLocals (chars "run_and_return_handled")
    (PyLiteral.repr printable handle ++ chars ", timeout=" ++ timeout.text)

/-- `_GET_RESPONSE_TEMPLATE` -/
def getResponseTemplate (responseId : Nat) (timeout : Timeout) : Text :=
  runnerCall (chars "get_response")
    (Nat.toDigits 10 responseId ++ chars ", timeout=" ++ timeout.text)

/-- `_DESERIALIZE_TEMPLATE` -/
def deserializeTemplate (obj : Bytes) : Text :=
  runnerCall (chars "deserialize") (reprBytes obj ++ chars ", " ++ chars "pickle.Unpickler")

/-- `_get_python_arg` -/
def getPythonArg (py : Python ε ω ν) : Arg ν → Text
  | .proxy handle => handle.text printable
  | .value o => deserializeTemplate (py.dumps o)

/-- `', '.join(l)` -/
def join (l : List Text) : Text := (chars ", ").intercalate l

/-- `arg_list` -/
def argList (py : Python ε ω ν) (args : List (Arg ν)) (kwargs : List (Name × Arg ν)) : List Text :=
  args.map (getPythonArg printable py) ++
    kwargs.map fun x => x.1.text ++ chars "=" ++ getPythonArg printable py x.2

/-- `_get_python_call` -/
def getPythonCall (py : Python ε ω ν) (functionName : Text) (args : List (Arg ν))
    (kwargs : Dict Name (Arg ν)) : Text :=
  functionName ++ chars "(" ++ join (argList printable py args kwargs.items) ++ chars ")"

/-- The calls of a `RunnerTerminal` that have a response.  The handles are new random
names. -/
inductive ThreadCall (ν : Type) where
  | runPython (cmd : RemoteName)
  | runPythonCall (functionName : RemoteName) (args : List (Arg ν)) (kwargs : Dict Name (Arg ν))
  | getProxyObjectFromCall (handle : Handle) (functionName : RemoteName) (args : List (Arg ν))
      (kwargs : Dict Name (Arg ν))
  | getProxyOrBasicFromCall (handle : Handle) (functionName : RemoteName) (args : List (Arg ν))
      (kwargs : Dict Name (Arg ν))
  | runAndReturnHandledPython (handle : RemoteName)

inductive Call (ν : Type) where
  | task (timeout : Timeout) (task : ThreadCall ν)
  | getResponse (responseId : Nat) (timeout : Timeout)
  /-- `_clean_garbage` -/
  | cleanGarbage (first : Handle) (garbage : List Handle)

/-- The text of the assignment in `get_proxy_object_from_call` -/
def assignCall (py : Python ε ω ν) (handle : Handle) (functionName : RemoteName)
    (args : List (Arg ν)) (kwargs : Dict Name (Arg ν)) : Text :=
  handle.text ++ chars " = " ++
    getPythonCall printable py (functionName.text printable) args kwargs

def ThreadCall.cmd (py : Python ε ω ν) (timeout : Timeout) : ThreadCall ν → Text
  | .runPython cmd => runTemplate printable (cmd.text printable) timeout
  | .runPythonCall functionName args kwargs =>
    runTemplate printable
      (getPythonCall printable py (functionName.text printable) args kwargs) timeout
  | .getProxyObjectFromCall handle functionName args kwargs =>
    runTemplate printable (assignCall printable py handle functionName args kwargs) timeout
  | .getProxyOrBasicFromCall handle functionName args kwargs =>
    assignAndRunTemplate printable handle.text
      (getPythonCall printable py (functionName.text printable) args kwargs) timeout
  | .runAndReturnHandledPython handle =>
    runAndReturnHandledTemplate printable (handle.text printable) timeout

/-- The command that is sent. -/
def Call.cmd (py : Python ε ω ν) : Call ν → Text
  | .task timeout t => t.cmd printable py timeout
  | .getResponse responseId timeout => getResponseTemplate responseId timeout
  | .cleanGarbage first garbage => chars "del " ++ join (first.text :: garbage.map Handle.text)

end

/-! ## What is asked for -/

def Handle.key (h : Handle) : Text := chars "_PROXY_CONTAINER.handle_" ++ h.name

def argValue (py : Python ε ω ν) : Arg ν → Prog ε (Remote ω ν) (Value ν)
  | .value o => pure (.other o)
  | .proxy handle => handle.expr.eval py.remote

def keywordValues (py : Python ε ω ν) : List (Name × Arg ν) →
    Prog ε (Remote ω ν) (List (Value ν) × List (Name × Value ν))
  | [] => pure ([], [])
  | x :: kwargs => do
    let v ← argValue py x.2
    let a ← keywordValues py kwargs
    pure (a.1, (x.1, v) :: a.2)

/-- The arguments, those with keywords at the end. -/
def values (py : Python ε ω ν) (kwargs : List (Name × Arg ν)) : List (Arg ν) →
    Prog ε (Remote ω ν) (List (Value ν) × List (Name × Value ν))
  | [] => keywordValues py kwargs
  | x :: args => do
    let v ← argValue py x
    let a ← values py kwargs args
    pure (v :: a.1, a.2)

/-- The function is called with the arguments. -/
def apply (py : Python ε ω ν) (functionName : RemoteName) (args : List (Arg ν))
    (kwargs : Dict Name (Arg ν)) : Prog ε (Remote ω ν) (Value ν) := do
  let v ← functionName.expr.eval py.remote
  let a ← values py kwargs.items args
  py.callValue v a.1 a.2

def assign (h : Handle) (v : Value ν) : Prog ε (Remote ω ν) Unit :=
  Prog.modify fun s => { s with ns := s.ns.set h.key v }

def handledResponse (py : Python ε ω ν) (v : Value ν) : Response ν :=
  if py.isHandled v then (.handled, v) else (.nothandled, .none)

/-- The handle has to be there. -/
def delete (py : Python ε ω ν) (h : Handle) : Prog ε (Remote ω ν) Unit := do
  let v ← Prog.gets fun s : Remote ω ν => s.ns.get? h.key
  match v with
  | some _ => Prog.modify fun s => { s with ns := s.ns.erase h.key }
  | none => Prog.raise (py.keyError (.str h.key))

def deleteHandles (py : Python ε ω ν) : List Handle → Prog ε (Remote ω ν) Unit
  | [] => pure ()
  | h :: hs => do
    delete py h
    deleteHandles py hs

/-- The task on the objects of the remote side. -/
def ThreadCall.perform (py : Python ε ω ν) : ThreadCall ν → Prog ε (Remote ω ν) (Response ν)
  | .runPython cmd => do
    let v ← cmd.expr.eval py.remote
    pure (.run, v)
  | .runPythonCall functionName args kwargs => do
    let v ← apply py functionName args kwargs
    pure (.run, v)
  | .getProxyObjectFromCall handle functionName args kwargs => do
    let v ← apply py functionName args kwargs
    assign handle v
    pure (.run, .none)
  | .getProxyOrBasicFromCall handle functionName args kwargs => do
    let v ← apply py functionName args kwargs
    assign handle v
    pure (handledResponse py v)
  | .runAndReturnHandledPython handle => do
    let v ← handle.expr.eval py.remote
    pure (handledResponse py v)

def Timeout.isBelowZero (t : Timeout) : Bool := RemoteCall.isBelowZero t.negative t.seconds

/-- A task is for a response thread. -/
def Call.start (py : Python ε ω ν) : Call ν → Prog ε (Remote ω ν) (Option (Request (ThreadCall ν)))
  | .task timeout t => pure (some (.thread t timeout.isBelowZero))
  | .getResponse responseId timeout => pure (some (.getResponse responseId timeout.isBelowZero))
  | .cleanGarbage first garbage => do
    deleteHandles py (first :: garbage)
    pure none

/-! ## The texts are those of expressions -/

/-- `runnerhandlerns['_RUNNERHANDLER'].n(args)` -/
def handlerCall (n : Name) (args : Args) : Primary :=
  .call (.attr (.item (.name Names.runnerhandlerns) (.primary (.str runnerhandlerKey))) n) args

def Handle.expr (h : Handle) : Primary :=
  .item (.name Names.runnerhandlerns) (.primary (.str h.key))

def Timeout.expr (t : Timeout) : Expr :=
  if t.negative then .neg (.primary (.num t.seconds)) else .primary (.num t.seconds)

def localsCall : Expr := .primary (.call (.name Names.locals) .nil)

/-- `timeout=t, locals_=locals()` -/
def lastArgs (t : Timeout) : Args := .kw Names.timeout t.expr (.kw Names.localsArg localsCall .nil)

def argExpr (py : Python ε ω ν) : Arg ν → Expr
  | .proxy handle => .primary handle.expr
  | .value o => .primary (handlerCall Names.deserialize (.pos (.primary (.bytes (py.dumps o)))
      (.pos (.primary (.attr (.name Names.pickle) Names.unpickler)) .nil)))

def keywordExprs (py : Python ε ω ν) : List (Name × Arg ν) → Args
  | [] => .nil
  | x :: kwargs => .kw x.1 (argExpr py x.2) (keywordExprs py kwargs)

def argExprs (py : Python ε ω ν) (kwargs : List (Name × Arg ν)) : List (Arg ν) → Args
  | [] => keywordExprs py kwargs
  | x :: args => .pos (argExpr py x) (argExprs py kwargs args)

def callExpr (py : Python ε ω ν) (functionName : RemoteName) (args : List (Arg ν))
    (kwargs : Dict Name (Arg ν)) : Primary :=
  .call functionName.expr (argExprs py kwargs.items args)

section
variable {printable : Char → Bool} {py : Python ε ω ν}

theorem text_handlerCall (n : Name) (args : Args) :
    (handlerCall n args).text printable = runnerCall n.text (args.text printable true) := by
  have hkey := repr_of_plain (s := runnerhandlerKey) (by decide) printable
  have hfront : chars "runnerhandlerns['_RUNNERHANDLER']." = Names.runnerhandlerns.text ++
      '[' :: ('\'' :: (runnerhandlerKey ++ ['\'']) ++ [']', '.']) := by decide
  simp only [handlerCall, Primary.text, Expr.text, hkey, runnerCall, hfront, List.append_assoc]
  rfl

theorem text_timeout (t : Timeout) : t.expr.text printable = t.text := by
  unfold Timeout.expr Timeout.text
  split <;> rfl

theorem text_lastArgs (t : Timeout) : (lastArgs t).text printable false =
    chars ", timeout=" ++ t.text ++ chars ", locals_=locals()" := by
  simp only [lastArgs, Args.text, text_timeout, separator, Bool.false_eq_true, if_false,
    List.append_assoc]
  rfl

theorem text_argExpr (a : Arg ν) : (argExpr py a).text printable = getPythonArg printable py a := by
  cases a with
  | proxy handle => rfl
  | value o =>
    simp only [argExpr, Expr.text, text_handlerCall, getPythonArg, deserializeTemplate, Args.text,
      Primary.text, separator, if_true, List.nil_append, List.append_nil, Bool.false_eq_true,
      if_false, List.append_assoc]
    rfl

theorem join_cons_cons (t u : Text) (ts : List Text) :
    join (t :: u :: ts) = t ++ (separator false ++ join (u :: ts)) := by
  simp only [join, List.intercalate, List.intersperse_cons_cons, List.flatten_cons]
  rfl

theorem join_cons (t : Text) (ts : List Text) :
    join (t :: ts) = t ++ ts.flatMap fun u => separator false ++ u := by
  induction ts generalizing t with
  | nil => simp [join]
  | cons u ts ih => rw [join_cons_cons, ih, List.flatMap_cons, List.append_assoc]

theorem text_keywordExprs_false (kwargs : List (Name × Arg ν)) :
    (keywordExprs py kwargs).text printable false =
      (argList printable py [] kwargs).flatMap fun u => separator false ++ u := by
  induction kwargs with
  | nil => rfl
  | cons x kwargs ih =>
    rw [keywordExprs, Args.text, ih, text_argExpr]
    simp only [argList, List.map_nil, List.map_cons, List.nil_append, List.flatMap_cons,
      List.append_assoc]
    rfl

/-- The arguments behind others. -/
theorem text_argExprs_false (args : List (Arg ν)) (kwargs : List (Name × Arg ν)) :
    (argExprs py kwargs args).text printable false =
      (argList printable py args kwargs).flatMap fun u => separator false ++ u := by
  induction args with
  | nil => exact text_keywordExprs_false kwargs
  | cons x args ih =>
    rw [argExprs, Args.text, ih, text_argExpr]
    simp only [argList, List.map_cons, List.cons_append, List.flatMap_cons, List.append_assoc]

theorem text_argExprs (args : List (Arg ν)) (kwargs : List (Name × Arg ν)) :
    (argExprs py kwargs args).text printable true = join (argList printable py args kwargs) := by
  cases args with
  | nil =>
    cases kwargs with
    | nil => rfl
    | cons x kwargs =>
      rw [argExprs, keywordExprs, Args.text, text_keywordExprs_false, text_argExpr]
      simp only [argList, List.map_nil, List.map_cons, List.nil_append, join_cons, separator,
        if_true, List.append_assoc]
      rfl
  | cons x args =>
    rw [argExprs, Args.text, text_argExprs_false, text_argExpr]
    simp only [argList, List.map_cons, List.cons_append, join_cons, separator, if_true,
      List.nil_append]

theorem text_callExpr (functionName : RemoteName) (args : List (Arg ν))
    (kwargs : Dict Name (Arg ν)) : (callExpr py functionName args kwargs).text printable =
      getPythonCall printable py (functionName.text printable) args kwargs := by
  simp only [callExpr, Primary.text, text_argExprs, getPythonCall, RemoteName.text,
    List.append_assoc]
  rfl

theorem plain_key (h : Handle) : Plain h.key := by
  have hfront : Plain (chars "_PROXY_CONTAINER.handle_") := by decide
  intro c hc
  rcases List.mem_append.mp hc with hc | hc
  · exact hfront c hc
  · have hhex := List.all_eq_true.mp h.hex c hc
    have hbounds : 48 ≤ c.toNat ∧ c.toNat < 127 ∧ c.toNat ≠ 92 := by
      simp only [Char.isDigit, Bool.or_eq_true, Bool.and_eq_true, decide_eq_true_eq] at hhex
      simp only [Char.toNat, Char.le_def, UInt32.le_iff_toNat_le] at hhex ⊢
      rcases hhex with ⟨hlo, hhi⟩ | ⟨hlo, hhi⟩
      · have hhi' : c.val.toNat ≤ 57 := hhi
        have hlo' : 48 ≤ c.val.toNat := hlo
        omega
      · have hhi' : c.val.toNat ≤ 102 := hhi
        have hlo' : 97 ≤ c.val.toNat := hlo
        omega
    refine ⟨by omega, hbounds.2.1, ?_, ?_⟩
    · rintro rfl
      exact absurd hbounds.1 (by decide)
    · rintro rfl
      exact hbounds.2.2 (by decide)

theorem text_handle (h : Handle) : h.expr.text printable = h.text := by
  have hkey := repr_of_plain (plain_key h) printable
  have hfront : chars "runnerhandlerns['_PROXY_CONTAINER.handle_" = Names.runnerhandlerns.text ++
      '[' :: '\'' :: chars "_PROXY_CONTAINER.handle_" := by decide
  simp only [Handle.expr, Primary.text, Expr.text, hkey, Handle.text, hfront]
  simp only [Handle.key, List.append_assoc, List.cons_append]
  rfl

/-! ### They are well formed -/

theorem wf_handlerCall {n : Name} {args : Args} (h : args.WF []) : (handlerCall n args).WF := by
  simpa only [handlerCall, Primary.WF, Expr.WF, true_and, and_true] using h

theorem wf_argExpr (a : Arg ν) : (argExpr py a).WF := by
  cases a with
  | proxy handle => exact handle.wf
  | value o =>
    apply wf_handlerCall
    simp only [Args.WF, Expr.WF, Primary.WF, and_self]

theorem wf_keywordExprs {kwargs : List (Name × Arg ν)} {seen : List Name}
    (hnodup : (kwargs.map Prod.fst).Nodup) (hseen : ∀ x ∈ kwargs, x.1 ∉ seen) :
    (keywordExprs py kwargs).WF seen := by
  induction kwargs generalizing seen with
  | nil => trivial
  | cons x kwargs ih =>
    obtain ⟨hx, hkwargs⟩ := List.nodup_cons.mp hnodup
    refine ⟨hseen x List.mem_cons_self, wf_argExpr x.2, ih hkwargs ?_⟩
    intro y hy hmem
    rcases List.mem_cons.mp hmem with heq | hmem
    · exact hx (heq ▸ List.mem_map_of_mem hy)
    · exact hseen y (List.mem_cons_of_mem _ hy) hmem

theorem wf_argExprs (args : List (Arg ν)) (kwargs : Dict Name (Arg ν)) :
    (argExprs py kwargs.items args).WF [] := by
  induction args with
  | nil => exact wf_keywordExprs kwargs.nodup fun _ _ => List.not_mem_nil
  | cons x args ih => exact ⟨rfl, wf_argExpr x, ih⟩

theorem wf_callExpr (functionName : RemoteName) (args : List (Arg ν)) (kwargs : Dict Name (Arg ν)) :
    (callExpr py functionName args kwargs).WF :=
  ⟨functionName.wf, wf_argExprs args kwargs⟩

theorem wf_handle (h : Handle) : h.expr.WF := by
  simp only [Handle.expr, Primary.WF, Expr.WF, and_self]

theorem wf_timeout (t : Timeout) : t.expr.WF := by
  unfold Timeout.expr
  split <;> simp only [Expr.WF, Primary.WF]

/-! ## What is evaluated -/

theorem eval_runnerhandlerns :
    (Primary.name Names.runnerhandlerns).eval py.remote = pure Value.runnerhandlerns := by
  have hname : py.getName Names.runnerhandlerns = pure Value.runnerhandlerns := if_pos rfl
  rw [Primary.eval]
  exact hname

theorem eval_runnerhandler : (Primary.item (.name Names.runnerhandlerns)
    (.primary (.str runnerhandlerKey))).eval py.remote = pure Value.runnerhandler := by
  have hitem : py.getItem .runnerhandlerns (.str runnerhandlerKey) =
      pure Value.runnerhandler := by
    rw [Python.getItem, if_pos rfl]
  rw [Primary.eval, eval_runnerhandlerns, Expr.eval, Primary.eval]
  exact hitem

theorem eval_handlerMethod {n : Name} (hn : n ∈ methods) : (Primary.attr
    (.item (.name Names.runnerhandlerns) (.primary (.str runnerhandlerKey))) n).eval py.remote =
      pure (Value.method n) := by
  have hattr : py.getAttr .runnerhandler n = pure (Value.method n) := if_pos hn
  rw [Primary.eval, eval_runnerhandler]
  exact hattr

theorem eval_unpickler :
    (Primary.attr (.name Names.pickle) Names.unpickler).eval py.remote = pure Value.unpickler := by
  have hpickle : py.getName Names.pickle = pure Value.pickle := by
    rw [Python.getName, if_neg (by decide), if_pos rfl]
  have hattr : py.getAttr .pickle Names.unpickler = pure Value.unpickler := by
    rw [Python.getAttr, if_pos rfl]
  rw [Primary.eval, Primary.eval]
  show (py.getName Names.pickle >>= fun v => py.getAttr v Names.unpickler) = _
  rw [hpickle]
  exact hattr

/-- What was pickled is unpickled. -/
theorem eval_argExpr (a : Arg ν) : (argExpr py a).eval py.remote = argValue py a := by
  cases a with
  | proxy handle => rw [argExpr, Expr.eval, argValue]
  | value o =>
    rw [argExpr, Expr.eval, handlerCall, Primary.eval, eval_handlerMethod (by decide), Args.eval,
      Args.eval, Args.eval, Expr.eval, Expr.eval, Primary.eval, eval_unpickler]
    have hcall : py.callValue (.method Names.deserialize) [.bytes (py.dumps o), .unpickler] [] =
        (pure (.other o) : Prog ε (Remote ω ν) (Value ν)) := by
      rw [Python.callValue, if_pos rfl, deserialize]
      simp only [py.loads_dumps]
    exact hcall

theorem eval_argExprs (args : List (Arg ν)) (kwargs : List (Name × Arg ν)) :
    (argExprs py kwargs args).eval py.remote = values py kwargs args := by
  have hkeywords : (keywordExprs py kwargs).eval py.remote = keywordValues py kwargs := by
    induction kwargs with
    | nil => rw [keywordExprs, Args.eval, keywordValues]
    | cons x kwargs ih => rw [keywordExprs, Args.eval, eval_argExpr, ih, keywordValues]
  induction args with
  | nil => exact hkeywords
  | cons x args ih => rw [argExprs, Args.eval, eval_argExpr, ih, values]

theorem eval_callExpr (functionName : RemoteName) (args : List (Arg ν))
    (kwargs : Dict Name (Arg ν)) :
    (callExpr py functionName args kwargs).eval py.remote = apply py functionName args kwargs := by
  rw [callExpr, Primary.eval, eval_argExprs]
  rfl

theorem key_ne (h : Handle) : h.key ≠ runnerhandlerKey := by
  intro heq
  have hsecond : some 'P' = some 'R' := congrArg (fun t : Text => t[1]?) heq
  exact absurd hsecond (by decide)

theorem eval_handle (h : Handle) :
    h.expr.eval py.remote = py.getItem .runnerhandlerns (.str h.key) := by
  rw [Handle.expr, Primary.eval, eval_runnerhandlerns, Expr.eval, Primary.eval]
  rfl

theorem assign_handle (h : Handle) (v : Value ν) : h.expr.assign py.remote v = assign h v := by
  have hset : py.setItem .runnerhandlerns (.str h.key) v = assign h v := by
    rw [Python.setItem, if_neg (key_ne h), assign]
  rw [Handle.expr, Primary.assign, eval_runnerhandlerns, Expr.eval, Primary.eval]
  exact hset

theorem deleteAll_handles (hs : List Handle) :
    deleteAll py.remote (hs.map Handle.expr) = deleteHandles py hs := by
  induction hs with
  | nil => rfl
  | cons h hs ih =>
    have hitem : py.delItem .runnerhandlerns (.str h.key) = delete py h := by
      rw [Python.delItem, if_neg (key_ne h)]
      rfl
    have hdel : h.expr.delete py.remote = delete py h := by
      rw [Handle.expr, Primary.delete, eval_runnerhandlerns, Expr.eval, Primary.eval]
      exact hitem
    rw [List.map_cons, deleteAll, ih, hdel, deleteHandles]

/-! ## Commands -/

theorem getObject_text (py : Python ε ω ν) (printable : Char → Bool) {e : Expr} (he : e.WF) :
    getObject py (e.text printable) = e.eval py.remote := by
  rw [getObject, compileEval_text printable he]

theorem getObject_assign (py : Python ε ω ν) (printable : Char → Bool) (h : Handle) {e : Expr}
    (he : e.WF) :
    getObject py (h.text ++ chars " = " ++ e.text printable) = (do
      let v ← e.eval py.remote
      assign h v
      pure Value.none) := by
  have htext : h.text ++ chars " = " ++ e.text printable = assignText printable h.expr e := by
    rw [assignText, text_handle]
    rfl
  have htarget : h.expr.IsTarget := trivial
  obtain ⟨heval, hsingle⟩ := compileSingle_assign printable htarget (wf_handle h) he
  rw [htext, getObject, heval]
  simp only [hsingle, execStmt, assign_handle]

theorem getObject_remoteName (py : Python ε ω ν) (printable : Char → Bool) (r : RemoteName) :
    getObject py (r.text printable) = r.expr.eval py.remote := by
  have hobject := getObject_text py printable (e := .primary r.expr) r.wf
  rw [Expr.text, Expr.eval] at hobject
  exact hobject

section
variable (functionName : RemoteName) (args : List (Arg ν)) (kwargs : Dict Name (Arg ν))

theorem getObject_pythonCall :
    getObject py (getPythonCall printable py (functionName.text printable) args kwargs) =
      apply py functionName args kwargs := by
  have hobject := getObject_text py printable
    (e := .primary (callExpr py functionName args kwargs)) (wf_callExpr functionName args kwargs)
  rw [Expr.text, text_callExpr, Expr.eval, eval_callExpr] at hobject
  exact hobject

theorem getObject_assignCall (handle : Handle) :
    getObject py (handle.text ++ chars " = " ++
      getPythonCall printable py (functionName.text printable) args kwargs) = (do
        let v ← apply py functionName args kwargs
        assign handle v
        pure Value.none) := by
  have hobject := getObject_assign py printable handle
    (e := .primary (callExpr py functionName args kwargs)) (wf_callExpr functionName args kwargs)
  rw [Expr.text, text_callExpr, Expr.eval, eval_callExpr] at hobject
  exact hobject

end

theorem eval_timeout (t : Timeout) :
    t.expr.eval py.remote = pure (Value.float t.negative t.seconds) := by
  unfold Timeout.expr
  cases ht : t.negative
  · rw [if_neg Bool.false_ne_true, Expr.eval, Primary.eval]
    rfl
  · rw [if_pos rfl, Expr.eval, Expr.eval, Primary.eval]
    rfl

/-- The arguments that the threads do not get. -/
def lastValues (t : Timeout) : List (Name × Value ν) :=
  [(Names.timeout, .float t.negative t.seconds), (Names.localsArg, .locals)]

theorem eval_lastArgs (t : Timeout) : (lastArgs t).eval py.remote = pure ([],
    lastValues t) := by
  have hname : py.getName Names.locals = pure Value.localsFunction := by
    rw [Python.getName, if_neg (by decide), if_neg (by decide), if_pos rfl]
  have hcall : py.callValue .localsFunction [] [] = pure Value.locals := rfl
  have hlocals : localsCall.eval py.remote = pure Value.locals := by
    rw [localsCall, Expr.eval, Primary.eval, Primary.eval, Args.eval]
    show (py.getName Names.locals >>= fun v => py.callValue v [] []) = _
    rw [hname]
    exact hcall
  rw [lastArgs, Args.eval, Args.eval, Args.eval, eval_timeout, hlocals]
  rfl

theorem compileEval_handlerCall (n : Name) {args : Args} (hwf : args.WF []) :
    compileEval (runnerCall n.text (args.text printable true)) =
      some (.primary (handlerCall n args)) := by
  have hcall : (Expr.primary (handlerCall n args)).WF := wf_handlerCall hwf
  have htext : (Expr.primary (handlerCall n args)).text printable =
      runnerCall n.text (args.text printable true) := by rw [Expr.text, text_handlerCall]
  rw [← htext, compileEval_text printable hcall]

/-- A command is a call of a method. -/
theorem exec_handlerCall {n : Name} (hn : n ∈ methods) (hne : n ≠ Names.deserialize) {args : Args}
    (hwf : args.WF []) {a : List (Value ν) × List (Name × Value ν)}
    (hargs : args.eval py.remote = pure a) :
    exec py (runnerCall n.text (args.text printable true)) = (do
      let request ← callMethod py n a.1 a.2
      pure (some request)) := by
  rw [exec, compileEval_handlerCall n hwf]
  dsimp only [handlerCall]
  rw [eval_handlerMethod hn, hargs]
  exact if_neg hne

theorem wf_lastArgs (t : Timeout) : (lastArgs t).WF [] := by
  have hne : Names.localsArg ∉ [Names.timeout] := by decide
  exact ⟨List.not_mem_nil, wf_timeout t, hne, ⟨trivial, trivial⟩, trivial⟩

/-- One text, and the timeout. -/
def textArgs (s : Text) (t : Timeout) : Args := .pos (.primary (.str s)) (lastArgs t)

theorem eval_textArgs (s : Text) (t : Timeout) : (textArgs s t).eval py.remote = pure ([.str s],
    lastValues t) := by
  rw [textArgs, Args.eval, Expr.eval, Primary.eval, eval_lastArgs]
  rfl

theorem text_textArgs (s : Text) (t : Timeout) : (textArgs s t).text printable true =
    PyLiteral.repr printable s ++ chars ", timeout=" ++ t.text ++ chars ", locals_=locals()" := by
  rw [textArgs, Args.text, Expr.text, Primary.text, text_lastArgs]
  simp only [separator, if_true, List.nil_append, List.append_assoc]

theorem wf_textArgs (s : Text) (t : Timeout) : (textArgs s t).WF [] := ⟨rfl, trivial, wf_lastArgs t⟩

theorem text_runTemplate (cmd : Text) (t : Timeout) : runTemplate printable cmd t =
    runnerCall Names.run.text ((textArgs cmd t).text printable true) := by
  rw [text_textArgs]
  rfl

theorem text_runAndReturnHandledTemplate (cmd : Text) (t : Timeout) :
    runAndReturnHandledTemplate printable cmd t =
      runnerCall Names.runAndReturnHandled.text ((textArgs cmd t).text printable true) := by
  rw [text_textArgs]
  rfl

/-- Two texts, and the timeout. -/
def handleArgs (handle cmd : Text) (t : Timeout) : Args :=
  .pos (.primary (.str handle)) (textArgs cmd t)

theorem wf_handleArgs (handle cmd : Text) (t : Timeout) : (handleArgs handle cmd t).WF [] :=
  ⟨rfl, trivial, wf_textArgs cmd t⟩

theorem text_assignAndRunTemplate (handle cmd : Text) (t : Timeout) :
    assignAndRunTemplate printable handle cmd t = runnerCall Names.assignAndRun.text
      ((handleArgs handle cmd t).text printable true) := by
  rw [handleArgs, Args.text, Expr.text, Primary.text, textArgs, Args.text, Expr.text, Primary.text,
    text_lastArgs, assignAndRunTemplate, runnerLocals]
  simp only [separator, if_true, Bool.false_eq_true, if_false, List.nil_append, List.append_assoc]
  rfl

theorem exec_run (cmd : Text) (t : Timeout) :
    exec py (runTemplate printable cmd t) = pure (some (.thread (.run cmd) t.isBelowZero)) := by
  rw [text_runTemplate, exec_handlerCall (by decide) (by decide) (wf_textArgs cmd t)
    (eval_textArgs cmd t)]
  rfl

theorem exec_runAndReturnHandled (cmd : Text) (t : Timeout) :
    exec py (runAndReturnHandledTemplate printable cmd t) =
      pure (some (.thread (.runAndReturnHandled cmd) t.isBelowZero)) := by
  rw [text_runAndReturnHandledTemplate, exec_handlerCall (by decide) (by decide)
    (wf_textArgs cmd t) (eval_textArgs cmd t)]
  rfl

theorem exec_assignAndRun (handle cmd : Text) (t : Timeout) :
    exec py (assignAndRunTemplate printable handle cmd t) =
      pure (some (.thread (.assignAndRun handle cmd) t.isBelowZero)) := by
  have hargs : (handleArgs handle cmd t).eval py.remote =
      pure ([.str handle, .str cmd], lastValues t) := by
    rw [handleArgs, Args.eval, Expr.eval, Primary.eval, eval_textArgs]
    rfl
  rw [text_assignAndRunTemplate, exec_handlerCall (by decide) (by decide)
    (wf_handleArgs handle cmd t) hargs]
  rfl

def getResponseArgs (responseId : Nat) (t : Timeout) : Args :=
  .pos (.int responseId) (.kw Names.timeout t.expr .nil)

theorem wf_getResponseArgs (responseId : Nat) (t : Timeout) :
    (getResponseArgs responseId t).WF [] :=
  ⟨rfl, trivial, List.not_mem_nil, wf_timeout t, trivial⟩

theorem text_getResponseTemplate (printable : Char → Bool) (responseId : Nat) (t : Timeout) :
    getResponseTemplate responseId t = runnerCall Names.getResponse.text
      ((getResponseArgs responseId t).text printable true) := by
  rw [getResponseArgs, Args.text, Expr.text, Args.text, text_timeout, Args.text,
    getResponseTemplate]
  simp only [separator, if_true, Bool.false_eq_true, if_false, List.nil_append, List.append_assoc,
    List.append_nil]
  rfl

theorem exec_getResponse (printable : Char → Bool) (responseId : Nat) (t : Timeout) :
    exec py (getResponseTemplate responseId t) =
      pure (some (.getResponse responseId t.isBelowZero)) := by
  have hargs : (getResponseArgs responseId t).eval py.remote =
      pure ([.int responseId], [(Names.timeout, .float t.negative t.seconds)]) := by
    rw [getResponseArgs, Args.eval, Expr.eval, Args.eval, eval_timeout, Args.eval]
    rfl
  rw [text_getResponseTemplate printable, exec_handlerCall (by decide) (by decide)
    (wf_getResponseArgs responseId t) hargs]
  rfl

/-- What is assigned to a handle is found there. -/
theorem assign_getObject {γ : Type} (h : Handle) (v : Value ν)
    (f : Value ν → Prog ε (Remote ω ν) γ) :
    (assign h v >>= fun _ => getObject py h.text >>= f) = (assign h v >>= fun _ => f v) := by
  have hobject := getObject_text py (fun _ => true) (e := .primary h.expr) (wf_handle h)
  rw [Expr.text, text_handle, Expr.eval, eval_handle] at hobject
  rw [hobject, Python.getItem, if_neg (key_ne h)]
  funext s
  have hget : (s.ns.set h.key v).get? h.key = some v := Dict.get?_set_self
  simp only [assign, Prog.bind_run, Prog.modify_run, Prog.gets_run, hget, Prog.pure_run]

theorem text_garbage (printable : Char → Bool) (hs : List Handle) :
    join (hs.map Handle.text) = targetsText printable (hs.map Handle.expr) := by
  induction hs with
  | nil => rfl
  | cons h hs ih =>
    rw [List.map_cons, List.map_cons, targetsText, text_handle]
    cases hs with
    | nil => simp [join]
    | cons g hs =>
      rw [List.map_cons, List.map_cons] at ih ⊢
      rw [join_cons_cons, ih, if_neg (List.cons_ne_nil _ _)]
      rfl

theorem compileSingle_garbage (first : Handle) (garbage : List Handle) :
    compileEval (chars "del " ++ join (first.text :: garbage.map Handle.text)) = none ∧
      compileSingle (chars "del " ++ join (first.text :: garbage.map Handle.text)) =
        some (.del ((first :: garbage).map Handle.expr)) := by
  have htext : chars "del " ++ join (first.text :: garbage.map Handle.text) =
      delText (fun _ => true) ((first :: garbage).map Handle.expr) := by
    rw [← List.map_cons, text_garbage (fun _ => true), delText]
    rfl
  have htargets : ∀ p ∈ (first :: garbage).map Handle.expr, p.IsTarget ∧ p.WF := by
    intro p hp
    obtain ⟨h, -, rfl⟩ := List.mem_map.mp hp
    exact ⟨trivial, wf_handle h⟩
  rw [htext]
  exact compileSingle_del _ (List.cons_ne_nil _ _) htargets

/-- The server compiles every command. -/
theorem compiles_cmd (py : Python ε ω ν) (call : Call ν) :
    compileEval (call.cmd printable py) ≠ none ∨ compileSingle (call.cmd printable py) ≠ none := by
  cases call with
  | task timeout task =>
    have hrun (cmd : Text) : compileEval (runTemplate printable cmd timeout) ≠ none := by
      rw [text_runTemplate, compileEval_handlerCall _ (wf_textArgs cmd timeout)]
      exact Option.some_ne_none _
    left
    rw [Call.cmd]
    cases task with
    | runPython _ => exact hrun _
    | runPythonCall _ _ _ => exact hrun _
    | getProxyObjectFromCall _ _ _ _ => exact hrun _
    | getProxyOrBasicFromCall handle functionName args kwargs =>
      rw [ThreadCall.cmd, text_assignAndRunTemplate, compileEval_handlerCall _ (wf_handleArgs ..)]
      exact Option.some_ne_none _
    | runAndReturnHandledPython handle =>
      rw [ThreadCall.cmd, text_runAndReturnHandledTemplate,
        compileEval_handlerCall _ (wf_textArgs ..)]
      exact Option.some_ne_none _
  | getResponse responseId timeout =>
    left
    rw [Call.cmd, text_getResponseTemplate printable,
      compileEval_handlerCall _ (wf_getResponseArgs ..)]
    exact Option.some_ne_none _
  | cleanGarbage first garbage =>
    right
    rw [Call.cmd, (compileSingle_garbage first garbage).2]
    exact Option.some_ne_none _

/-- What the handler makes of the text of a task. -/
def ThreadCall.job (printable : Char → Bool) (py : Python ε ω ν) : ThreadCall ν → Job
  | .runPython cmd => .run (cmd.text printable)
  | .runPythonCall functionName args kwargs =>
    .run (getPythonCall printable py (functionName.text printable) args kwargs)
  | .getProxyObjectFromCall handle functionName args kwargs =>
    .run (assignCall printable py handle functionName args kwargs)
  | .getProxyOrBasicFromCall handle functionName args kwargs =>
    .assignAndRun handle.text (getPythonCall printable py (functionName.text printable) args kwargs)
  | .runAndReturnHandledPython handle => .runAndReturnHandled (handle.text printable)

def Request.map {κ κ' : Type} (f : κ → κ') : Request κ → Request κ'
  | .thread job negative => .thread (f job) negative
  | .getResponse responseId negative => .getResponse responseId negative

/-- **The command.**  The handler is asked for what was meant. -/
theorem exec_cmd (py : Python ε ω ν) (call : Call ν) :
    exec py (call.cmd printable py) = (do
      let request ← call.start py
      pure (request.map (Request.map (ThreadCall.job printable py)))) := by
  cases call with
  | task timeout task =>
    rw [Call.cmd]
    cases task with
    | runPython _ => exact exec_run _ _
    | runPythonCall _ _ _ => exact exec_run _ _
    | getProxyObjectFromCall _ _ _ _ => exact exec_run _ _
    | getProxyOrBasicFromCall _ _ _ _ => exact exec_assignAndRun _ _ _
    | runAndReturnHandledPython _ => exact exec_runAndReturnHandled _ _
  | getResponse responseId timeout => exact exec_getResponse printable responseId timeout
  | cleanGarbage first garbage =>
    obtain ⟨heval, hsingle⟩ := compileSingle_garbage first garbage
    rw [Call.cmd, exec, heval]
    simp only [hsingle, execStmt, deleteAll_handles, Call.start, Prog.bind_bind]
    rfl

/-- **The thread.**  It does what was asked for. -/
theorem body_job (printable : Char → Bool) (py : Python ε ω ν) (task : ThreadCall ν) :
    (task.job printable py).body py = task.perform py := by
  cases task with
  | runPython cmd => rw [ThreadCall.job, Job.body, run, getObject_remoteName, ThreadCall.perform]
  | runPythonCall functionName args kwargs =>
    rw [ThreadCall.job, Job.body, run, getObject_pythonCall, ThreadCall.perform]
  | getProxyObjectFromCall handle functionName args kwargs =>
    rw [ThreadCall.job, Job.body, run, assignCall, getObject_assignCall, ThreadCall.perform]
    simp only [Prog.bind_bind]
    rfl
  | getProxyOrBasicFromCall handle functionName args kwargs =>
    rw [ThreadCall.job, Job.body, assignAndRun, getObject_assignCall, ThreadCall.perform]
    simp only [Prog.bind_bind]
    congr
    funext v
    exact assign_getObject handle v fun v => pure (handledResponse py v)
  | runAndReturnHandledPython handle =>
    rw [ThreadCall.job, Job.body, runAndReturnHandled, getHandled, getObject_remoteName,
      ThreadCall.perform]
    rfl

end

end RemoteCall

end InteractiveSessions
