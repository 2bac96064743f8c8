import InteractiveSessions.Lib.Triple
import InteractiveSessions.MsgCaches
import InteractiveSessions.ChunkComm

/-!
# `servers`, `msghandlers`: the server loop

`PythonServer` between the string layer and the command executor.  What the
outside decides (the clock, how a write and a command end, when `_read` calls
`send_expired`, which messages come) is given by an `Env` and by a list of
events, so that every list of events is a run.

* `Valid`: every message that is cached or sent is an `Ack`, a fatal error or a
  reply that a handler created, and the uid of every request that was executed
  or answered is known to the caches;
* `valid_step`, `valid_run`: so it stays, whatever comes;
* `executed_once`: for every uid at most one `ExecCommandRequest` is executed.
-/

namespace InteractiveSessions

inductive ServerExc where
  | msgCachesAlreadyRemoved
  | exitFromServe
  /-- No handler for the class of the message. -/
  | keyError
  /-- A string that is no message, or a `FatalPythonErrorReply`. -/
  | deserialize
  /-- The exception of an executed command. -/
  | exec (errorObj : Bytes)
  /-- `SystemExit` or `KeyboardInterrupt` from an executed command. -/
  | exit
  /-- An exception of `write_str`. -/
  | comm (e : Exc)
  deriving DecidableEq, Repr

/-- Whether `except Exception` catches it. -/
def ServerExc.isException (e : ServerExc) : Bool := e ≠ .exit

/-- How `exec_command` ends. -/
inductive ExecResult where
  | value (out : Bytes)
  | error (errorObj : Bytes)
  | exit
  deriving DecidableEq, Repr

/-- What the server is given from outside. -/
structure Env where
  retry : Retry
  serverId : Bytes
  /-- The readings of `time.time()`. -/
  clock : Nat → ℚ
  /-- The exception of the `n`-th `write_str`, if there is one. -/
  write : Nat → Option Exc
  /-- The end of a command, behind those that were executed before. -/
  exec : List Msg → Msg → ExecResult
  /-- The text of a `FatalPythonErrorReply`. -/
  describe : ServerExc → Bytes

/-- The server: its caches, the counters of what it has asked the outside for,
and records of what it has sent, executed and answered. -/
structure Server where
  caches : MsgCaches
  serving : Bool
  uidIter : Nat
  readings : Nat
  writes : Nat
  outbox : List Msg
  executed : List Msg
  replied : List (Msg × Msg)
  deriving DecidableEq

namespace Server

variable (env : Env)

/-- `_monotonic.time()` -/
def time : Prog ServerExc Server ℚ := fun s =>
  let (t, monotonic) := s.caches.monotonic.time (env.clock s.readings)
  .ret t { s with readings := s.readings + 1, caches := { s.caches with monotonic } }

def modifyCaches (f : MsgCaches → MsgCaches) : Prog ServerExc Server Unit :=
  Prog.modify fun s => { s with caches := f s.caches }

def sendReply (msg : Msg) : Prog ServerExc Server Unit := fun s =>
  let s' := { s with outbox := s.outbox ++ [msg], writes := s.writes + 1 }
  match env.write s.writes with
  | none => .ret () s'
  | some e => .raised (.comm e) s'

/-- The loop of `send_expired`. -/
def sendExpiredLoop : List (Int × MsgCache) → Prog ServerExc Server Unit
  | [] => pure ()
  | (uid, c) :: items => do
    let t ← time env
    let lap ← Prog.gets fun s : Server => s.caches.lap
    match c.sendExpired (t - lap) with
    | some (c', send) =>
      modifyCaches (MsgCaches.update uid c')
      if send then sendReply env c'.msg
    | none => modifyCaches (MsgCaches.removeUid uid)
    sendExpiredLoop items

def sendExpired : Prog ServerExc Server Unit := do
  let items ← Prog.gets fun s : Server => s.caches.msgcaches.items
  sendExpiredLoop env items
  let t ← time env
  modifyCaches fun cs => { cs with lap := t }

def sendReplyViaCache (msg : Msg) : Prog ServerExc Server Unit := do
  modifyCaches (MsgCaches.pushMsg env.retry msg)
  sendExpired env

/-- A handler's `_send_reply` of the reply to `msg`. -/
def reply (msg r : Msg) : Prog ServerExc Server Unit := do
  Prog.modify fun s : Server => { s with replied := s.replied ++ [(msg, r)] }
  sendReplyViaCache env r

/-! ## The handlers -/

/-- `_exec_cmdrequest` -/
def execCommand (msg : Msg) : Prog ServerExc Server Bytes := fun s =>
  let s' := { s with executed := s.executed ++ [msg] }
  match env.exec s.executed msg with
  | .value out => .ret out s'
  | .error errorObj => .raised (.exec errorObj) s'
  | .exit => .raised .exit s'

/-- `ExecCommandHandler.handle_msg` -/
def execCommandHandler (msg : Msg) : Prog ServerExc Server Unit := do
  let outObj ← Prog.tryExcept (execCommand env msg) fun
    | .exec errorObj => some (pure errorObj)
    | _ => none
  reply env msg (msg.createReply .execCommandReply outObj)

/-- `SendCommandHandler.handle_msg` -/
def sendCommandHandler (msg : Msg) : Prog ServerExc Server Unit := do
  let _ ← execCommand env msg

/-- `ServerIdRequestHandler.handle_msg` -/
def serverIdRequestHandler (msg : Msg) : Prog ServerExc Server Unit :=
  reply env msg (msg.createReply .serverIdReply env.serverId)

def handleMsg (msg : Msg) : Prog ServerExc Server Unit :=
  match msg.cls with
  | .execCommandRequest => execCommandHandler env msg
  | .sendCommandRequest => sendCommandHandler env msg
  | .serverIdRequest => serverIdRequestHandler env msg
  | .exitRequest => Prog.raise .exitFromServe
  | .execCommandReply | .fatalPythonErrorReply | .serverIdReply | .ack => Prog.raise .keyError

/-! ## The loop -/

def sendAckIfNeeded (msg : Msg) : Prog ServerExc Server Unit :=
  if msg.isResponseExpected then sendReply env msg.createAck else pure ()

def replyCachedOrHandleMsg (msg : Msg) : Prog ServerExc Server Unit := do
  let cached ← Prog.gets fun s : Server => s.caches.getMsg msg.uid
  match cached with
  | .ok r => sendReply env r
  | .error .notFound => handleMsg env msg
  | .error .alreadyRemoved => Prog.raise .msgCachesAlreadyRemoved

/-- What happens to the server: `_read` calls `send_expired` while `read_str`
waits, or `read_str` returns a string (`none` if it is no message). -/
inductive Event where
  | expired
  | read (msg : Option Msg)
  deriving DecidableEq, Repr

/-- The body of the `try` of `handle_next_msg`.  A `ChunkReaderError` that is
raised in `_read` makes `read_str` start again. -/
def tryHandleNextMsg : Event → Prog ServerExc Server Unit
  | .expired => Prog.tryExcept (sendExpired env) fun
    | .comm e => if e.isChunkReaderError then some (pure ()) else none
    | _ => none
  | .read none => Prog.raise .deserialize
  | .read (some msg) =>
    if msg.isFatal then Prog.raise .deserialize
    else if msg.cls = .ack then modifyCaches (MsgCaches.remove msg)
    else do
      sendAckIfNeeded env msg
      replyCachedOrHandleMsg env msg

/-- `FatalPythonErrorReply.create(...)`, sent; then `ExitFromServe`. -/
def exitFromServe (e : ServerExc) : Prog ServerExc Server Unit := do
  let uid ← Prog.gets uidIter
  Prog.modify fun s : Server => { s with uidIter := s.uidIter + 1 }
  sendReply env ⟨.fatalPythonErrorReply, uid, env.describe e⟩
  Prog.raise .exitFromServe

def handleNextMsg (e : Event) : Prog ServerExc Server Unit :=
  Prog.tryExcept (tryHandleNextMsg env e) fun exc =>
    if exc.isException then some (exitFromServe env exc) else none

/-- The server after a call that may have ended `serve`. -/
def after (s : Server) : Outcome ServerExc Server Unit → Server
  | .ret _ s' => s'
  | .raised _ s' => { s' with serving := false }
  | .hang => s

def step (e : Event) (s : Server) : Server :=
  if s.serving then s.after (handleNextMsg env e s) else s

/-- The server with new caches. -/
def new : Server :=
  let (lap, monotonic) := (Monotonic.new (env.clock 0)).time (env.clock 1)
  { caches := ⟨Dict.empty, monotonic, lap, .empty⟩, serving := true, uidIter := 1, readings := 2,
    writes := 0, outbox := [], executed := [], replied := [] }

/-- `serve` before the loop: it sends the server id with the uid -1. -/
def start : Server :=
  (new env).after (sendReplyViaCache env ⟨.serverIdReply, -1, env.serverId⟩ (new env))

def run (events : List Event) : Server := events.foldl (fun s e => step env e s) (start env)

/-! ## The invariant -/

/-- Where a message of the server comes from. -/
def Origin (replied : List (Msg × Msg)) (m : Msg) : Prop :=
  m.cls = .ack ∨ m.isFatal = true ∨ m.uid = -1 ∨ ∃ q, (q, m) ∈ replied

def isExec (m : Msg) : Bool := m.cls = .execCommandRequest

/-- What holds of the records at all times; `R` are the requests that may be
answered, `K` the replies that were created before. -/
structure Sound (R : Msg → Prop) (K : List (Msg × Msg)) (s : Server) : Prop where
  holds : ∀ m, s.caches.Holds m → Origin s.replied m
  outbox : ∀ m ∈ s.outbox, Origin s.replied m
  kept : K ⊆ s.replied
  request : ∀ x ∈ s.replied, R x.1
  reply : ∀ x ∈ s.replied, x.2.uid = x.1.uid ∧ x.2.cls ≠ .ack
  replied_nodup : (s.replied.map fun x => x.1.uid).Nodup
  executed_nodup : ((s.executed.filter isExec).map Msg.uid).Nodup

/-- What was answered or executed is known. -/
structure Covered (s : Server) : Prop where
  replied : ∀ x ∈ s.replied, s.caches.Knows x.1.uid
  executed : ∀ m ∈ s.executed, isExec m → s.caches.Knows m.uid

/-- A server that stopped in the middle of a request need not know it. -/
def Valid (R : Msg → Prop) (K : List (Msg × Msg)) (s : Server) : Prop :=
  Sound R K s ∧ (s.serving = true → Covered s)

/-! ## `send_expired` sends only what is cached -/

/-- Only cached messages are sent, and nothing that is known is forgotten. -/
structure Quiet (s₀ s : Server) : Prop where
  executed : s.executed = s₀.executed
  replied : s.replied = s₀.replied
  knows : ∀ uid, s₀.caches.Knows uid → s.caches.Knows uid
  holds : ∀ m, s.caches.Holds m → s₀.caches.Holds m
  outbox : ∀ m ∈ s.outbox, m ∈ s₀.outbox ∨ s₀.caches.Holds m

theorem Quiet.refl (s : Server) : Quiet s s :=
  ⟨rfl, rfl, fun _ => id, fun _ => id, fun _ => .inl⟩

section
variable {env : Env} {s₀ : Server}

theorem triple_time :
    Prog.Triple (Quiet s₀) (time env) (fun _ => Quiet s₀) (fun _ => Quiet s₀) :=
  fun _ h => ⟨h.executed, h.replied, h.knows, h.holds, h.outbox⟩

theorem triple_modifyCaches {P Q : Server → Prop} {E : ServerExc → Server → Prop}
    {f : MsgCaches → MsgCaches} (h : ∀ s, P s → Q { s with caches := f s.caches }) :
    Prog.Triple P (modifyCaches f) (fun _ => Q) E := h

/-- What a write does, whether it raises or not. -/
theorem triple_sendReply (env : Env) (msg : Msg) {P Q : Server → Prop}
    (h : ∀ s, P s → Q { s with outbox := s.outbox ++ [msg], writes := s.writes + 1 }) :
    Prog.Triple P (sendReply env msg) (fun _ => Q) (fun _ => Q) := by
  intro s hs
  unfold sendReply
  cases env.write s.writes with
  | none => exact h s hs
  | some e => exact h s hs

theorem Quiet.send {s : Server} (h : Quiet s₀ s) {msg : Msg} (hmsg : s₀.caches.Holds msg)
    (writes : Nat) : Quiet s₀ { s with outbox := s.outbox ++ [msg], writes } where
  executed := h.executed
  replied := h.replied
  knows := h.knows
  holds := h.holds
  outbox m hm := by
    rcases List.mem_append.mp hm with hm | hm
    · exact h.outbox m hm
    · exact .inr (List.mem_singleton.mp hm ▸ hmsg)

theorem triple_sendExpiredLoop (items : List (Int × MsgCache))
    (hitems : ∀ x ∈ items, s₀.caches.Holds x.2.msg) :
    Prog.Triple (Quiet s₀) (sendExpiredLoop env items) (fun _ => Quiet s₀)
      (fun _ => Quiet s₀) := by
  induction items with
  | nil => exact fun _ h => h
  | cons x items ih =>
    obtain ⟨uid, c⟩ := x
    have hc : s₀.caches.Holds c.msg := hitems (uid, c) (List.mem_cons_self ..)
    have hloop := ih fun x hx => hitems x (List.mem_cons_of_mem _ hx)
    apply triple_time.bind
    intro t
    apply Prog.Triple.gets_bind
    intro lap
    cases hexp : c.sendExpired (t - lap) with
    | none =>
      refine Prog.Triple.bind (triple_modifyCaches (Q := Quiet s₀) fun s h => ?_) fun _ => hloop
      exact ⟨h.1.executed, h.1.replied, fun uid h' => MsgCaches.knows_removeUid (h.1.knows uid h'),
        fun m hm => h.1.holds m (MsgCaches.holds_removeUid hm), h.1.outbox⟩
    | some r =>
      obtain ⟨c', send⟩ := r
      have hc' : s₀.caches.Holds c'.msg := (MsgCache.sendExpired_msg hexp).symm ▸ hc
      have hsend := triple_sendReply env c'.msg fun s (h : Quiet s₀ s) =>
        h.send hc' (s.writes + 1)
      have hrest := Prog.Triple.ite (c := send = true) (fun _ => hsend.bind fun _ => hloop)
        fun _ => hloop
      refine Prog.Triple.bind (triple_modifyCaches fun s h => ?_) fun _ => hrest
      refine ⟨h.1.executed, h.1.replied, fun uid h' => MsgCaches.knows_update.mpr (.inr ?_),
        fun m hm => ?_, h.1.outbox⟩
      · exact h.1.knows uid h'
      · rcases MsgCaches.holds_update hm with rfl | hm
        · exact hc'
        · exact h.1.holds m hm

/-- **Step.**  `send_expired` is quiet. -/
theorem triple_sendExpired :
    Prog.Triple (fun s => s = s₀) (sendExpired env) (fun _ => Quiet s₀) (fun _ => Quiet s₀) := by
  apply Prog.Triple.gets_bind
  rintro items s ⟨rfl, rfl⟩
  have hloop : Prog.Triple (Quiet s) (sendExpiredLoop env s.caches.msgcaches.items)
      (fun _ => Quiet s) (fun _ => Quiet s) :=
    triple_sendExpiredLoop _ fun x hx => ⟨x.1, x.2, hx, rfl⟩
  refine (hloop.bind fun _ => triple_time.bind fun t => ?_) s (.refl s)
  exact fun _ h => ⟨h.executed, h.replied, h.knows, h.holds, h.outbox⟩

end

/-! ## Every step keeps the invariant -/

section
variable {R : Msg → Prop} {K : List (Msg × Msg)} {env : Env}

theorem Sound.quiet {s₀ s : Server} (h : Sound R K s₀) (hq : Quiet s₀ s) : Sound R K s where
  holds m hm := hq.replied ▸ h.holds m (hq.holds m hm)
  outbox m hm := by
    rw [hq.replied]
    rcases hq.outbox m hm with hm | hm
    · exact h.outbox m hm
    · exact h.holds m hm
  kept := hq.replied ▸ h.kept
  request := hq.replied ▸ h.request
  reply := hq.replied ▸ h.reply
  replied_nodup := hq.replied ▸ h.replied_nodup
  executed_nodup := hq.executed ▸ h.executed_nodup

/-- All replies created so far may be asked to be kept. -/
theorem Sound.keep {s : Server} (h : Sound R K s) : Sound R s.replied s :=
  { h with kept := fun _ => id }

theorem Covered.quiet {s₀ s : Server} (h : Covered s₀) (hq : Quiet s₀ s) : Covered s where
  replied x hx := hq.knows _ (h.replied x (hq.replied ▸ hx))
  executed m hm he := hq.knows _ (h.executed m (hq.executed ▸ hm) he)

/-- Both parts of the invariant. -/
def Ready (R : Msg → Prop) (K : List (Msg × Msg)) (s : Server) : Prop := Sound R K s ∧ Covered s

theorem triple_sendExpired_ready :
    Prog.Triple (Ready R K) (sendExpired env) (fun _ => Ready R K) (fun _ => Ready R K) := by
  intro s h
  have hq : ∀ s', Quiet s s' → Ready R K s' := fun s' hq => ⟨h.1.quiet hq, h.2.quiet hq⟩
  exact (triple_sendExpired.mono (fun _ => id) (fun _ => hq) fun _ => hq) s rfl

theorem Sound.send {s : Server} (h : Sound R K s) {msg : Msg} (hmsg : Origin s.replied msg)
    (writes : Nat) : Sound R K { s with outbox := s.outbox ++ [msg], writes } where
  holds := h.holds
  outbox m hm := by
    rcases List.mem_append.mp hm with hm | hm
    · exact h.outbox m hm
    · exact List.mem_singleton.mp hm ▸ hmsg
  kept := h.kept
  request := h.request
  reply := h.reply
  replied_nodup := h.replied_nodup
  executed_nodup := h.executed_nodup

theorem Covered.send {s : Server} (h : Covered s) (msg : Msg) (writes : Nat) :
    Covered { s with outbox := s.outbox ++ [msg], writes } := ⟨h.replied, h.executed⟩

/-- A request whose handling has begun: it was not known before. -/
structure Begun (R : Msg → Prop) (K : List (Msg × Msg)) (msg : Msg) (s : Server) : Prop where
  sound : Sound R K s
  fresh : ¬ s.caches.Knows msg.uid
  replied : ∀ x ∈ s.replied, s.caches.Knows x.1.uid
  executed : ∀ m ∈ s.executed, isExec m → s.caches.Knows m.uid ∨ m = msg

/-- The reply is recorded and pushed. -/
theorem Begun.push {s : Server} {msg r : Msg} (h : Begun R K msg s) (hR : R msg)
    (huid : r.uid = msg.uid) (hcls : r.cls ≠ .ack) (retry : Retry) :
    Ready R K
      { s with replied := s.replied ++ [(msg, r)], caches := s.caches.pushMsg retry r } := by
  have hknows : ∀ uid, s.caches.Knows uid → (s.caches.pushMsg retry r).Knows uid := fun uid hk =>
    MsgCaches.knows_pushMsg.mpr (.inr hk)
  have hmsg : (s.caches.pushMsg retry r).Knows msg.uid :=
    MsgCaches.knows_pushMsg.mpr (.inl huid.symm)
  have horigin : ∀ m, Origin s.replied m → Origin (s.replied ++ [(msg, r)]) m := by
    rintro m (hm | hm | hm | ⟨q, hq⟩)
    · exact .inl hm
    · exact .inr (.inl hm)
    · exact .inr (.inr (.inl hm))
    · exact .inr (.inr (.inr ⟨q, List.mem_append_left _ hq⟩))
  have hold : ∀ {p : Msg × Msg → Prop}, (∀ x ∈ s.replied, p x) → p (msg, r) →
      ∀ x ∈ s.replied ++ [(msg, r)], p x := by
    intro p hp hpr x hx
    rcases List.mem_append.mp hx with hx | hx
    · exact hp x hx
    · exact List.mem_singleton.mp hx ▸ hpr
  refine ⟨⟨?_, ?_, ?_, ?_, ?_, ?_, h.sound.executed_nodup⟩, ⟨?_, ?_⟩⟩
  · intro m hm
    rcases MsgCaches.holds_pushMsg hm with rfl | hm
    · exact .inr (.inr (.inr ⟨msg, List.mem_append_right _ (List.mem_singleton_self _)⟩))
    · exact horigin m (h.sound.holds m hm)
  · exact fun m hm => horigin m (h.sound.outbox m hm)
  · exact fun x hx => List.mem_append_left _ (h.sound.kept hx)
  · exact hold h.sound.request hR
  · exact hold h.sound.reply ⟨huid, hcls⟩
  · rw [List.map_append, List.nodup_append]
    refine ⟨h.sound.replied_nodup, List.nodup_singleton _, ?_⟩
    rintro a ha b hb rfl
    obtain ⟨x, hx, hxa⟩ := List.mem_map.mp ha
    have hb' : a = msg.uid := List.mem_singleton.mp hb
    exact h.fresh (hb' ▸ hxa ▸ h.replied x hx)
  · exact hold (fun x hx => hknows _ (h.replied x hx)) hmsg
  · intro m hm he
    rcases h.executed m hm he with hk | rfl
    · exact hknows _ hk
    · exact hmsg

theorem triple_reply (env : Env) {msg r : Msg} (hR : R msg) (huid : r.uid = msg.uid)
    (hcls : r.cls ≠ .ack) :
    Prog.Triple (Begun R K msg) (reply env msg r) (fun _ => Ready R K) (fun _ => Sound R K) := by
  have hexp : Prog.Triple (Ready R K) (sendExpired env) (fun _ => Ready R K) (fun _ => Sound R K) :=
    triple_sendExpired_ready.mono (fun _ => id) (fun _ _ => id) fun _ _ h => h.1
  exact fun s h => hexp _ (h.push hR huid hcls env.retry)

/-- A command is executed under a fresh uid. -/
theorem Begun.exec {s : Server} {msg : Msg} (h : Begun R K msg s) (hs : Covered s) :
    Begun R K msg { s with executed := s.executed ++ [msg] } := by
  refine ⟨⟨h.sound.holds, h.sound.outbox, h.sound.kept, h.sound.request, h.sound.reply,
    h.sound.replied_nodup, ?_⟩, h.fresh, h.replied, ?_⟩
  · show (((s.executed ++ [msg]).filter isExec).map Msg.uid).Nodup
    rw [List.filter_append]
    cases he : isExec msg with
    | false =>
      rw [List.filter_singleton, he]
      simpa using h.sound.executed_nodup
    | true =>
      rw [List.filter_singleton, he, cond_true, List.map_append, List.nodup_append]
      refine ⟨h.sound.executed_nodup, List.nodup_singleton _, ?_⟩
      rintro a ha b hb rfl
      obtain ⟨m, hm, hma⟩ := List.mem_map.mp ha
      have hb' : a = msg.uid := List.mem_singleton.mp hb
      obtain ⟨hm, hme⟩ := List.mem_filter.mp hm
      exact h.fresh (hb' ▸ hma ▸ hs.executed m hm hme)
  · intro m hm he
    rcases List.mem_append.mp hm with hm | hm
    · exact h.executed m hm he
    · exact .inr (List.mem_singleton.mp hm)

theorem Begun.ready {s : Server} {msg : Msg} (h : Begun R K msg s) (hmsg : isExec msg = false) :
    Ready R K s := by
  refine ⟨h.sound, h.replied, fun m hm he => ?_⟩
  rcases h.executed m hm he with hk | rfl
  · exact hk
  · rw [hmsg] at he
    cases he

theorem triple_execCommand {msg : Msg} :
    Prog.Triple (fun s => Ready R K s ∧ ¬ s.caches.Knows msg.uid) (execCommand env msg)
      (fun _ => Begun R K msg) (fun _ => Begun R K msg) := by
  rintro s ⟨⟨hsound, hcovered⟩, hfresh⟩
  have h : Begun R K msg s :=
    ⟨hsound, hfresh, hcovered.replied, fun m hm he => .inl (hcovered.executed m hm he)⟩
  have hexec := h.exec hcovered
  unfold execCommand
  cases env.exec s.executed msg with
  | value out => exact hexec
  | error errorObj => exact hexec
  | exit => exact hexec

/-- Handling a request that is not known. -/
theorem triple_handleMsg {msg : Msg} (hR : msg.isAnswered → R msg) :
    Prog.Triple (fun s => Ready R K s ∧ ¬ s.caches.Knows msg.uid) (handleMsg env msg)
      (fun _ => Ready R K) (fun _ => Sound R K) := by
  have hraise : ∀ e, Prog.Triple (fun s => Ready R K s ∧ ¬ s.caches.Knows msg.uid)
      (Prog.raise e : Prog ServerExc Server Unit) (fun _ => Ready R K) (fun _ => Sound R K) :=
    fun e s h => h.1.1
  unfold handleMsg
  cases hcls : msg.cls with
  | execCommandRequest =>
    have hmsg : R msg := hR (by simp [Msg.isAnswered, hcls])
    have htry : Prog.Triple (fun s => Ready R K s ∧ ¬ s.caches.Knows msg.uid)
        (Prog.tryExcept (execCommand env msg) fun
          | .exec errorObj => some (pure errorObj)
          | _ => none) (fun _ => Begun R K msg) (fun _ => Sound R K) := by
      apply Prog.Triple.tryExcept triple_execCommand
      · intro e p hp s h
        cases e with
        | exec errorObj =>
          cases hp
          exact h
        | _ => cases hp
      · exact fun _ _ _ h => h.sound
    exact htry.bind fun outObj =>
      triple_reply env hmsg rfl (by decide : MsgCls.execCommandReply ≠ .ack)
  | sendCommandRequest =>
    have hmsg : isExec msg = false := by simp [isExec, hcls]
    have hexec : Prog.Triple (fun s => Ready R K s ∧ ¬ s.caches.Knows msg.uid) (execCommand env msg)
        (fun _ => Begun R K msg) (fun _ => Sound R K) :=
      triple_execCommand.mono (fun _ => id) (fun _ _ => id) fun _ _ h => h.sound
    exact hexec.bind fun _ s h => h.ready hmsg
  | serverIdRequest =>
    have hmsg : R msg := hR (by simp [Msg.isAnswered, hcls])
    have hreply := triple_reply (K := K) env
      (r := msg.createReply .serverIdReply env.serverId) hmsg rfl
      (by decide : MsgCls.serverIdReply ≠ .ack)
    refine hreply.mono ?_ (fun _ _ => id) fun _ _ => id
    rintro s ⟨⟨hsound, hcovered⟩, hfresh⟩
    exact ⟨hsound, hfresh, hcovered.replied, fun m hm he => .inl (hcovered.executed m hm he)⟩
  | exitRequest => exact hraise _
  | execCommandReply => exact hraise _
  | fatalPythonErrorReply => exact hraise _
  | serverIdReply => exact hraise _
  | ack => exact hraise _

theorem triple_replyCachedOrHandleMsg {msg : Msg} (hR : msg.isAnswered → R msg) :
    Prog.Triple (Ready R K) (replyCachedOrHandleMsg env msg) (fun _ => Ready R K)
      (fun _ => Sound R K) := by
  apply Prog.Triple.gets_bind
  intro cached
  cases cached with
  | ok r =>
    have hsend := triple_sendReply env r
      (P := fun s => Ready R K s ∧ s.caches.getMsg msg.uid = .ok r) (Q := Ready R K) fun s h =>
        ⟨h.1.1.send (h.1.1.holds r (MsgCaches.getMsg_ok h.2)) _, h.1.2.send r _⟩
    exact hsend.mono (fun _ => id) (fun _ _ => id) fun _ _ h => h.1
  | error e =>
    cases e with
    | alreadyRemoved => exact fun _ h => h.1.1
    | notFound =>
      exact (triple_handleMsg hR).mono (fun _ h => ⟨h.1, MsgCaches.getMsg_notFound.mp h.2⟩)
        (fun _ _ => id) fun _ _ => id

theorem triple_sendAckIfNeeded {msg : Msg} :
    Prog.Triple (Ready R K) (sendAckIfNeeded env msg) (fun _ => Ready R K)
      (fun _ => Sound R K) := by
  have hsend := triple_sendReply env msg.createAck (Q := Ready R K)
    fun s (h : Ready R K s) => ⟨h.1.send (.inl rfl) _, h.2.send _ _⟩
  exact Prog.Triple.ite (fun _ => hsend.mono (fun _ => id) (fun _ _ => id) fun _ _ h => h.1)
    fun _ _ h => h

theorem triple_tryHandleNextMsg {e : Event}
    (hR : ∀ msg, e = .read (some msg) → msg.isAnswered → R msg) :
    Prog.Triple (Ready R K) (tryHandleNextMsg env e) (fun _ => Ready R K) (fun _ => Sound R K) := by
  cases e with
  | expired =>
    apply Prog.Triple.tryExcept triple_sendExpired_ready
    · intro exc p hp s h
      split at hp
      · split at hp
        · cases hp
          exact h
        · cases hp
      · cases hp
    · exact fun _ _ _ h => h.1
  | read msg =>
    cases msg with
    | none => exact fun _ h => h.1
    | some msg =>
      refine Prog.Triple.ite (fun _ _ h => h.1)
        fun _ => Prog.Triple.ite (fun _ s h => ?_) fun _ => ?_
      · -- an `Ack`
        refine ⟨⟨fun m hm => h.1.holds m (MsgCaches.holds_remove hm), h.1.outbox, h.1.kept,
          h.1.request, h.1.reply, h.1.replied_nodup, h.1.executed_nodup⟩, fun x hx => ?_,
          fun m hm he => ?_⟩
        · exact MsgCaches.knows_remove (h.2.replied x hx)
        · exact MsgCaches.knows_remove (h.2.executed m hm he)
      · exact triple_sendAckIfNeeded.bind fun _ => triple_replyCachedOrHandleMsg (hR msg rfl)

theorem triple_exitFromServe {e : ServerExc} :
    Prog.Triple (Sound R K) (exitFromServe env e) (fun _ => Ready R K) (fun _ => Sound R K) := by
  apply Prog.Triple.gets_bind
  intro uid
  refine Prog.Triple.modify_bind (Sound R K) ?_ fun s h =>
    ⟨h.1.holds, h.1.outbox, h.1.kept, h.1.request, h.1.reply, h.1.replied_nodup, h.1.executed_nodup⟩
  have hsend := triple_sendReply env
    ⟨.fatalPythonErrorReply, uid, env.describe e⟩ (Q := Sound R K)
    fun s (h : Sound R K s) => h.send (.inr (.inl rfl)) _
  exact hsend.bind fun _ _ h => h

theorem triple_handleNextMsg {e : Event}
    (hR : ∀ msg, e = .read (some msg) → msg.isAnswered → R msg) :
    Prog.Triple (Ready R K) (handleNextMsg env e) (fun _ => Ready R K) (fun _ => Sound R K) := by
  apply Prog.Triple.tryExcept (triple_tryHandleNextMsg hR)
  · intro exc p hp
    split at hp
    · cases hp
      exact triple_exitFromServe
    · cases hp
  · exact fun _ _ _ h => h

theorem valid_after {s : Server} {P : Server → Prop} {m : Prog ServerExc Server Unit}
    (h : Prog.Triple P m (fun _ => Ready R K) (fun _ => Sound R K)) (hP : P s) (hs : Valid R K s) :
    Valid R K (s.after (m s)) := by
  have hm := h s hP
  cases hrun : m s with
  | ret _ s' =>
    rw [hrun] at hm
    exact ⟨hm.1, fun _ => hm.2⟩
  | raised e s' =>
    rw [hrun] at hm
    refine ⟨⟨hm.holds, hm.outbox, hm.kept, hm.request, hm.reply, hm.replied_nodup,
      hm.executed_nodup⟩, ?_⟩
    exact nofun
  | hang => exact hs

/-- The outbox is emptied. -/
theorem Valid.clear {s : Server} (h : Valid R K s) : Valid R K { s with outbox := [] } :=
  ⟨⟨h.1.holds, nofun, h.1.kept, h.1.request, h.1.reply, h.1.replied_nodup, h.1.executed_nodup⟩,
    fun hs => ⟨(h.2 hs).replied, (h.2 hs).executed⟩⟩

theorem Valid.forget {s : Server} (h : Valid R K s) : Valid R [] s :=
  ⟨{ h.1 with kept := List.nil_subset _ }, h.2⟩

theorem Valid.mono {s : Server} (h : Valid R K s) {R' : Msg → Prop} (hR : ∀ m, R m → R' m) :
    Valid R' K s :=
  ⟨{ h.1 with request := fun x hx => hR _ (h.1.request x hx) }, h.2⟩

/-- **Step.**  Whatever happens, the records stay sound and, while the server
serves, every uid it has handled stays known. -/
theorem valid_step {s : Server} {e : Event} (h : Valid R K s)
    (hR : ∀ msg, e = .read (some msg) → msg.isAnswered → R msg) : Valid R K (step env e s) := by
  unfold step
  split
  · next hserving => exact valid_after (triple_handleNextMsg hR) ⟨h.1, h.2 hserving⟩ h
  · exact h

/-- A server that has done nothing yet. -/
theorem ready_of_empty {s : Server} (hholds : ∀ m, s.caches.Holds m → m.uid = -1)
    (houtbox : s.outbox = []) (hexecuted : s.executed = []) (hreplied : s.replied = []) :
    Ready R [] s := by
  refine ⟨⟨fun m hm => .inr (.inr (.inl (hholds m hm))), ?_, ?_, ?_, ?_, ?_, ?_⟩, ?_, ?_⟩ <;>
    simp [houtbox, hexecuted, hreplied]

theorem valid_start : Valid R [] (start env) := by
  have hempty : ∀ m, ¬ (new env).caches.Holds m := by
    rintro m ⟨uid, cache, hmem, -⟩
    cases hmem
  have hpush : Prog.Triple (fun s => s = new env)
      (sendReplyViaCache env ⟨.serverIdReply, -1, env.serverId⟩) (fun _ => Ready R [])
      (fun _ => Sound R []) := by
    unfold sendReplyViaCache modifyCaches
    apply Prog.Triple.modify_bind (Ready R [])
    · exact triple_sendExpired_ready.mono (fun _ => id) (fun _ _ => id) fun _ _ h => h.1
    · rintro s rfl
      refine ready_of_empty (fun m hm => ?_) rfl rfl rfl
      rcases MsgCaches.holds_pushMsg hm with rfl | hm
      · rfl
      · exact (hempty m hm).elim
  have hnew : Ready R [] (new env) := ready_of_empty (fun m hm => (hempty m hm).elim) rfl rfl rfl
  exact valid_after hpush rfl ⟨hnew.1, fun _ => hnew.2⟩

/-- **Run.** -/
theorem valid_run (events : List Event)
    (hR : ∀ msg, .read (some msg) ∈ events → msg.isAnswered → R msg) :
    Valid R [] (run env events) := by
  unfold run
  apply List.foldlRecOn events _ valid_start
  intro s hs e he
  apply valid_step hs
  rintro msg rfl
  exact hR msg he

end

/-- **At most once.**  Whatever messages come in whatever order, for every uid at
most one `ExecCommandRequest` is passed to the command executor. -/
theorem executed_once (env : Env) (events : List Event) (uid : Int) :
    ((run env events).executed.filter fun m => isExec m && m.uid = uid).length ≤ 1 := by
  have h : Valid (fun _ => True) [] (run env events) := valid_run events fun _ _ _ => trivial
  have hcount := List.nodup_iff_count_le_one.mp h.1.executed_nodup uid
  rw [List.count, List.countP_map, List.countP_eq_length_filter, List.filter_filter] at hcount
  simpa only [Function.comp_def, Bool.and_comm, beq_eq_decide] using hcount

end Server

end InteractiveSessions
