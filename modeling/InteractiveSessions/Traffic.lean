import InteractiveSessions.Exchange

/-!
# The uids of the requests

`send_and_receive` numbers the requests with a counter of the client, `send`
leaves the uid of the class-wide counter `MsgBase._uid_iter`.  Here every
transmission on the way to the server carries the request it belongs to, and
the server keeps a record of the requests it has received.

* `inv_step`: the order of the transmissions on the channel fits the order of
  the uids, and no transmission of a request comes after an `Ack` of its reply;
* `handles_first`: as long as no reply runs out of its retries, the server never
  raises `MsgCachesAlreadyRemoved`, and the first transmission of every request
  that it receives is handled;
* `step_exchange`: without the records a run is one of `Exchange`.
-/

namespace InteractiveSessions

/-! ## What the server learns from a message -/

namespace Server

variable {env : Env} {K : Int → Prop}

/-- All uids that the caches know have `K`. -/
def KnownIn (K : Int → Prop) (s : Server) : Prop := ∀ uid, s.caches.Knows uid → K uid

/-- From any state the program learns uids with `K` only, and it raises nothing
because of a reply that was removed. -/
def Learns {α : Type} (K : Int → Prop) (m : Prog ServerExc Server α) : Prop :=
  Prog.Triple (KnownIn K) m (fun _ => KnownIn K)
    (fun e s => KnownIn K s ∧ e ≠ .msgCachesAlreadyRemoved)

theorem learns_time : Learns K (time env) := fun _ h => h

theorem learns_modifyCaches {f : MsgCaches → MsgCaches}
    (h : ∀ c uid, (∀ uid, c.Knows uid → K uid) → (f c).Knows uid → K uid) :
    Learns K (modifyCaches f) := fun s hs uid => h s.caches uid hs

variable (env) in
/-- A write changes no cache. -/
theorem sendReply_run (msg : Msg) (s : Server) :
    sendReply env msg s = .ret () { s with outbox := s.outbox ++ [msg], writes := s.writes + 1 } ∨
      ∃ e, sendReply env msg s =
        .raised (.comm e) { s with outbox := s.outbox ++ [msg], writes := s.writes + 1 } := by
  unfold sendReply
  cases env.write s.writes with
  | none => exact .inl rfl
  | some e => exact .inr ⟨e, rfl⟩

theorem learns_sendReply (msg : Msg) : Learns K (sendReply env msg) := by
  intro s hs
  rcases sendReply_run env msg s with hrun | ⟨e, hrun⟩ <;> rw [hrun]
  · exact hs
  · exact ⟨hs, nofun⟩

theorem learns_sendExpiredLoop (items : List (Int × MsgCache)) (hitems : ∀ x ∈ items, K x.1) :
    Learns K (sendExpiredLoop env items) := by
  induction items with
  | nil => exact fun _ h => h
  | cons x items ih =>
    obtain ⟨uid, c⟩ := x
    have huid : K uid := hitems (uid, c) (List.mem_cons_self ..)
    have hloop := ih fun x hx => hitems x (List.mem_cons_of_mem _ hx)
    refine learns_time.bind fun t => Prog.Triple.gets_bind fun lap => ?_
    refine Prog.Triple.mono ?_ (fun s (h : KnownIn K s ∧ s.caches.lap = lap) => h.1)
      (fun _ _ => id) fun _ _ => id
    cases c.sendExpired (t - lap) with
    | none =>
      have hremove : Learns K (modifyCaches (MsgCaches.removeUid uid)) :=
        learns_modifyCaches fun c uid' hc h => by
          rcases MsgCaches.known_removeUid h with rfl | h
          · exact huid
          · exact hc uid' h
      exact hremove.bind fun _ => hloop
    | some r =>
      have hupdate : Learns K (modifyCaches (MsgCaches.update uid r.1)) :=
        learns_modifyCaches fun c uid' hc h => by
          rcases MsgCaches.knows_update.mp h with rfl | h
          · exact huid
          · exact hc uid' h
      have hsend : Learns K (sendReply env r.1.msg) := learns_sendReply _
      exact hupdate.bind fun _ =>
        Prog.Triple.ite (fun _ => hsend.bind fun _ => hloop) fun _ => hloop

theorem learns_sendExpired : Learns K (sendExpired env) := by
  intro s hs
  have hitems : ∀ x ∈ s.caches.msgcaches.items, K x.1 := fun x hx =>
    hs x.1 (.inl (Dict.mem_keys_of_mem hx))
  have htime : Learns K (time env >>= fun t => modifyCaches fun cs => { cs with lap := t }) :=
    learns_time.bind fun _ _ h => h
  exact ((learns_sendExpiredLoop _ hitems).bind fun _ => htime) s hs

theorem learns_reply {msg r : Msg} (hK : K r.uid) : Learns K (reply env msg r) := by
  refine Prog.Triple.modify_bind (KnownIn K) ?_ fun s h => h
  have hpush : Learns K (modifyCaches (MsgCaches.pushMsg env.retry r)) :=
    learns_modifyCaches fun c uid hc h => by
      rcases MsgCaches.knows_pushMsg.mp h with rfl | h
      · exact hK
      · exact hc uid h
  exact hpush.bind fun _ => learns_sendExpired

theorem learns_execCommand {msg : Msg} : Learns K (execCommand env msg) := by
  intro s h
  unfold execCommand
  cases env.exec s.executed msg with
  | value out => exact h
  | error errorObj => exact ⟨h, nofun⟩
  | exit => exact ⟨h, nofun⟩

theorem learns_handleMsg {msg : Msg} (hK : msg.isAnswered → K msg.uid) :
    Learns K (handleMsg env msg) := by
  unfold handleMsg
  cases hcls : msg.cls with
  | execCommandRequest =>
    have hmsg : K msg.uid := hK (by simp [Msg.isAnswered, hcls])
    refine Prog.Triple.bind (Q := fun _ => KnownIn K) ?_ fun outObj => learns_reply hmsg
    refine Prog.Triple.tryExcept learns_execCommand ?_ fun _ _ _ h => h
    intro e p hp s h
    cases e with
    | exec errorObj =>
      cases hp
      exact h.1
    | _ => cases hp
  | sendCommandRequest => exact learns_execCommand.bind fun _ _ h => h
  | serverIdRequest => exact learns_reply (hK (by simp [Msg.isAnswered, hcls]))
  | exitRequest => exact fun _ h => ⟨h, by simp⟩
  | execCommandReply | fatalPythonErrorReply | serverIdReply | ack =>
    exact fun _ h => ⟨h, by simp⟩

/-- The uid of the message is not one of a reply that was removed. -/
theorem learns_replyCachedOrHandleMsg {msg : Msg} (hK : msg.isAnswered → K msg.uid) :
    Prog.Triple (fun s => KnownIn K s ∧ s.caches.getMsg msg.uid ≠ .error .alreadyRemoved)
      (replyCachedOrHandleMsg env msg) (fun _ => KnownIn K)
      (fun e s => KnownIn K s ∧ e ≠ .msgCachesAlreadyRemoved) := by
  apply Prog.Triple.gets_bind
  intro cached
  cases cached with
  | ok r => exact (learns_sendReply r).mono (fun _ h => h.1.1) (fun _ _ => id) fun _ _ => id
  | error e =>
    cases e with
    | alreadyRemoved => exact fun s h => absurd h.2 h.1.2
    | notFound =>
      exact (learns_handleMsg hK).mono (fun _ h => h.1.1) (fun _ _ => id) fun _ _ => id

variable (env) in
theorem sendAckIfNeeded_run (msg : Msg) (s : Server) :
    ∃ s', s'.caches = s.caches ∧ (sendAckIfNeeded env msg s = .ret () s' ∨
      ∃ e, sendAckIfNeeded env msg s = .raised (.comm e) s') := by
  unfold sendAckIfNeeded
  split
  · let s' := { s with outbox := s.outbox ++ [msg.createAck], writes := s.writes + 1 }
    exact ⟨s', rfl, sendReply_run env msg.createAck s⟩
  · exact ⟨s, rfl, .inl rfl⟩

/-- The uid of what is read, if it is a request, is not one of a reply that was
removed. -/
def NotRemoved (e : Event) (s : Server) : Prop :=
  ∀ msg, e = .read (some msg) → msg.cls ≠ .ack → s.caches.getMsg msg.uid ≠ .error .alreadyRemoved

theorem learns_tryHandleNextMsg {e : Event}
    (hK : ∀ msg, e = .read (some msg) → msg.isAnswered → K msg.uid) :
    Prog.Triple (fun s => KnownIn K s ∧ NotRemoved e s) (tryHandleNextMsg env e)
      (fun _ => KnownIn K) (fun e s => KnownIn K s ∧ e ≠ .msgCachesAlreadyRemoved) := by
  cases e with
  | expired =>
    have htry : Learns K (tryHandleNextMsg env .expired) := by
      refine Prog.Triple.tryExcept learns_sendExpired ?_ fun _ _ _ h => h
      intro exc p hp s h
      split at hp
      · split at hp
        · cases hp
          exact h.1
        · cases hp
      · cases hp
    exact htry.mono (fun _ h => h.1) (fun _ _ => id) fun _ _ => id
  | read msg =>
    cases msg with
    | none => exact fun _ h => ⟨h.1, nofun⟩
    | some msg =>
      refine Prog.Triple.ite (fun _ _ h => ⟨h.1, nofun⟩) fun _ =>
        Prog.Triple.ite (fun _ s h uid hk => ?_) fun hcls s h => ?_
      · exact h.1 uid (MsgCaches.known_remove hk)
      · obtain ⟨s', hcaches, hrun⟩ := sendAckIfNeeded_run env msg s
        have hs' : KnownIn K s' ∧ s'.caches.getMsg msg.uid ≠ .error .alreadyRemoved := by
          unfold KnownIn
          rw [hcaches]
          exact ⟨h.1, h.2 msg rfl hcls⟩
        rcases hrun with hrun | ⟨e, hrun⟩
        · rw [Prog.bind_ret hrun]
          exact learns_replyCachedOrHandleMsg (hK msg rfl) s' hs'
        · rw [Prog.bind_raised hrun]
          exact ⟨hs'.1, nofun⟩

/-- **Step.**  The server learns the uid of the request it reads at most. -/
theorem learns_step {e : Event} {s : Server}
    (hK : ∀ msg, e = .read (some msg) → msg.isAnswered → K msg.uid) (hs : KnownIn K s)
    (he : NotRemoved e s) : KnownIn K (step env e s) := by
  have hexit : ∀ exc, Prog.Triple (fun s => KnownIn K s ∧ exc ≠ .msgCachesAlreadyRemoved)
      (exitFromServe env exc) (fun _ => KnownIn K) (fun _ => KnownIn K) := by
    intro exc s h
    have hsend : Learns K (sendReply env ⟨.fatalPythonErrorReply, s.uidIter, env.describe exc⟩) :=
      learns_sendReply _
    have hraise : Learns K (Prog.raise .exitFromServe : Prog ServerExc Server Unit) :=
      fun _ h => ⟨h, nofun⟩
    exact ((hsend.bind fun _ => hraise).mono (fun _ => id) (fun _ _ => id) fun _ _ h => h.1)
      { s with uidIter := s.uidIter + 1 } h.1
  have hnext : Prog.Triple (fun s => KnownIn K s ∧ NotRemoved e s) (handleNextMsg env e)
      (fun _ => KnownIn K) (fun _ => KnownIn K) := by
    refine Prog.Triple.tryExcept (learns_tryHandleNextMsg hK) ?_ fun _ _ _ h => h.1
    intro exc p hp
    split at hp
    · cases hp
      exact hexit exc
    · cases hp
  unfold step
  split
  · have h := hnext s ⟨hs, he⟩
    cases hrun : handleNextMsg env e s with
    | ret _ s' =>
      rw [hrun] at h
      exact h
    | raised _ s' =>
      rw [hrun] at h
      exact h
    | hang => exact hs
  · exact hs

theorem not_raised_alreadyRemoved {e : Event} {s : Server} (he : NotRemoved e s) (s' : Server) :
    tryHandleNextMsg env e s ≠ .raised .msgCachesAlreadyRemoved s' := by
  intro hrun
  have hK : ∀ msg, e = .read (some msg) → msg.isAnswered → (fun _ => True) msg.uid :=
    fun _ _ _ => trivial
  exact ((learns_tryHandleNextMsg hK).of_raised ⟨fun _ _ => trivial, he⟩ hrun).2 rfl

/-- A message that is neither known nor an `Ack` is handled. -/
theorem handles_of_notKnown {msg : Msg} {s : Server} (hfatal : msg.isFatal = false)
    (hcls : msg.cls ≠ .ack) (hs : ¬ s.caches.Knows msg.uid) :
    tryHandleNextMsg env (.read (some msg)) s =
      (do sendAckIfNeeded env msg; handleMsg env msg : Prog ServerExc Server Unit) s := by
  rw [tryHandleNextMsg, if_neg (by simp [hfatal]), if_neg hcls]
  obtain ⟨s', hcaches, hrun⟩ := sendAckIfNeeded_run env msg s
  rcases hrun with hrun | ⟨e, hrun⟩
  · rw [Prog.bind_ret hrun, Prog.bind_ret hrun, replyCachedOrHandleMsg,
      Prog.bind_ret (Prog.gets_run ..), hcaches, MsgCaches.getMsg_notFound.mpr hs]
  · rw [Prog.bind_raised hrun, Prog.bind_raised hrun]

theorem step_ack {msg : Msg} {s : Server} (hcls : msg.cls = .ack) (hs : s.serving = true) :
    step env (.read (some msg)) s = { s with caches := s.caches.remove msg } := by
  have hfatal : ¬ msg.isFatal = true := by simp [Msg.isFatal, hcls]
  rw [step, if_pos hs, handleNextMsg, tryHandleNextMsg, if_neg hfatal, if_pos hcls]
  rfl

/-- The first reply has the uid -1. -/
theorem knownIn_start : KnownIn (· = -1) (start env) := by
  have hnew : KnownIn (· = -1) (new env) := by
    rintro uid (h | h)
    · cases h
    · cases h
  have hpush : Learns (· = -1) (sendReplyViaCache env ⟨.serverIdReply, -1, env.serverId⟩) := by
    have hpush : Learns (· = -1)
        (modifyCaches (MsgCaches.pushMsg env.retry ⟨.serverIdReply, -1, env.serverId⟩)) :=
      learns_modifyCaches fun c uid hc h => by
        rcases MsgCaches.knows_pushMsg.mp h with h | h
        · exact h
        · exact hc uid h
    exact hpush.bind fun _ => learns_sendExpired
  have h := hpush (new env) hnew
  unfold start
  cases hrun : sendReplyViaCache env ⟨.serverIdReply, -1, env.serverId⟩ (new env) with
  | ret _ s' =>
    rw [hrun] at h
    exact h
  | raised _ s' =>
    rw [hrun] at h
    exact h.1
  | hang => exact hnew

end Server

/-! ## The machine -/

/-- Which call a transmission belongs to. -/
inductive Source where
  | ack
  | sendAndReceive (number : Nat)
  | send (number : Nat)
  deriving DecidableEq, Repr

structure Transmission where
  msg : Msg
  source : Source
  deriving DecidableEq, Repr

/-- `Exchange` with the class-wide `_uid_iter` of the client's process and, as
records, the sources of the transmissions, the number of calls of `send` and the
sources of what the server has received. -/
structure Traffic where
  uidIter : Nat
  client : Client
  server : Server
  toServer : List Transmission
  toClient : List Msg
  sends : Nat
  received : List Source
  deriving DecidableEq

/-- The classes that the server has a handler for. -/
def MsgCls.isRequest (cls : MsgCls) : Bool :=
  cls = .execCommandRequest || cls = .sendCommandRequest || cls = .exitRequest ||
    cls = .serverIdRequest

namespace Traffic

inductive Action where
  /-- Some other message is created in the client's process. -/
  | create
  /-- `send_and_receive(cls.create(arg))` -/
  | call (cls : MsgCls) (arg : Bytes)
  /-- `send(cls.create(arg))` of a request without an answer -/
  | send (cls : MsgCls) (arg : Bytes)
  | receive
  | timeout
  | raises
  | serve
  | expired
  | loseToServer (i : Nat)
  | loseToClient (i : Nat)
  deriving DecidableEq, Repr

variable (env : Env)

/-- `uidIter` messages were created before. -/
def init (uidIter : Nat) : Traffic :=
  let s := Server.start env
  ⟨uidIter, Client.new, { s with outbox := [] }, [], s.outbox, 0, []⟩

/-- The client's new state, and what it sends. -/
def clientDoes (source : Source) (r : Client × List Msg) (x : Traffic) : Traffic :=
  { x with client := r.1, toServer := x.toServer ++ r.2.map fun m => ⟨m, source⟩ }

def serverDoes (e : Server.Event) (x : Traffic) : Traffic :=
  let s := Server.step env e x.server
  { x with server := { s with outbox := [] }, toClient := x.toClient ++ s.outbox }

def step : Action → Traffic → Traffic
  | .create, x => { x with uidIter := x.uidIter + 1 }
  | .call cls arg, x =>
    if x.client.control = .idle ∧ cls.isRequest then
      { x with uidIter := x.uidIter + 1 }.clientDoes (.sendAndReceive x.client.requests.length)
        (x.client.call env.retry ⟨cls, x.uidIter, arg⟩)
    else x
  | .send cls arg, x =>
    if x.client.control = .idle ∧ (cls = .sendCommandRequest ∨ cls = .exitRequest) then
      { x with uidIter := x.uidIter + 1, sends := x.sends + 1 }.clientDoes (.send x.sends)
        (x.client, [⟨cls, x.uidIter, arg⟩])
    else x
  | .receive, x =>
    match x.toClient with
    | [] => x
    | r :: rs => { x with toClient := rs }.clientDoes .ack (x.client.receive r)
  | .timeout, x =>
    x.clientDoes (.sendAndReceive (x.client.requests.length - 1)) x.client.timeout
  | .raises, x => x.clientDoes .ack ({ x.client with control := .idle }, [])
  | .serve, x =>
    match x.toServer with
    | [] => x
    | t :: ts =>
      if x.server.serving then
        { x with toServer := ts, received := x.received ++ [t.source] }.serverDoes env
          (.read (some t.msg))
      else x
  | .expired, x => x.serverDoes env .expired
  | .loseToServer i, x => { x with toServer := x.toServer.eraseIdx i }
  | .loseToClient i, x => { x with toClient := x.toClient.eraseIdx i }

/-- What happens to the server in the step. -/
def event? : Action → Traffic → Option Server.Event
  | .serve, x =>
    match x.toServer with
    | [] => none
    | t :: _ => if x.server.serving then some (.read (some t.msg)) else none
  | .expired, _ => some .expired
  | _, _ => none

/-- Without an `Ack`, a reply is removed: its retries have run out. -/
def RunsOut (e : Server.Event) (s : Server) : Prop :=
  (∀ msg, e = .read (some msg) → msg.cls ≠ .ack) ∧
    (Server.step env e s).caches.removed ≠ s.caches.removed

instance (e : Server.Event) (s : Server) : Decidable (RunsOut env e s) :=
  match e with
  | .expired => decidable_of_iff ((Server.step env .expired s).caches.removed ≠ s.caches.removed)
      ⟨fun h => ⟨nofun, h⟩, fun h => h.2⟩
  | .read none => decidable_of_iff
      ((Server.step env (.read none) s).caches.removed ≠ s.caches.removed)
      ⟨fun h => ⟨nofun, h⟩, fun h => h.2⟩
  | .read (some msg) => decidable_of_iff (msg.cls ≠ .ack ∧
      (Server.step env (.read (some msg)) s).caches.removed ≠ s.caches.removed)
      ⟨fun h => ⟨fun _ he => by cases he; exact h.1, h.2⟩, fun h => ⟨h.1 msg rfl, h.2⟩⟩

/-- A step in which no reply runs out of its retries. -/
def Ok (a : Action) (x : Traffic) : Prop :=
  match event? a x with
  | some e => ¬ RunsOut env e x.server
  | none => True

instance (a : Action) (x : Traffic) : Decidable (Ok env a x) := by
  unfold Ok
  split <;> infer_instance

/-! ## A run of `Exchange` -/

/-- Without the records. -/
def exchange (x : Traffic) : Exchange :=
  ⟨x.client, x.server, x.toServer.map Transmission.msg, x.toClient⟩

/-- The action of `Exchange`, `none` for a step that it does not see. -/
def Action.exchange (x : Traffic) : Action → Option Exchange.Action
  | .create => none
  | .call cls arg => if cls.isRequest then some (.call ⟨cls, x.uidIter, arg⟩) else none
  | .send cls arg => some (.send ⟨cls, x.uidIter, arg⟩)
  | .receive => some .receive
  | .timeout => some .timeout
  | .raises => some .raises
  | .serve => some .serve
  | .expired => some .expired
  | .loseToServer i => some (.loseToServer i)
  | .loseToClient i => some (.loseToClient i)

theorem exchange_clientDoes (source : Source) (r : Client × List Msg) (x : Traffic) :
    (x.clientDoes source r).exchange = x.exchange.clientDoes r := by
  simp [clientDoes, exchange, Exchange.clientDoes, Function.comp_def]

/-- **The projection is exact.** -/
theorem step_exchange (a : Action) (x : Traffic) :
    (step env a x).exchange =
      ((a.exchange x).map fun a => Exchange.step env a x.exchange).getD x.exchange := by
  obtain ⟨uidIter, client, server, toServer, toClient, sends, received⟩ := x
  cases a with
  | create => rfl
  | call cls arg =>
    cases hcls : cls.isRequest with
    | false => simp [step, Action.exchange, hcls]
    | true =>
      simp only [step, Action.exchange, hcls, and_true, ↓reduceIte, Option.map_some,
        Option.getD_some, Exchange.step]
      split
      · exact exchange_clientDoes ..
      · next hidle =>
        have hcall : client.call env.retry ⟨cls, uidIter, arg⟩ = (client, []) := by
          unfold Client.call
          split
          · next h => exact absurd h hidle
          · rfl
        simp only [exchange, Exchange.clientDoes, hcall, List.append_nil]
  | send cls arg =>
    simp only [step, Action.exchange, Option.map_some, Option.getD_some, Exchange.step]
    split
    · next h => exact (exchange_clientDoes ..).trans (if_pos h).symm
    · next h => exact (if_neg h).symm
  | receive =>
    cases toClient with
    | nil => rfl
    | cons r rs => exact exchange_clientDoes ..
  | timeout => exact exchange_clientDoes ..
  | raises => exact exchange_clientDoes ..
  | serve =>
    cases toServer with
    | nil => rfl
    | cons t ts =>
      cases hserving : server.serving with
      | true => simp [step, Action.exchange, Exchange.step, exchange, hserving, serverDoes,
          Exchange.serverDoes]
      | false => simp [step, Action.exchange, Exchange.step, exchange, hserving]
  | expired => rfl
  | loseToServer i => simp [step, Action.exchange, Exchange.step, exchange, List.eraseIdx_map]
  | loseToClient i => rfl

/-! ## The invariant -/

/-- The reply with this uid was acknowledged. -/
def Removed (x : Traffic) (uid : Int) : Prop := x.server.caches.removed.contains uid = true

/-- A transmission on the channel: a request of `send_and_receive` was not
acknowledged, one of `send` has a greater uid than all that were received. -/
def Proper (x : Traffic) (t : Transmission) : Prop :=
  match t.source with
  | .ack => t.msg.cls = .ack ∧ t.msg.uid < x.client.requests.length
  | .sendAndReceive n =>
    t.msg ∈ x.client.requests ∧ t.msg.uid = n ∧ t.msg.cls.isRequest ∧ ¬ x.Removed n
  | .send _ =>
    (t.msg.cls = .sendCommandRequest ∨ t.msg.cls = .exitRequest) ∧ 0 ≤ t.msg.uid ∧
      ∀ n : Nat, .sendAndReceive n ∈ x.received → n < t.msg.uid

/-- What the order on the channel says about the uids. -/
def Before (t t' : Transmission) : Prop :=
  (t.source = .ack → ∀ n, t'.source = .sendAndReceive n → t.msg.uid ≠ n) ∧
    ∀ (n k : Nat), t.source = .sendAndReceive n → t'.source = .send k → n < t'.msg.uid

/-- The last request, as long as it may be sent again. -/
structure Unanswered (x : Traffic) (msg : Msg) : Prop where
  mem : msg ∈ x.client.requests
  uid : msg.uid = (x.client.requests.length - 1 : Nat)
  cls : msg.cls.isRequest = true
  removed : ¬ x.Removed msg.uid
  acks : ∀ t ∈ x.toServer, t.source = .ack → t.msg.uid ≠ msg.uid

structure Inv (x : Traffic) : Prop where
  server : Server.Valid (· ∈ x.client.requests) [] x.server
  toClient : ∀ m ∈ x.toClient, Server.Origin x.server.replied m
  count : x.client.uidIter = x.client.requests.length
  requests : ∀ m ∈ x.client.requests, m.uid < x.client.requests.length
  le : x.client.requests.length ≤ x.uidIter
  known : ∀ uid, x.server.caches.Knows uid →
    uid = -1 ∨ ∃ n : Nat, .sendAndReceive n ∈ x.received ∧ uid = n
  received : ∀ n, .sendAndReceive n ∈ x.received → n < x.client.requests.length
  toServer : ∀ t ∈ x.toServer, x.Proper t
  ordered : x.toServer.Pairwise Before
  waiting : ∀ msg n, x.client.control = .receiveAckOrReply msg n → x.Unanswered msg

theorem Proper.mono {x y : Traffic} {t : Transmission} (h : x.Proper t)
    (hrequests : x.client.requests <+: y.client.requests)
    (hremoved : ∀ n, t.source = .sendAndReceive n → y.Removed n → x.Removed n)
    (hreceived : ∀ k n : Nat, t.source = .send k → .sendAndReceive n ∈ y.received →
      .sendAndReceive n ∈ x.received ∨ n < t.msg.uid) : y.Proper t := by
  unfold Proper at h ⊢
  have hlen := hrequests.length_le
  cases hs : t.source with
  | ack =>
    rw [hs] at h
    exact ⟨h.1, by have := h.2; omega⟩
  | sendAndReceive n =>
    rw [hs] at h
    exact ⟨hrequests.subset h.1, h.2.1, h.2.2.1, fun hy => h.2.2.2 (hremoved n hs hy)⟩
  | send k =>
    rw [hs] at h
    refine ⟨h.1, h.2.1, fun n hn => ?_⟩
    rcases hreceived k n hs hn with hx | hlt
    · exact h.2.2 n hx
    · exact hlt

section
variable {x : Traffic}

theorem Inv.known_lt (h : Inv x) {uid : Int} (hk : x.server.caches.Knows uid) :
    uid < x.client.requests.length := by
  rcases h.known uid hk with rfl | ⟨n, hn, rfl⟩
  · omega
  · have := h.received n hn
    omega

theorem Inv.not_removed (h : Inv x) {uid : Int} (hle : x.client.requests.length ≤ uid) :
    ¬ x.Removed uid := fun hr => by
  have := h.known_lt (.inr hr)
  omega

/-- What the client acknowledges has the uid of a request, or -1. -/
theorem Inv.uid_lt (h : Inv x) {r : Msg} (hr : r ∈ x.toClient) (hcls : r.cls ≠ .ack)
    (hfatal : r.isFatal = false) : r.uid < x.client.requests.length := by
  rcases h.toClient r hr with hr | hr | hr | ⟨q, hq⟩
  · exact absurd hr hcls
  · rw [hfatal] at hr
    cases hr
  · omega
  · rw [(h.server.1.reply _ hq).1]
    exact h.requests q (h.server.1.request _ hq)

theorem inv_init (env : Env) (uidIter : Nat) : Inv (init env uidIter) where
  server := (Server.valid_start (R := (· ∈ Client.new.requests))).clear
  toClient := (Server.valid_start (R := fun _ => True)).1.outbox
  count := rfl
  requests := nofun
  le := Nat.zero_le _
  known uid hk := .inl (Server.knownIn_start uid hk)
  received := nofun
  toServer := nofun
  ordered := .nil
  waiting := nofun

/-! ## Every step keeps the invariant -/

/-- The client sends something about requests it has already. -/
theorem Inv.clientDoes (h : Inv x) {c : Client} {out : List Msg} {source : Source}
    (hrequests : c.requests = x.client.requests) (huid : c.uidIter = x.client.uidIter)
    (hcontrol : ∀ msg n, c.control = .receiveAckOrReply msg n →
      (∃ n', x.client.control = .receiveAckOrReply msg n') ∧
        (source = .ack → ∀ m ∈ out, m.uid ≠ msg.uid))
    (hout : ∀ m ∈ out, x.Proper ⟨m, source⟩ ∧ ∀ t ∈ x.toServer, Before t ⟨m, source⟩) :
    Inv (x.clientDoes source (c, out)) := by
  have hproper : ∀ t, x.Proper t → (x.clientDoes source (c, out)).Proper t := fun t ht =>
    ht.mono (hrequests ▸ List.prefix_rfl) (fun _ _ => id) fun _ _ _ => .inl
  have hsame : ∀ t t' : Transmission, t.source = source → t'.source = source → Before t t' := by
    rintro t t' rfl hs
    refine ⟨fun ha n hn => ?_, fun n k hn hk => ?_⟩
    · rw [hs, ha] at hn
      cases hn
    · rw [hs, hn] at hk
      cases hk
  refine ⟨hrequests ▸ h.server, h.toClient, ?_, ?_, ?_, h.known, ?_, fun t ht => ?_, ?_,
    fun msg n hc => ?_⟩
  · exact (huid.trans h.count).trans (congrArg List.length hrequests).symm
  · exact hrequests ▸ h.requests
  · exact hrequests ▸ h.le
  · exact hrequests ▸ h.received
  · rcases List.mem_append.mp ht with ht | ht
    · exact hproper t (h.toServer t ht)
    · obtain ⟨m, hm, rfl⟩ := List.mem_map.mp ht
      exact hproper _ (hout m hm).1
  · refine List.pairwise_append.mpr ⟨h.ordered, List.pairwise_iff_getElem.mpr ?_, ?_⟩
    · intro i j hi hj _
      exact hsame _ _ (by simp) (by simp)
    · intro t ht t' ht'
      obtain ⟨m, hm, rfl⟩ := List.mem_map.mp ht'
      exact (hout m hm).2 t ht
  · obtain ⟨⟨n', hc'⟩, hacks⟩ := hcontrol msg n hc
    have hw := h.waiting msg n' hc'
    refine ⟨hrequests ▸ hw.mem, ?_, hw.cls, hw.removed, fun t ht hs => ?_⟩
    · rw [hw.uid]
      exact congrArg (fun l => ((List.length l - 1 : Nat) : Int)) hrequests.symm
    · rcases List.mem_append.mp ht with ht | ht
      · exact hw.acks t ht hs
      · obtain ⟨m, hm, rfl⟩ := List.mem_map.mp ht
        exact hacks hs m hm

/-- The server reads a message, or nothing. -/
theorem Inv.serverDoes (h : Inv x) {env : Env} {e : Server.Event}
    (hread : ∀ m, e = .read (some m) → m.isAnswered →
      m ∈ x.client.requests ∧ ∃ n : Nat, .sendAndReceive n ∈ x.received ∧ m.uid = n)
    (hnot : Server.NotRemoved e x.server)
    (hremoved : ∀ uid, (Server.step env e x.server).caches.removed.contains uid = true →
      x.Removed uid ∨ (∀ t ∈ x.toServer, ∀ n : Nat, t.source = .sendAndReceive n → uid ≠ n) ∧
        ∀ msg n, x.client.control = .receiveAckOrReply msg n → uid ≠ msg.uid) :
    Inv (x.serverDoes env e) := by
  have hkeep : Server.Valid (· ∈ x.client.requests) x.server.replied x.server :=
    ⟨h.server.1.keep, h.server.2⟩
  have hstep : Server.Valid (· ∈ x.client.requests) x.server.replied (Server.step env e x.server) :=
    Server.valid_step hkeep fun m he ha => (hread m he ha).1
  have hknown : Server.KnownIn
      (fun uid => uid = -1 ∨ ∃ n : Nat, .sendAndReceive n ∈ x.received ∧ uid = n)
      (Server.step env e x.server) :=
    Server.learns_step (fun m he ha => .inr (hread m he ha).2) h.known hnot
  refine ⟨hstep.clear.forget, fun m hm => ?_, h.count, h.requests, h.le, hknown, h.received,
    fun t ht => ?_, h.ordered, fun msg n hc => ?_⟩
  · rcases List.mem_append.mp hm with hm | hm
    · exact Exchange.origin_of_subset hstep.1.kept (h.toClient m hm)
    · exact hstep.1.outbox m hm
  · refine (h.toServer t ht).mono List.prefix_rfl (fun n hs hn => ?_) fun _ _ _ => .inl
    rcases hremoved n hn with hn | ⟨hne, -⟩
    · exact hn
    · exact absurd rfl (hne t ht n hs)
  · have hw := h.waiting msg n hc
    refine ⟨hw.mem, hw.uid, hw.cls, fun hr => ?_, hw.acks⟩
    rcases hremoved msg.uid hr with hr | ⟨-, hne⟩
    · exact hw.removed hr
    · exact hne msg n hc rfl

/-- A request of `send` is not known when it arrives. -/
theorem Inv.not_knows_send (h : Inv x) {t : Transmission} (ht : t ∈ x.toServer) {k : Nat}
    (hs : t.source = .send k) : ¬ x.server.caches.Knows t.msg.uid := by
  have hp := h.toServer t ht
  unfold Proper at hp
  rw [hs] at hp
  obtain ⟨-, hpos, hlt⟩ := hp
  intro hk
  rcases h.known _ hk with huid | ⟨n, hn, huid⟩
  · omega
  · have := hlt n hn
    omega

/-- A request of `send_and_receive` is known once it was received only. -/
theorem Inv.not_knows_sendAndReceive (h : Inv x) {t : Transmission} (ht : t ∈ x.toServer) {n : Nat}
    (hs : t.source = .sendAndReceive n) (hnew : .sendAndReceive n ∉ x.received) :
    ¬ x.server.caches.Knows t.msg.uid := by
  have hp := h.toServer t ht
  unfold Proper at hp
  rw [hs] at hp
  intro hk
  rcases h.known _ hk with huid | ⟨n', hn', huid⟩
  · rw [hp.2.1] at huid
    omega
  · rw [hp.2.1, Nat.cast_inj] at huid
    exact hnew (huid ▸ hn')

theorem Inv.notRemoved (h : Inv x) {t : Transmission} (ht : t ∈ x.toServer) :
    Server.NotRemoved (.read (some t.msg)) x.server := by
  rintro msg he hcls
  cases he
  apply MsgCaches.getMsg_ne_alreadyRemoved
  have hp := h.toServer t ht
  unfold Proper at hp
  cases hs : t.source with
  | ack =>
    rw [hs] at hp
    exact absurd hp.1 hcls
  | sendAndReceive n =>
    rw [hs] at hp
    rw [hp.2.1]
    exact hp.2.2.2
  | send k => exact fun hr => h.not_knows_send ht hs (.inr hr)

/-- The first transmission is read. -/
theorem Inv.received_first (h : Inv x) {t : Transmission} {ts : List Transmission}
    (ht : x.toServer = t :: ts) :
    Inv { x with toServer := ts, received := x.received ++ [t.source] } := by
  have hordered := h.ordered
  rw [ht, List.pairwise_cons] at hordered
  have hmem : ∀ t' ∈ ts, t' ∈ x.toServer := fun t' ht' => ht ▸ List.mem_cons_of_mem t ht'
  refine ⟨h.server, h.toClient, h.count, h.requests, h.le, fun uid hk => ?_, fun n hn => ?_,
    fun t' ht' => ?_, hordered.2, fun msg n hc => ?_⟩
  · rcases h.known uid hk with rfl | ⟨n, hn, rfl⟩
    · exact .inl rfl
    · exact .inr ⟨n, List.mem_append_left _ hn, rfl⟩
  · rcases List.mem_append.mp hn with hn | hn
    · exact h.received n hn
    · have hp := h.toServer t (ht ▸ List.mem_cons_self ..)
      unfold Proper at hp
      rw [← List.mem_singleton.mp hn] at hp
      have := h.requests _ hp.1
      rw [hp.2.1] at this
      exact Int.ofNat_lt.mp this
  · refine (h.toServer t' (hmem t' ht')).mono List.prefix_rfl (fun _ _ => id) fun k n hs hn => ?_
    rcases List.mem_append.mp hn with hn | hn
    · exact .inl hn
    · exact .inr ((hordered.1 t' ht').2 n k (List.mem_singleton.mp hn).symm hs)
  · have hw := h.waiting msg n hc
    exact ⟨hw.mem, hw.uid, hw.cls, hw.removed, fun t' ht' => hw.acks t' (hmem t' ht')⟩

theorem Inv.serve (h : Inv x) {env : Env} {t : Transmission} {ts : List Transmission}
    (ht : x.toServer = t :: ts) (hserving : x.server.serving = true)
    (hok : ¬ RunsOut env (.read (some t.msg)) x.server) :
    Inv ({ x with toServer := ts, received := x.received ++ [t.source] }.serverDoes env
      (.read (some t.msg))) := by
  have hmem : t ∈ x.toServer := ht ▸ List.mem_cons_self ..
  have hp := h.toServer t hmem
  have hordered := h.ordered
  rw [ht, List.pairwise_cons] at hordered
  refine (h.received_first ht).serverDoes ?_ (h.notRemoved hmem) fun uid hr => ?_
  · -- a request with an answer is one of `send_and_receive`
    rintro m he ha
    cases he
    unfold Proper at hp
    cases hs : t.source with
    | ack =>
      rw [hs] at hp
      simp [Msg.isAnswered, hp.1] at ha
    | sendAndReceive n =>
      rw [hs] at hp
      exact ⟨hp.1, n, List.mem_append_right _ (List.mem_singleton_self _), hp.2.1⟩
    | send k =>
      rw [hs] at hp
      rcases hp.1 with hcls | hcls <;> simp [Msg.isAnswered, hcls] at ha
  · by_cases hcls : t.msg.cls = .ack
    · have hsource : t.source = .ack := by
        unfold Proper at hp
        cases hs : t.source with
        | ack => rfl
        | sendAndReceive n =>
          rw [hs] at hp
          simp [MsgCls.isRequest, hcls] at hp
        | send k =>
          rw [hs] at hp
          simp [hcls] at hp
      rw [Server.step_ack hcls hserving] at hr
      rcases MsgCaches.removed_remove hr with rfl | hr
      · refine .inr ⟨fun t' ht' n hs => (hordered.1 t' ht').1 hsource n hs, fun msg n hc => ?_⟩
        exact (h.waiting msg n hc).acks t hmem hsource
      · exact .inl hr
    · have hsame : (Server.step env (.read (some t.msg)) x.server).caches.removed =
          x.server.caches.removed := by
        by_contra hne
        exact hok ⟨fun m he => by cases he; exact hcls, hne⟩
      left
      rw [Removed, ← hsame]
      exact hr

theorem Inv.expired (h : Inv x) {env : Env} (hok : ¬ RunsOut env .expired x.server) :
    Inv (x.serverDoes env .expired) := by
  refine h.serverDoes nofun nofun fun uid hr => ?_
  have hsame : (Server.step env .expired x.server).caches.removed = x.server.caches.removed := by
    by_contra hne
    exact hok ⟨nofun, hne⟩
  left
  rw [Removed, ← hsame]
  exact hr

/-- What a read of the client acknowledges, and how it goes on. -/
theorem receive_acks (r : Msg) (c : Client) {c' : Client} {out : List Msg}
    (h : c.receive r = (c', out)) :
    (∀ m ∈ out, m = r.createAck ∧ r.cls ≠ .ack ∧ r.isFatal = false) ∧
      ∀ msg n, c'.control = .receiveAckOrReply msg n →
        c.control = .receiveAckOrReply msg n ∧ (out = [] ∨ r.uid ≠ msg.uid) := by
  unfold Client.receive at h
  cases hf : r.isFatal with
  | true =>
    rw [hf, if_pos rfl] at h
    cases h
    exact ⟨nofun, nofun⟩
  | false =>
    rw [hf, if_neg (by decide)] at h
    have hacks : ∀ m ∈ (if r.cls = .ack then [] else [r.createAck]),
        m = r.createAck ∧ r.cls ≠ .ack ∧ false = false := by
      intro m hm
      split at hm
      · cases hm
      · next hcls => exact ⟨List.mem_singleton.mp hm, hcls, rfl⟩
    dsimp only at h
    cases hc : c.control with
    | idle =>
      rw [hc] at h
      cases h
      exact ⟨hacks, fun msg n hc' => by rw [hc] at hc'; cases hc'⟩
    | receiveAckOrReply msg timeouts =>
      rw [hc] at h
      dsimp only at h
      split at h
      · split at h
        · cases h
          exact ⟨nofun, nofun⟩
        · next hack =>
          rw [if_neg hack] at hacks
          cases h
          exact ⟨hacks, nofun⟩
      · next huid =>
        cases h
        refine ⟨hacks, fun msg' n hc' => ?_⟩
        rw [hc] at hc'
        cases hc'
        refine ⟨rfl, .inr fun heq => huid ?_⟩
        simp [Client.isReplyOrAck, heq]
    | receiveUntilReply msg final =>
      rw [hc] at h
      dsimp only at h
      split at h <;> cases h
      · exact ⟨hacks, nofun⟩
      · exact ⟨hacks, fun msg n hc' => by rw [hc] at hc'; cases hc'⟩

theorem Inv.receive (h : Inv x) {r : Msg} {rs : List Msg} (hr : x.toClient = r :: rs) :
    Inv ({ x with toClient := rs }.clientDoes .ack (x.client.receive r)) := by
  have hrest : Inv { x with toClient := rs } :=
    ⟨h.server, fun m hm => h.toClient m (hr ▸ List.mem_cons_of_mem r hm), h.count, h.requests,
      h.le, h.known, h.received, h.toServer, h.ordered, fun msg n hc =>
        have hw := h.waiting msg n hc
        ⟨hw.mem, hw.uid, hw.cls, hw.removed, hw.acks⟩⟩
  rcases hrun : x.client.receive r with ⟨c, out⟩
  obtain ⟨hrequests, huid, -⟩ := Exchange.receive_cases r x.client hrun
  obtain ⟨hacks, hcontrol⟩ := receive_acks r x.client hrun
  refine hrest.clientDoes hrequests huid (fun msg n hc => ?_) fun m hm => ?_
  · obtain ⟨hc', hor⟩ := hcontrol msg n hc
    refine ⟨⟨n, hc'⟩, fun _ m hm => ?_⟩
    rcases hor with rfl | hne
    · cases hm
    · rw [(hacks m hm).1]
      exact hne
  · obtain ⟨rfl, hcls, hfatal⟩ := hacks m hm
    have hlt := h.uid_lt (hr ▸ List.mem_cons_self ..) hcls hfatal
    exact ⟨⟨rfl, hlt⟩, fun t _ => ⟨nofun, nofun⟩⟩

theorem Inv.timeout (h : Inv x) :
    Inv (x.clientDoes (.sendAndReceive (x.client.requests.length - 1)) x.client.timeout) := by
  unfold Client.timeout
  split
  · next hc => exact h.clientDoes rfl rfl (fun msg n hc' => by rw [hc] at hc'; cases hc') nofun
  · next msg n hc =>
    have hw := h.waiting msg _ hc
    refine h.clientDoes rfl rfl (fun msg' n' hc' => ?_) fun m hm => ?_
    · cases hc'
      exact ⟨⟨_, hc⟩, nofun⟩
    · obtain rfl := List.mem_singleton.mp hm
      refine ⟨⟨hw.mem, hw.uid, hw.cls, hw.uid ▸ hw.removed⟩, fun t ht => ⟨fun hs n hn => ?_, nofun⟩⟩
      cases hn
      exact hw.uid ▸ hw.acks t ht hs
  · exact h.clientDoes rfl rfl nofun nofun
  · exact h.clientDoes rfl rfl nofun nofun

/-- A new request of `send_and_receive`. -/
theorem Inv.call (h : Inv x) (env : Env) {cls : MsgCls} (hcls : cls.isRequest) (arg : Bytes)
    (hidle : x.client.control = .idle) :
    Inv ({ x with uidIter := x.uidIter + 1 }.clientDoes (.sendAndReceive x.client.requests.length)
      (x.client.call env.retry ⟨cls, x.uidIter, arg⟩)) := by
  unfold Client.call
  rw [hidle]
  let msg : Msg := ⟨cls, x.client.uidIter, arg⟩
  have huid : msg.uid = x.client.requests.length := congrArg Nat.cast h.count
  have hnew : msg ∈ x.client.requests ++ [msg] :=
    List.mem_append_right _ (List.mem_singleton_self _)
  have hlen : (x.client.requests ++ [msg]).length = x.client.requests.length + 1 :=
    List.length_append
  have hremoved : ¬ x.Removed x.client.requests.length := h.not_removed le_rfl
  have hacks : ∀ t ∈ x.toServer, t.source = .ack → t.msg.uid < x.client.requests.length := by
    intro t ht hs
    have hp := h.toServer t ht
    unfold Proper at hp
    rw [hs] at hp
    exact hp.2
  refine ⟨h.server.mono fun m hm => List.mem_append_left _ hm, h.toClient, ?_, fun m hm => ?_, ?_,
    h.known, fun n hn => ?_, fun t ht => ?_, ?_, fun msg' n hc => ?_⟩
  · show x.client.uidIter + 1 = (x.client.requests ++ [msg]).length
    rw [hlen, h.count]
  · show m.uid < (x.client.requests ++ [msg]).length
    rw [hlen]
    rcases List.mem_append.mp hm with hm | hm
    · have := h.requests m hm
      omega
    · rw [List.mem_singleton.mp hm, huid]
      omega
  · show (x.client.requests ++ [msg]).length ≤ x.uidIter + 1
    rw [hlen]
    have := h.le
    omega
  · show n < (x.client.requests ++ [msg]).length
    rw [hlen]
    have := h.received n hn
    omega
  · rcases List.mem_append.mp ht with ht | ht
    · exact (h.toServer t ht).mono (List.prefix_append ..) (fun _ _ => id) fun _ _ _ => .inl
    · obtain rfl := List.mem_singleton.mp ht
      exact ⟨hnew, huid, hcls, hremoved⟩
  · refine List.pairwise_append.mpr ⟨h.ordered, List.pairwise_singleton .., fun t ht t' ht' => ?_⟩
    obtain rfl := List.mem_singleton.mp ht'
    refine ⟨fun hs n hn => ?_, nofun⟩
    cases hn
    exact (hacks t ht hs).ne
  · cases hc
    refine ⟨hnew, ?_, hcls, ?_, fun t ht hs => ?_⟩
    · show msg.uid = (((x.client.requests ++ [msg]).length - 1 : Nat) : Int)
      rw [hlen, huid, Nat.add_sub_cancel]
    · show ¬ x.Removed msg.uid
      rw [huid]
      exact hremoved
    · show t.msg.uid ≠ msg.uid
      rw [huid]
      rcases List.mem_append.mp ht with ht | ht
      · exact (hacks t ht hs).ne
      · rw [List.mem_singleton.mp ht] at hs
        cases hs

/-- A request of `send` has the uid of the class-wide counter. -/
theorem Inv.send (h : Inv x) {cls : MsgCls} (hcls : cls = .sendCommandRequest ∨ cls = .exitRequest)
    (arg : Bytes) (hidle : x.client.control = .idle) :
    Inv ({ x with uidIter := x.uidIter + 1, sends := x.sends + 1 }.clientDoes (.send x.sends)
      (x.client, [⟨cls, x.uidIter, arg⟩])) := by
  have hle := h.le
  have hcount : Inv { x with uidIter := x.uidIter + 1, sends := x.sends + 1 } :=
    ⟨h.server, h.toClient, h.count, h.requests, Nat.le_succ_of_le h.le, h.known, h.received,
      h.toServer, h.ordered, fun msg n hc => by rw [hidle] at hc; cases hc⟩
  refine hcount.clientDoes rfl rfl (fun msg n hc => by rw [hidle] at hc; cases hc) fun m hm => ?_
  obtain rfl := List.mem_singleton.mp hm
  refine ⟨⟨hcls, Int.natCast_nonneg _, fun n hn => ?_⟩, fun t ht => ⟨nofun, fun n k hs _ => ?_⟩⟩
  · have := h.received n hn
    show (n : Int) < (x.uidIter : Int)
    omega
  · have hp := h.toServer t ht
    unfold Proper at hp
    rw [hs] at hp
    have := h.requests _ hp.1
    rw [hp.2.1] at this
    show (n : Int) < (x.uidIter : Int)
    omega

/-- **Step.** -/
theorem inv_step {env : Env} {a : Action} (h : Inv x) (hok : Ok env a x) : Inv (step env a x) := by
  cases a with
  | create =>
    exact ⟨h.server, h.toClient, h.count, h.requests, Nat.le_succ_of_le h.le, h.known, h.received,
      h.toServer, h.ordered, fun msg n hc =>
        have hw := h.waiting msg n hc
        ⟨hw.mem, hw.uid, hw.cls, hw.removed, hw.acks⟩⟩
  | call cls arg =>
    rw [step]
    split
    · next hc => exact h.call env hc.2 arg hc.1
    · exact h
  | send cls arg =>
    rw [step]
    split
    · next hc => exact h.send hc.2 arg hc.1
    · exact h
  | receive =>
    rw [step]
    split
    · exact h
    · next r rs hr => exact h.receive hr
  | timeout => exact h.timeout
  | raises => exact h.clientDoes rfl rfl nofun nofun
  | serve =>
    rw [step]
    split
    · exact h
    · next t ts ht =>
      split
      · next hserving =>
        refine h.serve ht hserving ?_
        simpa [Ok, event?, ht, hserving] using hok
      · exact h
  | expired => exact h.expired hok
  | loseToServer i =>
    have hsub := List.eraseIdx_sublist x.toServer i
    refine ⟨h.server, h.toClient, h.count, h.requests, h.le, h.known, h.received,
      fun t ht => h.toServer t (hsub.subset ht), h.ordered.sublist hsub, fun msg n hc => ?_⟩
    have hw := h.waiting msg n hc
    exact ⟨hw.mem, hw.uid, hw.cls, hw.removed, fun t ht => hw.acks t (hsub.subset ht)⟩
  | loseToClient i =>
    refine ⟨h.server, fun m hm => h.toClient m (List.mem_of_mem_eraseIdx hm), h.count, h.requests,
      h.le, h.known, h.received, h.toServer, h.ordered, fun msg n hc => ?_⟩
    have hw := h.waiting msg n hc
    exact ⟨hw.mem, hw.uid, hw.cls, hw.removed, hw.acks⟩

end

/-- In this state the server does not raise `MsgCachesAlreadyRemoved`, and it
handles the request that comes next if it is its first transmission. -/
def HandlesFirst (env : Env) (x : Traffic) : Prop :=
  (∀ e, (e = .expired ∨ ∃ t ts, x.toServer = t :: ts ∧ e = .read (some t.msg)) →
    ∀ s, Server.tryHandleNextMsg env e x.server ≠ .raised .msgCachesAlreadyRemoved s) ∧
  ∀ t ts, x.toServer = t :: ts → t.source ≠ .ack → t.source ∉ x.received →
    Server.tryHandleNextMsg env (.read (some t.msg)) x.server =
      (do Server.sendAckIfNeeded env t.msg; Server.handleMsg env t.msg :
        Prog ServerExc Server Unit) x.server

theorem Inv.handlesFirst {x : Traffic} (h : Inv x) (env : Env) : HandlesFirst env x := by
  constructor
  · rintro e (rfl | ⟨t, ts, ht, rfl⟩) s
    · exact Server.not_raised_alreadyRemoved (fun _ he => by cases he) s
    · exact Server.not_raised_alreadyRemoved (h.notRemoved (ht ▸ List.mem_cons_self ..)) s
  · intro t ts ht hack hnew
    have hmem : t ∈ x.toServer := ht ▸ List.mem_cons_self ..
    have hp := h.toServer t hmem
    unfold Proper at hp
    cases hs : t.source with
    | ack => exact absurd hs hack
    | sendAndReceive n =>
      rw [hs] at hp hnew
      refine Server.handles_of_notKnown ?_ ?_ (h.not_knows_sendAndReceive hmem hs hnew)
      · cases hcls : t.msg.cls <;> simp [MsgCls.isRequest, Msg.isFatal, hcls] at hp ⊢
      · intro hcls
        simp [MsgCls.isRequest, hcls] at hp
    | send k =>
      rw [hs] at hp
      refine Server.handles_of_notKnown ?_ ?_ (h.not_knows_send hmem hs)
      · rcases hp.1 with hcls | hcls <;> simp [Msg.isFatal, hcls]
      · rcases hp.1 with hcls | hcls <;> simp [hcls]

/-- **Run.**  As long as no reply runs out of its retries, no request is taken
for one that was answered before. -/
theorem handles_first (env : Env) (uidIter : Nat) {x : Traffic}
    (h : Reaches (step env) (Ok env) (init env uidIter) x) : HandlesFirst env x :=
  (h.invariant (inv_init env uidIter) fun _ _ hx hok => inv_step hx hok).handlesFirst env

/-- A command whose first transmission is lost and whose reply comes twice, then
a `SendCommandRequest` and another command with the same uid. -/
def mixed : List Action :=
  [.call .execCommandRequest [], .loseToServer 0, .timeout, .timeout, .serve, .serve, .receive,
    .receive, .receive, .receive, .receive, .send .sendCommandRequest [], .serve, .serve, .serve,
    .call .execCommandRequest []]

theorem handles_first_mixed :
    ((mixed.foldl (fun x a => step Exchange.calm a x) (init Exchange.calm 0)).toServer.map
      fun t => (t.source, t.msg.uid)) = [(.send 0, 1), (.sendAndReceive 1, 1)] ∧
      HandlesFirst Exchange.calm
        (mixed.foldl (fun x a => step Exchange.calm a x) (init Exchange.calm 0)) :=
  ⟨by decide +kernel,
    handles_first Exchange.calm 0 (reaches_of_along mixed .refl (by decide +kernel))⟩

end Traffic

end InteractiveSessions
