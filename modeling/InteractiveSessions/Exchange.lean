import InteractiveSessions.Lib.Runs
import InteractiveSessions.Servers
import InteractiveSessions.TerminalClient

/-!
# A client and a server over two lossy channels

Every message may be lost, every read of the client may time out, and the server
may be told at any time that replies have expired.

* `returned_reply`: in a run in which no `Ack` of the request reaches a client
  that waits for the reply only, what `send_and_receive` returns is the reply
  that the server created;
* `returned_ack`: a run in which it returns an `Ack`, because `_is_reply` looks
  at the class of the request.
-/

namespace InteractiveSessions

structure Exchange where
  client : Client
  server : Server
  toServer : List Msg
  toClient : List Msg
  deriving DecidableEq

namespace Exchange

inductive Action where
  /-- `send_and_receive(msg)` -/
  | call (msg : Msg)
  /-- `send(msg)` of a request without an answer -/
  | send (msg : Msg)
  /-- The client reads the next message. -/
  | receive
  /-- The timer of the client's loop runs out. -/
  | timeout
  /-- A write of the client raises. -/
  | raises
  /-- The server reads the next message. -/
  | serve
  /-- The server calls `send_expired` while it waits. -/
  | expired
  | loseToServer (i : Nat)
  | loseToClient (i : Nat)
  deriving DecidableEq, Repr

variable (env : Env)

def init : Exchange :=
  let s := Server.start env
  ⟨Client.new, { s with outbox := [] }, [], s.outbox⟩

/-- The client's new state, and what it sends. -/
def clientDoes (r : Client × List Msg) (x : Exchange) : Exchange :=
  { x with client := r.1, toServer := x.toServer ++ r.2 }

/-- What the server puts in its outbox goes to the channel. -/
def serverDoes (e : Server.Event) (x : Exchange) : Exchange :=
  let s := Server.step env e x.server
  { x with server := { s with outbox := [] }, toClient := x.toClient ++ s.outbox }

def step : Action → Exchange → Exchange
  | .call msg, x => x.clientDoes (x.client.call env.retry msg)
  | .send msg, x =>
    if x.client.control = .idle ∧ (msg.cls = .sendCommandRequest ∨ msg.cls = .exitRequest) then
      x.clientDoes (x.client, [msg])
    else x
  | .receive, x =>
    match x.toClient with
    | [] => x
    | r :: rs => { x with toClient := rs }.clientDoes (x.client.receive r)
  | .timeout, x => x.clientDoes x.client.timeout
  | .raises, x => x.clientDoes ({ x.client with control := .idle }, [])
  | .serve, x =>
    match x.toServer with
    | [] => x
    | m :: ms =>
      if x.server.serving then { x with toServer := ms }.serverDoes env (.read (some m)) else x
  | .expired, x => x.serverDoes env .expired
  | .loseToServer i, x => { x with toServer := x.toServer.eraseIdx i }
  | .loseToClient i, x => { x with toClient := x.toClient.eraseIdx i }

/-- The client waits for the reply only, and takes the next message for it,
though it is an `Ack`. -/
def takesAck (x : Exchange) : Bool :=
  match x.client.control, x.toClient with
  | .receiveUntilReply msg _, r :: _ => Client.isReply msg r && r.cls = .ack
  | _, _ => false

/-- A step at which the client does not take an `Ack` for the reply. -/
def Ok (a : Action) (x : Exchange) : Prop := a = .receive → x.takesAck = false

instance (a : Action) (x : Exchange) : Decidable (Ok a x) := inferInstanceAs (Decidable (_ → _))

/-! ## What a read of the client does -/

/-- **Inversion.**  After a read the client has the same requests, it sends an
`Ack` at most, and it returns nothing or the message it has read. -/
theorem receive_cases (r : Msg) (c : Client) {c' : Client} {out : List Msg}
    (h : c.receive r = (c', out)) :
    c'.requests = c.requests ∧ c'.uidIter = c.uidIter ∧
      (∀ m, c'.control.msg? = some m → c.control.msg? = some m) ∧ (∀ m ∈ out, m.cls = .ack) ∧
      (c'.returned = c.returned ∨ ∃ msg, c'.returned = c.returned ++ [(msg, r)] ∧
        c.control.msg? = some msg ∧ msg.uid = r.uid ∧ r.isFatal = false ∧
        (r.cls = .ack → ∃ final, c.control = .receiveUntilReply msg final ∧
          Client.isReply msg r = true)) := by
  have hacks : ∀ m ∈ (if r.cls = .ack then [] else [r.createAck]), m.cls = .ack := by
    intro m hm
    split at hm
    · cases hm
    · rw [List.mem_singleton.mp hm]
      rfl
  unfold Client.receive at h
  cases hf : r.isFatal with
  | true =>
    rw [hf, if_pos rfl] at h
    cases h
    exact ⟨rfl, rfl, nofun, nofun, .inl rfl⟩
  | false =>
    rw [hf, if_neg (by decide)] at h
    dsimp only at h
    cases hc : c.control with
    | idle =>
      rw [hc] at h
      cases h
      exact ⟨rfl, rfl, fun m hm => hc ▸ hm, hacks, .inl rfl⟩
    | receiveAckOrReply msg timeouts =>
      rw [hc] at h
      dsimp only at h
      split at h
      · next huid =>
        have huid : msg.uid = r.uid := of_decide_eq_true huid
        split at h
        · cases h
          exact ⟨rfl, rfl, fun m hm => hm, nofun, .inl rfl⟩
        · next hack =>
          rw [if_neg hack] at hacks
          cases h
          exact ⟨rfl, rfl, nofun, hacks, .inr ⟨msg, rfl, rfl, huid, rfl, fun h => absurd h hack⟩⟩
      · cases h
        exact ⟨rfl, rfl, fun m hm => hc ▸ hm, hacks, .inl rfl⟩
    | receiveUntilReply msg final =>
      rw [hc] at h
      dsimp only at h
      split at h
      · next hreply =>
        have huid : msg.uid = r.uid := by
          rw [Client.isReply, Bool.and_eq_true] at hreply
          exact of_decide_eq_true hreply.2
        cases h
        exact ⟨rfl, rfl, nofun, hacks,
          .inr ⟨msg, rfl, rfl, huid, rfl, fun _ => ⟨final, rfl, hreply⟩⟩⟩
      · cases h
        exact ⟨rfl, rfl, fun m hm => hc ▸ hm, hacks, .inl rfl⟩

/-! ## The invariant -/

/-- Everything on the channels comes from where it should, and the uids of the
requests are the numbers from 0 on. -/
structure Inv (x : Exchange) : Prop where
  server : Server.Valid (· ∈ x.client.requests) [] x.server
  toClient : ∀ m ∈ x.toClient, Server.Origin x.server.replied m
  toServer : ∀ m ∈ x.toServer, m.isAnswered → m ∈ x.client.requests
  uids : x.client.requests.map Msg.uid = (List.range x.client.uidIter).map Nat.cast
  waiting : ∀ m, x.client.control.msg? = some m → m ∈ x.client.requests
  returned : ∀ y ∈ x.client.returned, y.2.cls ≠ .ack ∧ y ∈ x.server.replied

theorem Inv.uid_nonneg {x : Exchange} (h : Inv x) {m : Msg} (hm : m ∈ x.client.requests) :
    0 ≤ m.uid := by
  have hmem : m.uid ∈ x.client.requests.map Msg.uid := List.mem_map_of_mem hm
  rw [h.uids] at hmem
  obtain ⟨n, -, hn⟩ := List.mem_map.mp hmem
  omega

/-- The uid determines the request. -/
theorem Inv.request_unique {x : Exchange} (h : Inv x) {m m' : Msg} (hm : m ∈ x.client.requests)
    (hm' : m' ∈ x.client.requests) (huid : m.uid = m'.uid) : m = m' := by
  have hnodup : (x.client.requests.map Msg.uid).Nodup := by
    rw [h.uids]
    exact List.Nodup.map Nat.cast_injective List.nodup_range
  exact List.inj_on_of_nodup_map hnodup hm hm' huid

/-- A message for a request that is neither an `Ack` nor a fatal error is the
reply that was created for the request. -/
theorem Inv.reply {x : Exchange} (h : Inv x) {m r : Msg} (hm : m ∈ x.client.requests)
    (hr : Server.Origin x.server.replied r) (huid : m.uid = r.uid) (hack : r.cls ≠ .ack)
    (hfatal : r.isFatal = false) : (m, r) ∈ x.server.replied := by
  have hpos := h.uid_nonneg hm
  rcases hr with hr | hr | hr | ⟨q, hq⟩
  · exact absurd hr hack
  · rw [hfatal] at hr
    cases hr
  · omega
  · have hqr := h.server.1.reply _ hq
    have hqm : q = m := h.request_unique (h.server.1.request _ hq) hm (hqr.1.symm.trans huid.symm)
    exact hqm ▸ hq

theorem origin_of_subset {replied replied' : List (Msg × Msg)} (h : replied ⊆ replied') {m : Msg}
    (hm : Server.Origin replied m) : Server.Origin replied' m := by
  rcases hm with hm | hm | hm | ⟨q, hq⟩
  · exact .inl hm
  · exact .inr (.inl hm)
  · exact .inr (.inr (.inl hm))
  · exact .inr (.inr (.inr ⟨q, h hq⟩))

/-! ## Every step keeps the invariant -/

section
variable {env : Env} {x : Exchange}

theorem inv_init : Inv (init env) := by
  have h : Server.Valid (· ∈ Client.new.requests) [] (Server.start env) := Server.valid_start
  refine ⟨h.clear, h.1.outbox, nofun, rfl, nofun, nofun⟩

/-- The client does something about requests it has already. -/
theorem Inv.clientDoes (h : Inv x) {c : Client} {out : List Msg}
    (hrequests : c.requests = x.client.requests) (huid : c.uidIter = x.client.uidIter)
    (hcontrol : ∀ m, c.control.msg? = some m → x.client.control.msg? = some m)
    (hreturned : ∀ y ∈ c.returned, y ∈ x.client.returned ∨ y.2.cls ≠ .ack ∧ y ∈ x.server.replied)
    (hout : ∀ m ∈ out, m.isAnswered → m ∈ x.client.requests) : Inv (x.clientDoes (c, out)) where
  server := hrequests ▸ h.server
  toClient := h.toClient
  toServer m hm ha := by
    rw [show (x.clientDoes (c, out)).client = c from rfl, hrequests]
    rcases List.mem_append.mp hm with hm | hm
    · exact h.toServer m hm ha
    · exact hout m hm ha
  uids := by
    show c.requests.map Msg.uid = (List.range c.uidIter).map Nat.cast
    rw [hrequests, huid]
    exact h.uids
  waiting m hm := hrequests ▸ h.waiting m (hcontrol m hm)
  returned y hy := by
    rcases hreturned y hy with hy | hy
    · exact h.returned y hy
    · exact hy

/-- The server reads a message of the channel, or nothing. -/
theorem Inv.serverDoes (h : Inv x) {e : Server.Event}
    (he : ∀ m, e = .read (some m) → m.isAnswered → m ∈ x.client.requests) :
    Inv (x.serverDoes env e) := by
  have hkeep : Server.Valid (· ∈ x.client.requests) x.server.replied x.server :=
    ⟨h.server.1.keep, h.server.2⟩
  have hstep : Server.Valid (· ∈ x.client.requests) x.server.replied (Server.step env e x.server) :=
    Server.valid_step hkeep he
  refine ⟨hstep.clear.forget, fun m hm => ?_, h.toServer, h.uids, h.waiting, fun y hy => ?_⟩
  · rcases List.mem_append.mp hm with hm | hm
    · exact origin_of_subset hstep.1.kept (h.toClient m hm)
    · exact hstep.1.outbox m hm
  · exact ⟨(h.returned y hy).1, hstep.1.kept (h.returned y hy).2⟩

/-- A new request gets the next uid. -/
theorem Inv.call (h : Inv x) (msg : Msg) : Inv (x.clientDoes (x.client.call env.retry msg)) := by
  unfold Client.call
  cases hc : x.client.control with
  | receiveAckOrReply _ _ =>
    exact h.clientDoes rfl rfl (fun _ => id) (fun _ => .inl) nofun
  | receiveUntilReply _ _ =>
    exact h.clientDoes rfl rfl (fun _ => id) (fun _ => .inl) nofun
  | idle =>
    have hnew : ∀ m ∈ x.client.requests,
        m ∈ x.client.requests ++ [{ msg with uid := x.client.uidIter }] :=
      fun m hm => List.mem_append_left _ hm
    refine ⟨h.server.mono hnew, h.toClient, fun m hm ha => ?_, ?_, fun m hm => ?_, h.returned⟩
    · rcases List.mem_append.mp hm with hm | hm
      · exact hnew m (h.toServer m hm ha)
      · exact List.mem_append_right _ hm
    · show (x.client.requests ++ [{ msg with uid := (x.client.uidIter : Int) }]).map Msg.uid =
        (List.range (x.client.uidIter + 1)).map Nat.cast
      rw [List.map_append, h.uids, List.range_succ, List.map_append]
      rfl
    · cases hm
      exact List.mem_append_right _ (List.mem_singleton_self _)

theorem Inv.timeout (h : Inv x) : Inv (x.clientDoes x.client.timeout) := by
  unfold Client.timeout
  split
  · exact h.clientDoes rfl rfl (fun _ => id) (fun _ => .inl) nofun
  · next msg n hc =>
    refine h.clientDoes rfl rfl (fun m hm => hc ▸ hm) (fun _ => .inl) fun m hm _ => ?_
    rw [List.mem_singleton.mp hm]
    exact h.waiting msg (hc ▸ rfl)
  · next msg hc => exact h.clientDoes rfl rfl (fun m hm => hc ▸ hm) (fun _ => .inl) nofun
  · exact h.clientDoes rfl rfl nofun (fun _ => .inl) nofun

theorem Inv.raises (h : Inv x) : Inv (x.clientDoes ({ x.client with control := .idle }, [])) :=
  h.clientDoes rfl rfl nofun (fun _ => .inl) nofun

theorem Inv.expired (h : Inv x) : Inv (x.serverDoes env .expired) := h.serverDoes nofun

/-- The client reads a message that it does not wrongly take for the reply. -/
theorem Inv.receive (h : Inv x) {r : Msg} {rs : List Msg} (hr : x.toClient = r :: rs)
    (hok : x.takesAck = false) :
    Inv ({ x with toClient := rs }.clientDoes (x.client.receive r)) := by
  have hrest : Inv { x with toClient := rs } :=
    ⟨h.server, fun m hm => h.toClient m (hr ▸ List.mem_cons_of_mem r hm), h.toServer, h.uids,
      h.waiting, h.returned⟩
  have horigin := h.toClient r (hr ▸ List.mem_cons_self ..)
  rcases hrun : x.client.receive r with ⟨c, out⟩
  obtain ⟨hrequests, huid, hcontrol, hout, hreturned⟩ := receive_cases r x.client hrun
  refine hrest.clientDoes hrequests huid hcontrol (fun y hy => ?_) fun m hm ha => ?_
  · rcases hreturned with heq | ⟨msg, heq, hmsg, hmr, hfatal, hack⟩
    · exact .inl (heq ▸ hy)
    · rw [heq] at hy
      rcases List.mem_append.mp hy with hy | hy
      · exact .inl hy
      · rw [List.mem_singleton.mp hy]
        have hcls : r.cls ≠ .ack := by
          intro hcls
          obtain ⟨final, hc, hreply⟩ := hack hcls
          simp [takesAck, hc, hr, hreply, hcls] at hok
        exact .inr ⟨hcls, h.reply (h.waiting msg hmsg) horigin hmr hcls hfatal⟩
  · simp [Msg.isAnswered, hout m hm] at ha

/-- **Step.** -/
theorem inv_step {a : Action} (h : Inv x) (hok : Ok a x) : Inv (step env a x) := by
  cases a with
  | call msg => exact h.call msg
  | send msg =>
    rw [step]
    split
    · next hmsg =>
      refine h.clientDoes rfl rfl (fun _ => id) (fun _ => .inl) fun m hm ha => ?_
      rw [List.mem_singleton.mp hm] at ha
      rcases hmsg.2 with hcls | hcls <;> simp [Msg.isAnswered, hcls] at ha
    · exact h
  | receive =>
    rw [step]
    split
    · exact h
    · next r rs hr => exact h.receive hr (hok rfl)
  | timeout => exact h.timeout
  | raises => exact h.raises
  | serve =>
    rw [step]
    split
    · exact h
    · next m ms hm =>
      split
      · have hrest : Inv { x with toServer := ms } :=
          ⟨h.server, h.toClient, fun m' hm' => h.toServer m' (hm ▸ List.mem_cons_of_mem m hm'),
            h.uids, h.waiting, h.returned⟩
        refine hrest.serverDoes fun m' hm' ha => ?_
        cases hm'
        exact h.toServer m (hm ▸ List.mem_cons_self ..) ha
      · exact h
  | expired => exact h.expired
  | loseToServer i =>
    exact ⟨h.server, h.toClient, fun m hm => h.toServer m (List.mem_of_mem_eraseIdx hm), h.uids,
      h.waiting, h.returned⟩
  | loseToClient i =>
    exact ⟨h.server, fun m hm => h.toClient m (List.mem_of_mem_eraseIdx hm), h.toServer, h.uids,
      h.waiting, h.returned⟩

end

/-- All that `send_and_receive` has returned is the reply, and the only one, that
the server's handler created for the message. -/
def ReturnsReplies (x : Exchange) : Prop :=
  ∀ msg r, (msg, r) ∈ x.client.returned →
    r.cls ≠ .ack ∧ r.uid = msg.uid ∧ (msg, r) ∈ x.server.replied ∧
      ∀ r', (msg, r') ∈ x.server.replied → r' = r

/-- **Run.**  When no `Ack` is taken for a reply, only replies are returned. -/
theorem returned_reply (env : Env) {x : Exchange} (h : Reaches (step env) Ok (init env) x) :
    x.ReturnsReplies := by
  intro msg r hr
  have hinv : Inv x := h.invariant inv_init fun a x hx hok => inv_step hx hok
  obtain ⟨hack, hreplied⟩ := hinv.returned _ hr
  refine ⟨hack, (hinv.server.1.reply _ hreplied).1, hreplied, fun r' hr' => ?_⟩
  exact congrArg Prod.snd (List.inj_on_of_nodup_map hinv.server.1.replied_nodup hr' hreplied rfl)

/-- A server on which everything works. -/
def calm : Env where
  retry := ⟨10, 1, 10⟩
  serverId := ascii "id"
  clock n := n
  write _ := none
  exec _ _ := .value (ascii "4")
  describe _ := []

def command : Msg := ⟨.execCommandRequest, 0, ascii "2+2"⟩

/-- The reply comes after the `Ack`. -/
def answered : List Action := [.receive, .call command, .serve, .serve, .receive, .receive]

theorem returned_reply_answered :
    (answered.foldl (fun x a => step calm a x) (init calm)).client.returned ≠ [] ∧
      (answered.foldl (fun x a => step calm a x) (init calm)).ReturnsReplies :=
  ⟨by decide +kernel, returned_reply calm (reaches_of_along answered .refl (by decide +kernel))⟩

/-- The request is sent twice and acknowledged twice, and the first reply is
lost. -/
def acknowledged : List Action :=
  [.receive, .call command, .timeout, .serve, .serve, .serve, .receive, .loseToClient 0, .receive]

/-- **An `Ack` is returned.** -/
theorem returned_ack :
    ¬ ∀ env x, Reaches (step env) (fun _ _ => True) (init env) x → x.ReturnsReplies := by
  intro h
  have hrun := h calm _ (reaches_of_along acknowledged .refl (by decide +kernel))
  have hmem : (command, command.createAck) ∈
      (acknowledged.foldl (fun x a => step calm a x) (init calm)).client.returned := by
    decide +kernel
  exact (hrun _ _ hmem).1 rfl

end Exchange

end InteractiveSessions
