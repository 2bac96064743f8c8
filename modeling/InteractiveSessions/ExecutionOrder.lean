import InteractiveSessions.Exchange

/-!
# In which order commands are executed

The server keeps the order of the calls: a request is sent again only while its call
lasts, and the channel to the server loses messages but does not reorder them.

* `executes_in_order`: whatever is lost or times out, the commands that were executed
  are a part of those requested, each once, in the order of the calls;
* `executes_exactly_once`: as long as no `Ack` is taken for a reply, a command whose
  `send_and_receive` has returned was executed exactly once, and the reply carries what
  that execution ended with.
-/

namespace InteractiveSessions

/-! ## What a server records -/

namespace Server

/-- What the handler replies, unless the command exits. -/
def outObj? : ExecResult → Option Bytes
  | .value out => some out
  | .error errorObj => some errorObj
  | .exit => none

/-- The records of executions and replies are the same. -/
structure SameRecords (s₀ s : Server) : Prop where
  executed : s.executed = s₀.executed
  replied : s.replied = s₀.replied

theorem SameRecords.refl (s : Server) : SameRecords s s := ⟨rfl, rfl⟩

theorem SameRecords.trans {s₀ s t : Server} (h : SameRecords s₀ s) (ht : SameRecords s t) :
    SameRecords s₀ t :=
  ⟨ht.executed.trans h.executed, ht.replied.trans h.replied⟩

/-- It depends on these records only. -/
def OnRecords (I : Server → Prop) : Prop := ∀ s t, SameRecords s t → I s → I t

theorem onRecords_sameRecords (s₀ : Server) : OnRecords (SameRecords s₀) :=
  fun _ _ ht h => h.trans ht

section
variable {env : Env} {I : Server → Prop}

theorem keeps_modifyCaches (h : OnRecords I) (f : MsgCaches → MsgCaches) :
    Prog.Keeps I (modifyCaches f) := fun s hs => h s _ ⟨rfl, rfl⟩ hs

theorem keeps_time (h : OnRecords I) : Prog.Keeps I (time env) :=
  fun s hs => h s _ ⟨rfl, rfl⟩ hs

theorem keeps_sendReply (h : OnRecords I) (msg : Msg) : Prog.Keeps I (sendReply env msg) :=
  triple_sendReply env msg fun s hs => h s _ ⟨rfl, rfl⟩ hs

theorem keeps_sendExpiredLoop (h : OnRecords I) (items : List (Int × MsgCache)) :
    Prog.Keeps I (sendExpiredLoop env items) := by
  induction items with
  | nil => exact Prog.keeps_pure
  | cons x items ih =>
    obtain ⟨uid, c⟩ := x
    apply (keeps_time h).bind
    intro t
    apply Prog.keeps_gets_bind
    intro lap
    cases c.sendExpired (t - lap) with
    | none => exact (keeps_modifyCaches h _).bind fun _ => ih
    | some r =>
      apply (keeps_modifyCaches h _).bind
      intro _
      exact Prog.Triple.ite (fun _ => (keeps_sendReply h _).bind fun _ => ih) fun _ => ih

theorem keeps_sendExpired (h : OnRecords I) : Prog.Keeps I (sendExpired env) := by
  apply Prog.keeps_gets_bind
  intro items
  apply (keeps_sendExpiredLoop h items).bind
  intro _
  exact (keeps_time h).bind fun t => keeps_modifyCaches h _

theorem keeps_exitFromServe (h : OnRecords I) (e : ServerExc) :
    Prog.Keeps I (exitFromServe env e) := by
  apply Prog.keeps_gets_bind
  intro uid
  refine Prog.Triple.modify_bind I ?_ fun s hs => h s _ ⟨rfl, rfl⟩ hs
  exact (keeps_sendReply h _).bind fun _ => Prog.keeps_raise

end

/-- What is recorded about the message that is read: it is executed, and then answered
with what that execution has ended with, or something else is answered. -/
inductive Handled (env : Env) (msg : Msg) (s₀ s : Server) : Prop where
  | same (h : SameRecords s₀ s)
  | answered (r : Msg) (hmsg : isExec msg = false)
      (h : SameRecords { s₀ with replied := s₀.replied ++ [(msg, r)] } s)
  | executed (h : SameRecords { s₀ with executed := s₀.executed ++ [msg] } s)
  | replied (out : Bytes) (hout : outObj? (env.exec s₀.executed msg) = some out)
      (h : SameRecords { s₀ with
        executed := s₀.executed ++ [msg]
        replied := s₀.replied ++ [(msg, msg.createReply .execCommandReply out)] } s)

section
variable {env : Env} {msg : Msg} {s₀ : Server}

theorem onRecords_handled : OnRecords (Handled env msg s₀) := by
  intro s t ht h
  cases h with
  | same h => exact .same (h.trans ht)
  | answered r hmsg h => exact .answered r hmsg (h.trans ht)
  | executed h => exact .executed (h.trans ht)
  | replied out hout h => exact .replied out hout (h.trans ht)

/-- A reply is recorded before it is sent. -/
theorem triple_reply_handled {P : Server → Prop} {r : Msg}
    (h : ∀ s, P s → Handled env msg s₀ { s with replied := s.replied ++ [(msg, r)] }) :
    Prog.Triple P (reply env msg r) (fun _ => Handled env msg s₀) fun _ => Handled env msg s₀ := by
  refine Prog.Triple.modify_bind (Handled env msg s₀) ?_ h
  exact (keeps_modifyCaches onRecords_handled _).bind fun _ => keeps_sendExpired onRecords_handled

/-- The command was executed and has ended with `out`. -/
def Executed (env : Env) (msg : Msg) (s₀ : Server) (out : Bytes) (s : Server) : Prop :=
  outObj? (env.exec s₀.executed msg) = some out ∧
    SameRecords { s₀ with executed := s₀.executed ++ [msg] } s

theorem Executed.handled {out : Bytes} {s : Server} (h : Executed env msg s₀ out s) :
    Handled env msg s₀ s := .executed h.2

theorem triple_execCommand_handled :
    Prog.Triple (SameRecords s₀) (execCommand env msg) (Executed env msg s₀)
      fun e s => Handled env msg s₀ s ∧ ∀ out, e = .exec out → Executed env msg s₀ out s := by
  intro s hs
  have hrun : SameRecords { s₀ with executed := s₀.executed ++ [msg] }
      { s with executed := s.executed ++ [msg] } := by
    constructor <;> simp [hs.executed, hs.replied]
  unfold execCommand
  rw [hs.executed] at hrun ⊢
  cases hexec : env.exec s₀.executed msg with
  | value out => exact ⟨by rw [hexec]; rfl, hrun⟩
  | error errorObj =>
    refine ⟨.executed hrun, ?_⟩
    rintro out ⟨⟩
    exact ⟨by rw [hexec]; rfl, hrun⟩
  | exit => exact ⟨.executed hrun, by simp⟩

theorem triple_handleMsg_handled :
    Prog.Triple (SameRecords s₀) (handleMsg env msg) (fun _ => Handled env msg s₀)
      fun _ => Handled env msg s₀ := by
  have hraise : ∀ e, Prog.Triple (SameRecords s₀) (Prog.raise e : Prog ServerExc Server Unit)
      (fun _ => Handled env msg s₀) fun _ => Handled env msg s₀ := fun e s h => .same h
  unfold handleMsg
  cases hcls : msg.cls with
  | execCommandRequest =>
    refine Prog.Triple.bind (Q := Executed env msg s₀) ?_ fun out => ?_
    · refine triple_execCommand_handled.tryExcept (fun e p hp s hs => ?_) fun e s _ hs => hs.1
      cases e with
      | exec errorObj =>
        cases hp
        exact hs.2 errorObj rfl
      | _ => cases hp
    · apply triple_reply_handled
      rintro s ⟨hout, hs⟩
      refine .replied out hout ?_
      constructor <;> simp [hs.executed, hs.replied]
  | sendCommandRequest =>
    exact (triple_execCommand_handled.mono (fun _ => id) (fun _ _ => id) fun _ _ h => h.1).bind
      fun _ s hs => hs.handled
  | serverIdRequest =>
    apply triple_reply_handled
    intro s hs
    refine .answered (msg.createReply .serverIdReply env.serverId) (by simp [isExec, hcls]) ?_
    constructor <;> simp [hs.executed, hs.replied]
  | exitRequest | execCommandReply | fatalPythonErrorReply | serverIdReply | ack => exact hraise _

theorem triple_handleNextMsg_handled :
    Prog.Triple (SameRecords s₀) (handleNextMsg env (.read (some msg)))
      (fun _ => Handled env msg s₀) fun _ => Handled env msg s₀ := by
  have hsame := onRecords_sameRecords s₀
  apply Prog.Triple.tryExcept (E := fun _ => Handled env msg s₀)
  · refine Prog.Triple.ite (fun _ s h => .same h) fun _ =>
      Prog.Triple.ite (fun _ s h => .same (hsame s _ ⟨rfl, rfl⟩ h)) fun _ => ?_
    have hack : Prog.Keeps (SameRecords s₀) (sendAckIfNeeded env msg) :=
      Prog.Triple.ite (fun _ => keeps_sendReply hsame _) fun _ => Prog.keeps_pure
    refine (hack.mono (fun _ => id) (fun _ _ => id) fun _ _ => .same).bind fun _ => ?_
    apply Prog.Triple.gets_bind
    intro cached
    cases cached with
    | ok r =>
      exact (keeps_sendReply hsame r).mono (fun _ h => h.1) (fun _ _ => .same) fun _ _ => .same
    | error e =>
      cases e with
      | notFound =>
        exact triple_handleMsg_handled.mono (fun _ h => h.1) (fun _ _ => id) fun _ _ => id
      | alreadyRemoved => exact fun s h => .same h.1
  · intro e p hp
    split at hp
    · cases hp
      exact keeps_exitFromServe onRecords_handled e
    · cases hp
  · exact fun _ _ _ h => h

/-- **Inversion.**  What a step records. -/
theorem handled_step (s : Server) : Handled env msg s (step env (.read (some msg)) s) := by
  unfold step
  split
  · have h := @triple_handleNextMsg_handled env msg s s (.refl s)
    cases hrun : handleNextMsg env (.read (some msg)) s with
    | ret _ s' =>
      rw [hrun] at h
      exact h
    | raised e s' =>
      rw [hrun] at h
      exact onRecords_handled s' _ ⟨rfl, rfl⟩ h
    | hang => exact .same (.refl s)
  · exact .same (.refl s)

theorem sameRecords_step_expired (s : Server) : SameRecords s (step env .expired s) := by
  have hkeeps : Prog.Keeps (SameRecords s) (handleNextMsg env .expired) := by
    apply Prog.Keeps.tryExcept
    · apply (keeps_sendExpired (onRecords_sameRecords s)).tryExcept
      intro e p hp
      split at hp
      · split at hp
        · cases hp
          exact Prog.keeps_pure
        · cases hp
      · cases hp
    · intro e p hp
      split at hp
      · cases hp
        exact keeps_exitFromServe (onRecords_sameRecords s) e
      · cases hp
  unfold step
  split
  · have h := hkeeps s (.refl s)
    cases hrun : handleNextMsg env .expired s with
    | ret _ s' =>
      rw [hrun] at h
      exact h
    | raised e s' =>
      rw [hrun] at h
      exact h.trans ⟨rfl, rfl⟩
    | hang => exact .refl s
  · exact .refl s

/-- The reply to a command carries what its execution has ended with. -/
def Traced (env : Env) (s : Server) : Prop :=
  ∀ x ∈ s.replied, isExec x.1 = true → ∃ n out, s.executed[n]? = some x.1 ∧
    outObj? (env.exec (s.executed.take n) x.1) = some out ∧
      x.2 = x.1.createReply .execCommandReply out

theorem Traced.sameRecords {s : Server} (h : Traced env s₀) (hs : SameRecords s₀ s) :
    Traced env s := by
  rw [Traced, hs.replied, hs.executed]
  exact h

/-- More executions change no earlier one. -/
theorem Traced.exec (h : Traced env s₀) (msg : Msg) :
    Traced env { s₀ with executed := s₀.executed ++ [msg] } := by
  intro x hx hexec
  obtain ⟨n, out, hn, hout, hreply⟩ := h x hx hexec
  obtain ⟨hlt, -⟩ := List.getElem?_eq_some_iff.mp hn
  refine ⟨n, out, ?_, ?_, hreply⟩
  · rw [List.getElem?_append_left hlt, hn]
  · rw [List.take_append_of_le_length hlt.le]
    exact hout

/-- One more reply. -/
theorem Traced.reply (h : Traced env s₀) {r : Msg}
    (hr : isExec msg = true → ∃ n out, s₀.executed[n]? = some msg ∧
      outObj? (env.exec (s₀.executed.take n) msg) = some out ∧
        r = msg.createReply .execCommandReply out) :
    Traced env { s₀ with replied := s₀.replied ++ [(msg, r)] } := by
  intro x hx hexec
  rcases List.mem_append.mp hx with hx | hx
  · exact h x hx hexec
  · cases List.mem_singleton.mp hx
    exact hr hexec

theorem Traced.handled {s : Server} (h : Traced env s₀) (hs : Handled env msg s₀ s) :
    Traced env s := by
  cases hs with
  | same hs => exact h.sameRecords hs
  | answered r hmsg hs =>
    refine Traced.sameRecords (h.reply fun hexec => ?_) hs
    rw [hmsg] at hexec
    cases hexec
  | executed hs => exact (h.exec msg).sameRecords hs
  | replied out hout hs =>
    refine Traced.sameRecords ((h.exec msg).reply fun _ => ?_) hs
    refine ⟨s₀.executed.length, out, List.getElem?_concat_length .., ?_, rfl⟩
    rw [List.take_left']
    · exact hout
    · rfl

theorem executed_of_handled {s : Server} (hs : Handled env msg s₀ s) :
    s.executed = s₀.executed ∨ s.executed = s₀.executed ++ [msg] := by
  cases hs with
  | same hs | answered _ _ hs => exact .inl hs.executed
  | executed hs | replied _ _ hs => exact .inr hs.executed

theorem sameRecords_start : (start env).executed = [] ∧ Traced env (start env) := by
  have hnew : Traced env (new env) := nofun
  have hkeeps : Prog.Keeps (SameRecords (new env))
      (sendReplyViaCache env ⟨.serverIdReply, -1, env.serverId⟩) :=
    (keeps_modifyCaches (onRecords_sameRecords _) _).bind fun _ =>
      keeps_sendExpired (onRecords_sameRecords _)
  have hsame : SameRecords (new env) (start env) := by
    have h := hkeeps (new env) (.refl _)
    unfold start
    cases hrun : sendReplyViaCache env ⟨.serverIdReply, -1, env.serverId⟩ (new env) with
    | ret _ s' =>
      rw [hrun] at h
      exact h
    | raised e s' =>
      rw [hrun] at h
      exact h.trans ⟨rfl, rfl⟩
    | hang => exact .refl _
  exact ⟨hsame.executed, hnew.sameRecords hsame⟩

end

end Server

/-! ## The order of the uids -/

namespace Exchange

/-- The exchange without the record of what was returned. -/
def unreturned (x : Exchange) : Exchange := { x with client := { x.client with returned := [] } }

/-- What is in the exchange and was asked for comes in the order of the uids: first what
was executed, then what is on its way to the server. -/
structure Ordered (env : Env) (x : Exchange) : Prop where
  inv : Inv x.unreturned
  last : ∀ m, x.client.control.msg? = some m → m.uid + 1 = x.client.uidIter
  toServer : (x.toServer.filter Msg.isAnswered).Pairwise fun m m' => m.uid ≤ m'.uid
  requested : ∀ m ∈ x.server.executed, Server.isExec m = true → m ∈ x.client.requests
  before : ∀ m ∈ x.server.executed, Server.isExec m = true → ∀ m' ∈ x.toServer,
    m'.isAnswered → m.uid ≤ m'.uid
  executed : (x.server.executed.filter Server.isExec).Pairwise fun m m' => m.uid ≤ m'.uid
  traced : Server.Traced env x.server

theorem Inv.uid_lt {x : Exchange} (h : Inv x) {m : Msg} (hm : m ∈ x.client.requests) :
    m.uid < x.client.uidIter := by
  have hmem : m.uid ∈ x.client.requests.map Msg.uid := List.mem_map_of_mem hm
  rw [h.uids] at hmem
  obtain ⟨n, hn, heq⟩ := List.mem_map.mp hmem
  have hlt := List.mem_range.mp hn
  omega

section
variable {env : Env} {x : Exchange}

/-- Only a read looks at what was returned, to add to it. -/
theorem step_unreturned {a : Action} (ha : a ≠ .receive) :
    (step env a x).unreturned = step env a x.unreturned := by
  obtain ⟨⟨uidIter, control, requests, returned⟩, server, toServer, toClient⟩ := x
  cases a with
  | call msg => cases control <;> rfl
  | send msg =>
    by_cases hmsg : control = .idle ∧ (msg.cls = .sendCommandRequest ∨ msg.cls = .exitRequest) <;>
      simp [step, unreturned, clientDoes, hmsg]
  | receive => exact absurd rfl ha
  | timeout =>
    cases control with
    | idle | receiveUntilReply _ _ => rfl
    | receiveAckOrReply _ n => cases n <;> rfl
  | raises | expired | loseToServer i | loseToClient i => rfl
  | serve =>
    cases toServer with
    | nil => rfl
    | cons m ms => cases hserving : server.serving <;> simp [step, unreturned, serverDoes, hserving]

/-- **Step.**  Without the record the invariant needs no condition. -/
theorem inv_unreturned_step (h : Inv x.unreturned) (a : Action) :
    Inv (step env a x).unreturned := by
  by_cases ha : a = .receive
  · subst ha
    rw [step]
    split
    · exact h
    · next r rs hr =>
      have hrest : Inv { x.unreturned with toClient := rs } :=
        ⟨h.server, fun m hm => h.toClient m (hr ▸ List.mem_cons_of_mem r hm), h.toServer, h.uids,
          h.waiting, h.returned⟩
      rcases hrun : x.client.receive r with ⟨c, out⟩
      obtain ⟨hrequests, huid, hcontrol, hout, -⟩ := receive_cases r x.client hrun
      refine hrest.clientDoes (c := { c with returned := [] }) hrequests huid hcontrol
        (by simp) fun m hm hanswered => ?_
      simp [Msg.isAnswered, hout m hm] at hanswered
  · rw [step_unreturned ha]
    exact inv_step h fun hreceive => absurd hreceive ha

theorem ordered_init : Ordered env (init env) := by
  obtain ⟨hexecuted, htraced⟩ := @Server.sameRecords_start env
  have hnone : (init env).server.executed = [] := hexecuted
  refine ⟨inv_init, by simp [init, Client.new, Control.msg?], List.Pairwise.nil, ?_, ?_, ?_,
    htraced.sameRecords ⟨rfl, rfl⟩⟩
  · simp [hnone]
  · simp [hnone]
  · simp [hnone]

/-- The client sends nothing older than the latest request. -/
theorem Ordered.clientDoes (h : Ordered env x) {c : Client} {out : List Msg}
    (hinv : Inv (x.clientDoes (c, out)).unreturned) (hrequests : x.client.requests ⊆ c.requests)
    (hlast : ∀ m, c.control.msg? = some m → m.uid + 1 = c.uidIter)
    (hout : (out.filter Msg.isAnswered).Pairwise fun m m' => m.uid ≤ m'.uid)
    (hnew : ∀ m ∈ out, m.isAnswered → ∀ q ∈ x.client.requests, q.uid ≤ m.uid) :
    Ordered env (x.clientDoes (c, out)) where
  inv := hinv
  last := hlast
  toServer := by
    show ((x.toServer ++ out).filter Msg.isAnswered).Pairwise _
    rw [List.filter_append, List.pairwise_append]
    refine ⟨h.toServer, hout, fun m hm m' hm' => ?_⟩
    rw [List.mem_filter] at hm hm'
    exact hnew m' hm'.1 hm'.2 m (h.inv.toServer m hm.1 hm.2)
  requested m hm hexec := hrequests (h.requested m hm hexec)
  before m hm hexec m' hm' hanswered := by
    rcases List.mem_append.mp hm' with hm' | hm'
    · exact h.before m hm hexec m' hm' hanswered
    · exact hnew m' hm' hanswered m (h.requested m hm hexec)
  executed := h.executed
  traced := h.traced

/-- The messages to the server come from the channel as it was. -/
theorem Ordered.sublist (h : Ordered env x) {y : Exchange} (hinv : Inv y.unreturned)
    (hclient : y.client = x.client) (hserver : Server.SameRecords x.server y.server)
    (hsub : y.toServer.Sublist x.toServer) : Ordered env y where
  inv := hinv
  last := hclient ▸ h.last
  toServer := h.toServer.sublist (hsub.filter _)
  requested := by
    rw [hserver.executed, hclient]
    exact h.requested
  before m hm hexec m' hm' := by
    rw [hserver.executed] at hm
    exact h.before m hm hexec m' (hsub.subset hm')
  executed := by
    rw [hserver.executed]
    exact h.executed
  traced := h.traced.sameRecords hserver

/-- The server reads the first message. -/
theorem Ordered.serve (h : Ordered env x) {m : Msg} {ms : List Msg} (hm : x.toServer = m :: ms)
    (hinv : Inv ({ x with toServer := ms }.serverDoes env (.read (some m))).unreturned) :
    Ordered env ({ x with toServer := ms }.serverDoes env (.read (some m))) := by
  have hrest : Ordered env { x with toServer := ms } := by
    refine h.sublist ?_ rfl (.refl _) (hm ▸ List.sublist_cons_self m ms)
    exact ⟨h.inv.server, h.inv.toClient,
      fun m' hm' => h.inv.toServer m' (hm ▸ List.mem_cons_of_mem m hm'), h.inv.uids, h.inv.waiting,
      h.inv.returned⟩
  have hmem : m ∈ x.toServer := hm ▸ List.mem_cons_self ..
  have hanswered : Server.isExec m = true → m.isAnswered = true := by
    simp +contextual [Server.isExec, Msg.isAnswered]
  have hhandled := @Server.handled_step env m x.server
  have htraced : Server.Traced env ({ x with toServer := ms }.serverDoes env
      (.read (some m))).server := (h.traced.handled hhandled).sameRecords ⟨rfl, rfl⟩
  have hclient : ({ x with toServer := ms }.serverDoes env (.read (some m))).client = x.client :=
    rfl
  rcases Server.executed_of_handled hhandled with hexecuted | hexecuted
  · refine ⟨hinv, h.last, hrest.toServer, ?_, ?_, ?_, htraced⟩
    · exact fun m' hm' => h.requested m' (hexecuted ▸ hm')
    · exact fun m' hm' => hrest.before m' (hexecuted ▸ hm')
    · exact hexecuted.symm ▸ h.executed
  · -- What is read is not older than anything that was executed.
    have hsplit : ∀ {m'}, m' ∈ (Server.step env (.read (some m)) x.server).executed →
        m' ∈ x.server.executed ∨ m' = m := by
      intro m' hm'
      rw [hexecuted, List.mem_append, List.mem_singleton] at hm'
      exact hm'
    refine ⟨hinv, h.last, hrest.toServer, fun m' hm' hexec => ?_,
      fun m' hm' hexec m'' hm'' ha => ?_, ?_, htraced⟩
    · rcases hsplit hm' with hm' | rfl
      · exact h.requested m' hm' hexec
      · exact h.inv.toServer _ hmem (hanswered hexec)
    · rcases hsplit hm' with hm' | rfl
      · exact hrest.before m' hm' hexec m'' hm'' ha
      · have hsorted := h.toServer
        rw [hm, List.filter_cons_of_pos (hanswered hexec), List.pairwise_cons] at hsorted
        exact hsorted.1 m'' (List.mem_filter.mpr ⟨hm'', ha⟩)
    · show ((Server.step env (.read (some m)) x.server).executed.filter Server.isExec).Pairwise _
      rw [hexecuted, List.filter_append, List.pairwise_append]
      refine ⟨h.executed, ?_, fun m' hm' m'' hm'' => ?_⟩
      · exact (List.pairwise_singleton _ _).sublist List.filter_sublist
      · rw [List.mem_filter] at hm' hm''
        cases List.mem_singleton.mp hm''.1
        exact h.before m' hm'.1 hm'.2 m hmem (hanswered hm''.2)

/-- **Step.** -/
theorem ordered_step (h : Ordered env x) (a : Action) : Ordered env (step env a x) := by
  have hinv : Inv (step env a x).unreturned := inv_unreturned_step h.inv a
  cases a with
  | call msg =>
    rw [step] at hinv ⊢
    unfold Client.call at hinv ⊢
    cases hc : x.client.control with
    | receiveAckOrReply _ _ | receiveUntilReply _ _ =>
      rw [hc] at hinv
      exact h.clientDoes hinv (List.Subset.refl _) h.last List.Pairwise.nil (by simp)
    | idle =>
      rw [hc] at hinv
      refine h.clientDoes hinv (List.subset_append_left ..) ?_ ?_ ?_
      · rintro m ⟨⟩
        simp
      · exact (List.pairwise_singleton _ _).sublist List.filter_sublist
      · intro m hm _ q hq
        cases List.mem_singleton.mp hm
        exact (h.inv.uid_lt hq).le
  | send msg =>
    rw [step] at hinv ⊢
    split at hinv
    · next hmsg =>
      rw [if_pos hmsg]
      have hanswered : msg.isAnswered = false := by
        rcases hmsg.2 with hcls | hcls <;> simp [Msg.isAnswered, hcls]
      refine h.clientDoes hinv (List.Subset.refl _) h.last ?_ ?_
      · simp [hanswered]
      · simp [hanswered]
    · next hmsg =>
      rw [if_neg hmsg]
      exact h
  | receive =>
    rw [step] at hinv ⊢
    split at hinv
    · exact h
    · next r rs hr =>
      rcases hrun : x.client.receive r with ⟨c, out⟩
      rw [hrun] at hinv
      obtain ⟨hrequests, huid, hcontrol, hout, -⟩ := receive_cases r x.client hrun
      have hnone : ∀ m ∈ out, m.isAnswered = false := fun m hm => by
        simp [Msg.isAnswered, hout m hm]
      have hrest : Ordered env { x with toClient := rs } :=
        ⟨⟨h.inv.server, fun m hm => h.inv.toClient m (hr ▸ List.mem_cons_of_mem r hm),
          h.inv.toServer, h.inv.uids, h.inv.waiting, h.inv.returned⟩, h.last, h.toServer,
          h.requested, h.before, h.executed, h.traced⟩
      refine hrest.clientDoes hinv (hrequests ▸ List.Subset.refl _) ?_ ?_ ?_
      · rw [huid]
        exact fun m hm => h.last m (hcontrol m hm)
      · rw [List.filter_eq_nil_iff.mpr fun m hm => by simp [hnone m hm]]
        exact List.Pairwise.nil
      · exact fun m hm hanswered => by simp [hnone m hm] at hanswered
  | timeout =>
    rw [step] at hinv ⊢
    unfold Client.timeout at hinv ⊢
    cases hc : x.client.control with
    | idle =>
      rw [hc] at hinv
      exact h.clientDoes hinv (List.Subset.refl _) h.last List.Pairwise.nil (by simp)
    | receiveAckOrReply msg n =>
      have hlast := h.last msg (by rw [hc]; rfl)
      cases n with
      | zero =>
        rw [hc] at hinv
        refine h.clientDoes hinv (List.Subset.refl _) ?_ List.Pairwise.nil (by simp)
        rintro m ⟨⟩
        exact hlast
      | succ n =>
        rw [hc] at hinv
        refine h.clientDoes hinv (List.Subset.refl _) ?_ ?_ ?_
        · rintro m ⟨⟩
          exact hlast
        · exact (List.pairwise_singleton _ _).sublist List.filter_sublist
        · -- The request is sent again: it is the latest one.
          intro m hm _ q hq
          cases List.mem_singleton.mp hm
          have hlt : q.uid < x.client.uidIter := h.inv.uid_lt hq
          omega
    | receiveUntilReply msg final =>
      rw [hc] at hinv
      refine h.clientDoes hinv (List.Subset.refl _) ?_ List.Pairwise.nil (by simp)
      rintro m ⟨⟩
  | raises =>
    refine h.clientDoes hinv (List.Subset.refl _) ?_ List.Pairwise.nil (by simp)
    rintro m ⟨⟩
  | serve =>
    rw [step] at hinv ⊢
    split at hinv
    · exact h
    · next m ms hm =>
      split at hinv
      · next hserving =>
        rw [if_pos hserving]
        exact h.serve hm hinv
      · next hserving =>
        rw [if_neg hserving]
        exact h
  | expired =>
    exact h.sublist hinv rfl ((Server.sameRecords_step_expired x.server).trans ⟨rfl, rfl⟩)
      (List.Sublist.refl _)
  | loseToServer i => exact h.sublist hinv rfl (.refl _) (List.eraseIdx_sublist ..)
  | loseToClient i => exact h.sublist hinv rfl (.refl _) (List.Sublist.refl _)

theorem Ordered.executed_ne (h : Ordered env x) : x.server.executed.Pairwise fun m m' =>
    Server.isExec m = true → Server.isExec m' = true → m.uid ≠ m'.uid := by
  have hnodup := h.inv.server.1.executed_nodup
  rw [List.Nodup, List.pairwise_map, List.pairwise_filter] at hnodup
  exact hnodup

/-- The requests have the uids of the calls. -/
theorem Ordered.requests_lt (h : Ordered env x) :
    x.client.requests.Pairwise fun m m' => m.uid < m'.uid := by
  have huids : x.client.requests.map Msg.uid = (List.range x.client.uidIter).map Nat.cast :=
    h.inv.uids
  rw [← List.pairwise_map (f := Msg.uid) (R := fun u v : Int => u < v), huids, List.pairwise_map]
  exact List.pairwise_lt_range.imp fun hm => by exact_mod_cast hm

/-- **Program order.**  The commands that were executed are a part of the requests, in
the same order. -/
theorem Ordered.sublist_requests (h : Ordered env x) :
    (x.server.executed.filter Server.isExec).Sublist x.client.requests := by
  have hlt : (x.server.executed.filter Server.isExec).Pairwise fun m m' => m.uid < m'.uid := by
    have hne := List.pairwise_filter.mpr h.executed_ne
    exact (h.executed.and hne).imp fun hm => lt_of_le_of_ne hm.1 hm.2
  have hnodup : (x.server.executed.filter Server.isExec).Nodup :=
    hlt.imp fun hm heq => by simp [heq] at hm
  have hsubset : x.server.executed.filter Server.isExec ⊆ x.client.requests := by
    intro m hm
    rw [List.mem_filter] at hm
    exact h.requested m hm.1 hm.2
  have hantisymm : Std.Antisymm fun m m' : Msg => m.uid < m'.uid :=
    ⟨fun m m' hm hm' => absurd hm hm'.le.not_gt⟩
  exact List.sublist_of_subperm_of_pairwise (hnodup.subperm hsubset) hlt h.requests_lt

end

/-- **Run.**  Whatever is lost, resent or times out. -/
theorem executes_in_order (env : Env) {x : Exchange}
    (h : Reaches (step env) (fun _ _ => True) (init env) x) :
    (x.server.executed.filter Server.isExec).Sublist x.client.requests :=
  (h.invariant ordered_init fun a _ hx _ => ordered_step hx a).sublist_requests

/-- Two commands, of which the first is sent twice and answered twice. -/
def repeated : List Action :=
  [.receive, .call command, .timeout, .serve, .serve, .serve, .receive, .receive, .loseToServer 0,
    .call ⟨.execCommandRequest, 0, ascii "3+3"⟩, .serve, .receive, .receive, .receive, .receive,
    .receive]

theorem executes_in_order_repeated :
    (repeated.foldl (fun x a => step calm a x) (init calm)).server.executed.length = 2 ∧
      ((repeated.foldl (fun x a => step calm a x) (init calm)).server.executed.filter
        Server.isExec).Sublist
          (repeated.foldl (fun x a => step calm a x) (init calm)).client.requests :=
  ⟨by decide +kernel, executes_in_order calm (reaches_of_along repeated .refl (by decide +kernel))⟩

/-- What was returned for a command is the reply with the end of its only execution. -/
def ExecutesExactlyOnce (env : Env) (x : Exchange) : Prop :=
  ∀ msg r, (msg, r) ∈ x.client.returned → Server.isExec msg = true →
    ∃ n out, (∀ k, x.server.executed[k]? = some msg ↔ k = n) ∧
      Server.outObj? (env.exec (x.server.executed.take n) msg) = some out ∧
        r = msg.createReply .execCommandReply out

theorem Ordered.executesExactlyOnce {env : Env} {x : Exchange} (h : Ordered env x) (hinv : Inv x) :
    x.ExecutesExactlyOnce env := by
  intro msg r hr hexec
  obtain ⟨n, out, hn, hout, hreply⟩ := h.traced _ (hinv.returned _ hr).2 hexec
  refine ⟨n, out, fun k => ⟨fun hk => ?_, fun hk => hk ▸ hn⟩, hout, hreply⟩
  have hne := List.pairwise_iff_getElem.mp h.executed_ne
  obtain ⟨hklt, hkeq⟩ := List.getElem?_eq_some_iff.mp hk
  obtain ⟨hnlt, hneq⟩ := List.getElem?_eq_some_iff.mp hn
  rcases lt_trichotomy k n with hkn | hkn | hkn
  · have := hne k n hklt hnlt hkn
    simp [hkeq, hneq, hexec] at this
  · exact hkn
  · have := hne n k hnlt hklt hkn
    simp [hkeq, hneq, hexec] at this

/-- **Run.**  When no `Ack` is taken for a reply. -/
theorem executes_exactly_once (env : Env) {x : Exchange}
    (h : Reaches (step env) Ok (init env) x) : x.ExecutesExactlyOnce env :=
  Ordered.executesExactlyOnce (h.invariant ordered_init fun a _ hx _ => ordered_step hx a)
    (h.invariant inv_init fun _ _ hx hok => inv_step hx hok)

theorem executes_exactly_once_repeated :
    (repeated.foldl (fun x a => step calm a x) (init calm)).client.returned.length = 2 ∧
      (repeated.foldl (fun x a => step calm a x) (init calm)).ExecutesExactlyOnce calm :=
  ⟨by decide +kernel,
    executes_exactly_once calm (reaches_of_along repeated .refl (by decide +kernel))⟩

end Exchange

end InteractiveSessions
