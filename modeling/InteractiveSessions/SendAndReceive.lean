import InteractiveSessions.LostStrings
import InteractiveSessions.MsgBase

/-!
# `TerminalClient.send_and_receive` over the wire

Every read of the terminal delivers the next bytes or raises a timeout.

* `receiveUntilLoop_cases`: a waiting loop returns a message, or its timer runs
  out;
* `answers_iff`: `send_and_receive` ends with a message or a
  `TerminalClientError` if and only if the acks for the chunks of the request
  come in time, once for every try.
-/

namespace InteractiveSessions

open ChunkComm StrComm LostFrames TerminalComm

inductive ClientExc where
  /-- `TerminalClientError(e)` -/
  | terminalClientError (e : Exc)
  /-- `TerminalClientError('Timeout')` -/
  | clientTimeout
  /-- `TerminalClientFatalError('Connection broken')` -/
  | connectionBroken
  | timerTimeout
  /-- An exception of the wire layers. -/
  | wire (e : Exc)
  | deserialize (e : DeserializeError)
  deriving DecidableEq

/-- Whether the exception is a `TerminalClientError`. -/
def ClientExc.isTerminalClientError : ClientExc → Bool
  | terminalClientError _ | clientTimeout | connectionBroken => true
  | timerTimeout | wire _ | deserialize _ => false

structure TerminalClient where
  io : ChunkIo TerminalComm
  uidIter : Nat
  retry : Retry
  /-- The requests whose write has begun. -/
  requests : List MsgBase

structure Timer where
  timeout : ℚ
  startTime : ℚ

namespace TerminalClient

/-- A method of the terminal's reader and writer. -/
def onIo {α : Type} (wrap : Exc → ClientExc) (m : Prog Exc (ChunkIo TerminalComm) α) :
    Prog ClientExc TerminalClient α := fun c =>
  match m c.io with
  | .ret a io => .ret a { c with io }
  | .raised e io => .raised (wrap e) { c with io }
  | .hang => .hang

/-- `_client_exception_wrap`.  No timeout is left for `_wrap_timeout_exception`. -/
def clientExceptionWrap : Exc → ClientExc
  | .timeout => .terminalClientError .timeout
  | e => .wire e

def monotonic : Prog ClientExc TerminalClient ℚ := onIo .wire (onLine TerminalComm.monotonic)

def setTimeout (timeout : ℚ) : Prog ClientExc TerminalClient Unit :=
  Prog.modify fun c => { c with io := { c.io with line := { c.io.line with timeout } } }

/-- `Timer(timeout)` -/
def startTimer (timeout : ℚ) : Prog ClientExc TerminalClient Timer := do
  let startTime ← monotonic
  pure ⟨timeout, startTime⟩

/-- `_remaining` -/
def remaining (timer : Timer) : Prog ClientExc TerminalClient ℚ := do
  let now ← monotonic
  pure (timer.timeout - (now - timer.startTime))

section
variable (reprNoArg : String) (fuel : Nat)

def send (msg : MsgBase) : Prog ClientExc TerminalClient Unit :=
  onIo .wire (writeStr (comm fuel) (msg.serialize reprNoArg))

/-- `_receive` -/
def receive (timeout : ℚ) : Prog ClientExc TerminalClient MsgBase := do
  setTimeout timeout
  let s ← onIo clientExceptionWrap (readStr (comm fuel) fuel)
  match MsgBase.deserialize s with
  | .ok msg => pure msg
  | .error e => Prog.raise (.deserialize e)

/-- `_receive`, or nothing after a `TerminalClientError`. -/
def tryReceive (timeout : ℚ) : Prog ClientExc TerminalClient (Option MsgBase) :=
  Prog.tryExcept
    (do
      let r ← receive fuel timeout
      pure (some r))
    fun e => if e.isTerminalClientError then some (pure none) else none

def sendAckIfNeeded (msg : MsgBase) : Prog ClientExc TerminalClient Unit :=
  if msg.cls = .ack then pure () else send reprNoArg fuel msg.createAck

/-- The loop of `_receive_until_condition`. -/
def receiveUntilLoop (timer : Timer) (condition : MsgBase → Bool) :
    Nat → Prog ClientExc TerminalClient MsgBase
  | 0 => Prog.hang
  | loops + 1 => do
    let r ← remaining timer
    if r ≤ 0 then Prog.raise .timerTimeout
    else do
      match ← tryReceive fuel r with
      | none => receiveUntilLoop timer condition loops
      | some r => do
        sendAckIfNeeded reprNoArg fuel r
        if condition r then pure r else receiveUntilLoop timer condition loops

def receiveUntilCondition (timeout : ℚ) (condition : MsgBase → Bool) :
    Prog ClientExc TerminalClient MsgBase := do
  let timer ← startTimer timeout
  receiveUntilLoop reprNoArg fuel timer condition fuel

def isReplyOrAck (msg reply : MsgBase) : Bool := msg.uid = reply.uid

/-- `_is_reply`, which looks at the class of `msg`. -/
def isReply (msg reply : MsgBase) : Bool := !(msg.cls = .ack : Bool) && isReplyOrAck msg reply

def receiveAckOrReply (msg : MsgBase) (timeout : ℚ) : Prog ClientExc TerminalClient MsgBase :=
  receiveUntilCondition reprNoArg fuel timeout (isReplyOrAck msg)

/-- `_receive_until_reply` within `_raise_in_timertimeout(exception)` -/
def tryToReceiveUntilReply (exception : ClientExc) (msg : MsgBase) (timeout : ℚ) :
    Prog ClientExc TerminalClient MsgBase :=
  Prog.tryExcept (receiveUntilCondition reprNoArg fuel timeout (isReply msg))
    fun e => if e = .timerTimeout then some (Prog.raise exception) else none

/-- The write of a request. -/
def sendRequest (msg : MsgBase) : Prog ClientExc TerminalClient Unit := do
  Prog.modify fun c => { c with requests := c.requests ++ [msg] }
  send reprNoArg fuel msg

/-- The first message of `_received_msgs_for_msg`. -/
def receivedMsgForMsg (msg : MsgBase) : List ℚ → Prog ClientExc TerminalClient (Option MsgBase)
  | [] => pure none
  | t :: ts => do
    sendRequest reprNoArg fuel msg
    let received ← Prog.tryExcept
      (do
        let r ← receiveAckOrReply reprNoArg fuel msg t
        pure (some r))
      fun e => if e.isTerminalClientError || e = .timerTimeout then some (pure none) else none
    match received with
    | some r => pure (some r)
    | none => receivedMsgForMsg msg ts

/-- `msg.set_uid(next(self._uid_iter))` -/
def setUid (msg : MsgBase) : Prog ClientExc TerminalClient MsgBase := fun c =>
  .ret { msg with uid := c.uidIter } { c with uidIter := c.uidIter + 1 }

def sendAndReceive (msg : MsgBase) (timeout : ℚ) : Prog ClientExc TerminalClient MsgBase := do
  let msg ← setUid msg
  let retry ← Prog.gets TerminalClient.retry
  match ← receivedMsgForMsg reprNoArg fuel msg retry.timeouts with
  | some r =>
    if r.cls = .ack then tryToReceiveUntilReply reprNoArg fuel .clientTimeout msg timeout
    else pure r
  | none => tryToReceiveUntilReply reprNoArg fuel .connectionBroken msg timeout

end

/-! ## What a step keeps -/

/-- A string of a server that sends no `FatalPythonErrorReply`.  Its length fits
into the length field, and the ack that is sent for it into a chunk. -/
def FromServer (s : Bytes) : Prop :=
  ∃ reprNoArg m, s = MsgBase.serialize reprNoArg m ∧ m.cls ≠ .fatalPythonErrorReply ∧
    s.length < 10 ^ StrComm.lenWidth ∧ m.uid.natAbs < 10 ^ 1900

/-- The client is still between two calls of `read_str`, and no further from the
end of the stream. -/
structure Kept (strs : List Bytes) (c c' : TerminalClient) : Prop where
  lost : Lost (chunksOfStrs strs) c'.io
  acks : c'.io.line.acks = c.io.line.acks
  clock : c'.io.line.clock = c.io.line.clock
  requests : c'.requests = c.requests
  length_le : c'.io.line.line.stream.length ≤ c.io.line.line.stream.length
  size_le : size c'.io ≤ size c.io

variable {strs : List Bytes} {c c₁ c₂ : TerminalClient}

theorem Kept.trans (h : Kept strs c c₁) (h' : Kept strs c₁ c₂) : Kept strs c c₂ where
  lost := h'.lost
  acks := h'.acks.trans h.acks
  clock := h'.clock.trans h.clock
  requests := h'.requests.trans h.requests
  length_le := h'.length_le.trans h.length_le
  size_le := h'.size_le.trans h.size_le

/-- What only the stream and the shared buffer matter for. -/
theorem lost_of_eq {cs : List Chunk} {io io' : ChunkIo TerminalComm} (h : Lost cs io)
    (hstream : io'.line.line.stream = io.line.line.stream)
    (hsharedio : io'.sharedio = io.sharedio) : Lost cs io' := by
  obtain ⟨v, e, rest, hv, hsuffix, hunread, hposition, hclear⟩ := h
  exact ⟨v, e, rest, hv, hsuffix, by rw [hsharedio, hunread], by rw [hstream]; exact hposition,
    by rw [hstream]; exact hclear⟩

theorem plain_of_fromServer {s : Bytes} (h : FromServer s) : LostFrames.Plain s := by
  obtain ⟨reprNoArg, m, rfl, -, hlen, -⟩ := h
  refine ⟨?_, ?_, hlen⟩ <;>
  exact MsgBase.notMem_serialize reprNoArg m (by decide) (by decide) (by decide) (by decide)
    (by decide)

/-- Before the first read.  Frames of the server come next, and no timeout is between
the first byte of a frame and the middle token if the payload has eight bytes: it
would be read as a header. -/
theorem lost_of_frames (hstrs : ∀ s ∈ strs, FromServer s) {io : ChunkIo TerminalComm}
    {cs : List Chunk} (hunread : io.sharedio.unread = []) (hcs : cs <:+ chunksOfStrs strs)
    (hstream : Line.erase io.line.line.stream = wire cs)
    (hheader : ∀ pre post, io.line.line.stream = pre ++ .timeout :: post → ∀ c rest w,
      c :: rest <:+ chunksOfStrs strs → caret ∉ w →
      Line.erase post = w ++ (ChunkComm.token ++ (c.payload ++ (ChunkComm.token ++ wire rest))) →
      c.payload.length ≠ hdrLen) :
    Lost (chunksOfStrs strs) io := by
  have htidy := tidy_chunksOfStrs fun s hs => plain_of_fromServer (hstrs s hs)
  refine ⟨[], [], cs, List.not_mem_nil, hcs, hunread, ?_, fun pre post hpost => ?_⟩
  · rw [hstream]
    exact .skipped (w := []) hcs List.not_mem_nil
  · refine exists_position htidy.caret ?_ (hheader pre post hpost)
    obtain ⟨x, hx⟩ := hcs
    rw [← hx, wire_append, ← hstream, hpost, Line.erase_append, Line.erase]
    exact (List.suffix_append ..).trans (List.suffix_append ..)

/-- What a message of the server is read as has its uid. -/
theorem deserialize_fromServer {s : Bytes} (h : FromServer s) :
    ∃ m, MsgBase.deserialize s = .ok m ∧ m.uid.natAbs < 10 ^ 1900 := by
  obtain ⟨reprNoArg, m, rfl, hcls, -, huid⟩ := h
  refine ⟨{ m with arg := m.sentArg reprNoArg }, ?_, huid⟩
  rw [MsgBase.deserialize_serialize, if_neg hcls]

theorem onIo_ret {α : Type} {wrap : Exc → ClientExc} {m : Prog Exc (ChunkIo TerminalComm) α} {a : α}
    {io : ChunkIo TerminalComm} (h : m c.io = .ret a io) :
    onIo wrap m c = .ret a { c with io } := by
  simp only [onIo, h]

theorem onIo_raised {α : Type} {wrap : Exc → ClientExc} {m : Prog Exc (ChunkIo TerminalComm) α}
    {e : Exc} {io : ChunkIo TerminalComm} (h : m c.io = .raised e io) :
    onIo wrap m c = .raised (wrap e) { c with io } := by
  simp only [onIo, h]

/-! ## A read -/

/-- After a timeout: the stream got shorter, or the client waited at its end. -/
def Elapsed (timeout : ℚ) (c c' : TerminalClient) : Prop :=
  c'.io.line.line.stream.length < c.io.line.line.stream.length ∨
    c'.io.line.waited = c.io.line.waited + timeout

section
variable {fuel : Nat} {reprNoArg : String}

/-- **A read.**  It returns a message, or it raises a `TerminalClientError`. -/
theorem receive_cases (hstrs : ∀ s ∈ strs, FromServer s) (hfuel : size c.io < fuel)
    (h : Lost (chunksOfStrs strs) c.io) (timeout : ℚ) :
    (∃ m c', receive fuel timeout c = .ret m c' ∧ m.uid.natAbs < 10 ^ 1900 ∧ Kept strs c c' ∧
        size c'.io < size c.io) ∨
      ∃ c', receive fuel timeout c = .raised (.terminalClientError .timeout) c' ∧ Kept strs c c' ∧
        c'.io.line.ticks = c.io.line.ticks ∧ Elapsed timeout c c' := by
  let c₁ : TerminalClient := { c with io := { c.io with line := { c.io.line with timeout } } }
  have hset : setTimeout timeout c = .ret () c₁ := rfl
  have hlost₁ : Lost (chunksOfStrs strs) c₁.io := lost_of_eq h rfl rfl
  have hfuel₁ : size c₁.io < fuel := hfuel
  rcases readStr_lost (fun s hs => plain_of_fromServer (hstrs s hs)) hfuel₁ hlost₁ with
    ⟨s, io', hs, hrun, hlost, hpassed, hsize⟩ | ⟨io', hrun, hlost, hpassed, helapsed⟩
  · obtain ⟨m, hm, huid⟩ := deserialize_fromServer (hstrs s hs)
    refine .inl ⟨m, { c₁ with io := io' }, ?_, huid,
      ⟨hlost, hpassed.acks, hpassed.clock, rfl, hpassed.suffix.length_le, hpassed.size_le⟩, hsize⟩
    rw [receive, Prog.bind_ret hset, Prog.bind_ret (onIo_ret hrun)]
    simp only [hm]
    rfl
  · refine .inr ⟨{ c₁ with io := io' }, ?_,
      ⟨hlost, hpassed.acks, hpassed.clock, rfl, hpassed.suffix.length_le, hpassed.size_le⟩,
      hpassed.ticks, helapsed.imp id fun hwaited => hwaited.2.2⟩
    rw [receive, Prog.bind_ret hset, Prog.bind_raised (onIo_raised hrun)]
    rfl

/-- An `Ack` fits into one chunk. -/
theorem length_encode_createAck {m : MsgBase} (huid : m.uid.natAbs < 10 ^ 1900) :
    (encode (m.createAck.serialize reprNoArg)).length ≤ chunkSize := by
  have hstr := Decimal.length_str (show 0 < 1900 by decide) huid
  have hlen : (m.createAck.serialize reprNoArg).length = (Decimal.str m.uid).length + 3 := by
    simp only [MsgBase.serialize, MsgBase.createAck, MsgBase.sentArg, MsgBase.serializeArg,
      List.length_append, List.length_cons, List.length_nil, MsgCls.msgid]
    rw [show (Decimal.str ((7 : Nat) : Int)).length = 1 by decide]
    omega
  rw [length_encode (hlen.trans_lt (by rw [StrComm.lenWidth]; omega)), hlen, chunkSize]
  omega

/-- A write of one chunk changes only what was written. -/
theorem send_oneChunk {m : MsgBase} (hlen : (encode (m.serialize reprNoArg)).length ≤ chunkSize)
    (hacks : c.io.line.acks.stream.length < fuel) (h : Lost (chunksOfStrs strs) c.io) :
    ∃ c', send reprNoArg fuel m c = .ret () c' ∧ Kept strs c c' := by
  rcases write_cases (encode (m.serialize reprNoArg)) hacks with
    ⟨left, written, hdrop, hrun⟩ | ⟨hdrop, -⟩
  · rw [ackIds_eq_nil hlen] at hdrop
    cases hdrop
    exact ⟨_, onIo_ret (onLine_ret hrun),
      ⟨lost_of_eq h rfl rfl, rfl, rfl, rfl, Nat.le_refl _, Nat.le_refl _⟩⟩
  · rw [ackIds_eq_nil hlen] at hdrop
    cases hdrop

theorem sendAckIfNeeded_kept (reprNoArg : String) {m : MsgBase} (huid : m.uid.natAbs < 10 ^ 1900)
    (hacks : c.io.line.acks.stream.length < fuel) (h : Lost (chunksOfStrs strs) c.io) :
    ∃ c', sendAckIfNeeded reprNoArg fuel m c = .ret () c' ∧ Kept strs c c' := by
  rw [sendAckIfNeeded]
  split
  · exact ⟨c, rfl, h, rfl, rfl, rfl, Nat.le_refl _, Nat.le_refl _⟩
  · exact send_oneChunk (length_encode_createAck huid) hacks h

/-! ## A waiting loop -/

/-- What `_remaining` computes. -/
def timeLeft (timer : Timer) (c : TerminalClient) : ℚ :=
  timer.timeout - (c.io.line.clock c.io.line.ticks + c.io.line.waited - timer.startTime)

/-- The clock ticks. -/
theorem remaining_ret (timer : Timer) (h : Lost (chunksOfStrs strs) c.io) :
    ∃ c', remaining timer c = .ret (timeLeft timer c) c' ∧ Kept strs c c' ∧
      c'.io.line.ticks = c.io.line.ticks + 1 ∧ c'.io.line.waited = c.io.line.waited :=
  ⟨_, rfl, ⟨lost_of_eq h rfl rfl, rfl, rfl, rfl, Nat.le_refl _, Nat.le_refl _⟩, rfl, rfl⟩

theorem tryReceive_cases (hstrs : ∀ s ∈ strs, FromServer s) (hfuel : size c.io < fuel)
    (h : Lost (chunksOfStrs strs) c.io) (timeout : ℚ) :
    (∃ m c', tryReceive fuel timeout c = .ret (some m) c' ∧ m.uid.natAbs < 10 ^ 1900 ∧
        Kept strs c c' ∧ size c'.io < size c.io) ∨
      ∃ c', tryReceive fuel timeout c = .ret none c' ∧ Kept strs c c' ∧
        c'.io.line.ticks = c.io.line.ticks ∧ Elapsed timeout c c' := by
  rcases receive_cases hstrs hfuel h timeout with
    ⟨m, c', hrun, huid, hkept, hlt⟩ | ⟨c', hrun, hkept, hticks, helapsed⟩
  · exact .inl ⟨m, c', Prog.tryExcept_ret (Prog.bind_ret hrun), huid, hkept, hlt⟩
  · exact .inr ⟨c', Prog.tryExcept_caught (Prog.bind_raised hrun) rfl, hkept, hticks, helapsed⟩

/-- The loop returns a message, or it raises `TimerTimeout`. -/
def Ends (strs : List Bytes) (c : TerminalClient) (o : Outcome ClientExc TerminalClient MsgBase) :
    Prop :=
  (∃ m c', o = .ret m c' ∧ Kept strs c c' ∧ size c'.io < size c.io) ∨
    ∃ c', o = .raised .timerTimeout c' ∧ Kept strs c c'

theorem Ends.of_kept {o : Outcome ClientExc TerminalClient MsgBase} (h : Ends strs c₁ o)
    (hkept : Kept strs c c₁) : Ends strs c o := by
  rcases h with ⟨m, c', rfl, hkept', hsize⟩ | ⟨c', rfl, hkept'⟩
  · exact .inl ⟨m, c', rfl, hkept.trans hkept', hsize.trans_le hkept.size_le⟩
  · exact .inr ⟨c', rfl, hkept.trans hkept'⟩

variable {timer : Timer} {condition : MsgBase → Bool} {loops : Nat}

theorem receiveUntilLoop_expired (h : Lost (chunksOfStrs strs) c.io)
    (hleft : timeLeft timer c ≤ 0) :
    Ends strs c (receiveUntilLoop reprNoArg fuel timer condition (loops + 1) c) := by
  obtain ⟨c', hrun, hkept, -⟩ := remaining_ret timer h
  refine .inr ⟨c', ?_, hkept⟩
  rw [receiveUntilLoop, Prog.bind_ret hrun, if_pos hleft]
  rfl

/-- **A waiting loop.**  Every read shortens the stream or the shared buffer, or it
waits until the timer has run out. -/
theorem receiveUntilLoop_cases (hstrs : ∀ s ∈ strs, FromServer s) (hfuel : size c.io < fuel)
    (hacks : c.io.line.acks.stream.length < fuel) (h : Lost (chunksOfStrs strs) c.io)
    (hloops : size c.io + c.io.line.line.stream.length + 1 < loops) :
    Ends strs c (receiveUntilLoop reprNoArg fuel timer condition loops c) := by
  induction loops generalizing c with
  | zero => omega
  | succ loops ih =>
    rcases le_or_gt (timeLeft timer c) 0 with hleft | hleft
    · exact receiveUntilLoop_expired h hleft
    obtain ⟨c₁, hrun₁, hkept₁, hticks₁, hwaited₁⟩ := remaining_ret timer h
    have hsize₁ := hkept₁.size_le
    have hlength₁ := hkept₁.length_le
    rw [receiveUntilLoop, Prog.bind_ret hrun₁, if_neg (not_le.mpr hleft)]
    rcases tryReceive_cases hstrs (hsize₁.trans_lt hfuel) hkept₁.lost (timeLeft timer c) with
      ⟨m, c₂, hrun₂, huid, hkept₂, hlt⟩ | ⟨c₂, hrun₂, hkept₂, hticks₂, helapsed⟩
    · have hkept₂ := hkept₁.trans hkept₂
      obtain ⟨c₃, hrun₃, hkept₃⟩ := sendAckIfNeeded_kept reprNoArg huid
        (by rw [hkept₂.acks]; exact hacks) hkept₂.lost
      have hsize₃ := hkept₃.size_le
      have hkept := hkept₂.trans hkept₃
      have hlength := hkept.length_le
      rw [Prog.bind_ret hrun₂]
      dsimp only
      rw [Prog.bind_ret hrun₃]
      split
      · exact .inl ⟨m, c₃, rfl, hkept, by omega⟩
      · exact (ih (by omega) (by rw [hkept.acks]; exact hacks) hkept.lost (by omega)).of_kept hkept
    · have hkept := hkept₁.trans hkept₂
      have hsize := hkept.size_le
      have hlength₂ := hkept₂.length_le
      rw [Prog.bind_ret hrun₂]
      refine Ends.of_kept ?_ hkept
      rcases helapsed with hlt | hwaited
      · exact ih (by omega) (by rw [hkept.acks]; exact hacks) hkept.lost (by omega)
      · -- The read took all the time that remained.
        obtain ⟨loops, rfl⟩ : ∃ n, loops = n + 1 := ⟨loops - 1, by omega⟩
        refine receiveUntilLoop_expired hkept.lost ?_
        have hclock := c.io.line.clock_mono (Nat.le_add_right c.io.line.ticks 1)
        rw [timeLeft, hkept.clock, hticks₂, hticks₁, hwaited, hwaited₁, timeLeft]
        linarith

/-- More fuel than there are bytes and timeouts to come. -/
structure Enough (fuel : Nat) (c : TerminalClient) : Prop where
  size : size c.io + c.io.line.line.stream.length + 1 < fuel
  acks : c.io.line.acks.stream.length < fuel

theorem Enough.of_kept (h : Enough fuel c) (hkept : Kept strs c c₁) : Enough fuel c₁ := by
  have hsize := h.size
  have hsize₁ := hkept.size_le
  have hlength₁ := hkept.length_le
  exact ⟨by omega, by rw [hkept.acks]; exact h.acks⟩

theorem receiveUntilCondition_ends (reprNoArg : String) (hstrs : ∀ s ∈ strs, FromServer s)
    (hfuel : Enough fuel c) (h : Lost (chunksOfStrs strs) c.io) (timeout : ℚ)
    (condition : MsgBase → Bool) :
    Ends strs c (receiveUntilCondition reprNoArg fuel timeout condition c) := by
  let c₁ : TerminalClient :=
    { c with io := { c.io with line := { c.io.line with ticks := c.io.line.ticks + 1 } } }
  let timer : Timer := ⟨timeout, c.io.line.clock c.io.line.ticks + c.io.line.waited⟩
  have hstart : startTimer timeout c = .ret timer c₁ := rfl
  have hsize := hfuel.size
  have hkept : Kept strs c c₁ :=
    ⟨lost_of_eq h rfl rfl, rfl, rfl, rfl, Nat.le_refl _, Nat.le_refl _⟩
  rw [receiveUntilCondition, Prog.bind_ret hstart]
  refine Ends.of_kept ?_ hkept
  exact receiveUntilLoop_cases hstrs (show size c.io < fuel by omega) hfuel.acks hkept.lost hsize

/-! ## The tries -/

/-- The request is written, or the write raises. -/
theorem sendRequest_cases (reprNoArg : String) (msg : MsgBase) (hfuel : Enough fuel c)
    (h : Lost (chunksOfStrs strs) c.io) :
    (∃ left c', dropAcks (ackIds (encode (msg.serialize reprNoArg))) c.io.line.acks.stream =
        some left ∧ sendRequest reprNoArg fuel msg c = .ret () c' ∧ Lost (chunksOfStrs strs) c'.io ∧
        c'.io.line.acks.stream = left ∧ size c'.io = size c.io ∧
        c'.io.line.line.stream = c.io.line.line.stream ∧ c'.requests = c.requests ++ [msg]) ∨
      (dropAcks (ackIds (encode (msg.serialize reprNoArg))) c.io.line.acks.stream = none ∧
        ∃ e c', sendRequest reprNoArg fuel msg c = .raised (.wire e) c') := by
  rcases write_cases (encode (msg.serialize reprNoArg)) hfuel.acks with
    ⟨left, written, hdrop, hrun⟩ | ⟨hdrop, e, t', hrun⟩
  · exact .inl ⟨left, _, hdrop, onIo_ret (onLine_ret hrun), lost_of_eq h rfl rfl, rfl, rfl, rfl,
      rfl⟩
  · exact .inr ⟨hdrop, e, _, onIo_raised (onLine_raised hrun)⟩

/-- The acks for the chunks of the request, once for each of `tries` tries. -/
def acksOf (reprNoArg : String) (msg : MsgBase) (tries : Nat) : List Nat :=
  (List.replicate tries (ackIds (encode (msg.serialize reprNoArg)))).flatten

theorem dropAcks_acksOf_succ (msg : MsgBase) (tries : Nat) (items : List Item) :
    dropAcks (acksOf reprNoArg msg (tries + 1)) items =
      (dropAcks (ackIds (encode (msg.serialize reprNoArg))) items).bind
        (dropAcks (acksOf reprNoArg msg tries)) := by
  rw [acksOf, List.replicate_succ, List.flatten_cons, dropAcks_append]
  rfl

/-- A waiting loop within the `try` of `_received_msgs_for_msg`. -/
theorem tryExcept_ends {m : Prog ClientExc TerminalClient MsgBase} (h : Ends strs c (m c)) :
    (∃ r c', (Prog.tryExcept (do let r ← m; pure (some r)) fun e =>
        if e.isTerminalClientError || e = .timerTimeout then some (pure none) else none) c =
          .ret (some r) c' ∧ Kept strs c c' ∧ size c'.io < size c.io) ∨
      ∃ c', (Prog.tryExcept (do let r ← m; pure (some r)) fun e =>
        if e.isTerminalClientError || e = .timerTimeout then some (pure none) else none) c =
          .ret none c' ∧ Kept strs c c' := by
  rcases h with ⟨r, c', hrun, hkept, hsize⟩ | ⟨c', hrun, hkept⟩
  · exact .inl ⟨r, c', Prog.tryExcept_ret (Prog.bind_ret hrun), hkept, hsize⟩
  · exact .inr ⟨c', Prog.tryExcept_caught (Prog.bind_raised hrun) rfl, hkept⟩

/-- **The tries.**  With the acks of all tries, none raises. -/
theorem receivedMsgForMsg_ret (hstrs : ∀ s ∈ strs, FromServer s) {msg : MsgBase} (ts : List ℚ)
    (hfuel : Enough fuel c) (h : Lost (chunksOfStrs strs) c.io)
    (hacks : dropAcks (acksOf reprNoArg msg ts.length) c.io.line.acks.stream ≠ none) :
    ∃ r c', receivedMsgForMsg reprNoArg fuel msg ts c = .ret r c' ∧ Enough fuel c' ∧
      Lost (chunksOfStrs strs) c'.io ∧ c'.requests.length ≤ c.requests.length + ts.length := by
  induction ts generalizing c with
  | nil => exact ⟨none, c, rfl, hfuel, h, Nat.le_refl _⟩
  | cons t ts ih =>
    rw [List.length_cons, dropAcks_acksOf_succ] at hacks
    rcases sendRequest_cases reprNoArg msg hfuel h with
      ⟨left, c₁, hdrop, hrun₁, h₁, hleft, hsize, hstream, hrequests⟩ | ⟨hdrop, -⟩
    · have hfuel₁ : Enough fuel c₁ := by
        refine ⟨by rw [hsize, hstream]; exact hfuel.size, ?_⟩
        rw [hleft]
        exact (dropAcks_length_le hdrop).trans_lt hfuel.acks
      have hlen : c₁.requests.length = c.requests.length + 1 := by
        rw [hrequests, List.length_append, List.length_singleton]
      rw [receivedMsgForMsg, Prog.bind_ret hrun₁]
      rcases tryExcept_ends (receiveUntilCondition_ends reprNoArg hstrs hfuel₁ h₁ t
          (isReplyOrAck msg)) with ⟨r, c₂, hrun₂, hkept, -⟩ | ⟨c₂, hrun₂, hkept⟩
      · refine ⟨some r, c₂, ?_, hfuel₁.of_kept hkept, hkept.lost, ?_⟩
        · exact Prog.bind_ret hrun₂
        · rw [hkept.requests, hlen, List.length_cons]
          omega
      · have hacks₂ : dropAcks (acksOf reprNoArg msg ts.length) c₂.io.line.acks.stream ≠ none := by
          rw [hkept.acks, hleft]
          rwa [hdrop] at hacks
        obtain ⟨r, c₃, hrun₃, hfuel₃, h₃, hlen₃⟩ := ih (hfuel₁.of_kept hkept) hkept.lost hacks₂
        refine ⟨r, c₃, (Prog.bind_ret hrun₂).trans hrun₃, hfuel₃, h₃, ?_⟩
        rw [hkept.requests, hlen] at hlen₃
        rw [List.length_cons]
        omega
    · rw [hdrop] at hacks
      exact absurd rfl hacks

/-- On a silent terminal every try is made, until an ack does not come. -/
theorem receivedMsgForMsg_raised (hstrs : ∀ s ∈ strs, FromServer s) {msg : MsgBase} (ts : List ℚ)
    (hfuel : Enough fuel c) (h : Lost (chunksOfStrs strs) c.io) (hsilent : size c.io = 0)
    (hacks : dropAcks (acksOf reprNoArg msg ts.length) c.io.line.acks.stream = none) :
    ∃ e c', receivedMsgForMsg reprNoArg fuel msg ts c = .raised (.wire e) c' := by
  induction ts generalizing c with
  | nil => cases hacks
  | cons t ts ih =>
    rw [List.length_cons, dropAcks_acksOf_succ] at hacks
    rcases sendRequest_cases reprNoArg msg hfuel h with
      ⟨left, c₁, hdrop, hrun₁, h₁, hleft, hsize, hstream, -⟩ | ⟨-, e, c', hrun⟩
    · have hfuel₁ : Enough fuel c₁ := by
        refine ⟨by rw [hsize, hstream]; exact hfuel.size, ?_⟩
        rw [hleft]
        exact (dropAcks_length_le hdrop).trans_lt hfuel.acks
      rw [receivedMsgForMsg, Prog.bind_ret hrun₁]
      rcases tryExcept_ends (receiveUntilCondition_ends reprNoArg hstrs hfuel₁ h₁ t
          (isReplyOrAck msg)) with ⟨r, c₂, -, -, hlt⟩ | ⟨c₂, hrun₂, hkept⟩
      · omega
      · have hsize₂ := hkept.size_le
        rw [hdrop] at hacks
        obtain ⟨e, c₃, hrun₃⟩ := ih (hfuel₁.of_kept hkept) hkept.lost (by omega)
          (by rw [hkept.acks, hleft]; exact hacks)
        exact ⟨e, c₃, (Prog.bind_ret hrun₂).trans hrun₃⟩
    · exact ⟨e, c', Prog.bind_raised hrun⟩

theorem tryToReceiveUntilReply_cases (hstrs : ∀ s ∈ strs, FromServer s) (hfuel : Enough fuel c)
    (h : Lost (chunksOfStrs strs) c.io) (exception : ClientExc) (msg : MsgBase) (timeout : ℚ) :
    ∃ c', Kept strs c c' ∧
      ((∃ r, tryToReceiveUntilReply reprNoArg fuel exception msg timeout c = .ret r c') ∨
        tryToReceiveUntilReply reprNoArg fuel exception msg timeout c = .raised exception c') := by
  rcases receiveUntilCondition_ends reprNoArg hstrs hfuel h timeout (isReply msg) with
    ⟨r, c', hrun, hkept, -⟩ | ⟨c', hrun, hkept⟩
  · exact ⟨c', hkept, .inl ⟨r, Prog.tryExcept_ret hrun⟩⟩
  · exact ⟨c', hkept, .inr (Prog.tryExcept_caught hrun rfl)⟩

end

/-! ## `send_and_receive` -/

/-- The call from `c` returned a message or raised a `TerminalClientError`, and it
wrote the request at most `max(1, tries)` times. -/
def Answers (c : TerminalClient) : Outcome ClientExc TerminalClient MsgBase → Prop
  | .ret _ c' => (c'.requests.length : Int) ≤ c.requests.length + max 1 c.retry.tries
  | .raised e c' => e.isTerminalClientError ∧
      (c'.requests.length : Int) ≤ c.requests.length + max 1 c.retry.tries
  | .hang => False

/-- The acks for the chunks of the request come next, for every try. -/
def Acknowledged (reprNoArg : String) (msg : MsgBase) (tries : Int) (items : List Item) : Prop :=
  dropAcks (acksOf reprNoArg msg (max 1 tries).toNat) items ≠ none

/-- A client of a server that sends nothing but the acks. -/
def silent (uid : Nat) (retry : Retry) (acks : List Item) : TerminalClient where
  io :=
    { line :=
        { line := ⟨[], fun _ => 0, []⟩
          acks := ⟨acks, fun _ => 0, []⟩
          clock := fun _ => 0
          clock_mono := monotone_const
          ticks := 0
          waited := 0
          timeout := -1 }
      sharedio := SharedBytesIo.new }
  uidIter := uid
  retry
  requests := []

section
variable {reprNoArg : String} {msg : MsgBase} {timeout : ℚ}

theorem lost_silent (uid : Nat) (retry : Retry) (acks : List Item) :
    Lost (chunksOfStrs []) (silent uid retry acks).io :=
  ⟨[], [], [], List.not_mem_nil, List.suffix_rfl, SharedBytesIo.unread_new,
    .skipped (w := []) List.suffix_rfl List.not_mem_nil, fun pre post h => by
      cases pre <;> cases h⟩

theorem answers_of_acknowledged (hstrs : ∀ s ∈ strs, FromServer s)
    (h : Lost (chunksOfStrs strs) c.io)
    (hacks : Acknowledged reprNoArg { msg with uid := c.uidIter } c.retry.tries
      c.io.line.acks.stream) :
    ∃ enough, ∀ fuel, enough ≤ fuel → c.Answers (sendAndReceive reprNoArg fuel msg timeout c) := by
  refine ⟨size c.io + c.io.line.line.stream.length + c.io.line.acks.stream.length + 2,
    fun fuel hfuel => ?_⟩
  let m : MsgBase := { msg with uid := c.uidIter }
  let c₁ : TerminalClient := { c with uidIter := c.uidIter + 1 }
  have hsetUid : setUid msg c = .ret m c₁ := rfl
  have hretry : (Prog.gets TerminalClient.retry : Prog ClientExc _ _) c₁ = .ret c.retry c₁ := rfl
  have henough : Enough fuel c₁ :=
    ⟨show size c.io + c.io.line.line.stream.length + 1 < fuel by omega,
      show c.io.line.acks.stream.length < fuel by omega⟩
  have hlen := c.retry.length_timeouts
  have hacks₁ : dropAcks (acksOf reprNoArg m c.retry.timeouts.length) c₁.io.line.acks.stream ≠
      none := by
    rw [Acknowledged, ← hlen, Int.toNat_natCast] at hacks
    exact hacks
  obtain ⟨r, c₂, hrun, henough₂, h₂, hle⟩ :=
    receivedMsgForMsg_ret hstrs c.retry.timeouts henough h hacks₁
  have hle : (c₂.requests.length : Int) ≤ c.requests.length + max 1 c.retry.tries := by
    have hle : c₂.requests.length ≤ c.requests.length + c.retry.timeouts.length := hle
    omega
  have hfinal : ∀ exception : ClientExc, exception.isTerminalClientError →
      c.Answers (tryToReceiveUntilReply reprNoArg fuel exception m timeout c₂) := by
    intro exception he
    obtain ⟨c₃, hkept, ⟨r, hrun⟩ | hrun⟩ :=
      tryToReceiveUntilReply_cases hstrs henough₂ h₂ exception m timeout
    · rw [hrun, Answers, hkept.requests]
      exact hle
    · rw [hrun, Answers, hkept.requests]
      exact ⟨he, hle⟩
  rw [sendAndReceive, Prog.bind_ret hsetUid, Prog.bind_ret hretry, Prog.bind_ret hrun]
  cases r with
  | none => exact hfinal _ rfl
  | some r =>
    dsimp only
    split
    · exact hfinal _ rfl
    · exact hle

theorem not_answers_of_unacknowledged {uid : Nat} {retry : Retry} {items : List Item}
    (hacks : ¬ Acknowledged reprNoArg { msg with uid } retry.tries items) :
    ¬ ∃ enough, ∀ fuel, enough ≤ fuel →
      (silent uid retry items).Answers (sendAndReceive reprNoArg fuel msg timeout
        (silent uid retry items)) := by
  rintro ⟨enough, h⟩
  let c := silent uid retry items
  let m : MsgBase := { msg with uid }
  let c₁ : TerminalClient := { c with uidIter := uid + 1 }
  let fuel := enough + items.length + 2
  have hsetUid : setUid msg c = .ret m c₁ := rfl
  have hretry : (Prog.gets TerminalClient.retry : Prog ClientExc _ _) c₁ = .ret retry c₁ := rfl
  have henough : Enough fuel c₁ :=
    ⟨show 0 + 0 + 1 < enough + items.length + 2 by omega,
      show items.length < enough + items.length + 2 by omega⟩
  have hacks₁ : dropAcks (acksOf reprNoArg m retry.timeouts.length) c₁.io.line.acks.stream =
      none := by
    rw [Acknowledged, not_not, ← retry.length_timeouts, Int.toNat_natCast] at hacks
    exact hacks
  have hstrs : ∀ s ∈ ([] : List Bytes), FromServer s := nofun
  obtain ⟨e, c₂, hrun⟩ := receivedMsgForMsg_raised hstrs retry.timeouts henough
    (lost_silent uid retry items) rfl hacks₁
  have hanswers := h fuel (by omega)
  rw [sendAndReceive, Prog.bind_ret hsetUid, Prog.bind_ret hretry, Prog.bind_raised hrun]
    at hanswers
  exact nomatch hanswers.1

end

/-- **`send_and_receive`.**  Whatever the server's strings, the timeouts between
their bytes and the clock: it answers if and only if the acks for the chunks of
the request come next, for every try.  `Lost` is about the whole stream: it is kept for the
next call, which may begin inside the frame in which a timeout has ended this one. -/
theorem answers_iff (reprNoArg : String) (msg : MsgBase) (uid : Nat) (retry : Retry) (timeout : ℚ)
    (items : List Item) :
    (∀ (strs : List Bytes) (c : TerminalClient), (∀ s ∈ strs, FromServer s) →
        Lost (chunksOfStrs strs) c.io →
        c.io.line.acks.stream = items → c.uidIter = uid → c.retry = retry →
        ∃ enough, ∀ fuel, enough ≤ fuel →
          c.Answers (sendAndReceive reprNoArg fuel msg timeout c)) ↔
      Acknowledged reprNoArg { msg with uid } retry.tries items := by
  constructor
  · intro h
    by_contra hacks
    exact not_answers_of_unacknowledged hacks
      (h [] (silent uid retry items) nofun (lost_silent uid retry items) rfl rfl rfl)
  · rintro hacks strs c hstrs h rfl rfl rfl
    exact answers_of_acknowledged hstrs h hacks

/-- A request of two chunks. -/
def longRequest : MsgBase := ⟨.execCommandRequest, 0, .bytes (List.replicate 1500 0)⟩

/-- **The write of a request raises a timeout.** -/
theorem not_answers_longRequest :
    ¬ ∃ enough, ∀ fuel, enough ≤ fuel →
      (silent 0 ⟨10, 1, 10⟩ [.timeout]).Answers
        (sendAndReceive "" fuel longRequest 10 (silent 0 ⟨10, 1, 10⟩ [.timeout])) := by
  refine not_answers_of_unacknowledged fun h => h ?_
  decide +kernel

/-- The rest of a frame of eight bytes, after a timeout in its header. -/
def cutFrame : Bytes := hdr 1 8 ++ ChunkComm.token ++ ascii "YWJjZGVm" ++ ChunkComm.token

/-- The payload is read as a header. -/
example :
    (match readStr (comm 60) 60 ⟨(silent 0 ⟨1, 1, 10⟩ []).io.line.withStream
      (Line.bytes cutFrame), SharedBytesIo.new⟩ with
    | .raised e _ => some e
    | _ => none) = some (.valueError (ascii "ZGVm")) := by
  decide +kernel

end TerminalClient

end InteractiveSessions
