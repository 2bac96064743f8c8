import InteractiveSessions.Msgs

/-!
# `terminalclient`: the client's waiting loops

`send_and_receive` as a state machine: between two reads the client is in one of
its waiting loops.  When a timer runs out is left to the environment.
-/

namespace InteractiveSessions

/-- Where the client is between two reads. -/
inductive Control where
  | idle
  /-- In `_received_msgs_for_msg`, with so many more timeouts to try. -/
  | receiveAckOrReply (msg : Msg) (timeouts : Nat)
  /-- In `_try_to_receive_until_reply` or, after the last timeout, in
  `_final_try_to_receive_until_reply`. -/
  | receiveUntilReply (msg : Msg) (final : Bool)
  deriving DecidableEq, Repr

/-- The message whose answer the client waits for. -/
def Control.msg? : Control → Option Msg
  | idle => none
  | receiveAckOrReply msg _ | receiveUntilReply msg _ => some msg

/-- The client, with records of the messages that `send_and_receive` was called
with and of what it returned. -/
structure Client where
  uidIter : Nat
  control : Control
  requests : List Msg
  returned : List (Msg × Msg)
  deriving DecidableEq, Repr

namespace Client

def new : Client := ⟨0, .idle, [], []⟩

def isReplyOrAck (msg reply : Msg) : Bool := msg.uid = reply.uid

/-- `_is_reply`, which looks at the class of `msg`. -/
def isReply (msg reply : Msg) : Bool := !(msg.cls = .ack : Bool) && isReplyOrAck msg reply

/-- `send_and_receive(msg)` up to the first read, and what it sends. -/
def call (retry : Retry) (msg : Msg) (c : Client) : Client × List Msg :=
  match c.control with
  | .idle =>
    let msg := { msg with uid := c.uidIter }
    ({ c with
      uidIter := c.uidIter + 1
      control := .receiveAckOrReply msg (retry.timeouts.length - 1)
      requests := c.requests ++ [msg] }, [msg])
  | _ => (c, [])

/-- The timer of the loop runs out. -/
def timeout (c : Client) : Client × List Msg :=
  match c.control with
  | .idle => (c, [])
  | .receiveAckOrReply msg (n + 1) => ({ c with control := .receiveAckOrReply msg n }, [msg])
  | .receiveAckOrReply msg 0 => ({ c with control := .receiveUntilReply msg true }, [])
  | .receiveUntilReply _ _ => ({ c with control := .idle }, [])

/-- `send_and_receive(msg)` returns `r`. -/
def return_ (msg r : Msg) (c : Client) : Client :=
  { c with control := .idle, returned := c.returned ++ [(msg, r)] }

/-- `_receive` delivers `r`: `_send_ack_if_needed` and the condition of the
loop.  A `FatalPythonErrorReply` is raised in `deserialize`.  An idle client
reads in `receive_and_send_ack`. -/
def receive (r : Msg) (c : Client) : Client × List Msg :=
  if r.isFatal then ({ c with control := .idle }, [])
  else
    let acks := if r.cls = .ack then [] else [r.createAck]
    match c.control with
    | .idle => (c, acks)
    | .receiveAckOrReply msg _ =>
      if isReplyOrAck msg r then
        if r.cls = .ack then ({ c with control := .receiveUntilReply msg false }, acks)
        else (c.return_ msg r, acks)
      else (c, acks)
    | .receiveUntilReply msg _ =>
      if isReply msg r then (c.return_ msg r, acks) else (c, acks)

end Client

end InteractiveSessions
