import InteractiveSessions.Lib.Decimal

/-!
# `msgs`, `msgmanager.Retry`: the messages of client and server
-/

namespace InteractiveSessions

/-- The message classes in the order of `set_msgclses`. -/
inductive MsgCls where
  | execCommandRequest
  | execCommandReply
  | exitRequest
  | fatalPythonErrorReply
  | serverIdRequest
  | serverIdReply
  | sendCommandRequest
  | ack
  deriving DecidableEq, Repr

structure Msg where
  cls : MsgCls
  uid : Int
  arg : Bytes
  deriving DecidableEq, Repr

namespace Msg

def isResponseExpected (m : Msg) : Bool := m.cls ≠ .sendCommandRequest

/-- `cls.create_reply(msg, arg)` -/
def createReply (cls : MsgCls) (msg : Msg) (arg : Bytes) : Msg := ⟨cls, msg.uid, arg⟩

/-- `Ack.create_reply(msg)`, with the argument `NOARG`. -/
def createAck (msg : Msg) : Msg := createReply .ack msg []

/-- Whether `deserialize` raises `FatalPythonError` with the message's content. -/
def isFatal (m : Msg) : Bool := m.cls = .fatalPythonErrorReply

/-- The requests that a handler of the server answers with a reply. -/
def isAnswered (m : Msg) : Bool := m.cls = .execCommandRequest || m.cls = .serverIdRequest

end Msg

structure Retry where
  tries : Int
  interval : ℚ
  timeout : ℚ
  deriving DecidableEq

def Retry.timeouts (r : Retry) : List ℚ :=
  List.replicate (r.tries - 1).toNat r.interval ++ [r.timeout]

theorem Retry.length_timeouts (r : Retry) : (r.timeouts.length : Int) = max 1 r.tries := by
  rw [Retry.timeouts, List.length_append, List.length_replicate, List.length_singleton]
  omega

/-- Only the last timeout is not the interval. -/
theorem Retry.interval_of_drop {r : Retry} {k : Nat} {t : ℚ} {ts : List ℚ}
    (h : r.timeouts.drop k = t :: ts) (hts : ts ≠ []) : t = r.interval := by
  have hget : r.timeouts[k]? = some t := by
    rw [← List.head?_drop, h, List.head?_cons]
  have hlen : r.timeouts.length - k = ts.length + 1 := by
    rw [← List.length_drop, h, List.length_cons]
  have hpos : 0 < ts.length := List.length_pos_iff.mpr hts
  rw [Retry.timeouts, List.length_append, List.length_replicate, List.length_singleton] at hlen
  rw [Retry.timeouts, List.getElem?_append_left (by rw [List.length_replicate]; omega)] at hget
  exact List.eq_of_mem_replicate (List.mem_of_getElem? hget)

end InteractiveSessions
