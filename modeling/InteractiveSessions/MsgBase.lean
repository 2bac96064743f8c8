import InteractiveSessions.Lib.Base64
import InteractiveSessions.Msgs

/-!
# `msgs.MsgBase`: messages as byte strings

A message is written as `msgid:uid:arg`, with the argument in base64.
-/

namespace InteractiveSessions

/-- The argument of a message. -/
inductive Arg where
  /-- `NOARG` -/
  | noArg
  | text (s : String)
  | bytes (b : Bytes)
  deriving DecidableEq

structure MsgBase where
  cls : MsgCls
  uid : Int
  arg : Arg
  deriving DecidableEq

/-- What `MsgBase.deserialize` raises. -/
inductive DeserializeError where
  | valueError
  | keyError (msgid : Int)
  | binasciiError
  | indexError
  | unicodeDecodeError
  /-- `FatalPythonError(arg)` -/
  | fatalPythonError (arg : Arg)
  deriving DecidableEq

/-- `s.encode('utf-8')` -/
def utf8Encode (s : String) : Bytes := s.toUTF8.data.toList

/-- `b.decode('utf-8')` -/
def utf8Decode (b : Bytes) : Option String := String.fromUTF8? ⟨b.toArray⟩

theorem utf8Decode_utf8Encode (s : String) : utf8Decode (utf8Encode s) = some s := by
  have hvalid : (⟨(utf8Encode s).toArray⟩ : ByteArray).IsValidUTF8 := s.isValidUTF8
  rw [utf8Decode, String.fromUTF8?, dif_pos hvalid]
  rfl

/-- The number of the class in `set_msgclses`. -/
def MsgCls.msgid : MsgCls → Nat
  | execCommandRequest => 0
  | execCommandReply => 1
  | exitRequest => 2
  | fatalPythonErrorReply => 3
  | serverIdRequest => 4
  | serverIdReply => 5
  | sendCommandRequest => 6
  | ack => 7

def getMsgcls : Int → Option MsgCls
  | 0 => some .execCommandRequest
  | 1 => some .execCommandReply
  | 2 => some .exitRequest
  | 3 => some .fatalPythonErrorReply
  | 4 => some .serverIdRequest
  | 5 => some .serverIdReply
  | 6 => some .sendCommandRequest
  | 7 => some .ack
  | _ => none

theorem getMsgcls_msgid (cls : MsgCls) : getMsgcls cls.msgid = some cls := by
  cases cls <;> rfl

/-- `:` -/
def colon : Byte := 58

/-- `s.split(b':', 1)`, if there are two parts. -/
def splitColon : Bytes → Option (Bytes × Bytes)
  | [] => none
  | c :: s => if c = colon then some ([], s) else (splitColon s).map fun p => (c :: p.1, p.2)

theorem splitColon_append {a : Bytes} (ha : colon ∉ a) (s : Bytes) :
    splitColon (a ++ (colon :: s)) = some (a, s) := by
  induction a with
  | nil => rfl
  | cons c a ih =>
    rw [List.mem_cons, not_or] at ha
    rw [List.cons_append, splitColon, if_neg (Ne.symm ha.1), ih ha.2]
    rfl

namespace MsgBase

/-- What the message carries: an `ExecCommandReply` writes the `repr` of an
object that is neither text nor bytes. -/
def sentArg (reprNoArg : String) (m : MsgBase) : Arg :=
  match m.cls, m.arg with
  | .execCommandReply, .noArg => .text reprNoArg
  | _, arg => arg

def serializeArg : Arg → Bytes
  | .noArg => []
  | .text s => Base64.encode (115 :: utf8Encode s)
  | .bytes b => Base64.encode (98 :: b)

def serialize (reprNoArg : String) (m : MsgBase) : Bytes :=
  Decimal.str m.cls.msgid ++ (colon :: (Decimal.str m.uid ++
    (colon :: serializeArg (m.sentArg reprNoArg))))

/-- The `deserialize_arg` of all classes but `FatalPythonErrorReply`. -/
def deserializeArg (s : Bytes) : Except DeserializeError Arg :=
  if s = [] then .ok .noArg
  else
    match Base64.decode s with
    | none => .error .binasciiError
    | some [] => .error .indexError
    | some (kind :: b) =>
      if kind = 115 then
        match utf8Decode b with
        | none => .error .unicodeDecodeError
        | some text => .ok (.text text)
      else .ok (.bytes b)

def deserialize (s : Bytes) : Except DeserializeError MsgBase :=
  match splitColon s with
  | none => .error .valueError
  | some (msgid, s) =>
    match splitColon s with
    | none => .error .valueError
    | some (uid, args) =>
      match Decimal.parseInt msgid with
      | none => .error .valueError
      | some msgid =>
        match getMsgcls msgid with
        | none => .error (.keyError msgid)
        | some cls =>
          match deserializeArg args with
          | .error e => .error e
          | .ok arg =>
            if cls = .fatalPythonErrorReply then .error (.fatalPythonError arg)
            else
              match Decimal.parseInt uid with
              | none => .error .valueError
              | some uid => .ok ⟨cls, uid, arg⟩

/-- `Ack.create_reply(msg)` -/
def createAck (m : MsgBase) : MsgBase := ⟨.ack, m.uid, .noArg⟩

theorem deserializeArg_serializeArg (arg : Arg) : deserializeArg (serializeArg arg) = .ok arg := by
  cases arg with
  | noArg => rfl
  | text s =>
    rw [deserializeArg, serializeArg, if_neg (Base64.encode_ne_nil (List.cons_ne_nil _ _)),
      Base64.decode_encode]
    simp only [↓reduceIte, utf8Decode_utf8Encode]
  | bytes b =>
    rw [deserializeArg, serializeArg, if_neg (Base64.encode_ne_nil (List.cons_ne_nil _ _)),
      Base64.decode_encode]
    simp only [show (98 : Byte) ≠ 115 by decide, ↓reduceIte]

theorem colon_notMem_str (n : Int) : colon ∉ Decimal.str n := by
  intro h
  rcases Decimal.mem_str h with h | h
  · exact absurd h (by decide)
  · exact absurd h.2 (by decide)

variable (reprNoArg : String) (m : MsgBase)

/-- What a message that was written is read as. -/
theorem deserialize_serialize : deserialize (serialize reprNoArg m) =
    if m.cls = .fatalPythonErrorReply then .error (.fatalPythonError (m.sentArg reprNoArg))
    else .ok { m with arg := m.sentArg reprNoArg } := by
  rw [serialize, deserialize, splitColon_append (colon_notMem_str _)]
  simp only [splitColon_append (colon_notMem_str _), Decimal.parseInt_str, getMsgcls_msgid,
    deserializeArg_serializeArg]

/-- **Round trip.**  Only an `ExecCommandReply` without an argument is read as
another message. -/
theorem roundTrip (hcls : m.cls ≠ .fatalPythonErrorReply)
    (harg : m.arg = .noArg → m.cls ≠ .execCommandReply) :
    deserialize (serialize reprNoArg m) = .ok m := by
  have hsent : m.sentArg reprNoArg = m.arg := by
    rw [sentArg]
    split
    · next hreply hnone => exact absurd hreply (harg hnone)
    · rfl
  rw [deserialize_serialize, if_neg hcls, hsent]

theorem roundTrip_colons :
    deserialize (serialize "" ⟨.execCommandReply, -7, .text "a:b"⟩) =
        .ok ⟨.execCommandReply, -7, .text "a:b"⟩ ∧
      deserialize (serialize "" ⟨.ack, 0, .noArg⟩) = .ok ⟨.ack, 0, .noArg⟩ :=
  ⟨roundTrip "" ⟨.execCommandReply, -7, .text "a:b"⟩ nofun nofun,
    roundTrip "" ⟨.ack, 0, .noArg⟩ nofun fun _ => nofun⟩

/-- Neither token begins in a message. -/
theorem notMem_serialize {c : Byte} (hc : c ≠ 45) (hdigit : ¬ (48 ≤ c.toNat ∧ c.toNat ≤ 57))
    (hcolon : c ≠ colon) (hpad : c ≠ Base64.pad) (hvalue : Base64.value? c = none) :
    c ∉ serialize reprNoArg m := by
  have hstr : ∀ n, c ∉ Decimal.str n := by
    intro n h
    rcases Decimal.mem_str h with h | h
    · exact hc h
    · exact hdigit h
  have harg : ∀ arg, c ∉ serializeArg arg := by
    intro arg
    cases arg with
    | noArg => exact List.not_mem_nil
    | text s => exact Base64.notMem_encode hpad hvalue _
    | bytes b => exact Base64.notMem_encode hpad hvalue _
  simp only [serialize, List.mem_append, List.mem_cons, not_or]
  exact ⟨hstr _, hcolon, hstr _, hcolon, harg _⟩

end MsgBase

end InteractiveSessions
