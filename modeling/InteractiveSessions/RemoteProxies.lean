import Mathlib.Tactic

/-!
# `remoteproxies`: what proxies keep in their `__dict__`
-/

namespace InteractiveSessions

/-- `_remote_proxy_session_id` -/
inductive ProxySessionId where
  | none
  | uninitialized
  | id (n : Nat)
  deriving DecidableEq, Repr

namespace ProxySessionId

/-- The `session_id` of the terminal, to be compared with. -/
def ofSession : Option Nat → ProxySessionId
  | .none => .none
  | .some n => .id n

/-- `_get_remote_proxy_session_id_from_remote_name`: `hasName` says whether
`remote_name` is not `None`. -/
def fromRemoteName (hasName : Bool) (sessionId : Option Nat) : ProxySessionId :=
  if hasName then
    match sessionId with
    | .none => .uninitialized
    | .some n => .id n
  else .none

/-- `remote_proxy_verify` raises. -/
def Invalid (own : ProxySessionId) (sessionId : Option Nat) : Prop :=
  own ≠ .uninitialized ∧ (own = .none ∨ own ≠ ofSession sessionId)

instance (own : ProxySessionId) (sessionId : Option Nat) : Decidable (own.Invalid sessionId) :=
  inferInstanceAs (Decidable (_ ∧ _))

theorem invalid_id_iff (n : Nat) (sessionId : Option Nat) :
    (ProxySessionId.id n).Invalid sessionId ↔ sessionId ≠ .some n := by
  cases sessionId with
  | none => simp [Invalid, ofSession]
  | some m => simp [Invalid, ofSession, eq_comm]

end ProxySessionId

/-- A name in the remote Python: one of `runnerhandlerns`, known by its random
part, or that of another object. -/
inductive RemoteName where
  | handle (name : Nat)
  | object (name : String)
  deriving DecidableEq, Repr

/-- The entries of the `__dict__` of a `_RemoteProxy`. -/
structure RemoteProxy where
  handle : Option RemoteName
  spec : List String
  isRemoteOwned : Bool
  sessionId : ProxySessionId
  /-- The wrappers of remote methods. -/
  methods : List String
  /-- The entry `is_remote_owned`, which is not `_is_remote_owned`. -/
  otherIsRemoteOwned : Option Bool
  deriving DecidableEq, Repr

/-- Ways of using a proxy: any operation that is decorated with `autoinitialize`
or `verify`, or an attribute. -/
inductive Access where
  | operation
  | member (name : String)
  deriving DecidableEq, Repr

/-- What comes of it. -/
inductive AccessEnd where
  | invalidProxySession
  /-- `'.'.join([None, name])` -/
  | typeError
  | runs (handle : Option RemoteName)
  deriving DecidableEq, Repr

namespace RemoteProxy

/-- `_RemoteProxy(session, remote_name, local_spec, is_remote_owned)` -/
def new (sessionId : Option Nat) (remoteName : Option RemoteName) (localSpec : List String)
    (isRemoteOwned : Bool) : RemoteProxy where
  handle := remoteName
  spec := localSpec
  isRemoteOwned
  sessionId := .fromRemoteName remoteName.isSome sessionId
  methods := localSpec
  otherIsRemoteOwned := none

/-- `q.set_from_remote_proxy(p)`: what becomes of `q`, for `q` and `p` of the
same terminal. -/
def setFrom (q p : RemoteProxy) : RemoteProxy :=
  { q with
    handle := p.handle
    spec := p.spec
    isRemoteOwned := p.isRemoteOwned
    sessionId := p.sessionId }

/-- `q.set_from_remote_proxy(p)`: what becomes of `p`. -/
def nullify (p : RemoteProxy) : RemoteProxy :=
  { p with otherIsRemoteOwned := some false, handle := none }

def access (p : RemoteProxy) (sessionId : Option Nat) : Access → AccessEnd
  | .operation => if p.sessionId.Invalid sessionId then .invalidProxySession else .runs p.handle
  | .member name =>
    if name ∈ p.methods then
      match p.handle with
      | none => .typeError
      | some handle => .runs (some handle)
    else if p.sessionId.Invalid sessionId then .invalidProxySession
    else
      match p.handle with
      | none => .typeError
      | some handle => .runs (some handle)

/-- Every access raises `InvalidProxySession`. -/
def Rejected (p : RemoteProxy) (sessionId : Option Nat) : Prop :=
  ∀ a, p.access sessionId a = .invalidProxySession

/-- The wrappers of methods do not verify. -/
theorem rejected_iff (p : RemoteProxy) (sessionId : Option Nat) :
    p.Rejected sessionId ↔ p.sessionId.Invalid sessionId ∧ p.methods = [] := by
  constructor
  · intro h
    refine ⟨?_, List.eq_nil_iff_forall_not_mem.mpr fun name hname => ?_⟩
    · by_contra hvalid
      have hoperation := h .operation
      rw [access, if_neg hvalid] at hoperation
      cases hoperation
    · have hmember := h (.member name)
      rw [access, if_pos hname] at hmember
      cases hhandle : p.handle <;> rw [hhandle] at hmember <;> cases hmember
  · rintro ⟨hinvalid, hmethods⟩ a
    cases a with
    | operation => exact if_pos hinvalid
    | member name =>
      rw [access, if_neg (by simp [hmethods])]
      exact if_pos hinvalid

end RemoteProxy

end InteractiveSessions
