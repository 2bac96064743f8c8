import InteractiveSessions.Lib.Dict
import InteractiveSessions.Lib.Prog
import InteractiveSessions.Lib.Runs

/-!
# Responses that come late

A remote call whose response is not there in time raises a `RemoteTimeout`, and the
remote `_RunnerHandler` stores the response.  What the handlers around the call would
have made of the response is collected in the exception while it passes, and applied
by `get_response`:

* `call_returned`, `call_late`: both ways apply the same wraps in the same order;
* `retrieved`: however many further timeouts there are, and whatever else is called
  meanwhile, the response stays stored, and the call that gets it returns what the
  synchronous call returns.

A wrap maps an object to an object, or raises.  Pickling an object and unpickling it
on the other side is the identity here.
-/

namespace InteractiveSessions

namespace Responses

variable {ε ν σ : Type}

/-! ## `runnerexceptions` -/

structure RemoteTimeout (ε ν : Type) where
  responseId : Nat
  responseWrap : ν → Except ε ν

/-- What the calls raise: besides a `RemoteTimeout`, the exception of a remote call or
of a wrap, or `RunnerTerminalSessionBroken`. -/
inductive Exc (ε ν : Type) where
  | remoteTimeout (e : RemoteTimeout ε ν)
  | sessionBroken
  | other (e : ε)

def RemoteTimeout.new (responseId : Nat) : RemoteTimeout ε ν := ⟨responseId, .ok⟩

def RemoteTimeout.addResponseWrap (wrap : ν → Except ε ν) (e : RemoteTimeout ε ν) :
    RemoteTimeout ε ν :=
  { e with responseWrap := fun response => e.responseWrap response >>= wrap }

/-- What a wrap returns or raises. -/
def outcome (x : Except ε ν) : Prog (Exc ε ν) σ ν :=
  match x with
  | .ok v => pure v
  | .error e => Prog.raise (.other e)

def remotetimeouthandler (wrap : ν → Except ε ν) (body : Prog (Exc ε ν) σ ν) :
    Prog (Exc ε ν) σ ν :=
  Prog.tryExcept body fun
    | .remoteTimeout e => some (Prog.raise (.remoteTimeout (e.addResponseWrap wrap)))
    | .sessionBroken | .other _ => none

def responsehandler (function : Prog (Exc ε ν) σ ν) (wrap : ν → Except ε ν) :
    Prog (Exc ε ν) σ ν :=
  remotetimeouthandler wrap do
    let response ← function
    outcome (wrap response)

/-! ## `RunnerHandler` -/

/-- A `_Response`: its `id()`, and what its thread sets in the end. -/
structure Response (ε ν : Type) where
  responseId : Nat
  response : Except ε ν

/-- A serialized pair of a steering string and an object.  The steering strings of
values go with the objects. -/
inductive Output (ε ν : Type) where
  | value (v : ν)
  | exception (e : ε)
  | timeout (responseId : Nat)

/-- The stored responses, each under its own id. -/
structure RunnerHandler (ε ν : Type) where
  responses : Dict Nat (Response ε ν)
  keyed : ∀ x ∈ responses.items, x.2.responseId = x.1

namespace RunnerHandler

def empty : RunnerHandler ε ν := ⟨.empty, fun _ hx => absurd hx List.not_mem_nil⟩

def addResponse (r : Response ε ν) (s : RunnerHandler ε ν) : RunnerHandler ε ν :=
  { responses := s.responses.set r.responseId r
    keyed := fun x hx => by
      rcases Dict.mem_set.mp hx with rfl | ⟨-, hx⟩
      · rfl
      · exact s.keyed x hx }

def removeResponse (responseId : Nat) (s : RunnerHandler ε ν) : RunnerHandler ε ν :=
  { responses := s.responses.erase responseId
    keyed := fun x hx => s.keyed x (Dict.mem_erase.mp hx).2 }

theorem responseId_of_get? {s : RunnerHandler ε ν} {responseId : Nat} {r : Response ε ν}
    (h : s.responses.get? responseId = some r) : r.responseId = responseId :=
  s.keyed _ (Dict.get?_eq_some.mp h)

end RunnerHandler

def Response.serialize (r : Response ε ν) : Output ε ν :=
  match r.response with
  | .ok v => .value v
  | .error e => .exception e

/-- `get_response_with_timeout`.  `late`: the timeout is negative, or the thread is
alive after it. -/
def Response.getResponseWithTimeout {η : Type} (r : Response ε ν) (late : Bool) :
    Prog η (RunnerHandler ε ν) (Output ε ν) :=
  if late then do
    Prog.modify (RunnerHandler.addResponse r)
    pure (.timeout r.responseId)
  else do
    Prog.modify (RunnerHandler.removeResponse r.responseId)
    pure r.serialize

/-- `run_in_thread` of a new `_Response` -/
def Response.runInThread (r : Response ε ν) (late : Bool) :
    Prog (Exc ε ν) (RunnerHandler ε ν) (Output ε ν) := r.getResponseWithTimeout late

/-- `get_response`.  That the id is not there ends the remote command with a
`KeyError`. -/
def RunnerHandler.getResponse (responseId : Nat) (late : Bool) :
    Prog (Exc ε ν) (RunnerHandler ε ν) (Output ε ν) := do
  let r ← Prog.gets fun s : RunnerHandler ε ν => s.responses.get? responseId
  match r with
  | none => Prog.raise .sessionBroken
  | some r => r.getResponseWithTimeout late

/-! ## `runnerterminal` -/

def identityOrRaise (out : Output ε ν) : Prog (Exc ε ν) σ ν :=
  match out with
  | .value v => pure v
  | .exception e => Prog.raise (.other e)
  | .timeout responseId => Prog.raise (.remoteTimeout (.new responseId))

/-- `run` of a `_RemoteRunner` with this `_response` -/
def remoteRun (response : ν → Except ε ν) (request : Prog (Exc ε ν) σ (Output ε ν)) :
    Prog (Exc ε ν) σ ν :=
  remotetimeouthandler response do
    let out ← request
    let v ← identityOrRaise out
    outcome (response v)

/-- `get_response`, which runs a `_TimeoutRemoteRunner`. -/
def getResponse (remotetimeout : RemoteTimeout ε ν) (late : Bool) :
    Prog (Exc ε ν) (RunnerHandler ε ν) ν :=
  remotetimeouthandler remotetimeout.responseWrap do
    let v ← remoteRun .ok (RunnerHandler.getResponse remotetimeout.responseId late)
    outcome (remotetimeout.responseWrap v)

/-- A remote call within handlers, the innermost first.  The first wrap is the
`_response` of the `_RemoteRunner`. -/
def call (response : ν → Except ε ν) (wraps : List (ν → Except ε ν)) (r : Response ε ν)
    (late : Bool) : Prog (Exc ε ν) (RunnerHandler ε ν) ν :=
  wraps.foldl responsehandler (remoteRun response (r.runInThread late))

/-! ## The wraps are composed in the same order -/

/-- One wrap after the other. -/
def composed (wraps : List (ν → Except ε ν)) (v : ν) : Except ε ν :=
  wraps.foldlM (fun v wrap => wrap v) v

theorem composed_cons (wrap : ν → Except ε ν) (wraps : List (ν → Except ε ν)) (v : ν) :
    composed (wrap :: wraps) v = wrap v >>= composed wraps := List.foldlM_cons ..

/-- Wraps that do not raise. -/
theorem composed_pure (wraps : List (ν → ν)) (v : ν) :
    composed (wraps.map fun wrap v => (Except.ok (wrap v) : Except ε ν)) v =
      .ok (wraps.foldl (fun v wrap => wrap v) v) := by
  induction wraps generalizing v with
  | nil => rfl
  | cons wrap wraps ih => exact ih (wrap v)

section
variable {body : Prog (Exc ε ν) σ ν} {s s' : σ} {wrap : ν → Except ε ν}
  {wraps : List (ν → Except ε ν)}

theorem remotetimeouthandler_ret {v : ν} (h : body s = .ret v s') :
    remotetimeouthandler wrap body s = .ret v s' := Prog.tryExcept_ret h

theorem remotetimeouthandler_late {e : RemoteTimeout ε ν}
    (h : body s = .raised (.remoteTimeout e) s') :
    remotetimeouthandler wrap body s = .raised (.remoteTimeout (e.addResponseWrap wrap)) s' :=
  Prog.tryExcept_caught h rfl

theorem remotetimeouthandler_other {x : ε} (h : body s = .raised (.other x) s') :
    remotetimeouthandler wrap body s = .raised (.other x) s' :=
  Prog.tryExcept_uncaught h rfl

/-- A handler lets through what is made of a response. -/
theorem remotetimeouthandler_outcome {x : Except ε ν} (h : body s = outcome x s') :
    remotetimeouthandler wrap body s = outcome x s' := by
  cases x with
  | ok v => exact remotetimeouthandler_ret h
  | error e => exact remotetimeouthandler_other h

/-- **In time.**  The handlers apply their wraps. -/
theorem foldl_responsehandler_outcome (wraps : List (ν → Except ε ν)) {x : Except ε ν}
    (h : body s = outcome x s') :
    wraps.foldl responsehandler body s = outcome (x >>= composed wraps) s' := by
  induction wraps generalizing body x with
  | nil =>
    have hnil : x >>= composed [] = x := bind_pure x
    rw [hnil]
    exact h
  | cons wrap wraps ih =>
    have hwrap : responsehandler body wrap s = outcome (x >>= wrap) s' := by
      cases x with
      | ok v => exact remotetimeouthandler_outcome (Prog.bind_ret h)
      | error e => exact remotetimeouthandler_other (Prog.bind_raised h)
    have hassoc : x >>= composed (wrap :: wraps) = x >>= wrap >>= composed wraps := by
      rw [bind_assoc]
      exact congrArg _ (funext (composed_cons wrap wraps))
    rw [List.foldl_cons, hassoc]
    exact ih hwrap

theorem RemoteTimeout.addResponseWrap_add (e : RemoteTimeout ε ν) :
    (e.addResponseWrap wrap).addResponseWrap (composed wraps) =
      e.addResponseWrap (composed (wrap :: wraps)) := by
  unfold addResponseWrap
  congr 1
  funext v
  rw [bind_assoc]
  exact (congrArg _ (funext (composed_cons wrap wraps))).symm

/-- **Late.**  The exception collects them. -/
theorem foldl_responsehandler_late (wraps : List (ν → Except ε ν)) {e : RemoteTimeout ε ν}
    (h : body s = .raised (.remoteTimeout e) s') :
    wraps.foldl responsehandler body s =
      .raised (.remoteTimeout (e.addResponseWrap (composed wraps))) s' := by
  induction wraps generalizing body e with
  | nil =>
    have hnil : e.addResponseWrap (composed []) = e := by
      unfold RemoteTimeout.addResponseWrap
      congr 1
      exact funext fun v => bind_pure (e.responseWrap v)
    rw [hnil]
    exact h
  | cons wrap wraps ih =>
    rw [← RemoteTimeout.addResponseWrap_add]
    exact ih (remotetimeouthandler_late (Prog.bind_raised h))

end

/-! ## One request -/

/-- What the response becomes when it is there. -/
def answer (response : ν → Except ε ν) (wraps : List (ν → Except ε ν)) (r : Response ε ν) :
    Except ε ν := r.response >>= composed (response :: wraps)

variable {response : ν → Except ε ν} {wraps : List (ν → Except ε ν)} {r : Response ε ν}
  {s : RunnerHandler ε ν}

theorem remoteRun_returned {request : Prog (Exc ε ν) (RunnerHandler ε ν) (Output ε ν)}
    {s' : RunnerHandler ε ν} (h : request s = .ret r.serialize s') :
    remoteRun response request s = outcome (r.response >>= response) s' := by
  refine remotetimeouthandler_outcome ((Prog.bind_ret h).trans ?_)
  unfold Response.serialize
  cases r.response with
  | ok v => rfl
  | error e => rfl

theorem remoteRun_late {request : Prog (Exc ε ν) (RunnerHandler ε ν) (Output ε ν)}
    {s' : RunnerHandler ε ν} {responseId : Nat} (h : request s = .ret (.timeout responseId) s') :
    remoteRun response request s = .raised (.remoteTimeout ⟨responseId, response⟩) s' :=
  remotetimeouthandler_late (e := .new responseId) (Prog.bind_ret h)

/-- **The synchronous call.** -/
theorem call_returned :
    call response wraps r false s =
      outcome (answer response wraps r) (s.removeResponse r.responseId) := by
  have hrun : remoteRun response (r.runInThread false) s =
      outcome (r.response >>= response) (s.removeResponse r.responseId) := remoteRun_returned rfl
  rw [call, foldl_responsehandler_outcome wraps hrun, answer, bind_assoc]
  rfl

/-- **The first timeout.** -/
theorem call_late :
    call response wraps r true s =
      .raised (.remoteTimeout ⟨r.responseId, composed (response :: wraps)⟩) (s.addResponse r) := by
  have hrun : remoteRun response (r.runInThread true) s =
      .raised (.remoteTimeout ⟨r.responseId, response⟩) (s.addResponse r) := remoteRun_late rfl
  rw [call, foldl_responsehandler_late wraps hrun]
  rfl

theorem composed_singleton (wrap : ν → Except ε ν) : composed [wrap] = wrap :=
  funext fun v => bind_pure (wrap v)

theorem handlerGetResponse_run {responseId : Nat} (hget : s.responses.get? responseId = some r)
    (late : Bool) :
    RunnerHandler.getResponse responseId late s = r.getResponseWithTimeout late s := by
  rw [RunnerHandler.getResponse, Prog.bind_run, Prog.gets_run]
  dsimp only
  rw [hget]

variable {e : RemoteTimeout ε ν}

/-- **A retrieval.** -/
theorem getResponse_returned (hget : s.responses.get? e.responseId = some r) :
    getResponse e false s =
      outcome (r.response >>= e.responseWrap) (s.removeResponse r.responseId) := by
  have hrun : remoteRun .ok (RunnerHandler.getResponse e.responseId false) s =
      outcome (r.response >>= .ok) (s.removeResponse r.responseId) :=
    remoteRun_returned (handlerGetResponse_run hget false)
  have hid : r.response >>= .ok = r.response := bind_pure r.response
  rw [hid] at hrun
  have hwrap := foldl_responsehandler_outcome [e.responseWrap] hrun
  rw [composed_singleton] at hwrap
  exact hwrap

/-- **A further timeout** has the wraps of the one that it was asked with. -/
theorem getResponse_late (hget : s.responses.get? e.responseId = some r) :
    getResponse e true s =
      .raised (.remoteTimeout ⟨r.responseId, e.responseWrap⟩) (s.addResponse r) := by
  have hrun : remoteRun .ok (RunnerHandler.getResponse e.responseId true) s =
      .raised (.remoteTimeout ⟨r.responseId, .ok⟩) (s.addResponse r) :=
    remoteRun_late (handlerGetResponse_run hget true)
  have hwrap := foldl_responsehandler_late [e.responseWrap] hrun
  rw [composed_singleton] at hwrap
  exact hwrap

/-! ## Runs -/

/-- The terminal of a caller who waits for a response: the `RemoteTimeout` of the call,
the latest one, and what a retrieval has returned or raised. -/
structure Caller (ε ν : Type) where
  handler : RunnerHandler ε ν
  original : RemoteTimeout ε ν
  latest : RemoteTimeout ε ν
  result : Option (Except (Exc ε ν) ν)

/-- What happens: another call, a retrieval of another response, or one of this
response with the original or the latest `RemoteTimeout`. -/
inductive Action (ε ν : Type) where
  | run (r : Response ε ν) (late : Bool)
  | fetch (responseId : Nat) (late : Bool)
  | getResponse (original : Bool) (late : Bool)

/-- The `id()` of a new object differs from those of the stored ones, and only the
caller asks for this response. -/
def Ok (a : Action ε ν) (c : Caller ε ν) : Prop :=
  match a with
  | .run r _ => r.responseId ∉ c.handler.responses.keys
  | .fetch responseId _ => responseId ≠ c.original.responseId
  | .getResponse .. => True

/-- A retrieval that ends without a `RemoteTimeout` gives the result. -/
def Caller.receive (c : Caller ε ν) : Outcome (Exc ε ν) (RunnerHandler ε ν) ν → Caller ε ν
  | .ret v s => { c with handler := s, result := some (.ok v) }
  | .raised (.remoteTimeout e) s => { c with handler := s, latest := e }
  | .raised x s => { c with handler := s, result := some (.error x) }
  | .hang => c

def step (a : Action ε ν) (c : Caller ε ν) : Caller ε ν :=
  match a with
  | .run r late => { c with handler := (r.runInThread late c.handler).state c.handler }
  | .fetch responseId late =>
    { c with
      handler := (RunnerHandler.getResponse responseId late c.handler).state c.handler }
  | .getResponse original late =>
    match c.result with
    | some _ => c
    | none =>
      c.receive (getResponse (if original then c.original else c.latest) late c.handler)

/-- The caller waits for `r`, which is stored. -/
structure Waits (r : Response ε ν) (wrap : ν → Except ε ν) (c : Caller ε ν) : Prop where
  stored : c.handler.responses.get? r.responseId = some r
  original : c.original = ⟨r.responseId, wrap⟩
  latest : c.latest = ⟨r.responseId, wrap⟩
  result : c.result = none

/-- A request about another response leaves this one stored. -/
theorem get?_getResponseWithTimeout {r' : Response ε ν} {late : Bool}
    (hget : s.responses.get? r.responseId = some r) (hne : r.responseId ≠ r'.responseId) :
    (((r'.getResponseWithTimeout late : Prog (Exc ε ν) _ _) s).state s).responses.get?
      r.responseId = some r := by
  cases late with
  | true =>
    show (s.responses.set r'.responseId r').get? r.responseId = some r
    rw [Dict.get?_set_of_ne hne, hget]
  | false =>
    show (s.responses.erase r'.responseId).get? r.responseId = some r
    rw [Dict.get?_erase_of_ne hne, hget]

theorem get?_handlerGetResponse {responseId : Nat} {late : Bool}
    (hget : s.responses.get? r.responseId = some r) (hne : r.responseId ≠ responseId) :
    ((RunnerHandler.getResponse responseId late s).state s).responses.get? r.responseId =
      some r := by
  cases hother : s.responses.get? responseId with
  | none =>
    rw [RunnerHandler.getResponse, Prog.bind_run, Prog.gets_run]
    dsimp only
    rw [hother]
    exact hget
  | some r' =>
    have hid := RunnerHandler.responseId_of_get? hother
    rw [handlerGetResponse_run hother]
    exact get?_getResponseWithTimeout hget (hid ▸ hne)

variable {wrap : ν → Except ε ν} {c : Caller ε ν}

/-- **Step.**  Whatever happens but a retrieval in time, the caller goes on waiting. -/
theorem Waits.step (h : Waits r wrap c) {a : Action ε ν} (hok : Ok a c)
    (ha : ∀ original, a ≠ .getResponse original false) : Waits r wrap (step a c) := by
  cases a with
  | run r' late =>
    refine ⟨get?_getResponseWithTimeout h.stored fun heq => hok ?_, h.original, h.latest, h.result⟩
    rw [← heq]
    exact Dict.mem_keys_of_mem (Dict.get?_eq_some.mp h.stored)
  | fetch responseId late =>
    have hne : responseId ≠ c.original.responseId := hok
    rw [h.original] at hne
    exact ⟨get?_handlerGetResponse h.stored (Ne.symm hne), h.original, h.latest, h.result⟩
  | getResponse original late =>
    cases late with
    | false => exact absurd rfl (ha original)
    | true =>
      have hasked : (if original then c.original else c.latest) = ⟨r.responseId, wrap⟩ := by
        cases original
        · exact h.latest
        · exact h.original
      have hlate := getResponse_late (e := ⟨r.responseId, wrap⟩) h.stored
      have hstep : Responses.step (.getResponse original true) c =
          { c with handler := c.handler.addResponse r, latest := ⟨r.responseId, wrap⟩ } := by
        simp only [Responses.step, h.result, hasked, hlate, Caller.receive]
      rw [hstep]
      exact ⟨Dict.get?_set_self, h.original, rfl, h.result⟩

/-- **The retrieval in time.** -/
theorem Waits.delivered (h : Waits r wrap c) (original : Bool) :
    (Responses.step (.getResponse original false) c).result =
        some ((r.response >>= wrap).mapError Exc.other) ∧
      (Responses.step (.getResponse original false) c).handler.responses.get? r.responseId =
        none := by
  have hasked : (if original then c.original else c.latest) = ⟨r.responseId, wrap⟩ := by
    cases original
    · exact h.latest
    · exact h.original
  have hget := getResponse_returned (e := ⟨r.responseId, wrap⟩) h.stored
  have hstep : Responses.step (.getResponse original false) c =
      c.receive (outcome (r.response >>= wrap) (c.handler.removeResponse r.responseId)) := by
    simp only [Responses.step, h.result, hasked, hget]
  rw [hstep]
  cases r.response >>= wrap with
  | ok v => exact ⟨rfl, Dict.get?_erase_self⟩
  | error x => exact ⟨rfl, Dict.get?_erase_self⟩

theorem Waits.run (as : List (Action ε ν)) (h : Waits r wrap c) (hok : Along Responses.step Ok as c)
    (has : ∀ original, Action.getResponse original false ∉ as) :
    Waits r wrap (as.foldl (fun c a => Responses.step a c) c) := by
  induction as generalizing c with
  | nil => exact h
  | cons a as ih =>
    refine ih (h.step hok.1 fun original heq => has original (heq ▸ List.mem_cons_self ..)) hok.2
      fun original hmem => has original (List.mem_cons_of_mem _ hmem)

/-- What a call returns or raises. -/
def result? : Outcome (Exc ε ν) σ ν → Option (Except (Exc ε ν) ν)
  | .ret v _ => some (.ok v)
  | .raised x _ => some (.error x)
  | .hang => none

theorem result?_outcome (x : Except ε ν) (s : σ) :
    result? (outcome x s : Outcome (Exc ε ν) σ ν) = some (x.mapError Exc.other) := by
  cases x <;> rfl

/-- **Late or in time.**  The first call that times out stores the response, which stays
stored in every run, until a retrieval in time returns what the synchronous call
returns, and removes it. -/
theorem retrieved (response : ν → Except ε ν) (wraps : List (ν → Except ε ν)) (r : Response ε ν)
    (s : RunnerHandler ε ν) :
    result? (call response wraps r false s) =
        some ((r.response >>= composed (response :: wraps)).mapError Exc.other) ∧
      ∃ e s₁, call response wraps r true s = .raised (.remoteTimeout e) s₁ ∧
        ∀ as : List (Action ε ν), Along step Ok as ⟨s₁, e, e, none⟩ →
          (∀ original, Action.getResponse original false ∉ as) →
          let c := as.foldl (fun c a => step a c) ⟨s₁, e, e, none⟩
          c.result = none ∧ c.handler.responses.get? r.responseId = some r ∧
            ∀ original, let c' := step (.getResponse original false) c
              c'.result = result? (call response wraps r false s) ∧
                c'.handler.responses.get? r.responseId = none := by
  have hsync : result? (call response wraps r false s) =
      some ((r.response >>= composed (response :: wraps)).mapError Exc.other) := by
    rw [call_returned, result?_outcome, answer]
  refine ⟨hsync, _, _, call_late, fun as hok has => ?_⟩
  have hwaits : Waits r (composed (response :: wraps))
      ⟨s.addResponse r, ⟨r.responseId, composed (response :: wraps)⟩,
        ⟨r.responseId, composed (response :: wraps)⟩, none⟩ :=
    ⟨Dict.get?_set_self, rfl, rfl, rfl⟩
  have hend := hwaits.run as hok has
  refine ⟨hend.result, hend.stored, fun original => ?_⟩
  obtain ⟨hresult, hremoved⟩ := hend.delivered original
  exact ⟨hresult.trans hsync.symm, hremoved⟩

/-- Another call comes late and is asked for, and the response itself is too late twice. -/
def twiceLate : List (Action String Nat) :=
  [.getResponse true true, .run ⟨8, .ok 2⟩ true, .fetch 8 false, .getResponse false true]

/-- The response is wrapped twice. -/
theorem retrieved_twiceLate :
    let r : Response String Nat := ⟨7, .ok 4⟩
    let wraps : List (Nat → Except String Nat) := [fun v => .ok (v * 10)]
    ∃ e s₁, call (fun v => .ok (v + 1)) wraps r true .empty = .raised (.remoteTimeout e) s₁ ∧
      let c := twiceLate.foldl (fun c a => step a c) ⟨s₁, e, e, none⟩
      c.result = none ∧ (step (.getResponse false false) c).result = some (.ok 50) := by
  intro r wraps
  obtain ⟨hsync, e, s₁, hlate, hrun⟩ := retrieved (fun v => .ok (v + 1)) wraps r .empty
  refine ⟨e, s₁, hlate, ?_⟩
  rw [call_late] at hlate
  cases hlate
  have hok : Along step Ok twiceLate ⟨RunnerHandler.empty.addResponse r,
      ⟨r.responseId, composed ((fun v => .ok (v + 1)) :: wraps)⟩,
      ⟨r.responseId, composed ((fun v => .ok (v + 1)) :: wraps)⟩, none⟩ := by
    refine ⟨trivial, ?_, ?_, trivial, trivial⟩
    · show (8 : Nat) ∉ [7]
      decide
    · show (8 : Nat) ≠ 7
      decide
  have hend := hrun twiceLate hok fun original hmem => by
    cases original <;> simp [twiceLate] at hmem
  refine ⟨hend.1, (hend.2.2 false).1.trans hsync⟩

end Responses

end InteractiveSessions
