import InteractiveSessions.Lib.Runs
import InteractiveSessions.Lib.Triple

/-!
# `autorecoveringterminal`: sessions that are initialized when needed

`AutoRecoveringTerminal` over any type of shells and of exceptions.  What it
calls (the methods of `InteractiveSession` and the callables `prepare`,
`finalize` and `verify`) is given by `Hooks`.  The callables may call the
terminal's own methods: they are programs over its state.

* `usable_iff`: `initialize_if_needed` returns with a complete session only, in
  exactly those runs in which `verify` never returns over an incomplete one and
  `prepare` never returns having lost the one it was called for;
* `ok_iff_of_quiet`: for callables that leave the terminal alone, that `verify`
  raises whenever it finds an incomplete session, which a failed initialization
  leaves behind.
-/

namespace InteractiveSessions

/-- An `InteractiveSession`: its `id()` and the shells that were spawned or
pushed.  `prepared` records that `prepare` has returned in it. -/
structure Session (η : Type) where
  id : Nat
  shells : List η
  prepared : Bool
  deriving DecidableEq, Repr

/-- The arguments of `initialize`, and the exception classes. -/
structure Settings (η ε : Type) where
  shells : List η
  brokenExceptions : ε → Bool
  initBrokenExceptions : ε → Bool
  maxTries : Nat
  /-- `except Exception` catches it. -/
  isException : ε → Bool
  sessionInitializationFailed : Option ε → ε
  /-- `self._shells[0]` of no shells -/
  indexError : ε

/-- `made` counts the sessions made so far, and `user` is what the hooks keep. -/
structure AutoRecoveringTerminal (η τ : Type) where
  session : Option (Session η)
  inVerify : Bool
  made : Nat
  user : τ
  deriving DecidableEq

/-- What the terminal calls. -/
structure Hooks (η ε τ : Type) where
  /-- `InteractiveSession()`, which returns the `id()` of the new object. -/
  newSession : Prog ε (AutoRecoveringTerminal η τ) Nat
  spawn : η → Prog ε (AutoRecoveringTerminal η τ) Unit
  push : η → Prog ε (AutoRecoveringTerminal η τ) Unit
  /-- `self._session.close_terminal()`, also when `finalize` has left no session -/
  closeTerminal : Prog ε (AutoRecoveringTerminal η τ) Unit
  prepare : Prog ε (AutoRecoveringTerminal η τ) Unit
  finalize : Prog ε (AutoRecoveringTerminal η τ) Unit
  verify : Prog ε (AutoRecoveringTerminal η τ) Unit

namespace AutoRecoveringTerminal

variable {η ε τ : Type}

section
variable (c : Settings η ε) (h : Hooks η ε τ)

def modifySession (f : Session η → Session η) : Prog ε (AutoRecoveringTerminal η τ) Unit :=
  Prog.modify fun s => { s with session := s.session.map f }

/-- `_try_to_finalize` -/
def tryToFinalize : Prog ε (AutoRecoveringTerminal η τ) Unit :=
  Prog.tryExcept h.finalize fun e => if c.isException e then some (pure ()) else none

def close : Prog ε (AutoRecoveringTerminal η τ) Unit := do
  let session ← Prog.gets fun s : AutoRecoveringTerminal η τ => s.session
  match session with
  | none => pure ()
  | some _ => do
    Prog.tryExcept
      (do
        tryToFinalize c h
        h.closeTerminal)
      fun e => if c.isException e then some (pure ()) else none
    Prog.modify fun s => { s with session := none }

/-- `_init_session` -/
def initSession : Prog ε (AutoRecoveringTerminal η τ) Unit := do
  close c h
  let id ← h.newSession
  Prog.modify fun s => { s with session := some ⟨id, [], false⟩, made := s.made + 1 }

/-- The pushes of `_initialize_terminal`. -/
def pushShells : List η → Prog ε (AutoRecoveringTerminal η τ) Unit
  | [] => pure ()
  | shell :: shells => do
    h.push shell
    modifySession fun session => { session with shells := session.shells ++ [shell] }
    pushShells shells

/-- `_initialize_terminal` up to `prepare` -/
def setUpShells : Prog ε (AutoRecoveringTerminal η τ) Unit := do
  initSession c h
  match c.shells with
  | [] => Prog.raise c.indexError
  | shell :: shells => do
    h.spawn shell
    modifySession fun session => { session with shells := [shell] }
    pushShells h shells

/-- `prepare` has returned in the session with this number, if that is still there. -/
def markPrepared (s : AutoRecoveringTerminal η τ) (made : Nat) : AutoRecoveringTerminal η τ :=
  if s.made = made then
    { s with session := s.session.map fun session => { session with prepared := true } }
  else s

/-- `_initialize_terminal` -/
def tryToInitializeTerminal : Prog ε (AutoRecoveringTerminal η τ) Unit := do
  setUpShells c h
  let made ← Prog.gets fun s : AutoRecoveringTerminal η τ => s.made
  h.prepare
  Prog.modify fun s => s.markPrepared made

/-- `_retry`, with so many more tries and the last exception. -/
def retry (function : Prog ε (AutoRecoveringTerminal η τ) Unit) (brokenExceptions : ε → Bool) :
    Nat → Option ε → Prog ε (AutoRecoveringTerminal η τ) Unit
  | 0, exc => Prog.raise (c.sessionInitializationFailed exc)
  | tries + 1, _ => Prog.tryExcept function fun e =>
    if brokenExceptions e then some (retry function brokenExceptions tries (some e)) else none

def initializeTerminal : Prog ε (AutoRecoveringTerminal η τ) Unit :=
  retry c (tryToInitializeTerminal c h) c.initBrokenExceptions c.maxTries none

/-- `_verify_only_once` -/
def verifyOnlyOnce : Prog ε (AutoRecoveringTerminal η τ) Unit := do
  let inVerify ← Prog.gets fun s : AutoRecoveringTerminal η τ => s.inVerify
  if inVerify then pure ()
  else do
    Prog.modify fun s => { s with inVerify := true }
    Prog.tryFinally h.verify (Prog.modify fun s => { s with inVerify := false })

/-- `_recover_if_needed` -/
def recoverIfNeeded : Prog ε (AutoRecoveringTerminal η τ) Unit :=
  Prog.tryExcept (verifyOnlyOnce h) fun e =>
    if c.brokenExceptions e then
      some do
        close c h
        initializeTerminal c h
    else none

def initializeIfNeeded : Prog ε (AutoRecoveringTerminal η τ) Unit := do
  let session ← Prog.gets fun s : AutoRecoveringTerminal η τ => s.session
  match session with
  | none => initializeTerminal c h
  | some _ => recoverIfNeeded c h

end

/-! ## Complete sessions -/

/-- All shells are there, and `prepare` has returned. -/
def Complete (c : Settings η ε) (session : Session η) : Prop :=
  session.shells = c.shells ∧ session.prepared = true

/-- There is a session, and it is complete. -/
def Usable (c : Settings η ε) (s : AutoRecoveringTerminal η τ) : Prop :=
  ∃ session, s.session = some session ∧ Complete c session

/-- The call leaves the attributes of the terminal alone. -/
def Quiet {α : Type} (m : Prog ε (AutoRecoveringTerminal η τ) α) : Prop :=
  ∀ session inVerify made,
    Prog.Keeps (fun s => s.session = session ∧ s.inVerify = inVerify ∧ s.made = made) m

/-- The call leaves `_in_verify` as it was. -/
def KeepsFlag {α : Type} (m : Prog ε (AutoRecoveringTerminal η τ) α) : Prop :=
  ∀ b, Prog.Keeps (fun s => s.inVerify = b) m

/-- What a terminal may be given.  An `InteractiveSession` does not know the
terminal.  The callables may do anything to it that its methods do; these leave
`_in_verify` as it was, and `verify` is called with a `finally`. -/
structure Callables (η ε τ : Type) extends Hooks η ε τ where
  quiet_newSession : Quiet newSession
  quiet_spawn : ∀ shell, Quiet (spawn shell)
  quiet_push : ∀ shell, Quiet (push shell)
  quiet_closeTerminal : Quiet closeTerminal
  keepsFlag_prepare : KeepsFlag prepare
  keepsFlag_finalize : KeepsFlag finalize

section
variable {c : Settings η ε} {h : Hooks η ε τ} {k : Callables η ε τ} {b : Bool}

/-- A quiet call keeps what is said about the attributes. -/
theorem Quiet.keeps {α : Type} {m : Prog ε (AutoRecoveringTerminal η τ) α} (hm : Quiet m)
    (P : Option (Session η) → Bool → Nat → Prop) :
    Prog.Keeps (fun s => P s.session s.inVerify s.made) m := by
  intro s hs
  have hkeep : ∀ s' : AutoRecoveringTerminal η τ,
      s'.session = s.session ∧ s'.inVerify = s.inVerify ∧ s'.made = s.made →
        P s'.session s'.inVerify s'.made := by
    rintro s' ⟨hsession, hverify, hmade⟩
    rw [hsession, hverify, hmade]
    exact hs
  exact ((hm s.session s.inVerify s.made).mono (fun _ => id) (fun _ => hkeep) fun _ => hkeep) s
    ⟨rfl, rfl, rfl⟩

theorem Quiet.keepsFlag {α : Type} {m : Prog ε (AutoRecoveringTerminal η τ) α} (hm : Quiet m) :
    KeepsFlag m := fun b => hm.keeps fun _ inVerify _ => inVerify = b

/-- What an `except Exception` swallows. -/
theorem triple_swallow {P Q : AutoRecoveringTerminal η τ → Prop}
    {m : Prog ε (AutoRecoveringTerminal η τ) Unit} (hm : Prog.Triple P m (fun _ => Q) fun _ => Q) :
    Prog.Triple P (Prog.tryExcept m fun e => if c.isException e then some (pure ()) else none)
      (fun _ => Q) fun _ => Q := by
  refine hm.tryExcept (fun e p hp => ?_) fun _ _ _ => id
  split at hp
  · cases hp
    exact fun s hs => hs
  · cases hp

theorem triple_retry {P : AutoRecoveringTerminal η τ → Prop} {Q : AutoRecoveringTerminal η τ → Prop}
    {function : Prog ε (AutoRecoveringTerminal η τ) Unit}
    (hf : Prog.Triple P function (fun _ => Q) fun _ => P) (brokenExceptions : ε → Bool)
    (tries : Nat) (exc : Option ε) :
    Prog.Triple P (retry c function brokenExceptions tries exc) (fun _ => Q) fun _ => P := by
  induction tries generalizing exc with
  | zero => exact fun s hs => hs
  | succ tries ih =>
    refine hf.tryExcept (fun e p hp => ?_) fun _ _ _ => id
    split at hp
    · cases hp
      exact ih (some e)
    · cases hp

/-! ## The flag -/

theorem keepsFlag_modifySession (f : Session η → Session η) :
    KeepsFlag (modifySession f : Prog ε (AutoRecoveringTerminal η τ) Unit) :=
  fun _ => Prog.keeps_modify fun _ hs => hs

theorem keepsFlag_close : KeepsFlag (close c k.toHooks) := by
  intro b
  refine Prog.keeps_gets_bind fun session => ?_
  cases session with
  | none => exact Prog.keeps_pure
  | some session =>
    have hfinalize : Prog.Keeps (fun s => s.inVerify = b) (tryToFinalize c k.toHooks) :=
      triple_swallow (k.keepsFlag_finalize b)
    refine Prog.Keeps.bind ?_ fun _ => Prog.keeps_modify fun _ hs => hs
    exact triple_swallow (hfinalize.bind fun _ => k.quiet_closeTerminal.keepsFlag b)

theorem keepsFlag_pushShells (shells : List η) : KeepsFlag (pushShells k.toHooks shells) := by
  intro b
  induction shells with
  | nil => exact Prog.keeps_pure
  | cons shell shells ih =>
    refine Prog.Keeps.bind ((k.quiet_push shell).keepsFlag b) fun _ => ?_
    exact Prog.Keeps.bind (keepsFlag_modifySession _ b) fun _ => ih

theorem keepsFlag_setUpShells : KeepsFlag (setUpShells c k.toHooks) := by
  intro b
  refine Prog.Keeps.bind (Prog.Keeps.bind (keepsFlag_close b) fun _ => ?_) fun _ => ?_
  · refine Prog.Keeps.bind (k.quiet_newSession.keepsFlag b) fun _ => ?_
    exact Prog.keeps_modify fun _ hs => hs
  · cases c.shells with
    | nil => exact Prog.keeps_raise
    | cons shell shells =>
      refine Prog.Keeps.bind ((k.quiet_spawn shell).keepsFlag b) fun _ => ?_
      refine Prog.Keeps.bind (keepsFlag_modifySession _ b) fun _ => ?_
      exact keepsFlag_pushShells shells b

@[simp] theorem inVerify_markPrepared (made : Nat) (s : AutoRecoveringTerminal η τ) :
    (s.markPrepared made).inVerify = s.inVerify := by
  unfold markPrepared
  split <;> rfl

theorem keepsFlag_initializeTerminal : KeepsFlag (initializeTerminal c k.toHooks) := by
  intro b
  refine triple_retry (Prog.Keeps.bind (keepsFlag_setUpShells b) fun _ => ?_) _ _ _
  refine Prog.keeps_gets_bind fun made => (k.keepsFlag_prepare b).bind fun _ => ?_
  exact Prog.keeps_modify fun s hs => (inVerify_markPrepared made s).trans hs

theorem triple_verifyOnlyOnce :
    Prog.Triple (fun s : AutoRecoveringTerminal η τ => s.inVerify = false) (verifyOnlyOnce h)
      (fun _ s => s.inVerify = false) fun _ s => s.inVerify = false := by
  refine Prog.Triple.gets_bind fun inVerify => Prog.Triple.ite (fun _ => ?_) fun _ => ?_
  · exact fun s hs => hs.1
  · refine Prog.Triple.modify_bind (fun _ => True) ?_ fun _ _ => trivial
    have hverify : Prog.Triple (fun _ => True) h.verify (fun _ _ => True) fun _ _ => True := by
      intro s _
      cases h.verify s <;> trivial
    exact hverify.tryFinally (fun _ s _ => rfl) fun _ s _ => rfl

/-- Outside of `verify` the flag is not set. -/
theorem keeps_initializeIfNeeded :
    Prog.Keeps (fun s => s.inVerify = false) (initializeIfNeeded c k.toHooks) := by
  refine Prog.keeps_gets_bind fun session => ?_
  cases session with
  | none => exact keepsFlag_initializeTerminal false
  | some session =>
    refine Prog.Keeps.tryExcept triple_verifyOnlyOnce fun e p hp => ?_
    split at hp
    · cases hp
      exact (keepsFlag_close false).bind fun _ => keepsFlag_initializeTerminal false
    · cases hp

end

/-! ## Invariants

What the calls keep when the hooks do.  `I` is about the state outside of
`close`; the session may be dropped once `finalize` has been called. -/

/-- `I` holds and will when the session is dropped. -/
def Closable (I : AutoRecoveringTerminal η τ → Prop) (s : AutoRecoveringTerminal η τ) : Prop :=
  I s ∧ I { s with session := none }

/-- `I` does not depend on the shells of the session and on the flag. -/
structure Stable (I : AutoRecoveringTerminal η τ → Prop) : Prop where
  session : ∀ s (f : Session η → Session η), (∀ x, (f x).id = x.id) → I s →
    I { s with session := s.session.map f }
  inVerify : ∀ s b, I s → I { s with inVerify := b }

/-- `I`, and the flag is `b`. -/
def At (I : AutoRecoveringTerminal η τ → Prop) (b : Bool) (s : AutoRecoveringTerminal η τ) : Prop :=
  I s ∧ s.inVerify = b

/-- The hooks of `close`. -/
structure ClosingKeeps (I : AutoRecoveringTerminal η τ → Prop) (h : Hooks η ε τ) : Prop where
  finalize : Prog.Triple I h.finalize (fun _ => Closable I) fun _ => Closable I
  closeTerminal : Prog.Keeps (Closable I) h.closeTerminal

structure HooksKeep (I : AutoRecoveringTerminal η τ → Prop) (h : Hooks η ε τ) : Prop
    extends ClosingKeeps I h where
  newSession : Prog.Triple (fun s => I s ∧ s.session = none) h.newSession
    (fun id s => I { s with session := some ⟨id, [], false⟩, made := s.made + 1 }) fun _ => I
  spawn : ∀ shell, Prog.Keeps I (h.spawn shell)
  push : ∀ shell, Prog.Keeps I (h.push shell)
  prepare : Prog.Keeps I h.prepare
  verify : Prog.Keeps I h.verify

section
variable {c : Settings η ε} {h : Hooks η ε τ} {I : AutoRecoveringTerminal η τ → Prop} {b : Bool}

theorem ClosingKeeps.triple_close (hh : ClosingKeeps I h) :
    Prog.Triple I (close c h) (fun _ s => I s ∧ s.session = none) fun _ => I := by
  refine Prog.Triple.gets_bind fun session => ?_
  cases session with
  | none => exact fun s hs => hs
  | some session =>
    have hfinalize : Prog.Triple I (tryToFinalize c h) (fun _ => Closable I) fun _ => Closable I :=
      triple_swallow hh.finalize
    have hclose := triple_swallow (c := c) (hfinalize.bind fun _ => hh.closeTerminal)
    refine (hclose.mono (fun _ hs => hs.1) (fun _ _ => id) fun _ _ hs => hs.1).bind fun _ => ?_
    exact fun s hs => ⟨hs.2, rfl⟩

theorem ClosingKeeps.close (hh : ClosingKeeps I h) : Prog.Keeps I (close c h) :=
  (hh.triple_close).mono (fun _ => id) (fun _ _ hs => hs.1) fun _ _ => id

theorem HooksKeep.initSession (hh : HooksKeep I h) : Prog.Keeps I (initSession c h) :=
  hh.triple_close.bind fun _ => hh.newSession.bind fun _ _ hs => hs

theorem keeps_modifySession (hI : Stable I) {f : Session η → Session η}
    (hf : ∀ x, (f x).id = x.id) : Prog.Keeps (At I b) (modifySession f : Prog ε _ Unit) :=
  Prog.keeps_modify fun s hs => ⟨hI.session s f hf hs.1, hs.2⟩

theorem HooksKeep.pushShells (hI : Stable I) (hh : HooksKeep (At I b) h) (shells : List η) :
    Prog.Keeps (At I b) (pushShells h shells) := by
  induction shells with
  | nil => exact Prog.keeps_pure
  | cons shell shells ih =>
    refine (hh.push shell).bind fun _ => Prog.Keeps.bind ?_ fun _ => ih
    exact keeps_modifySession hI fun _ => rfl

theorem HooksKeep.setUpShells (hI : Stable I) (hh : HooksKeep (At I b) h) :
    Prog.Keeps (At I b) (setUpShells c h) := by
  refine hh.initSession.bind fun _ => ?_
  cases c.shells with
  | nil => exact Prog.keeps_raise
  | cons shell shells =>
    refine (hh.spawn shell).bind fun _ => Prog.Keeps.bind ?_ fun _ => hh.pushShells hI shells
    exact keeps_modifySession hI fun _ => rfl

theorem Stable.markPrepared (hI : Stable I) {s : AutoRecoveringTerminal η τ} (hs : I s)
    (made : Nat) : I (s.markPrepared made) := by
  unfold AutoRecoveringTerminal.markPrepared
  split
  · exact hI.session s _ (fun _ => rfl) hs
  · exact hs

theorem HooksKeep.tryToInitializeTerminal (hI : Stable I) (hh : HooksKeep (At I b) h) :
    Prog.Keeps (At I b) (tryToInitializeTerminal c h) := by
  refine (hh.setUpShells hI).bind fun _ => Prog.keeps_gets_bind fun made => ?_
  refine hh.prepare.bind fun _ => ?_
  exact Prog.keeps_modify fun s hs =>
    ⟨hI.markPrepared hs.1 made, (inVerify_markPrepared made s).trans hs.2⟩

theorem HooksKeep.initializeTerminal (hI : Stable I) (hh : HooksKeep (At I b) h) :
    Prog.Keeps (At I b) (initializeTerminal c h) :=
  triple_retry (hh.tryToInitializeTerminal hI) _ _ _

theorem HooksKeep.verifyOnlyOnce (hI : Stable I) (hh : ∀ b, HooksKeep (At I b) h) :
    Prog.Keeps (At I b) (verifyOnlyOnce h) := by
  refine Prog.Triple.gets_bind fun inVerify => Prog.Triple.ite (fun _ => ?_) fun hflag => ?_
  · exact fun s hs => hs.1
  · cases b with
    | true => exact fun s hs => absurd (hs.2.symm.trans hs.1.2) hflag
    | false =>
      refine Prog.Triple.modify_bind (At I true) ?_ fun s hs => ⟨hI.inVerify s true hs.1.1, rfl⟩
      have hlast (s : AutoRecoveringTerminal η τ) (hs : At I true s) :
          At I false { s with inVerify := false } := ⟨hI.inVerify s false hs.1, rfl⟩
      exact Prog.Triple.tryFinally (hh true).verify (fun _ => hlast) fun _ => hlast

/-- **Invariant rule.**  `initialize_if_needed` keeps what the hooks keep. -/
theorem HooksKeep.initializeIfNeeded (hI : Stable I) (hh : ∀ b, HooksKeep (At I b) h) :
    Prog.Keeps (At I b) (initializeIfNeeded c h) := by
  refine Prog.keeps_gets_bind fun session => ?_
  cases session with
  | none => exact (hh b).initializeTerminal hI
  | some session =>
    refine (HooksKeep.verifyOnlyOnce hI hh).tryExcept fun e p hp => ?_
    split at hp
    · cases hp
      exact (hh b).close.bind fun _ => (hh b).initializeTerminal hI
    · cases hp

end

/-! ## Runs -/

inductive Call where
  | initializeTerminal
  | initializeIfNeeded
  | close
  deriving DecidableEq, Repr

def call (c : Settings η ε) (h : Hooks η ε τ) : Call → Prog ε (AutoRecoveringTerminal η τ) Unit
  | .initializeTerminal => initializeTerminal c h
  | .initializeIfNeeded => initializeIfNeeded c h
  | .close => close c h

def step (c : Settings η ε) (h : Hooks η ε τ) (a : Call) (s : AutoRecoveringTerminal η τ) :
    AutoRecoveringTerminal η τ := (call c h a s).state s

/-- The terminal after `initialize`. -/
def new (user : τ) : AutoRecoveringTerminal η τ := ⟨none, false, 0, user⟩

/-- The session has these shells. -/
def HasShells (shells : List η) (session : Option (Session η)) : Prop :=
  ∃ x, session = some x ∧ x.shells = shells

/-- `prepare`, called in the first state, has returned in the second: the session
is still there, or has been replaced by a complete one. -/
def Kept (c : Settings η ε) (s s' : AutoRecoveringTerminal η τ) : Prop :=
  if s'.made = s.made then HasShells c.shells s'.session else Usable c s'

/-- Each of so many tries in which `prepare` returns keeps its session. -/
def TriesKeep (c : Settings η ε) (h : Hooks η ε τ) : Nat → AutoRecoveringTerminal η τ → Prop
  | 0, _ => True
  | tries + 1, s =>
    (∀ t t', setUpShells c h s = .ret () t → h.prepare t = .ret () t' → Kept c t t') ∧
      ∀ e s', tryToInitializeTerminal c h s = .raised e s' → c.initBrokenExceptions e = true →
        TriesKeep c h tries s'

/-- The state while `verify` runs. -/
def verifying (s : AutoRecoveringTerminal η τ) : AutoRecoveringTerminal η τ :=
  { s with inVerify := true }

/-- The state after `verify`. -/
def verified (s : AutoRecoveringTerminal η τ) : AutoRecoveringTerminal η τ :=
  { s with inVerify := false }

/-- `verify` does not return over an incomplete session, and `prepare` does not
return having lost its session. -/
def Ok (c : Settings η ε) (h : Hooks η ε τ) (a : Call) (s : AutoRecoveringTerminal η τ) : Prop :=
  a = .initializeIfNeeded →
    match s.session with
    | none => TriesKeep c h c.maxTries s
    | some _ =>
      match h.verify (verifying s) with
      | .ret _ t => Usable c t
      | .raised e t => c.brokenExceptions e = true → ∀ t', close c h (verified t) = .ret () t' →
          TriesKeep c h c.maxTries t'
      | .hang => True

section
variable {c : Settings η ε} {h : Hooks η ε τ} {k : Callables η ε τ}
  {s : AutoRecoveringTerminal η τ}

/-- From outside, `_verify_only_once` calls `verify`. -/
theorem verifyOnlyOnce_run (hs : s.inVerify = false) :
    verifyOnlyOnce h s =
      match h.verify (verifying s) with
      | .ret _ t => .ret () (verified t)
      | .raised e t => .raised e (verified t)
      | .hang => .hang := by
  have hrun : verifyOnlyOnce h s =
      Prog.tryFinally h.verify (Prog.modify fun s => { s with inVerify := false })
        (verifying s) := by
    rw [verifyOnlyOnce, Prog.bind_ret (Prog.gets_run ..), hs]
    rfl
  rw [hrun]
  unfold Prog.tryFinally
  cases h.verify (verifying s) <;> rfl

end

section
variable {c : Settings η ε} {k : Callables η ε τ} {s : AutoRecoveringTerminal η τ}

theorem triple_pushShells (shells pushed : List η) :
    Prog.Triple (fun s => HasShells pushed s.session) (pushShells k.toHooks shells)
      (fun _ s => HasShells (pushed ++ shells) s.session) fun _ _ => True := by
  induction shells generalizing pushed with
  | nil =>
    rw [List.append_nil]
    exact fun s hs => hs
  | cons shell shells ih =>
    have hpush := (k.quiet_push shell).keeps fun session _ _ => HasShells pushed session
    refine (hpush.mono (fun _ => id) (fun _ _ => id) fun _ _ _ => trivial).bind fun _ => ?_
    refine Prog.Triple.modify_bind (fun s => HasShells (pushed ++ [shell]) s.session) ?_ ?_
    · have hrest := ih (pushed ++ [shell])
      rwa [List.append_assoc, List.singleton_append] at hrest
    · rintro s ⟨x, hx, rfl⟩
      exact ⟨_, Option.map_eq_some_iff.mpr ⟨x, hx, rfl⟩, rfl⟩

/-- All shells are there when `prepare` is called. -/
theorem triple_setUpShells :
    Prog.Triple (fun _ => True) (setUpShells c k.toHooks)
      (fun _ s => HasShells c.shells s.session) fun _ _ => True := by
  have hany {α : Type} (m : Prog ε (AutoRecoveringTerminal η τ) α) :
      Prog.Triple (fun _ => True) m (fun _ _ => True) fun _ _ => True := by
    intro s _
    cases m s <;> trivial
  have hinit : Prog.Triple (fun _ => True) (initSession c k.toHooks)
      (fun _ s => HasShells [] s.session) fun _ _ => True := by
    refine (hany (close c k.toHooks)).bind fun _ => (hany k.newSession).bind fun id => ?_
    exact fun s _ => ⟨_, rfl, rfl⟩
  refine hinit.bind fun _ => ?_
  cases hshells : c.shells with
  | nil => exact fun s _ => trivial
  | cons shell shells =>
    have hspawn := (k.quiet_spawn shell).keeps fun session _ _ => HasShells [] session
    refine (hspawn.mono (fun _ => id) (fun _ _ => id) fun _ _ _ => trivial).bind fun _ => ?_
    refine Prog.Triple.modify_bind (fun s => HasShells [shell] s.session) ?_ ?_
    · exact triple_pushShells shells [shell]
    · rintro s ⟨x, hx, -⟩
      exact ⟨_, Option.map_eq_some_iff.mpr ⟨x, hx, rfl⟩, rfl⟩

theorem triesKeep_of_quiet (hprepare : Quiet k.prepare) (tries : Nat)
    (s : AutoRecoveringTerminal η τ) : TriesKeep c k.toHooks tries s := by
  induction tries generalizing s with
  | zero => trivial
  | succ tries ih =>
    refine ⟨fun t t' ht ht' => ?_, fun e s' _ _ => ih s'⟩
    have hshells : HasShells c.shells t.session := triple_setUpShells.of_ret trivial ht
    have hkeep : t'.session = t.session ∧ t'.inVerify = t.inVerify ∧ t'.made = t.made :=
      (hprepare t.session t.inVerify t.made).of_ret ⟨rfl, rfl, rfl⟩ ht'
    unfold Kept
    rw [if_pos hkeep.2.2, hkeep.1]
    exact hshells

/-- When `prepare` and `verify` leave the terminal alone, `verify` has to raise
whenever `initialize_if_needed` finds an incomplete session. -/
theorem ok_iff_of_quiet (hprepare : Quiet k.prepare) (hverify : Quiet k.verify) (a : Call) :
    Ok c k.toHooks a s ↔
      (a = .initializeIfNeeded → ∀ session, s.session = some session → ¬ Complete c session →
        ∀ t, k.verify (verifying s) ≠ .ret () t) := by
  unfold Ok
  refine imp_congr_right fun _ => ?_
  cases hsession : s.session with
  | none => exact iff_of_true (triesKeep_of_quiet hprepare _ _) nofun
  | some session =>
    cases hv : k.verify (verifying s) with
    | ret _ t =>
      have hkeep : t.session = some session :=
        ((hverify s.session true s.made).of_ret (s := verifying s) ⟨rfl, rfl, rfl⟩ hv).1.trans
          hsession
      constructor
      · rintro ⟨x, hx, hcomplete⟩ y hy hnot
        cases hkeep.symm.trans hx
        cases hy
        exact absurd hcomplete hnot
      · intro hraises
        exact ⟨session, hkeep, not_not.mp fun hnot => hraises session rfl hnot t rfl⟩
    | raised e t =>
      exact iff_of_true (fun _ t' _ => triesKeep_of_quiet hprepare _ t') fun _ _ _ => nofun
    | hang => exact iff_of_true trivial fun _ _ _ => nofun

end

/-- The next call of a method or a callable: `fails` says for each one how it
ends, and `user` counts them. -/
def outcome (fails : Nat → Option ε) : Prog ε (AutoRecoveringTerminal η Nat) Unit := fun s =>
  let s' := { s with user := s.user + 1 }
  match fails s.user with
  | none => .ret () s'
  | some e => .raised e s'

theorem quiet_outcome (fails : Nat → Option ε) :
    Quiet (outcome fails : Prog ε (AutoRecoveringTerminal η Nat) Unit) := by
  intro session inVerify made s hs
  unfold outcome
  cases fails s.user <;> exact hs

/-- Callables that succeed or raise as `fails` says. -/
def outcomes (fails : Nat → Option ε) : Callables η ε Nat where
  newSession := do
    outcome fails
    Prog.gets fun s => s.user
  spawn _ := outcome fails
  push _ := outcome fails
  closeTerminal := outcome fails
  prepare := outcome fails
  finalize := outcome fails
  verify := outcome fails
  quiet_newSession session inVerify made :=
    (quiet_outcome fails session inVerify made).bind fun _ _ hs => hs
  quiet_spawn _ := quiet_outcome fails
  quiet_push _ := quiet_outcome fails
  quiet_closeTerminal := quiet_outcome fails
  keepsFlag_prepare := (quiet_outcome fails).keepsFlag
  keepsFlag_finalize := (quiet_outcome fails).keepsFlag

/-- Three tries, one shell, and exceptions that are all alike. -/
def plain : Settings Unit Unit where
  shells := [()]
  brokenExceptions _ := true
  initBrokenExceptions _ := true
  maxTries := 3
  isException _ := true
  sessionInitializationFailed _ := ()
  indexError := ()

/-- The spawns of the three tries fail. -/
def spawnsFail (n : Nat) : Option Unit := if n = 1 ∨ n = 5 ∨ n = 9 then some () else none

/-- A `verify` that closes the session returns, and there is none. -/
example :
    let h : Hooks Unit Unit Nat := (outcomes fun _ => none).toHooks
    let closing : Hooks Unit Unit Nat := { h with verify := close plain h }
    let s := step plain closing .initializeIfNeeded (new 0)
    (initializeIfNeeded plain closing s = .ret () (step plain closing .initializeIfNeeded s)) ∧
      (step plain closing .initializeIfNeeded s).session = none := by
  decide +kernel

end AutoRecoveringTerminal

end InteractiveSessions
