import InteractiveSessions.Lib.Runs
import InteractiveSessions.Lib.SetOrder
import InteractiveSessions.SelfRepairingSession

/-!
# `SelfRepairingSession`: no session is lost

`close` closes what is in `_sessions`.

* `no_session_lost`: whatever the remote calls raise, every session that was created is
  either in the set or closed, and the current one is in the set;
* `close_closes_all`: after a `close` that returns, every session is closed.
-/

namespace InteractiveSessions

namespace SelfRepairingSession

section
variable (env : Environment)

/-! ## `close` -/

/-- `_finalize_session`: `pop` and `remove_working_directory` at last -/
def finalizeSession : Program Unit := do
  stopAndWarnIfRunning env
  sessionCall env
  sessionCall env

/-- `_close` -/
def closeCurrent : Program Unit := do
  Prog.tryExcept (finalizeSession env) fun _ => some (pure ())
  sessionClose env none

/-- The loop of `close`. -/
def closeLoop : List Nat → Program Unit
  | [] => pure ()
  | session :: rest => do
    Prog.modify fun s => { s with session := some session }
    closeCurrent env
    closeLoop rest

def close (order : SetOrder Nat) : Program Unit := do
  let sessions ← Prog.gets fun s : SelfRepairingSession => s.sessions
  closeLoop env (order.list sessions)

inductive Op where
  | runNoValidate (timeout : ℚ) (rounds : Nat)
  | reset
  | close (order : SetOrder Nat)

def call (a : Op) : Program Unit :=
  match a with
  | .runNoValidate timeout rounds => do
    let _ ← runNoValidate env timeout rounds
  | .reset => reset env
  | .close order => close env order

def step (a : Op) (s : SelfRepairingSession) : SelfRepairingSession := (call env a s).state s

end

/-! ## Sessions that stay as they are -/

/-- The sessions are those of `s₀`. -/
structure Same (s₀ s : SelfRepairingSession) : Prop where
  session : s.session = s₀.session
  sessions : s.sessions = s₀.sessions
  created : s.created = s₀.created
  closed : s.closed = s₀.closed

theorem Same.refl (s : SelfRepairingSession) : Same s s := ⟨rfl, rfl, rfl, rfl⟩

/-- The program leaves the sessions alone, and raises no `KeyError`. -/
def Frames {α : Type} (m : Program α) : Prop :=
  ∀ s₀, Prog.Triple (Same s₀) m (fun _ => Same s₀) fun e s => Same s₀ s ∧ e ≠ .keyError

section
variable {α β : Type} {m : Program α}

/-- A triple about the sessions, in one state. -/
theorem triple_of_same {s₀ : SelfRepairingSession} {Q Q' : α → SelfRepairingSession → Prop}
    {E E' : RepairExc → SelfRepairingSession → Prop} (h : Prog.Triple (Same s₀) m Q E)
    (hQ : ∀ a s, Q a s → Q' a s) (hE : ∀ e s, E e s → E' e s) :
    Prog.Triple (fun s => s = s₀) m Q' E' := by
  refine h.mono ?_ hQ hE
  rintro _ rfl
  exact Same.refl _

theorem frames_pure {a : α} : Frames (pure a : Program α) := fun _ _ hs => hs

theorem frames_raise {e : RepairExc} (h : e ≠ .keyError) : Frames (Prog.raise e : Program α) :=
  fun _ _ hs => ⟨hs, h⟩

theorem Frames.bind {f : α → Program β} (hm : Frames m) (hf : ∀ a, Frames (f a)) :
    Frames (m >>= f) := fun s₀ => (hm s₀).bind fun a => hf a s₀

theorem frames_gets_bind {f : SelfRepairingSession → β} {g : β → Program α}
    (h : ∀ b, Frames (g b)) : Frames (Prog.gets f >>= g) := fun s₀ s hs => h (f s) s₀ s hs

theorem Frames.tryExcept {handler : RepairExc → Option (Program α)} (hm : Frames m)
    (hh : ∀ e p, handler e = some p → Frames p) : Frames (Prog.tryExcept m handler) := by
  intro s₀
  apply (hm s₀).tryExcept
  · exact fun e p hp s hs => hh e p hp s₀ s hs.1
  · exact fun e s _ hs => hs

/-- Something else of the state changes. -/
theorem frames_modify {f : SelfRepairingSession → SelfRepairingSession}
    (hf : ∀ s, Same s (f s)) : Frames (Prog.modify f) := by
  intro s₀ s hs
  have h := hf s
  exact ⟨h.session.trans hs.session, h.sessions.trans hs.sessions, h.created.trans hs.created,
    h.closed.trans hs.closed⟩

theorem frames_currentSession : Frames currentSession := by
  apply frames_gets_bind
  intro session
  cases session with
  | none => exact frames_raise (by simp)
  | some x => exact frames_pure

theorem frames_runnerShell : Frames runnerShell := by
  apply frames_gets_bind
  intro shell
  cases shell with
  | none => exact frames_raise (by simp)
  | some x => exact frames_pure

variable (env : Environment)

theorem frames_remote : Frames (remote env) := by
  intro s₀ s hs
  have hcalled : Same s₀ s.called := ⟨hs.session, hs.sessions, hs.created, hs.closed⟩
  unfold remote
  cases env.raises s.calls with
  | none => exact hcalled
  | some e => exact ⟨hcalled, by simp⟩

theorem frames_runnerRun : Frames (runnerRun env) := by
  refine Frames.bind (frames_modify fun s => ⟨rfl, rfl, rfl, rfl⟩) fun _ => ?_
  apply frames_runnerShell.bind
  intro _
  exact (frames_remote env).bind fun _ => frames_pure

theorem frames_stopAndWarnIfRunning : Frames (stopAndWarnIfRunning env) := by
  apply frames_runnerShell.bind
  intro _
  apply (frames_remote env).bind
  intro call
  split
  · apply (frames_remote env).bind
    intro _
    apply ((frames_remote env).bind fun _ => frames_pure).tryExcept
    intro e p hp
    split at hp
    · cases hp
      exact frames_pure
    · cases hp
  · exact frames_pure

theorem frames_getBackedUpResult (timeout : ℚ) : Frames (getBackedUpResult env timeout) := by
  unfold getBackedUpResult
  induction tries timeout with
  | zero => exact frames_raise (by simp)
  | succ n ih =>
    apply Frames.tryExcept
    · apply frames_runnerShell.bind
      intro _
      exact (frames_remote env).bind fun _ => frames_pure
    · intro e p hp
      split at hp
      · cases hp
        exact ih
      · cases hp

theorem frames_sessionCall : Frames (sessionCall env) := by
  apply frames_currentSession.bind
  intro _
  exact (frames_remote env).bind fun _ => frames_pure

theorem frames_restoreDelaybeforesend : Frames (restoreDelaybeforesend env) := by
  apply frames_currentSession.bind
  intro _
  apply (frames_remote env).bind
  intro _
  exact frames_modify fun s => ⟨rfl, rfl, rfl, rfl⟩

theorem frames_importInShell : Frames (importInShell env) := by
  have himport : Frames (sendImportCommand env) := (frames_remote env).bind fun _ => frames_pure
  apply Frames.tryExcept
  · apply himport.bind
    intro _
    exact frames_modify fun s => ⟨rfl, rfl, rfl, rfl⟩
  · intro e p hp
    split at hp
    · cases hp
      refine Frames.bind (frames_modify fun s => ⟨rfl, rfl, rfl, rfl⟩) fun _ => ?_
      apply Frames.bind (m := transferTextFile env) ((frames_remote env).bind fun _ => frames_pure)
      exact fun _ => himport
    · cases hp

theorem frames_prepareSession : Frames (prepareSession env) := by
  apply Frames.bind
  · apply frames_currentSession.bind
    intro _
    apply (frames_remote env).bind
    intro _
    exact frames_modify fun s => ⟨rfl, rfl, rfl, rfl⟩
  intro _
  apply (frames_sessionCall env).bind
  intro _
  apply (frames_sessionCall env).bind
  intro _
  apply frames_currentSession.bind
  intro x
  apply (frames_importInShell env).bind
  intro _
  exact frames_modify fun s => ⟨rfl, rfl, rfl, rfl⟩

theorem frames_tryToGetBackupResult (timeout : ℚ) : Frames (tryToGetBackupResult env timeout) := by
  apply frames_gets_bind
  intro oldWorkdir
  split
  · apply (frames_getBackedUpResult env timeout).tryExcept
    intro e p hp
    split at hp
    · cases hp
      exact frames_raise (by simp)
    · cases hp
  · exact frames_raise (by simp)

theorem frames_finalizeSession : Frames (finalizeSession env) := by
  apply (frames_stopAndWarnIfRunning env).bind
  intro _
  apply (frames_sessionCall env).bind
  exact fun _ => frames_sessionCall env

end

/-! ## One session is closed -/

/-- The state after `x` was closed, and dropped. -/
def afterClose (x : Nat) (s : SelfRepairingSession) : SelfRepairingSession :=
  drop x { s with closed := insert x s.closed }

section
variable (env : Environment) {s₀ : SelfRepairingSession}

/-- The current session is closed, or nothing has happened. -/
theorem triple_sessionClose {x : Nat} (hx : s₀.session = some x) (hmem : x ∈ s₀.sessions)
    (o : Option Nat) :
    Prog.Triple (Same s₀) (sessionClose env o) (fun _ => Same (afterClose x s₀))
      fun e s => Same s₀ s ∧ e ≠ .keyError := by
  apply (frames_restoreDelaybeforesend env s₀).bind
  intro _ s hs
  have hrun : currentSession s = .ret x s := by
    simp [currentSession, Prog.bind_run, hs.session, hx]
  rw [Prog.bind_ret hrun]
  have hremote := frames_remote env s₀ s hs
  cases hcall : remote env s with
  | ret n s' =>
    rw [hcall] at hremote
    have hmem' : x ∈ s'.sessions := hremote.sessions ▸ hmem
    simp only [Prog.bind_ret hcall, Prog.bind_run, Prog.modify_run, Prog.gets_run, hmem', if_true]
    refine ⟨rfl, ?_, hremote.created, ?_⟩
    · simp only [drop, afterClose, hremote.sessions]
    · simp only [drop, afterClose, hremote.closed]
  | raised e s' =>
    rw [hcall] at hremote
    simp only [Prog.bind_raised hcall]
    exact hremote
  | hang =>
    simp only [Prog.bind_hang hcall]

/-- Without a session it raises. -/
theorem frames_sessionClose_none (hnone : s₀.session = none) (o : Option Nat) :
    Prog.Triple (Same s₀) (sessionClose env o) (fun _ _ => False)
      fun e s => Same s₀ s ∧ e ≠ .keyError := by
  intro s hs
  have hrun : currentSession s = .raised .attributeError s := by
    simp [currentSession, Prog.bind_run, hs.session, hnone]
  have hrestore : restoreDelaybeforesend env s = .raised .attributeError s :=
    Prog.bind_raised hrun
  rw [sessionClose, Prog.bind_raised hrestore]
  exact ⟨hs, by simp⟩

end

/-! ## What every operation keeps -/

/-- Every session that was created is in the set or closed. -/
structure Recorded (s : SelfRepairingSession) : Prop where
  current : ∀ x, s.session = some x → x ∈ s.sessions
  created : ∀ x, x < s.created ↔ x ∈ s.sessions ∨ x ∈ s.closed
  disjoint : Disjoint s.sessions s.closed

section
variable {s₀ s : SelfRepairingSession}

theorem Recorded.same (h : Recorded s₀) (hs : Same s₀ s) : Recorded s := by
  constructor
  · rw [hs.session, hs.sessions]
    exact h.current
  · rw [hs.created, hs.sessions, hs.closed]
    exact h.created
  · rw [hs.sessions, hs.closed]
    exact h.disjoint

theorem Recorded.forget (h : Recorded s) : Recorded { s with session := none } :=
  ⟨by simp, h.created, h.disjoint⟩

theorem Recorded.choose {x : Nat} (h : Recorded s) (hx : x ∈ s.sessions) :
    Recorded { s with session := some x } := by
  refine ⟨fun y hy => ?_, h.created, h.disjoint⟩
  cases hy
  exact hx

/-- The new session has the next number. -/
theorem Recorded.adopt (h : Recorded s) : Recorded s.adopt := by
  have hnew : s.created ∉ s.closed := fun hmem =>
    ((h.created s.created).mpr (.inr hmem)).false
  refine ⟨fun x hx => ?_, fun x => ?_, ?_⟩
  · cases hx
    exact Finset.mem_insert_self ..
  · have hiff := h.created x
    simp only [SelfRepairingSession.adopt, Finset.mem_insert]
    rw [Nat.lt_succ_iff_lt_or_eq, hiff]
    tauto
  · exact Finset.disjoint_insert_left.mpr ⟨hnew, h.disjoint⟩

theorem Recorded.afterClose {x : Nat} (h : Recorded s) (hx : x ∈ s.sessions) :
    Recorded (s.afterClose x) := by
  refine ⟨by simp [SelfRepairingSession.afterClose, drop], fun y => ?_, ?_⟩
  · have hiff := h.created y
    simp only [SelfRepairingSession.afterClose, drop, Finset.mem_erase, Finset.mem_insert]
    by_cases hy : y = x
    · subst hy
      simp [hiff, hx]
    · simp [hiff, hy]
  · refine Finset.disjoint_insert_right.mpr ⟨Finset.notMem_erase x _, ?_⟩
    exact Finset.disjoint_of_subset_left (Finset.erase_subset x _) h.disjoint

end

/-- The program keeps the record, and raises no `KeyError`. -/
def Safe {α : Type} (m : Program α) : Prop :=
  Prog.Triple Recorded m (fun _ => Recorded) fun e s => Recorded s ∧ e ≠ .keyError

section
variable {α β : Type} {m : Program α}

theorem Frames.toSafe (h : Frames m) : Safe m := by
  intro s hs
  have hm := h s s (Same.refl s)
  cases hrun : m s with
  | ret a s' =>
    rw [hrun] at hm
    exact hs.same hm
  | raised e s' =>
    rw [hrun] at hm
    exact ⟨hs.same hm.1, hm.2⟩
  | hang => trivial

theorem Safe.bind {f : α → Program β} (hm : Safe m) (hf : ∀ a, Safe (f a)) : Safe (m >>= f) :=
  Prog.Triple.bind hm hf

theorem Safe.tryExcept {handler : RepairExc → Option (Program α)} (hm : Safe m)
    (hh : ∀ e p, e ≠ .keyError → handler e = some p → Safe p) :
    Safe (Prog.tryExcept m handler) := by
  apply Prog.Triple.tryExcept hm
  · exact fun e p hp s hs => hh e p hs.2 hp s hs.1
  · exact fun e s _ hs => hs

theorem Safe.ifSession {body : Program Unit} (h : Safe body) : Safe (ifSession body) := by
  apply Prog.Triple.gets_bind
  intro session
  split
  · exact h.mono (fun _ hs => hs.1) (fun _ _ hs => hs) fun _ _ hs => hs
  · exact frames_pure.toSafe.mono (fun _ hs => hs.1) (fun _ _ hs => hs) fun _ _ hs => hs

variable (env : Environment)

theorem safe_sessionClose (o : Option Nat) : Safe (sessionClose env o) := by
  intro s hs
  cases hx : s.session with
  | none =>
    refine triple_of_same (frames_sessionClose_none env hx o) (fun _ _ => False.elim) ?_ s rfl
    exact fun e t ht => ⟨hs.same ht.1, ht.2⟩
  | some x =>
    have hmem := hs.current x hx
    refine triple_of_same (triple_sessionClose env hx hmem o) ?_ ?_ s rfl
    · exact fun _ t ht => (hs.afterClose hmem).same ht
    · exact fun e t ht => ⟨hs.same ht.1, ht.2⟩

theorem safe_createNewSession : Safe (createNewSession env) := by
  apply Safe.tryExcept
  · apply Safe.bind
    · apply Safe.ifSession
      exact (frames_stopAndWarnIfRunning env).toSafe.bind fun _ => safe_sessionClose env none
    intro _
    apply (frames_remote env).toSafe.bind
    intro _
    apply Safe.bind (m := Prog.modify SelfRepairingSession.adopt) fun s hs => Recorded.adopt hs
    exact fun _ => (frames_prepareSession env).toSafe
  · intro e p he hp
    cases hp
    exact (safe_sessionClose env none).ifSession.bind fun _ => (frames_raise he).toSafe

theorem safe_tryToCreateNewSession : Safe (tryToCreateNewSession env) := by
  apply (safe_createNewSession env).tryExcept
  intro e p _ hp
  split at hp
  · cases hp
    exact frames_pure.toSafe
  · cases hp

theorem safe_tryToGetHungRunResult (timeout : ℚ) : Safe (tryToGetHungRunResult env timeout) := by
  apply Prog.Triple.gets_bind
  intro originalSession
  refine Prog.Triple.modify_bind Recorded ?_ fun s hs => hs.1.forget
  have hlast : Safe (if originalSession.isSome then sessionClose env originalSession
      else pure ()) := by
    split
    · exact safe_sessionClose env originalSession
    · exact frames_pure.toSafe
  have hbody : Safe (do
      tryToCreateNewSession env
      tryToGetBackupResult env timeout) :=
    (safe_tryToCreateNewSession env).bind fun _ => (frames_tryToGetBackupResult env timeout).toSafe
  apply Prog.Triple.tryFinally hbody (fun _ => hlast)
  -- An exception of the body goes on after the session was closed.
  rintro e s ⟨hs, he⟩
  exact hlast.mono (fun _ => id) (fun _ _ hs' => ⟨hs', he⟩) (fun _ _ => id) s hs

theorem safe_runWithBackup (timeout : ℚ) : Safe (runWithBackup env timeout) := by
  apply (frames_runnerRun env).toSafe.tryExcept
  intro e p _ hp
  split at hp
  · cases hp
    exact (safe_tryToCreateNewSession env).bind fun _ =>
      (frames_getBackedUpResult env timeout).toSafe
  · split at hp
    · cases hp
      exact safe_tryToGetHungRunResult env timeout
    · cases hp

theorem safe_verifySessionAndRun (timeout : ℚ) : Safe (verifySessionAndRun env timeout) := by
  have hverify : Frames verifySession := by
    apply frames_gets_bind
    intro session
    split
    · exact frames_pure
    · exact frames_raise (by simp)
  exact hverify.toSafe.bind fun _ => safe_runWithBackup env timeout

theorem safe_handleSessionNotWorking (retryCount : Nat) :
    Safe (handleSessionNotWorking env retryCount) := by
  apply Prog.Triple.gets_bind
  intro maxRetries
  split
  · exact (safe_tryToCreateNewSession env).mono (fun _ hs => hs.1) (fun _ _ hs => hs)
      fun _ _ hs => hs
  · exact fun s hs => ⟨hs.1, by simp⟩

/-- One round of `run_no_validate`. -/
theorem safe_attempt (timeout : ℚ) (retryCount : Nat) :
    Safe (attempt env timeout retryCount) := by
  apply Safe.tryExcept
  · exact (safe_verifySessionAndRun env timeout).bind fun _ => frames_pure.toSafe
  · intro e p he hp
    split at hp
    · cases hp
      exact (safe_handleSessionNotWorking env retryCount).bind fun _ => frames_pure.toSafe
    · split at hp
      · cases hp
        exact frames_pure.toSafe
      · split at hp
        · cases hp
          exact (frames_sessionCall env).toSafe.bind fun _ => (frames_raise he).toSafe
        · cases hp

theorem safe_runNoValidateFrom (timeout : ℚ) (rounds retryCount : Nat) :
    Safe (runNoValidateFrom env timeout rounds retryCount) := by
  induction rounds generalizing retryCount with
  | zero => exact Prog.triple_hang
  | succ rounds ih =>
    apply (safe_attempt env timeout retryCount).bind
    intro result
    cases result with
    | none => exact ih (retryCount + 1)
    | some result => exact frames_pure.toSafe

theorem safe_reset : Safe (reset env) := by
  apply (safe_createNewSession env).tryExcept
  intro e p _ hp
  cases hp
  exact frames_pure.toSafe

/-! ## `close` -/

/-- What the loop of `close` has left to do. -/
structure Closing (xs : List Nat) (s : SelfRepairingSession) : Prop where
  recorded : Recorded s
  nodup : xs.Nodup
  mem : ∀ x, x ∈ xs ↔ x ∈ s.sessions

/-- One session of the loop. -/
theorem triple_closeCurrent {x : Nat} {xs : List Nat} :
    Prog.Triple (fun s => Closing (x :: xs) s ∧ s.session = some x) (closeCurrent env)
      (fun _ => Closing xs) fun e s => Recorded s ∧ e ≠ .keyError := by
  rintro s ⟨hs, hx⟩
  have hmem := (hs.mem x).mp (List.mem_cons_self ..)
  have hfinalize : Frames (Prog.tryExcept (finalizeSession env) fun _ => some (pure ())) :=
    (frames_finalizeSession env).tryExcept fun e p hp => by
      cases hp
      exact frames_pure
  have hclose : Prog.Triple (Same s) (closeCurrent env) (fun _ => Same (s.afterClose x))
      fun e t => Same s t ∧ e ≠ .keyError :=
    (hfinalize s).bind fun _ => triple_sessionClose env hx hmem none
  have hrest : Closing xs (s.afterClose x) := by
    have hnodup := List.nodup_cons.mp hs.nodup
    refine ⟨hs.recorded.afterClose hmem, hnodup.2, fun y => ?_⟩
    simp only [afterClose, drop, Finset.mem_erase, ← hs.mem, List.mem_cons]
    constructor
    · exact fun hy => ⟨fun heq => hnodup.1 (heq ▸ hy), .inr hy⟩
    · rintro ⟨hne, heq | hy⟩
      · exact absurd heq hne
      · exact hy
  refine triple_of_same hclose ?_ ?_ s rfl
  · exact fun _ t ht => ⟨hrest.recorded.same ht, hrest.nodup, fun y => ht.sessions ▸ hrest.mem y⟩
  · exact fun e t ht => ⟨hs.recorded.same ht.1, ht.2⟩

theorem triple_closeLoop (xs : List Nat) :
    Prog.Triple (Closing xs) (closeLoop env xs) (fun _ => Closing [])
      fun e s => Recorded s ∧ e ≠ .keyError := by
  induction xs with
  | nil => exact fun _ hs => hs
  | cons x xs ih =>
    refine Prog.Triple.modify_bind
      (fun s => Closing (x :: xs) s ∧ s.session = some x) ?_ fun s hs => ?_
    · exact (triple_closeCurrent env).bind fun _ => ih
    · have hmem := (hs.mem x).mp (List.mem_cons_self ..)
      exact ⟨⟨hs.recorded.choose hmem, hs.nodup, hs.mem⟩, rfl⟩

/-- After a `close` that returns, the set is empty. -/
theorem triple_close (order : SetOrder Nat) :
    Prog.Triple Recorded (close env order) (fun _ => Closing [])
      fun e s => Recorded s ∧ e ≠ .keyError := by
  apply Prog.Triple.gets_bind
  rintro _ s ⟨hs, rfl⟩
  exact triple_closeLoop env _ s ⟨hs, order.nodup_list, fun x => order.mem_list⟩

/-! ## Runs -/

/-- **Step.** -/
theorem safe_call (a : Op) : Safe (call env a) := by
  cases a with
  | runNoValidate timeout rounds =>
    exact (safe_runNoValidateFrom env timeout rounds 0).bind fun _ => frames_pure.toSafe
  | reset => exact safe_reset env
  | close order =>
    exact (triple_close env order).mono (fun _ hs => hs) (fun _ _ hs => hs.recorded)
      fun _ _ hs => hs

theorem recorded_new (maxRetries : Int) (delaybeforesend : Nat → ℚ) :
    Recorded (new maxRetries delaybeforesend) :=
  ⟨by simp [new], by simp [new], by simp [new]⟩

theorem recorded_step {a : Op} {s : SelfRepairingSession} (h : Recorded s) :
    Recorded (step env a s) := by
  have hrun : Prog.Triple Recorded (call env a) (fun _ => Recorded) fun _ => Recorded :=
    (safe_call env a).mono (fun _ hs => hs) (fun _ _ hs => hs) fun _ _ hs => hs.1
  exact (hrun.endsIn h).state h

variable {maxRetries : Int} {delaybeforesend : Nat → ℚ} {s : SelfRepairingSession}

theorem recorded_reachable
    (h : Reaches (step env) (fun _ _ => True) (new maxRetries delaybeforesend) s) : Recorded s :=
  h.invariant (recorded_new maxRetries delaybeforesend) fun _ _ ht _ => recorded_step env ht

/-- **No session is lost**, and `_sessions.remove` never fails. -/
theorem no_session_lost
    (h : Reaches (step env) (fun _ _ => True) (new maxRetries delaybeforesend) s) :
    Recorded s ∧ ∀ a, (call env a s).exception? ≠ some .keyError := by
  have hs := recorded_reachable env h
  refine ⟨hs, fun a heq => ?_⟩
  exact ((safe_call env a).of_raised hs (Outcome.raised_of_exception? heq s)).2 rfl

/-- **`close`.** -/
theorem close_closes_all
    (h : Reaches (step env) (fun _ _ => True) (new maxRetries delaybeforesend) s)
    {order : SetOrder Nat} (hclose : (call env (.close order) s).value? = some ()) :
    (step env (.close order) s).sessions = ∅ ∧ (step env (.close order) s).session = none ∧
      ∀ x, x < (step env (.close order) s).created → x ∈ (step env (.close order) s).closed := by
  obtain ⟨t, hrun⟩ := Outcome.ret_of_value? hclose
  have ht := (triple_close env order).of_ret (recorded_reachable env h) hrun
  have hempty : t.sessions = ∅ := by
    ext x
    simpa using (ht.mem x).symm
  have hstep : step env (.close order) s = t := by
    rw [step, hrun]
    rfl
  rw [hstep]
  refine ⟨hempty, ?_, fun x hx => ?_⟩
  · cases hx : t.session with
    | none => rfl
    | some x =>
      have hmem := ht.recorded.current x hx
      rw [hempty] at hmem
      exact absurd hmem (Finset.notMem_empty x)
  · have hin := (ht.recorded.created x).mp hx
    rw [hempty] at hin
    exact hin.resolve_left (Finset.notMem_empty x)

end

/-- The first run hangs in its session. -/
def hungOnce : Environment :=
  { calm with raises := fun n => if n = 5 then some .pythonRunNotStarted else none }

def oneRun : List Op := [.runNoValidate (-1) 12]

def ascending : SetOrder Nat := SetOrder.ascending id Function.injective_id

theorem no_session_lost_hungOnce :
    Recorded (oneRun.foldl (fun s a => step hungOnce a s) (new 10 fun _ => 0)) ∧
      ∀ a, (call hungOnce a (oneRun.foldl (fun s a => step hungOnce a s)
        (new 10 fun _ => 0))).exception? ≠ some .keyError :=
  no_session_lost hungOnce (reaches_of_along oneRun .refl ⟨trivial, trivial⟩)

/-- The session in which the run had hung is closed at last. -/
theorem close_closes_all_hungOnce :
    let s := oneRun.foldl (fun s a => step hungOnce a s) (new 10 fun _ => 0)
    s.sessions = {0} ∧ s.session = none ∧ (step hungOnce (.close ascending) s).sessions = ∅ ∧
      (step hungOnce (.close ascending) s).session = none ∧
        ∀ x, x < (step hungOnce (.close ascending) s).created →
          x ∈ (step hungOnce (.close ascending) s).closed :=
  ⟨by decide +kernel, by decide +kernel,
    close_closes_all hungOnce (reaches_of_along oneRun .refl ⟨trivial, trivial⟩)
      (by decide +kernel)⟩

end SelfRepairingSession

end InteractiveSessions
