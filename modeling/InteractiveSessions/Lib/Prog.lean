import Mathlib.Tactic

/-!
# Programs with a state, exceptions and calls that never come back

A small monad for imperative code with `raise` and `try`: a program maps the
state before the call to an `Outcome`.  Exceptions keep the changes made to the
state before they were raised.  A loop is written with a fuel argument; `hang`
stands for a call that waits forever or runs out of fuel.
-/

namespace InteractiveSessions

/-- How a call ends. -/
inductive Outcome (ε σ α : Type) where
  | ret (a : α) (s : σ)
  | raised (e : ε) (s : σ)
  | hang
  deriving DecidableEq, Repr

/-- The value returned, if any. -/
def Outcome.value? {ε σ α : Type} : Outcome ε σ α → Option α
  | .ret a _ => some a
  | .raised .. | .hang => none

theorem Outcome.ret_of_value? {ε σ α : Type} {o : Outcome ε σ α} {a : α}
    (h : o.value? = some a) : ∃ s, o = .ret a s := by
  cases o with
  | ret b s =>
    cases h
    exact ⟨s, rfl⟩
  | raised e s => cases h
  | hang => cases h

/-- The exception raised, if any. -/
def Outcome.exception? {ε σ α : Type} : Outcome ε σ α → Option ε
  | .raised e _ => some e
  | .ret .. | .hang => none

/-- The state after a call from `s`, which may have raised. -/
def Outcome.state {ε σ α : Type} (s : σ) : Outcome ε σ α → σ
  | .ret _ s' | .raised _ s' => s'
  | .hang => s

theorem Outcome.raised_of_exception? {ε σ α : Type} {o : Outcome ε σ α} {e : ε}
    (h : o.exception? = some e) (s : σ) : o = .raised e (o.state s) := by
  cases o with
  | ret a s' => cases h
  | raised e' s' =>
    cases h
    rfl
  | hang => cases h

/-- What is made of the last state, if there is one. -/
def Outcome.mapState {ε σ τ α : Type} (f : σ → τ) : Outcome ε σ α → Outcome ε τ α
  | .ret a s => .ret a (f s)
  | .raised e s => .raised e (f s)
  | .hang => .hang

theorem Outcome.mapState_mapState {ε σ τ ρ α : Type} (f : σ → τ) (g : τ → ρ) (o : Outcome ε σ α) :
    (o.mapState f).mapState g = o.mapState (g ∘ f) := by cases o <;> rfl

theorem Outcome.value?_mapState {ε σ τ α : Type} (f : σ → τ) (o : Outcome ε σ α) :
    (o.mapState f).value? = o.value? := by cases o <;> rfl

theorem Outcome.exception?_mapState {ε σ τ α : Type} (f : σ → τ) (o : Outcome ε σ α) :
    (o.mapState f).exception? = o.exception? := by cases o <;> rfl

theorem Outcome.state_mapState {ε σ τ α : Type} (f : σ → τ) (o : Outcome ε σ α) (s : σ) :
    (o.mapState f).state (f s) = f (o.state s) := by cases o <;> rfl

/-- When the call returns or raises, its last state has `P`. -/
def Outcome.EndsIn {ε σ α : Type} (P : σ → Prop) : Outcome ε σ α → Prop
  | .ret _ s | .raised _ s => P s
  | .hang => True

theorem Outcome.EndsIn.state {ε σ α : Type} {P : σ → Prop} {o : Outcome ε σ α} {s : σ}
    (h : o.EndsIn P) (hs : P s) : P (o.state s) := by
  cases o with
  | ret a s' | raised e s' => exact h
  | hang => exact hs

theorem Outcome.EndsIn.and {ε σ α : Type} {P P' : σ → Prop} {o : Outcome ε σ α} (h : o.EndsIn P)
    (h' : o.EndsIn P') : o.EndsIn fun s => P s ∧ P' s := by
  cases o with
  | ret a s | raised e s => exact ⟨h, h'⟩
  | hang => trivial

theorem Outcome.EndsIn.mono {ε σ α : Type} {P P' : σ → Prop} {o : Outcome ε σ α} (h : o.EndsIn P)
    (hP : ∀ s, P s → P' s) : o.EndsIn P' := by
  cases o with
  | ret a s | raised e s => exact hP s h
  | hang => trivial

/-- A program over the state `σ` that may raise an `ε`. -/
def Prog (ε σ α : Type) : Type := σ → Outcome ε σ α

namespace Prog

variable {ε σ τ α β : Type}

def pure (a : α) : Prog ε σ α := fun s => .ret a s

def bind (m : Prog ε σ α) (f : α → Prog ε σ β) : Prog ε σ β := fun s =>
  match m s with
  | .ret a s' => f a s'
  | .raised e s' => .raised e s'
  | .hang => .hang

instance : Monad (Prog ε σ) where
  pure := pure
  bind := bind

def raise (e : ε) : Prog ε σ α := fun s => .raised e s

def hang : Prog ε σ α := fun _ => .hang

/-- The current value of a field of the state. -/
def gets (f : σ → α) : Prog ε σ α := fun s => .ret (f s) s

def modify (f : σ → σ) : Prog ε σ Unit := fun s => .ret () (f s)

/-- `try: m except e: handler e`, where `handler e = none` lets `e` through. -/
def tryExcept (m : Prog ε σ α) (handler : ε → Option (Prog ε σ α)) : Prog ε σ α := fun s =>
  match m s with
  | .ret a s' => .ret a s'
  | .raised e s' =>
    match handler e with
    | some p => p s'
    | none => .raised e s'
  | .hang => .hang

/-- `try: m finally: last`.  An exception of `last` replaces the one of `m`. -/
def tryFinally (m : Prog ε σ α) (last : Prog ε σ Unit) : Prog ε σ α := fun s =>
  match m s with
  | .ret a s' =>
    match last s' with
    | .ret _ s'' => .ret a s''
    | .raised e s'' => .raised e s''
    | .hang => .hang
  | .raised e s' =>
    match last s' with
    | .ret _ s'' => .raised e s''
    | .raised e' s'' => .raised e' s''
    | .hang => .hang
  | .hang => .hang

/-- Run a program on a component of the state. -/
def zoom (get : σ → τ) (put : τ → σ → σ) (m : Prog ε τ α) : Prog ε σ α := fun s =>
  match m (get s) with
  | .ret a t => .ret a (put t s)
  | .raised e t => .raised e (put t s)
  | .hang => .hang

/-! ## One step of a composed program -/

@[simp] theorem pure_run (a : α) (s : σ) : (Pure.pure a : Prog ε σ α) s = .ret a s := rfl

@[simp] theorem raise_run (e : ε) (s : σ) : (raise e : Prog ε σ α) s = .raised e s := rfl

@[simp] theorem hang_run (s : σ) : (hang : Prog ε σ α) s = .hang := rfl

@[simp] theorem gets_run (f : σ → α) (s : σ) : (gets f : Prog ε σ α) s = .ret (f s) s := rfl

@[simp] theorem modify_run (f : σ → σ) (s : σ) : (modify f : Prog ε σ Unit) s = .ret () (f s) :=
  rfl

theorem bind_run (m : Prog ε σ α) (f : α → Prog ε σ β) (s : σ) :
    (m >>= f) s = match m s with
      | .ret a s' => f a s'
      | .raised e s' => .raised e s'
      | .hang => .hang := rfl

theorem bind_ret {m : Prog ε σ α} {f : α → Prog ε σ β} {s s' : σ} {a : α}
    (h : m s = .ret a s') : (m >>= f) s = f a s' := by
  rw [bind_run, h]

theorem bind_raised {m : Prog ε σ α} {f : α → Prog ε σ β} {s s' : σ} {e : ε}
    (h : m s = .raised e s') : (m >>= f) s = .raised e s' := by
  rw [bind_run, h]

theorem bind_hang {m : Prog ε σ α} {f : α → Prog ε σ β} {s : σ}
    (h : m s = .hang) : (m >>= f) s = .hang := by
  rw [bind_run, h]

theorem bind_bind (m : Prog ε σ α) (f : α → Prog ε σ β) {γ : Type} (g : β → Prog ε σ γ) :
    (m >>= f) >>= g = m >>= fun a => f a >>= g := by
  funext s
  simp only [bind_run]
  cases m s <;> rfl

/-- What does not return ends a composed program. -/
theorem bind_of_ne_ret {m : Prog ε σ α} {f : α → Prog ε σ α} {s : σ}
    (h : ∀ a s', m s ≠ .ret a s') : (m >>= f) s = m s := by
  rw [bind_run]
  cases hm : m s with
  | ret a s' => exact absurd hm (h a s')
  | raised e s' => rfl
  | hang => rfl

/-- A composed program that returns has run its first part to the end. -/
theorem ret_of_bind {m : Prog ε σ α} {f : α → Prog ε σ β} {s s' : σ} {b : β}
    (h : (m >>= f) s = .ret b s') : ∃ a t, m s = .ret a t ∧ f a t = .ret b s' := by
  rw [bind_run] at h
  cases hm : m s with
  | ret a t =>
    rw [hm] at h
    exact ⟨a, t, rfl, h⟩
  | raised e t =>
    rw [hm] at h
    cases h
  | hang =>
    rw [hm] at h
    cases h

/-- What is made of the value does not matter for the last state. -/
theorem endsIn_bind_pure {P : σ → Prop} {m : Prog ε σ α} {g : α → β} {s : σ} :
    ((m >>= fun a => (Pure.pure (g a) : Prog ε σ β)) s).EndsIn P ↔ (m s).EndsIn P := by
  rw [bind_run]
  cases m s <;> exact Iff.rfl

theorem state_bind_pure {m : Prog ε σ α} {g : α → β} {s t : σ} :
    ((m >>= fun a => (Pure.pure (g a) : Prog ε σ β)) s).state t = (m s).state t := by
  rw [bind_run]
  cases m s <;> rfl

theorem tryExcept_ret {m : Prog ε σ α} {handler : ε → Option (Prog ε σ α)} {s s' : σ} {a : α}
    (h : m s = .ret a s') : tryExcept m handler s = .ret a s' := by
  simp only [tryExcept, h]

theorem tryExcept_caught {m p : Prog ε σ α} {handler : ε → Option (Prog ε σ α)} {s s' : σ}
    {e : ε} (h : m s = .raised e s') (he : handler e = some p) :
    tryExcept m handler s = p s' := by
  simp only [tryExcept, h, he]

theorem tryExcept_uncaught {m : Prog ε σ α} {handler : ε → Option (Prog ε σ α)} {s s' : σ}
    {e : ε} (h : m s = .raised e s') (he : handler e = none) :
    tryExcept m handler s = .raised e s' := by
  simp only [tryExcept, h, he]

theorem tryExcept_hang {m : Prog ε σ α} {handler : ε → Option (Prog ε σ α)} {s : σ}
    (h : m s = .hang) : tryExcept m handler s = .hang := by
  simp only [tryExcept, h]

theorem tryFinally_ret {m : Prog ε σ α} {last : Prog ε σ Unit} {s s' s'' : σ} {a : α}
    (h : m s = .ret a s') (hlast : last s' = .ret () s'') :
    tryFinally m last s = .ret a s'' := by
  simp only [tryFinally, h, hlast]

theorem zoom_ret {get : σ → τ} {put : τ → σ → σ} {m : Prog ε τ α} {s : σ} {t : τ} {a : α}
    (h : m (get s) = .ret a t) : zoom get put m s = .ret a (put t s) := by
  simp only [zoom, h]

theorem zoom_raised {get : σ → τ} {put : τ → σ → σ} {m : Prog ε τ α} {s : σ} {t : τ} {e : ε}
    (h : m (get s) = .raised e t) : zoom get put m s = .raised e (put t s) := by
  simp only [zoom, h]

theorem zoom_hang {get : σ → τ} {put : τ → σ → σ} {m : Prog ε τ α} {s : σ}
    (h : m (get s) = .hang) : zoom get put m s = .hang := by
  simp only [zoom, h]

theorem zoom_bind_pure {get : σ → τ} {put : τ → σ → σ} (m : Prog ε τ α) (g : α → β) :
    zoom get put (m >>= fun a => (Pure.pure (g a) : Prog ε τ β)) =
      zoom get put m >>= fun a => Pure.pure (g a) := by
  funext s
  simp only [zoom, bind_run]
  cases m (get s) <;> rfl

/-! ## Ways of not returning -/

/-- The outcome of a call that does not return: it raises, or it hangs. -/
def stopped : Option (ε × σ) → Outcome ε σ α
  | some (e, s) => .raised e s
  | none => .hang

theorem stopped_ne_ret (o : Option (ε × σ)) (a : α) (s : σ) : stopped o ≠ .ret a s := by
  rcases o with - | ⟨e, s'⟩ <;> simp [stopped]

theorem bind_stopped {m : Prog ε σ α} {f : α → Prog ε σ β} {s : σ} {o : Option (ε × σ)}
    (h : m s = stopped o) : (m >>= f) s = stopped o := by
  rcases o with - | ⟨e, s'⟩
  · exact bind_hang h
  · exact bind_raised h

theorem zoom_stopped {get : σ → τ} {put : τ → σ → σ} {m : Prog ε τ α} {s : σ}
    {o : Option (ε × τ)} (h : m (get s) = stopped o) :
    zoom get put m s = stopped (o.map fun x => (x.1, put x.2 s)) := by
  rcases o with - | ⟨e, t⟩
  · exact zoom_hang h
  · exact zoom_raised h

/-! ## The order of programs: one that hangs less

A loop with more fuel is above the same loop with less fuel. -/

instance : LE (Prog ε σ α) := ⟨fun m m' => ∀ s, m s = .hang ∨ m s = m' s⟩

theorem le_refl (m : Prog ε σ α) : m ≤ m := fun _ => .inr rfl

theorem hang_le (m : Prog ε σ α) : hang ≤ m := fun _ => .inl rfl

theorem ret_of_le {m m' : Prog ε σ α} (h : m ≤ m') {s s' : σ} {a : α} (hm : m s = .ret a s') :
    m' s = .ret a s' := by
  rcases h s with hs | hs
  · rw [hs] at hm
    cases hm
  · rw [← hs, hm]

theorem bind_mono {m m' : Prog ε σ α} {f f' : α → Prog ε σ β} (hm : m ≤ m')
    (hf : ∀ a, f a ≤ f' a) : m >>= f ≤ m' >>= f' := by
  intro s
  rcases hm s with h | h
  · exact .inl (bind_hang h)
  · cases hs : m s with
    | ret a s' =>
      rw [bind_ret hs, bind_ret (h ▸ hs)]
      exact hf a s'
    | raised e s' => exact .inr (by rw [bind_raised hs, bind_raised (h ▸ hs)])
    | hang => exact .inl (bind_hang hs)

theorem tryExcept_mono {m m' : Prog ε σ α} {handler handler' : ε → Option (Prog ε σ α)}
    (hm : m ≤ m') (hh : ∀ e, handler e = none ∧ handler' e = none ∨
      ∃ p p', handler e = some p ∧ handler' e = some p' ∧ p ≤ p') :
    tryExcept m handler ≤ tryExcept m' handler' := by
  intro s
  rcases hm s with h | h
  · exact .inl (tryExcept_hang h)
  · cases hs : m s with
    | ret a s' => exact .inr (by rw [tryExcept_ret hs, tryExcept_ret (h ▸ hs)])
    | raised e s' =>
      rcases hh e with ⟨hn, hn'⟩ | ⟨p, p', hp, hp', hle⟩
      · exact .inr (by rw [tryExcept_uncaught hs hn, tryExcept_uncaught (h ▸ hs) hn'])
      · rw [tryExcept_caught hs hp, tryExcept_caught (h ▸ hs) hp']
        exact hle s'
    | hang => exact .inl (tryExcept_hang hs)

theorem zoom_mono {get : σ → τ} {put : τ → σ → σ} {m m' : Prog ε τ α} (hm : m ≤ m') :
    zoom get put m ≤ zoom get put m' := by
  intro s
  rcases hm (get s) with h | h
  · exact .inl (zoom_hang h)
  · exact .inr (by simp only [zoom, h])

theorem ite_mono {c : Prop} [Decidable c] {m m' n n' : Prog ε σ α} (hm : m ≤ m') (hn : n ≤ n') :
    (if c then m else n) ≤ (if c then m' else n') := by
  split
  · exact hm
  · exact hn

/-! ## A program on the images of the states

`f` may forget or replace a part of the state that the program does not look into. -/

/-- From the image of a state the second program does what the first does. -/
def Simulates (f : σ → τ) (m : Prog ε σ α) (m' : Prog ε τ α) : Prop :=
  ∀ s, m' (f s) = (m s).mapState f

section
variable {f : σ → τ} {m : Prog ε σ α} {m' : Prog ε τ α}

theorem simulates_pure (a : α) : Simulates f (Pure.pure a : Prog ε σ α) (Pure.pure a) :=
  fun _ => rfl

theorem simulates_raise (e : ε) : Simulates f (raise e : Prog ε σ α) (raise e) := fun _ => rfl

theorem Simulates.bind {k : α → Prog ε σ β} {k' : α → Prog ε τ β} (h : Simulates f m m')
    (hk : ∀ a, Simulates f (k a) (k' a)) : Simulates f (m >>= k) (m' >>= k') := by
  intro s
  rw [bind_run, bind_run, h s]
  cases m s with
  | ret a t => exact hk a t
  | raised e t | hang => rfl

theorem Simulates.map {γ : Type} {k : α → γ} (h : Simulates f m m') :
    Simulates f (m >>= fun a => (Pure.pure (k a) : Prog ε σ γ))
      (m' >>= fun a => (Pure.pure (k a) : Prog ε τ γ)) :=
  h.bind fun a => simulates_pure (k a)

theorem simulates_gets {g : σ → α} {g' : τ → α} (h : ∀ s, g' (f s) = g s) :
    Simulates f (gets g : Prog ε σ α) (gets g') := fun s => by
  show Outcome.ret (g' (f s)) (f s) = Outcome.ret (g s) (f s)
  rw [h s]

theorem simulates_modify {g : σ → σ} {g' : τ → τ} (h : ∀ s, g' (f s) = f (g s)) :
    Simulates f (modify g : Prog ε σ Unit) (modify g') := fun s => by
  show Outcome.ret () (g' (f s)) = Outcome.ret () (f (g s))
  rw [h s]

/-- A program on a component that `f` keeps. -/
theorem simulates_zoom {ρ : Type} {get : σ → ρ} {put : ρ → σ → σ} {get' : τ → ρ}
    {put' : ρ → τ → τ} (hget : ∀ s, get' (f s) = get s) (hput : ∀ r s, put' r (f s) = f (put r s))
    (m : Prog ε ρ α) : Simulates f (zoom get put m) (zoom get' put' m) := by
  intro s
  unfold zoom
  rw [hget s]
  cases m (get s) with
  | ret a r => exact congrArg (Outcome.ret a) (hput r s)
  | raised e r => exact congrArg (Outcome.raised e) (hput r s)
  | hang => rfl

theorem Simulates.mapState {g : σ → σ} {g' : τ → τ} (h : Simulates f m m')
    (hg : ∀ s, g' (f s) = f (g s)) (s : σ) :
    (m' (f s)).mapState g' = ((m s).mapState g).mapState f := by
  have hcomp : g' ∘ f = f ∘ g := funext hg
  rw [h s, Outcome.mapState_mapState, Outcome.mapState_mapState, hcomp]

end

end Prog

end InteractiveSessions
