import InteractiveSessions.Lib.Prog

/-!
# Pre- and postconditions of programs

`Triple P m Q E` is partial correctness: from a state with `P`, whatever `m`
returns satisfies `Q`, whatever it raises satisfies `E`; it may also hang.  One
rule for each way of composing programs.  `Settles H` is the same for programs
that hang only if `H`, `Keeps I m` is the triple of an invariant, and
`Returns P m Q` is total: `m` returns.
-/

namespace InteractiveSessions.Prog

variable {ε σ τ α β : Type}

def Triple (P : σ → Prop) (m : Prog ε σ α) (Q : α → σ → Prop) (E : ε → σ → Prop) : Prop :=
  ∀ s, P s →
    match m s with
    | .ret a s' => Q a s'
    | .raised e s' => E e s'
    | .hang => True

variable {P P' : σ → Prop} {m : Prog ε σ α} {Q Q' : α → σ → Prop} {E E' : ε → σ → Prop}

theorem Triple.of_ret (h : Triple P m Q E) {s s' : σ} {a : α} (hs : P s) (hm : m s = .ret a s') :
    Q a s' := by
  have := h s hs
  rwa [hm] at this

theorem Triple.of_raised (h : Triple P m Q E) {s s' : σ} {e : ε} (hs : P s)
    (hm : m s = .raised e s') : E e s' := by
  have := h s hs
  rwa [hm] at this

theorem Triple.endsIn {R : σ → Prop} (h : Triple P m (fun _ => R) fun _ => R) {s : σ} (hs : P s) :
    (m s).EndsIn R := by
  have := h s hs
  cases hm : m s with
  | ret a s' =>
    rw [hm] at this
    exact this
  | raised e s' =>
    rw [hm] at this
    exact this
  | hang => trivial

theorem triple_of_endsIn {R : σ → Prop} (h : ∀ s, P s → (m s).EndsIn R) :
    Triple P m (fun _ => R) fun _ => R := by
  intro s hs
  have hm := h s hs
  cases hrun : m s with
  | ret a s' | raised e s' =>
    rw [hrun] at hm
    exact hm
  | hang => trivial

/-- A precondition with something that is fixed. -/
theorem triple_exists {ι : Type} {P : ι → σ → Prop} (h : ∀ i, Triple (P i) m Q E) :
    Triple (fun s => ∃ i, P i s) m Q E := by
  rintro s ⟨i, hs⟩
  exact h i s hs

/-- A return with `Q`, an exception with `E`, or a hang, if `H`. -/
def Meets (H : Prop) (Q : α → σ → Prop) (E : ε → σ → Prop) : Outcome ε σ α → Prop
  | .ret a s => Q a s
  | .raised e s => E e s
  | .hang => H

/-- The triple of a program that hangs only if `H`. -/
def Settles (H : Prop) (P : σ → Prop) (m : Prog ε σ α) (Q : α → σ → Prop) (E : ε → σ → Prop) :
    Prop :=
  ∀ s, P s → Meets H Q E (m s)

theorem settles_true : Settles True P m Q E ↔ Triple P m Q E :=
  forall₂_congr fun s _ => by
    unfold Meets
    exact Iff.rfl

section
variable {H : Prop}

theorem meets_mono {o : Outcome ε σ α} (h : Meets H Q E o) (hQ : ∀ a s, Q a s → Q' a s)
    (hE : ∀ e s, E e s → E' e s) : Meets H Q' E' o := by
  cases o with
  | ret a s => exact hQ a s h
  | raised e s => exact hE e s h
  | hang => exact h

/-- The rule of consequence. -/
theorem Settles.mono (h : Settles H P m Q E) (hP : ∀ s, P' s → P s) (hQ : ∀ a s, Q a s → Q' a s)
    (hE : ∀ e s, E e s → E' e s) : Settles H P' m Q' E' :=
  fun s hs => meets_mono (h s (hP s hs)) hQ hE

theorem settles_of_false (h : ∀ s, ¬ P s) : Settles H P m Q E := fun s hs => absurd hs (h s)

theorem Settles.bind {f : α → Prog ε σ β} {Q' : β → σ → Prop} (hm : Settles H P m Q E)
    (hf : ∀ a, Settles H (Q a) (f a) Q' E) : Settles H P (m >>= f) Q' E := by
  intro s hs
  have h := hm s hs
  rw [bind_run]
  cases hms : m s with
  | ret a s' =>
    rw [hms] at h
    exact hf a s' h
  | raised e s' =>
    rw [hms] at h
    exact h
  | hang =>
    rw [hms] at h
    exact h

/-- A handled exception satisfies what the handler asks for. -/
theorem Settles.tryExcept {handler : ε → Option (Prog ε σ α)} (hm : Settles H P m Q E)
    (hcaught : ∀ e p, handler e = some p → Settles H (E e) p Q E')
    (hrest : ∀ e s, handler e = none → E e s → E' e s) :
    Settles H P (Prog.tryExcept m handler) Q E' := by
  intro s hs
  have h := hm s hs
  cases hms : m s with
  | ret a s' =>
    rw [hms] at h
    rw [tryExcept_ret hms]
    exact h
  | raised e s' =>
    rw [hms] at h
    cases hh : handler e with
    | none =>
      rw [tryExcept_uncaught hms hh]
      exact hrest e s' hh h
    | some p =>
      rw [tryExcept_caught hms hh]
      exact hcaught e p hh s' h
  | hang =>
    rw [hms] at h
    rw [tryExcept_hang hms]
    exact h

/-- What `finally` does holds both after a return and after an exception. -/
theorem Settles.tryFinally {last : Prog ε σ Unit} {Q' : α → σ → Prop} (hm : Settles H P m Q E)
    (hret : ∀ a, Settles H (Q a) last (fun _ => Q' a) E')
    (hraised : ∀ e, Settles H (E e) last (fun _ => E' e) E') :
    Settles H P (Prog.tryFinally m last) Q' E' := by
  intro s hs
  have h := hm s hs
  cases hms : m s with
  | ret a s' =>
    rw [hms] at h
    have hlast := hret a s' h
    cases hl : last s' <;> simp only [Prog.tryFinally, hms, hl] at hlast ⊢ <;> exact hlast
  | raised e s' =>
    rw [hms] at h
    have hlast := hraised e s' h
    cases hl : last s' <;> simp only [Prog.tryFinally, hms, hl] at hlast ⊢ <;> exact hlast
  | hang =>
    rw [hms] at h
    simp only [Prog.tryFinally, hms]
    exact h

end

theorem Triple.mono (h : Triple P m Q E) (hP : ∀ s, P' s → P s) (hQ : ∀ a s, Q a s → Q' a s)
    (hE : ∀ e s, E e s → E' e s) : Triple P' m Q' E' :=
  settles_true.mp ((settles_true.mpr h).mono hP hQ hE)

theorem Triple.and (h : Triple P m Q E) (h' : Triple P' m Q' E') :
    Triple (fun s => P s ∧ P' s) m (fun a s => Q a s ∧ Q' a s) fun e s => E e s ∧ E' e s := by
  intro s hs
  have hm := h s hs.1
  have hm' := h' s hs.2
  cases hrun : m s with
  | ret a s' =>
    rw [hrun] at hm hm'
    exact ⟨hm, hm'⟩
  | raised e s' =>
    rw [hrun] at hm hm'
    exact ⟨hm, hm'⟩
  | hang => trivial

theorem triple_hang : Triple P (hang : Prog ε σ α) Q E := fun _ _ => trivial

theorem Triple.bind {f : α → Prog ε σ β} {Q' : β → σ → Prop} (hm : Triple P m Q E)
    (hf : ∀ a, Triple (Q a) (f a) Q' E) : Triple P (m >>= f) Q' E :=
  settles_true.mp ((settles_true.mpr hm).bind hf)

/-- A change of the state first. -/
theorem Triple.modify_bind (P' : σ → Prop) {f : σ → σ} {g : Unit → Prog ε σ α}
    (h : Triple P' (g ()) Q E)
    (hf : ∀ s, P s → P' (f s)) : Triple P (modify f >>= g) Q E := fun s hs => h (f s) (hf s hs)

/-- A look at the state first. -/
theorem Triple.gets_bind {f : σ → β} {g : β → Prog ε σ α}
    (h : ∀ b, Triple (fun s => P s ∧ f s = b) (g b) Q E) : Triple P (gets f >>= g) Q E :=
  fun s hs => h (f s) s ⟨hs, rfl⟩

theorem Triple.ite {c : Prop} [Decidable c] {n : Prog ε σ α}
    (hm : c → Triple P m Q E) (hn : ¬ c → Triple P n Q E) :
    Triple P (if c then m else n) Q E := by
  split
  · next h => exact hm h
  · next h => exact hn h

theorem Triple.tryExcept {handler : ε → Option (Prog ε σ α)} (hm : Triple P m Q E)
    (hcaught : ∀ e p, handler e = some p → Triple (E e) p Q E')
    (hrest : ∀ e s, handler e = none → E e s → E' e s) :
    Triple P (tryExcept m handler) Q E' :=
  settles_true.mp ((settles_true.mpr hm).tryExcept hcaught hrest)

theorem Triple.tryFinally {last : Prog ε σ Unit} {Q' : α → σ → Prop}
    (hm : Triple P m Q E) (hret : ∀ a, Triple (Q a) last (fun _ => Q' a) E')
    (hraised : ∀ e, Triple (E e) last (fun _ => E' e) E') :
    Triple P (tryFinally m last) Q' E' :=
  settles_true.mp ((settles_true.mpr hm).tryFinally (fun a => settles_true.mpr (hret a))
    fun e => settles_true.mpr (hraised e))

/-! ## Invariants -/

/-- `m` keeps `I`, also when it raises. -/
def Keeps (I : σ → Prop) (m : Prog ε σ α) : Prop := Triple I m (fun _ => I) fun _ => I

section
variable {I : σ → Prop}

theorem keeps_pure {a : α} : Keeps I (Pure.pure a : Prog ε σ α) := fun _ hs => hs

theorem keeps_raise {e : ε} : Keeps I (raise e : Prog ε σ α) := fun _ hs => hs

theorem keeps_hang : Keeps I (hang : Prog ε σ α) := fun _ _ => trivial

theorem keeps_modify {f : σ → σ} (h : ∀ s, I s → I (f s)) :
    Keeps I (modify f : Prog ε σ Unit) := h

theorem Keeps.bind {f : α → Prog ε σ β} (hm : Keeps I m) (hf : ∀ a, Keeps I (f a)) :
    Keeps I (m >>= f) := Triple.bind hm hf

theorem keeps_gets_bind {f : σ → β} {g : β → Prog ε σ α} (h : ∀ b, Keeps I (g b)) :
    Keeps I (gets f >>= g) := fun s hs => h (f s) s hs

theorem Keeps.tryExcept {handler : ε → Option (Prog ε σ α)} (hm : Keeps I m)
    (hh : ∀ e p, handler e = some p → Keeps I p) : Keeps I (Prog.tryExcept m handler) :=
  Triple.tryExcept hm hh fun _ _ _ hs => hs

theorem Keeps.tryFinally {last : Prog ε σ Unit} (hm : Keeps I m) (hlast : Keeps I last) :
    Keeps I (Prog.tryFinally m last) := Triple.tryFinally hm (fun _ => hlast) fun _ => hlast

end

/-! ## Total correctness -/

/-- From a state with `P`, the program returns, with `Q`. -/
def Returns (P : σ → Prop) (m : Prog ε σ α) (Q : α → σ → Prop) : Prop :=
  ∀ s, P s → ∃ a s', m s = .ret a s' ∧ Q a s'

theorem Returns.mono (h : Returns P m Q) (hP : ∀ s, P' s → P s) (hQ : ∀ a s, Q a s → Q' a s) :
    Returns P' m Q' := by
  intro s hs
  obtain ⟨a, s', hm, ha⟩ := h s (hP s hs)
  exact ⟨a, s', hm, hQ a s' ha⟩

theorem Returns.bind {f : α → Prog ε σ β} {Q' : β → σ → Prop} (hm : Returns P m Q)
    (hf : ∀ a, Returns (Q a) (f a) Q') : Returns P (m >>= f) Q' := by
  intro s hs
  obtain ⟨a, s', hms, ha⟩ := hm s hs
  obtain ⟨b, s'', hfs, hb⟩ := hf a s' ha
  exact ⟨b, s'', (bind_ret hms).trans hfs, hb⟩

theorem returns_modify {f : σ → σ} {R : σ → Prop} (h : ∀ s, P s → R (f s)) :
    Returns P (modify f : Prog ε σ Unit) fun _ => R := fun s hs => ⟨(), f s, rfl, h s hs⟩

theorem Returns.tryExcept {handler : ε → Option (Prog ε σ α)} (hm : Returns P m Q) :
    Returns P (Prog.tryExcept m handler) Q := by
  intro s hs
  obtain ⟨a, s', hms, ha⟩ := hm s hs
  exact ⟨a, s', tryExcept_ret hms, ha⟩

end InteractiveSessions.Prog
