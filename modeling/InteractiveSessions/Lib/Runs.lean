import Mathlib.Tactic

/-!
# Runs of a state machine whose steps meet a condition

`Reaches step ok s t`: some actions lead from `s` to `t`, and each of them meets
`ok` in the state in which it is taken.  `Along step P as s`: so do the actions
`as` from `s` on, with `P`.
-/

namespace InteractiveSessions

variable {α σ : Type} {step : α → σ → σ} {ok : α → σ → Prop} {s t : σ}

inductive Reaches (step : α → σ → σ) (ok : α → σ → Prop) (s : σ) : σ → Prop where
  | refl : Reaches step ok s s
  | tail {t : σ} (a : α) : Reaches step ok s t → ok a t → Reaches step ok s (step a t)

/-- **Invariants.**  What holds at the start and is kept by every allowed step
holds in every state reached. -/
theorem Reaches.invariant {I : σ → Prop} (h : Reaches step ok s t) (hs : I s)
    (hstep : ∀ a t, I t → ok a t → I (step a t)) : I t := by
  induction h with
  | refl => exact hs
  | tail a _ hok ih => exact hstep a _ ih hok

theorem Reaches.trans {u : σ} (h : Reaches step ok s t) (h' : Reaches step ok t u) :
    Reaches step ok s u := by
  induction h' with
  | refl => exact h
  | tail a _ hok ih => exact .tail a ih hok

/-- `P` holds of each action and the state in which it is taken. -/
def Along (step : α → σ → σ) (P : α → σ → Prop) : List α → σ → Prop
  | [], _ => True
  | a :: as, s => P a s ∧ Along step P as (step a s)

instance Along.decidable (step : α → σ → σ) (P : α → σ → Prop) [∀ a t, Decidable (P a t)] :
    (as : List α) → (s : σ) → Decidable (Along step P as s)
  | [], _ => isTrue trivial
  | a :: as, s =>
    have := Along.decidable step P as (step a s)
    inferInstanceAs (Decidable (P a s ∧ Along step P as (step a s)))

theorem along_append_singleton {P : α → σ → Prop} {as : List α} {a : α} {s : σ} :
    Along step P (as ++ [a]) s ↔
      Along step P as s ∧ P a (as.foldl (fun t a => step a t) s) := by
  induction as generalizing s with
  | nil => simp [Along]
  | cons b as ih =>
    rw [List.cons_append, Along, ih, Along, List.foldl_cons, and_assoc]

theorem reaches_of_along (as : List α) {t : σ} (h : Reaches step ok s t)
    (has : Along step ok as t) : Reaches step ok s (as.foldl (fun t a => step a t) t) := by
  induction as generalizing t with
  | nil => exact h
  | cons a as ih => exact ih (.tail a h has.1) has.2

/-- When a step keeps `I` exactly if it meets `ok`, then `I` holds after every
step of a run exactly if all its steps meet `ok`. -/
theorem along_iff {I : σ → Prop} (hstep : ∀ a t, I t → (I (step a t) ↔ ok a t)) (as : List α)
    {s : σ} (hs : I s) : Along step (fun a t => I (step a t)) as s ↔ Along step ok as s := by
  induction as generalizing s with
  | nil => exact Iff.rfl
  | cons a as ih =>
    constructor
    · intro h
      exact ⟨(hstep a s hs).mp h.1, (ih h.1).mp h.2⟩
    · intro h
      have ha := (hstep a s hs).mpr h.1
      exact ⟨ha, (ih ha).mpr h.2⟩

/-- Two conditions agree along every run if they agree in every state with the
invariant `I`, which the steps that meet the second keep. -/
theorem along_congr_of {I : σ → Prop} {P Q : α → σ → Prop}
    (hinv : ∀ a t, I t → Q a t → I (step a t)) (hiff : ∀ a t, I t → (P a t ↔ Q a t)) (as : List α)
    {s : σ} (hs : I s) : Along step P as s ↔ Along step Q as s := by
  induction as generalizing s with
  | nil => exact Iff.rfl
  | cons a as ih =>
    constructor
    · intro h
      have ha := (hiff a s hs).mp h.1
      exact ⟨ha, (ih (hinv a s hs ha)).mp h.2⟩
    · intro h
      exact ⟨(hiff a s hs).mpr h.1, (ih (hinv a s hs h.1)).mpr h.2⟩

/-- Two conditions that agree in every state with the invariant `I` agree along
every run. -/
theorem along_congr {I : σ → Prop} {P Q : α → σ → Prop} (hinv : ∀ a t, I t → I (step a t))
    (hiff : ∀ a t, I t → (P a t ↔ Q a t)) (as : List α) {s : σ} (hs : I s) :
    Along step P as s ↔ Along step Q as s :=
  along_congr_of (fun a t ht _ => hinv a t ht) hiff as hs

/-- In a run whose steps meet `ok` there holds what `ok` and an invariant imply. -/
theorem Along.of_invariant {I : σ → Prop} {P : α → σ → Prop}
    (hinv : ∀ a t, I t → ok a t → I (step a t)) (hok : ∀ a t, I t → ok a t → P a t) (as : List α)
    {s : σ} (hs : I s) (h : Along step ok as s) : Along step P as s := by
  induction as generalizing s with
  | nil => exact trivial
  | cons a as ih => exact ⟨hok a s hs h.1, ih (hinv a s hs h.1) h.2⟩

/-- In every run there holds what an invariant implies. -/
theorem along_of_invariant {I : σ → Prop} {P : α → σ → Prop} (hinv : ∀ a t, I t → I (step a t))
    (hP : ∀ a t, I t → P a t) (as : List α) {s : σ} (hs : I s) : Along step P as s := by
  induction as generalizing s with
  | nil => trivial
  | cons a as ih => exact ⟨hP a s hs, ih (hinv a s hs)⟩

end InteractiveSessions
