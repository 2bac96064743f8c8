import InteractiveSessions.RunnerTerminal

/-!
# `garbagemanager`: the account of the handles

The manager within one session, with a `clean` callback during which handles are
added, as proxies are deleted at any time.  The callback of `RunnerTerminal`
reads the list first, for its `del` command, and then waits for the remote
Python.

* `accounted_iff`: every handle added is kept or was deleted once, exactly if no
  handle is added between the reading of the list and the end of a clean-up that
  returns.
-/

namespace InteractiveSessions

namespace GarbageManager

/-- A call of `clean`: the handles added before it reads the list, those added
after that, and whether it returns. -/
structure CleanCall where
  early : List (Option RemoteName)
  late : List (Option RemoteName)
  returns : Bool
  deriving DecidableEq, Repr

section

variable (maxGarbage : Int) (sessionId : Option Nat)

/-- `add` of each of the handles in turn. -/
def addAll (handles : List (Option RemoteName)) (g : GarbageManager) : GarbageManager :=
  handles.foldl (fun g h => g.add sessionId h) g

/-- `clean_if_needed` calls `clean`. -/
def CleanNeeded (g : GarbageManager) : Prop :=
  sessionId = g.sessionId ∧ maxGarbage < g.garbage.length

instance (g : GarbageManager) : Decidable (g.CleanNeeded maxGarbage sessionId) :=
  inferInstanceAs (Decidable (_ ∧ _))

/-- `clean_if_needed`: the manager afterwards, and the handles that were passed
to a `clean` that returned. -/
def cleanIfNeeded (call : CleanCall) (g : GarbageManager) :
    GarbageManager × List (Option RemoteName) :=
  if g.CleanNeeded maxGarbage sessionId then
    let read := g.addAll sessionId call.early
    let after := read.addAll sessionId call.late
    if call.returns then ({ after with garbage := [] }, read.garbage) else (after, [])
  else (g, [])

/-- The handles of the session in the list.  Those of a session before it are
dropped by the first `add`. -/
def kept (g : GarbageManager) : List (Option RemoteName) :=
  if sessionId = g.sessionId then g.garbage else []

theorem kept_add (h : Option RemoteName) (g : GarbageManager) :
    (g.add sessionId h).kept sessionId = g.kept sessionId ++ [h] := by
  unfold add kept
  split <;> simp_all

theorem kept_addAll (handles : List (Option RemoteName)) (g : GarbageManager) :
    (g.addAll sessionId handles).kept sessionId = g.kept sessionId ++ handles := by
  induction handles generalizing g with
  | nil => simp [addAll]
  | cons h handles ih =>
    have hstep : g.addAll sessionId (h :: handles) =
        (g.add sessionId h).addAll sessionId handles := rfl
    rw [hstep, ih, kept_add, List.append_assoc, List.singleton_append]

theorem sessionId_add (h : Option RemoteName) (g : GarbageManager) :
    (g.add sessionId h).sessionId = sessionId := by
  unfold add
  split <;> simp_all

theorem sessionId_addAll (handles : List (Option RemoteName)) {g : GarbageManager}
    (hg : sessionId = g.sessionId) : sessionId = (g.addAll sessionId handles).sessionId := by
  induction handles generalizing g with
  | nil => exact hg
  | cons h handles ih => exact ih (sessionId_add sessionId h g).symm

theorem garbage_addAll (handles : List (Option RemoteName)) {g : GarbageManager}
    (hg : sessionId = g.sessionId) :
    (g.addAll sessionId handles).garbage = g.garbage ++ handles := by
  have h := kept_addAll sessionId handles g
  rwa [kept, kept, if_pos (sessionId_addAll sessionId handles hg), if_pos hg] at h

/-! ## The ledger of one session -/

inductive LedgerOp where
  | add (handle : Option RemoteName)
  | cleanIfNeeded (call : CleanCall)

/-- The manager, all the handles added, and those passed to a `clean` that
returned. -/
structure Ledger where
  manager : GarbageManager
  added : List (Option RemoteName)
  cleaned : List (Option RemoteName)

/-- The ledger from here on. -/
def ledger (g : GarbageManager) : Ledger := ⟨g, g.kept sessionId, []⟩

/-- The handles added while `clean_if_needed` runs. -/
def addedDuring (call : CleanCall) (g : GarbageManager) : List (Option RemoteName) :=
  if g.CleanNeeded maxGarbage sessionId then call.early ++ call.late else []

namespace Ledger

def step : LedgerOp → Ledger → Ledger
  | .add handle, l =>
    { l with manager := l.manager.add sessionId handle, added := l.added ++ [handle] }
  | .cleanIfNeeded call, l =>
    let r := l.manager.cleanIfNeeded maxGarbage sessionId call
    ⟨r.1, l.added ++ l.manager.addedDuring maxGarbage sessionId call, l.cleaned ++ r.2⟩

/-- Every handle was passed to a `clean` that returned or is still kept, as often
as it was added and no more. -/
def Accounted (l : Ledger) : Prop :=
  l.added.Perm (l.cleaned ++ l.manager.kept sessionId)

/-- Nothing is added after the list was read and before `clean` returns. -/
def Undisturbed : LedgerOp → Ledger → Prop
  | .add _, _ => True
  | .cleanIfNeeded call, l =>
    l.manager.CleanNeeded maxGarbage sessionId → call.returns = true → call.late = []

theorem accounted_ledger (g : GarbageManager) : (g.ledger sessionId).Accounted sessionId :=
  .refl _

theorem accounted_add (handle : Option RemoteName) {l : Ledger} (h : l.Accounted sessionId) :
    (step maxGarbage sessionId (.add handle) l).Accounted sessionId := by
  show (l.added ++ [handle]).Perm (l.cleaned ++ (l.manager.add sessionId handle).kept sessionId)
  rw [kept_add, ← List.append_assoc]
  exact h.append_right _

/-- A clean-up that raises keeps every handle, also those added meanwhile. -/
theorem accounted_raised {call : CleanCall} {l : Ledger}
    (hneeded : l.manager.CleanNeeded maxGarbage sessionId) (hraised : call.returns = false)
    (h : l.Accounted sessionId) :
    (step maxGarbage sessionId (.cleanIfNeeded call) l).Accounted sessionId := by
  have hstep : step maxGarbage sessionId (.cleanIfNeeded call) l =
      ⟨(l.manager.addAll sessionId call.early).addAll sessionId call.late,
        l.added ++ (call.early ++ call.late), l.cleaned ++ []⟩ := by
    simp [step, cleanIfNeeded, addedDuring, hneeded, hraised]
  rw [hstep, Accounted, kept_addAll, kept_addAll, List.append_nil, List.append_assoc,
    ← List.append_assoc l.cleaned]
  exact h.append_right _

/-- One that returns loses exactly what was added after the list was read. -/
theorem accounted_returned {call : CleanCall} {l : Ledger}
    (hneeded : l.manager.CleanNeeded maxGarbage sessionId) (hreturns : call.returns = true)
    (h : l.Accounted sessionId) :
    (step maxGarbage sessionId (.cleanIfNeeded call) l).Accounted sessionId ↔ call.late = [] := by
  have hread : (l.manager.addAll sessionId call.early).garbage =
      l.manager.kept sessionId ++ call.early := by
    rw [garbage_addAll sessionId call.early hneeded.1, kept, if_pos hneeded.1]
  have hstep : step maxGarbage sessionId (.cleanIfNeeded call) l =
      ⟨{ (l.manager.addAll sessionId call.early).addAll sessionId call.late with garbage := [] },
        l.added ++ (call.early ++ call.late),
        l.cleaned ++ (l.manager.kept sessionId ++ call.early)⟩ := by
    simp [step, cleanIfNeeded, addedDuring, hneeded, hreturns, hread]
  have hkept : ∀ g : GarbageManager, { g with garbage := [] }.kept sessionId = [] := by
    intro g
    unfold kept
    split <;> rfl
  rw [hstep, Accounted, hkept, List.append_nil, ← List.append_assoc l.cleaned,
    ← List.append_assoc l.added]
  constructor
  · intro hperm
    have hlen := hperm.length_eq
    have hold := h.length_eq
    simp only [List.length_append] at hlen hold
    exact List.length_eq_zero_iff.mp (by omega)
  · intro hlate
    rw [hlate, List.append_nil]
    exact h.append_right _

theorem accounted_step (op : LedgerOp) (l : Ledger) (h : l.Accounted sessionId) :
    (step maxGarbage sessionId op l).Accounted sessionId ↔
      Undisturbed maxGarbage sessionId op l := by
  cases op with
  | add handle => exact iff_of_true (accounted_add maxGarbage sessionId handle h) trivial
  | cleanIfNeeded call =>
    by_cases hneeded : l.manager.CleanNeeded maxGarbage sessionId
    · cases hreturns : call.returns with
      | true =>
        rw [accounted_returned maxGarbage sessionId hneeded hreturns h]
        exact ⟨fun hlate _ _ => hlate, fun hu => hu hneeded hreturns⟩
      | false =>
        apply iff_of_true (accounted_raised maxGarbage sessionId hneeded hreturns h)
        intro _ hreturned
        simp [hreturns] at hreturned
    · apply iff_of_true _ fun hn => absurd hn hneeded
      simpa [step, cleanIfNeeded, addedDuring, hneeded, Accounted] using h

/-- **When no handle is lost.** -/
theorem accounted_iff (g : GarbageManager) (ops : List LedgerOp) :
    Along (step maxGarbage sessionId)
        (fun op l => (step maxGarbage sessionId op l).Accounted sessionId) ops
        (g.ledger sessionId) ↔
      Along (step maxGarbage sessionId) (Undisturbed maxGarbage sessionId) ops
        (g.ledger sessionId) :=
  along_iff (accounted_step maxGarbage sessionId) ops (accounted_ledger sessionId g)

end Ledger

end

/-- The handle of a proxy deleted while the `del` command runs is dropped: with
the threshold 0 and two handles. -/
theorem Ledger.late_lost :
    ¬ Along (Ledger.step 0 (some 7))
      (fun op l => (Ledger.step 0 (some 7) op l).Accounted (some 7))
      [.add (some (.handle 0)), .cleanIfNeeded ⟨[], [some (.handle 1)], true⟩]
      (new.ledger (some 7)) := by
  unfold Ledger.Accounted
  decide

/-- The clean-up of a `RunnerTerminal` during which no proxy is deleted. -/
theorem garbageManager_cleanIfNeeded (clean : CleanEnd) (s : RunnerTerminal) :
    ((RunnerTerminal.cleanIfNeeded clean s).state s).garbageManager =
      (s.garbageManager.cleanIfNeeded RunnerTerminal.maxGarbage s.sessionId
        ⟨[], [], decide (none ∉ s.garbageManager.garbage ∧ clean = .returns)⟩).1 := by
  have hcond : s.garbageManager.CleanNeeded RunnerTerminal.maxGarbage s.sessionId ↔
      s.CleanNeeded := by
    unfold CleanNeeded RunnerTerminal.CleanNeeded
    rw [Nat.cast_lt]
  by_cases hneeded : s.CleanNeeded
  · by_cases hjoin : none ∈ s.garbageManager.garbage
    · simp [RunnerTerminal.cleanIfNeeded, RunnerTerminal.cleanGarbage, Prog.bind_run, hneeded,
        hjoin, cleanIfNeeded, hcond, addAll, Outcome.state]
    · cases clean with
      | returns =>
        simp [RunnerTerminal.cleanIfNeeded, RunnerTerminal.cleanGarbage, Prog.bind_run, hneeded,
          hjoin, cleanIfNeeded, hcond, addAll, Outcome.state]
      | raises deleted =>
        cases deleted <;>
          simp [RunnerTerminal.cleanIfNeeded, RunnerTerminal.cleanGarbage, Prog.bind_run, hneeded,
            hjoin, cleanIfNeeded, hcond, addAll, Outcome.state]
  · simp [RunnerTerminal.cleanIfNeeded, Prog.bind_run, hneeded, cleanIfNeeded, hcond,
      Outcome.state]

end GarbageManager

end InteractiveSessions
