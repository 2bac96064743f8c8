import InteractiveSessions.Lib.Runs
import InteractiveSessions.TokenReader

/-!
# `tokenreader`: readers for one token share their matchers

`_create_matchers` is memoised by the token, so the matchers of all readers for
one token are the same objects.  Readers with a stream each, and any interleaving
of their calls, one buffered read at a time.

* `alone`: every reader takes and returns what it would alone, in every run in
  which each of its reads finds the matchers as the reader left them;
* `undisturbed_of_serial`: so it is when no two calls for one token overlap.
-/

namespace InteractiveSessions.TokenReader

/-! ## One reader, step by step -/

/-- How a call of `read_until_token` ends. -/
inductive ReadEnd (ε α : Type) where
  | returned (u : List α)
  | assertionError
  | raised (e : ε)
  deriving DecidableEq, Repr

/-- A `TokenReader`: its stream, `_io` and `_remaining`, whether it is in a call,
and how its calls ended. -/
structure Reader (ε τ α : Type) where
  stream : τ
  io : List α
  remaining : Nat
  reading : Bool
  ends : List (ReadEnd ε α)
  deriving DecidableEq, Repr

namespace Reader

variable {ε τ α : Type}

def new (stream : τ) : Reader ε τ α := ⟨stream, [], 0, false, []⟩

/-- The end of `read_until_token`.  `match_start` asserts that there is a full
match. -/
def finish (token : List α) (t : State α) : ReadEnd ε α :=
  if t.matcher.any (FixedGapMatcher.fullMatch token) then .returned (result token t)
  else .assertionError

/-- The reader at the head of the loop, in the state `t`. -/
def atLoop (token : List α) (t : State α) (x : Reader ε τ α) : Reader ε τ α :=
  if 0 < t.remaining then { x with io := t.io, remaining := t.remaining, reading := true }
  else
    { x with
      io := t.io
      remaining := t.remaining
      reading := false
      ends := x.ends ++ [finish token t] }

/-- The start of `read_until_token`, up to its first buffered read. -/
def call (token : List α) (ms : SingleGapMatcher) (x : Reader ε τ α) :
    Reader ε τ α × SingleGapMatcher :=
  (x.atLoop token ⟨[], token.length, ms.reset⟩, ms.reset)

/-- One round of the loop: a buffered read, `find` and the new `_remaining`. -/
def read [DecidableEq α] (token : List α) (readUntilSize : Nat → Prog ε τ (List α))
    (ms : SingleGapMatcher) (x : Reader ε τ α) : Reader ε τ α × SingleGapMatcher :=
  match readUntilSize x.remaining x.stream with
  | .ret s stream =>
    let t := feed token s ⟨x.io, x.remaining, ms⟩
    ({ x with stream := stream }.atLoop token t, t.matcher)
  | .raised e stream =>
    ({ x with stream := stream, reading := false, ends := x.ends ++ [.raised e] }, ms)
  | .hang => (x, ms)

section

variable [DecidableEq α] {token : List α} {readUntilSize : Nat → Prog ε τ (List α)}
  {ms : SingleGapMatcher} {x : Reader ε τ α}

theorem left_call (h : Left token ms) : Left token (x.call token ms).2 := h.reset

theorem left_read (h : Left token ms) : Left token (x.read token readUntilSize ms).2 := by
  unfold read
  split
  · next s stream _ => exact h.find s x.io.length
  · exact h
  · exact h

/-- A call does not depend on what earlier ones left in the matchers. -/
theorem call_congr {ms' : SingleGapMatcher} (h : Left token ms) (h' : Left token ms') :
    x.call token ms = x.call token ms' := by
  rw [call, call, h.reset_eq, h'.reset_eq]

/-- The rounds of a call are those of `readLoop`. -/
theorem iterate_read {u : List α} {fuel : Nat} {t : State α} {s s' : τ}
    {ends : List (ReadEnd ε α)} (hpos : 0 < t.remaining)
    (h : readLoop token readUntilSize fuel t s = .ret u s') :
    ∃ n t', (fun p : Reader ε τ α × SingleGapMatcher => p.1.read token readUntilSize p.2)^[n]
        (⟨s, t.io, t.remaining, true, ends⟩, t.matcher) =
        (⟨s', t'.io, 0, false, ends ++ [finish token t']⟩, t'.matcher) ∧ result token t' = u := by
  induction fuel generalizing t s with
  | zero => cases h
  | succ fuel ih =>
    rw [readLoop, if_pos hpos] at h
    obtain ⟨bytes, s₁, hread, h⟩ := Prog.ret_of_bind h
    have hround : (⟨s, t.io, t.remaining, true, ends⟩ : Reader ε τ α).read token readUntilSize
        t.matcher = ((⟨s₁, t.io, t.remaining, true, ends⟩ : Reader ε τ α).atLoop token
          (feed token bytes t), (feed token bytes t).matcher) := by
      simp [read, hread]
    by_cases hmore : 0 < (feed token bytes t).remaining
    · obtain ⟨n, t', hrun, hu⟩ := ih hmore h
      refine ⟨n + 1, t', ?_, hu⟩
      rw [Function.iterate_succ_apply, hround, atLoop, if_pos hmore]
      exact hrun
    · cases fuel with
      | zero => cases h
      | succ fuel =>
        rw [readLoop, if_neg hmore] at h
        cases h
        refine ⟨1, feed token bytes t, ?_, rfl⟩
        rw [Function.iterate_one, hround, atLoop, if_neg hmore, Nat.eq_zero_of_not_pos hmore]

end

end Reader

/-! ## Readers with shared matchers -/

/-- The readers, the matchers that `MemoizeSingleArg` has saved, and in which
state the last step of each reader left those of its token. -/
structure Readers (ρ ε τ α : Type) where
  readers : ρ → Reader ε τ α
  saved : List α → Option SingleGapMatcher
  left : ρ → SingleGapMatcher

inductive ReaderAction (ρ : Type) where
  | call (r : ρ)
  | read (r : ρ)
  deriving DecidableEq, Repr

namespace ReaderAction

def reader {ρ : Type} : ReaderAction ρ → ρ
  | .call r | .read r => r

/-- Whether the reader is in a call when it takes the action. -/
def inCall {ρ : Type} : ReaderAction ρ → Bool
  | .call _ => false
  | .read _ => true

end ReaderAction

namespace Readers

variable {ρ ε τ α : Type}

def new (streams : ρ → τ) : Readers ρ ε τ α :=
  ⟨fun r => .new (streams r), fun _ => none, fun _ => []⟩

/-- `_create_matchers`: those saved for the token, or new ones. -/
def matchers (token : List α) (s : Readers ρ ε τ α) : SingleGapMatcher :=
  (s.saved token).getD (SingleGapMatcher.new token)

section

variable [DecidableEq ρ] [DecidableEq α] (token : ρ → List α)
  (readUntilSize : ρ → Nat → Prog ε τ (List α))

/-- What the reader of the action does with the matchers of its token. -/
def stepReader (a : ReaderAction ρ) (s : Readers ρ ε τ α) : Reader ε τ α × SingleGapMatcher :=
  match a with
  | .call r => (s.readers r).call (token r) (s.matchers (token r))
  | .read r => (s.readers r).read (token r) (readUntilSize r) (s.matchers (token r))

/-- A step of the reader; an action that it cannot take now changes nothing. -/
def step (a : ReaderAction ρ) (s : Readers ρ ε τ α) : Readers ρ ε τ α :=
  if (s.readers a.reader).reading = a.inCall then
    let y := s.stepReader token readUntilSize a
    ⟨Function.update s.readers a.reader y.1, Function.update s.saved (token a.reader) (some y.2),
      Function.update s.left a.reader y.2⟩
  else s

/-- A read finds the matchers as its reader left them. -/
def Undisturbed : ReaderAction ρ → Readers ρ ε τ α → Prop
  | .call _, _ => True
  | .read r, s => (s.readers r).reading = true → s.matchers (token r) = s.left r

/-- No call starts while another reader of the token is in one. -/
def Serial : ReaderAction ρ → Readers ρ ε τ α → Prop
  | .call r, s => ∀ q, q ≠ r → token q = token r → (s.readers q).reading = false
  | .read _, _ => True

variable {token readUntilSize} {a : ReaderAction ρ} {r : ρ} {s t : Readers ρ ε τ α}

theorem step_idle (h : ¬ (s.readers a.reader).reading = a.inCall) :
    step token readUntilSize a s = s := if_neg h

theorem readers_step_self (h : (s.readers a.reader).reading = a.inCall) :
    (step token readUntilSize a s).readers a.reader = (s.stepReader token readUntilSize a).1 := by
  rw [step, if_pos h]
  exact Function.update_self ..

theorem left_step_self (h : (s.readers a.reader).reading = a.inCall) :
    (step token readUntilSize a s).left a.reader = (s.stepReader token readUntilSize a).2 := by
  rw [step, if_pos h]
  exact Function.update_self ..

theorem matchers_step_self (h : (s.readers a.reader).reading = a.inCall) :
    (step token readUntilSize a s).matchers (token a.reader) =
      (s.stepReader token readUntilSize a).2 := by
  rw [step, if_pos h]
  simp [matchers]

theorem readers_step_of_ne (h : r ≠ a.reader) :
    (step token readUntilSize a s).readers r = s.readers r := by
  unfold step
  split
  · exact Function.update_of_ne h ..
  · rfl

theorem left_step_of_ne (h : r ≠ a.reader) :
    (step token readUntilSize a s).left r = s.left r := by
  unfold step
  split
  · exact Function.update_of_ne h ..
  · rfl

theorem matchers_step_of_ne {w : List α} (h : w ≠ token a.reader) :
    (step token readUntilSize a s).matchers w = s.matchers w := by
  unfold step
  split
  · simp [matchers, h]
  · rfl

/-- The matchers of every token are as some reads have left them. -/
def AllLeft (s : Readers ρ ε τ α) : Prop := ∀ w, Left w (s.matchers w)

omit [DecidableEq ρ] in
theorem allLeft_new (streams : ρ → τ) : (new streams : Readers ρ ε τ α).AllLeft := fun _ => .new

theorem AllLeft.step (h : s.AllLeft) (a : ReaderAction ρ) :
    (step token readUntilSize a s).AllLeft := by
  intro w
  by_cases hen : (s.readers a.reader).reading = a.inCall
  · by_cases hw : w = token a.reader
    · rw [hw, matchers_step_self hen]
      cases a with
      | call r => exact Reader.left_call (h _)
      | read r => exact Reader.left_read (h _)
    · rw [matchers_step_of_ne hw]
      exact h w
  · rw [step_idle hen]
    exact h w

/-! ## Together and alone -/

/-- The reader `r` in a run with others and in the run of its own actions. -/
structure Same (token : ρ → List α) (r : ρ) (s t : Readers ρ ε τ α) : Prop where
  allLeft : s.AllLeft
  allLeft_alone : t.AllLeft
  reader : s.readers r = t.readers r
  left : s.left r = t.left r
  untouched : (t.readers r).reading = true → t.matchers (token r) = t.left r

theorem Same.step_other (h : Same token r s t) (ha : r ≠ a.reader) :
    Same token r (step token readUntilSize a s) t where
  allLeft := h.allLeft.step a
  allLeft_alone := h.allLeft_alone
  reader := by rw [readers_step_of_ne ha, h.reader]
  left := by rw [left_step_of_ne ha, h.left]
  untouched := h.untouched

omit [DecidableEq ρ] in
/-- The reader does the same when its read finds the matchers as it left them. -/
theorem Same.stepReader_eq (h : Same token a.reader s t) (hok : Undisturbed token a s)
    (hen : (s.readers a.reader).reading = a.inCall) :
    s.stepReader token readUntilSize a = t.stepReader token readUntilSize a := by
  have hx := h.reader
  cases a with
  | call r =>
    rw [stepReader, stepReader, show s.readers r = t.readers r from hx]
    exact Reader.call_congr (h.allLeft _) (h.allLeft_alone _)
  | read r =>
    have hreading : (t.readers r).reading = true := by
      rw [← show s.readers r = t.readers r from hx]
      exact hen
    have hm : s.matchers (token r) = t.matchers (token r) :=
      calc s.matchers (token r) = s.left r := hok hen
        _ = t.left r := h.left
        _ = t.matchers (token r) := (h.untouched hreading).symm
    rw [stepReader, stepReader, show s.readers r = t.readers r from hx, hm]

theorem Same.step_self (h : Same token a.reader s t) (hok : Undisturbed token a s) :
    Same token a.reader (step token readUntilSize a s) (step token readUntilSize a t) := by
  by_cases hen : (s.readers a.reader).reading = a.inCall
  · have hen' : (t.readers a.reader).reading = a.inCall := h.reader ▸ hen
    have heq : s.stepReader token readUntilSize a = t.stepReader token readUntilSize a :=
      h.stepReader_eq hok hen
    constructor
    · exact h.allLeft.step a
    · exact h.allLeft_alone.step a
    · rw [readers_step_self hen, readers_step_self hen', heq]
    · rw [left_step_self hen, left_step_self hen', heq]
    · intro _
      rw [matchers_step_self hen', left_step_self hen']
  · rw [step_idle hen, step_idle (h.reader ▸ hen)]
    exact h

theorem Same.run (as : List (ReaderAction ρ)) (h : Same token r s t)
    (halong : Along (step token readUntilSize) (Undisturbed token) as s) :
    Same token r (as.foldl (fun s a => step token readUntilSize a s) s)
      ((as.filter fun a => a.reader = r).foldl (fun s a => step token readUntilSize a s) t) := by
  induction as generalizing s t with
  | nil => exact h
  | cons a as ih =>
    rw [List.foldl_cons, List.filter_cons]
    split
    · next ha =>
      have hr : a.reader = r := by simpa using ha
      subst hr
      exact ih (h.step_self halong.1) halong.2
    · next ha =>
      have hr : r ≠ a.reader := fun he => ha (by simp [he])
      exact ih (h.step_other hr) halong.2

omit [DecidableEq ρ] in
theorem same_new (streams : ρ → τ) (r : ρ) :
    Same token r (new streams : Readers ρ ε τ α) (new streams) where
  allLeft := allLeft_new streams
  allLeft_alone := allLeft_new streams
  reader := rfl
  left := rfl
  untouched := nofun

/-- **Interleaved reads.**  When its reads find the matchers as it left them, a
reader takes and returns what it would without the others. -/
theorem alone (streams : ρ → τ) (as : List (ReaderAction ρ))
    (h : Along (step token readUntilSize) (Undisturbed token) as (new streams)) (r : ρ) :
    (as.foldl (fun s a => step token readUntilSize a s) (new streams)).readers r =
      ((as.filter fun a => a.reader = r).foldl (fun s a => step token readUntilSize a s)
        (new streams)).readers r :=
  ((same_new streams r).run as h).reader

/-! ## Calls that do not overlap -/

/-- At most one reader of a token is in a call, and it finds the matchers as it
left them. -/
def OneCall (token : ρ → List α) (s : Readers ρ ε τ α) : Prop :=
  ∀ r, (s.readers r).reading = true → s.matchers (token r) = s.left r ∧
    ∀ q, q ≠ r → token q = token r → (s.readers q).reading = false

omit [DecidableEq ρ] [DecidableEq α] in
theorem OneCall.undisturbed (h : OneCall token s) (a : ReaderAction ρ) :
    Undisturbed token a s := by
  cases a with
  | call r => trivial
  | read r => exact fun hr => (h r hr).1

theorem OneCall.step (h : OneCall token s) (hserial : Serial token a s) :
    OneCall token (step token readUntilSize a s) := by
  by_cases hen : (s.readers a.reader).reading = a.inCall
  · -- the others of the token are in no call
    have hothers : ∀ q, q ≠ a.reader → token q = token a.reader →
        (s.readers q).reading = false := by
      cases a with
      | call r => exact hserial
      | read r => exact (h r hen).2
    intro r hr
    by_cases hra : r = a.reader
    · subst hra
      rw [matchers_step_self hen, left_step_self hen]
      refine ⟨rfl, fun q hq hw => ?_⟩
      rw [readers_step_of_ne hq]
      exact hothers q hq hw
    · rw [readers_step_of_ne hra] at hr
      have hw : token r ≠ token a.reader := by
        intro hw
        rw [hothers r hra hw] at hr
        cases hr
      rw [matchers_step_of_ne hw, left_step_of_ne hra]
      refine ⟨(h r hr).1, fun q hq hqw => ?_⟩
      have hqa : q ≠ a.reader := by
        rintro rfl
        exact hw hqw.symm
      rw [readers_step_of_ne hqa]
      exact (h r hr).2 q hq hqw
  · rw [step_idle hen]
    exact h

/-- Calls for one token that do not overlap leave each other alone. -/
theorem undisturbed_of_serial (streams : ρ → τ) (as : List (ReaderAction ρ))
    (h : Along (step token readUntilSize) (Serial token) as (new streams)) :
    Along (step token readUntilSize) (Undisturbed token) as (new streams) := by
  apply Along.of_invariant (I := OneCall token) _ _ as _ h
  · exact fun a t ht hserial => ht.step hserial
  · exact fun a t ht _ => ht.undisturbed a
  · exact nofun

end

/-! ## Two readers of one token -/

/-- The one reads `9 1 2 3`, the other `1 2 3`. -/
def twoStreams (r : Bool) : Nat → Prog Unit Nat (List Nat) :=
  listRead (if r then [9, 1, 2, 3] else [1, 2, 3])

/-- The second call starts when the first one is in the middle of the token. -/
def overlapping : List (ReaderAction Bool) := [.call true, .read true, .call false, .read true]

instance (a : ReaderAction Bool) (s : Readers Bool Unit Nat Nat) :
    Decidable (Undisturbed (fun _ => [1, 2, 3]) a s) :=
  match a with
  | .call _ => isTrue trivial
  | .read r => inferInstanceAs (Decidable ((s.readers r).reading = true → s.matchers _ = s.left r))

theorem alone_serial :
    ([.call true, .read true, .read true, .call false, .read false].foldl
        (fun s a => step (fun _ => [1, 2, 3]) twoStreams a s)
        (new fun _ : Bool => 0)).readers true =
      ([.call true, .read true, .read true].foldl
        (fun s a => step (fun _ => [1, 2, 3]) twoStreams a s) (new fun _ => 0)).readers true :=
  alone (fun _ => 0) [.call true, .read true, .read true, .call false, .read false]
    (by decide) true

/-- Alone the first reader returns `9`; here it misses the end of the token. -/
theorem overlapping_disturbed :
    ((overlapping.foldl (fun s a => step (fun _ => [1, 2, 3]) twoStreams a s)
        (new fun _ : Bool => 0)).readers true).ends = [] ∧
      (((overlapping.filter fun a => a.reader = true).foldl
        (fun s a => step (fun _ => [1, 2, 3]) twoStreams a s)
        (new fun _ : Bool => 0)).readers true).ends = [.returned [9]] := by
  decide

end Readers

end InteractiveSessions.TokenReader
