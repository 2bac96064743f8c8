import InteractiveSessions.Lib.Dict
import InteractiveSessions.Msgs

/-!
# `msgcaches`: replies that are sent until they are acknowledged

`MsgCaches` keeps every reply until its `Ack` comes or its retries are used up,
and afterwards its uid in a `ConsecutiveSet`.  What counts for the server is the
set of uids that were ever pushed: `MsgCaches.Knows`.
-/

namespace InteractiveSessions

/-! ## `ConsecutiveSet` -/

/-- A set of integers as a range without some of its inner numbers.  `empty` is
the set with `_min` and `_max` not yet set. -/
inductive ConsecutiveSet where
  | empty
  | range (min max : Int) (missingNbrs : Finset Int) (le : min ≤ max)
      (inner : ∀ j ∈ missingNbrs, min < j ∧ j < max)
  deriving DecidableEq

namespace ConsecutiveSet

def contains : ConsecutiveSet → Int → Bool
  | empty, _ => false
  | range min max missing _ _, i => min ≤ i && i ≤ max && i ∉ missing

/-- `set(range(a, b))` -/
def numbers (a b : Int) : Finset Int :=
  ((List.range (b - a).toNat).map fun n : Nat => a + n).toFinset

theorem mem_numbers {a b j : Int} : j ∈ numbers a b ↔ a ≤ j ∧ j < b := by
  simp only [numbers, List.mem_toFinset, List.mem_map, List.mem_range]
  constructor
  · rintro ⟨n, hn, rfl⟩
    omega
  · intro h
    exact ⟨(j - a).toNat, by omega, by omega⟩

/-- The numbers between an end of the range and a new one. -/
theorem inner_union {min max lo hi : Int} {missing : Finset Int} {a b : Int}
    (inner : ∀ j ∈ missing, min < j ∧ j < max) (hmin : lo ≤ min) (hmax : max ≤ hi)
    (ha : lo < a) (hb : b ≤ hi) : ∀ j ∈ missing ∪ numbers a b, lo < j ∧ j < hi := by
  intro j hj
  rcases Finset.mem_union.mp hj with hj | hj
  · have := inner j hj
    omega
  · have := mem_numbers.mp hj
    omega

def add (i : Int) : ConsecutiveSet → ConsecutiveSet
  | empty => range i i ∅ le_rfl (by simp)
  | range min max missing le inner =>
    if h : max < i then
      range min i (missing ∪ numbers (max + 1) i) (by omega)
        (inner_union inner le_rfl h.le (by omega) le_rfl)
    else if min < i ∧ i < max ∧ i ∈ missing then
      range min max (missing.erase i) le fun j hj => inner j (Finset.mem_of_mem_erase hj)
    else if h : i < min then
      range i max (missing ∪ numbers (i + 1) min) (by omega)
        (inner_union inner h.le le_rfl (by omega) (by omega))
    else range min max missing le inner

theorem contains_range {min max : Int} {missing : Finset Int} {le inner} {j : Int} :
    (range min max missing le inner).contains j = true ↔ min ≤ j ∧ j ≤ max ∧ j ∉ missing := by
  simp only [contains, Bool.and_eq_true, decide_eq_true_eq, and_assoc]

/-- **Specification.**  `add` adds one number. -/
theorem contains_add (s : ConsecutiveSet) (i j : Int) :
    (s.add i).contains j = true ↔ j = i ∨ s.contains j = true := by
  cases s with
  | empty =>
    rw [add, contains_range]
    simp only [contains, Finset.notMem_empty, not_false_eq_true, and_true, Bool.false_eq_true,
      or_false]
    omega
  | range min max missing le inner =>
    rw [add]
    have hj := inner j
    split
    · rw [contains_range, contains_range, Finset.mem_union, mem_numbers]
      by_cases hm : j ∈ missing
      · have := hj hm
        simp only [hm, true_or, not_true_eq_false, and_false, or_false, false_iff]
        omega
      · simp only [hm, false_or, not_false_eq_true, and_true]
        omega
    · split
      · next h =>
        rw [contains_range, contains_range, Finset.mem_erase]
        by_cases hm : j ∈ missing
        · have := hj hm
          simp only [hm, and_true, not_not, not_true_eq_false, and_false, or_false]
          omega
        · have hne : j ≠ i := by
            rintro rfl
            exact hm h.2.2
          simp only [hm, and_false, not_false_eq_true, and_true, hne, false_or]
      · split
        · rw [contains_range, contains_range, Finset.mem_union, mem_numbers]
          by_cases hm : j ∈ missing
          · have := hj hm
            simp only [hm, true_or, not_true_eq_false, and_false, or_false, false_iff]
            omega
          · simp only [hm, false_or, not_false_eq_true, and_true]
            omega
        · next h1 h2 h3 =>
          -- the number is there already
          have hi : i ∉ missing := fun hm => h2 ⟨(inner i hm).1, (inner i hm).2, hm⟩
          rw [contains_range]
          constructor
          · exact .inr
          · rintro (rfl | h)
            · exact ⟨by omega, by omega, hi⟩
            · exact h

/-- `__len__` -/
def length : ConsecutiveSet → Nat
  | empty => 0
  | range _ _ missing _ _ => missing.card

/-- The set after `add` of each of the numbers in turn. -/
def addAll (xs : List Int) : ConsecutiveSet := xs.foldl (fun s i => s.add i) empty

/-- The integers between the least and the greatest of `xs` that are not in `xs`. -/
def skipped (xs : List Int) : Finset Int :=
  match xs.min?, xs.max? with
  | some a, some b => (numbers (a + 1) b).filter (· ∉ xs)
  | _, _ => ∅

theorem contains_foldl_add (xs : List Int) (s : ConsecutiveSet) (j : Int) :
    (xs.foldl (fun s i => s.add i) s).contains j = true ↔ j ∈ xs ∨ s.contains j = true := by
  induction xs generalizing s with
  | nil => simp
  | cons i xs ih =>
    rw [List.foldl_cons, ih, contains_add, List.mem_cons]
    tauto

theorem contains_addAll (xs : List Int) (j : Int) : (addAll xs).contains j = true ↔ j ∈ xs := by
  rw [addAll, contains_foldl_add]
  simp [contains]

/-- The bounds of a range are numbers of it. -/
theorem contains_bounds {min max : Int} {missing : Finset Int} {le inner} :
    (range min max missing le inner).contains min = true ∧
      (range min max missing le inner).contains max = true := by
  constructor
  · rw [contains_range]
    exact ⟨le_rfl, le, fun h => (inner min h).1.false⟩
  · rw [contains_range]
    exact ⟨le, le_rfl, fun h => (inner max h).2.false⟩

/-- The missing numbers are determined by the members. -/
theorem length_eq {s : ConsecutiveSet} {xs : List Int}
    (h : ∀ j, s.contains j = true ↔ j ∈ xs) : s.length = (skipped xs).card := by
  cases s with
  | empty =>
    have hxs : xs = [] := List.eq_nil_iff_forall_not_mem.mpr fun j hj => by
      simpa [contains] using (h j).mpr hj
    subst hxs
    rfl
  | range min max missing le inner =>
    have bounds : ∀ j ∈ xs, min ≤ j ∧ j ≤ max := by
      intro j hj
      have := contains_range.mp ((h j).mpr hj)
      exact ⟨this.1, this.2.1⟩
    have hmin : xs.min? = some min := by
      rw [List.min?_eq_some_iff]
      exact ⟨(h min).mp contains_bounds.1, fun j hj => (bounds j hj).1⟩
    have hmax : xs.max? = some max := by
      rw [List.max?_eq_some_iff]
      exact ⟨(h max).mp contains_bounds.2, fun j hj => (bounds j hj).2⟩
    have hmissing : missing = (numbers (min + 1) max).filter (· ∉ xs) := by
      ext j
      rw [Finset.mem_filter, mem_numbers, ← h j, contains_range]
      constructor
      · intro hj
        have := inner j hj
        exact ⟨⟨by omega, by omega⟩, fun hc => hc.2.2 hj⟩
      · rintro ⟨⟨h1, h2⟩, hc⟩
        by_contra hj
        exact hc ⟨by omega, by omega, hj⟩
    rw [length, skipped, hmin, hmax]
    exact congrArg Finset.card hmissing

/-- **`ConsecutiveSet` is the set of the numbers added to it.** -/
theorem addAll_spec (xs : List Int) :
    (∀ j, (addAll xs).contains j = true ↔ j ∈ xs) ∧ (addAll xs).length = (skipped xs).card :=
  ⟨contains_addAll xs, length_eq (contains_addAll xs)⟩

example : (addAll [1, 9, 4, 2, 7]).length = 4 := by decide

end ConsecutiveSet

/-! ## `Monotonic` -/

structure Monotonic where
  delta : ℚ
  previousTime : ℚ
  deriving DecidableEq

namespace Monotonic

def minIncr : ℚ := 1 / 100

/-- The clock after `__init__`, which reads `t`. -/
def new (t : ℚ) : Monotonic := ⟨0, t⟩

/-- `time`, when `time.time()` is `t`. -/
def time (t : ℚ) (m : Monotonic) : ℚ × Monotonic :=
  let correctedTime := t + m.delta
  if correctedTime ≤ m.previousTime then
    let correctedTime := m.previousTime + minIncr
    (correctedTime, ⟨correctedTime - t, correctedTime⟩)
  else (correctedTime, ⟨m.delta, correctedTime⟩)

/-- The clock never goes backwards. -/
theorem lt_time (t : ℚ) (m : Monotonic) : m.previousTime < (m.time t).1 := by
  unfold time
  dsimp only
  split
  · have : (0 : ℚ) < minIncr := by norm_num [minIncr]
    linarith
  · next h => exact not_le.mp h

theorem time_previousTime (t : ℚ) (m : Monotonic) : (m.time t).2.previousTime = (m.time t).1 := by
  unfold time
  dsimp only
  split <;> rfl

end Monotonic

/-! ## `MsgCache` -/

structure MsgCache where
  msg : Msg
  timeout : ℚ
  timeouts : List ℚ
  deriving DecidableEq

namespace MsgCache

def new (retry : Retry) (msg : Msg) : MsgCache := ⟨msg, 0, retry.timeouts⟩

/-- `send_expired`: the cache after the call and whether it sends its message;
`none` when the timeout becomes `Infinite()`. -/
def sendExpired (elapsed : ℚ) (c : MsgCache) : Option (MsgCache × Bool) :=
  if elapsed < c.timeout then some ({ c with timeout := c.timeout - elapsed }, false)
  else
    match c.timeouts with
    | t :: ts => some ({ c with timeout := t, timeouts := ts }, true)
    | [] => none

/-- What a call of `send_expired` does. -/
theorem sendExpired_cases (elapsed : ℚ) (c : MsgCache) :
    elapsed < c.timeout ∧
        c.sendExpired elapsed = some ({ c with timeout := c.timeout - elapsed }, false) ∨
      c.timeout ≤ elapsed ∧
        ((∃ t ts, c.timeouts = t :: ts ∧
            c.sendExpired elapsed = some ({ c with timeout := t, timeouts := ts }, true)) ∨
          c.timeouts = [] ∧ c.sendExpired elapsed = none) := by
  unfold sendExpired
  split
  · next h => exact .inl ⟨h, rfl⟩
  · next h =>
    refine .inr ⟨not_lt.mp h, ?_⟩
    cases hts : c.timeouts with
    | nil => exact .inr ⟨rfl, rfl⟩
    | cons t ts => exact .inl ⟨t, ts, rfl, rfl⟩

theorem sendExpired_msg {elapsed : ℚ} {c c' : MsgCache} {send : Bool}
    (h : c.sendExpired elapsed = some (c', send)) : c'.msg = c.msg := by
  unfold sendExpired at h
  split at h
  · cases h
    rfl
  · split at h
    · cases h
      rfl
    · cases h

end MsgCache

/-! ## `MsgCaches` -/

inductive MsgCachesError where
  | alreadyRemoved
  | notFound
  deriving DecidableEq, Repr

/-- `_msgcaches`, `_monotonic`, `_lap` and `_removed`. -/
structure MsgCaches where
  msgcaches : Dict Int MsgCache
  monotonic : Monotonic
  lap : ℚ
  removed : ConsecutiveSet
  deriving DecidableEq

namespace MsgCaches

/-- `_msgcaches[uid] = cache` -/
def update (uid : Int) (cache : MsgCache) (c : MsgCaches) : MsgCaches :=
  { c with msgcaches := c.msgcaches.set uid cache }

def pushMsg (retry : Retry) (msg : Msg) (c : MsgCaches) : MsgCaches :=
  c.update msg.uid (MsgCache.new retry msg)

/-- `_remove` -/
def removeUid (uid : Int) (c : MsgCaches) : MsgCaches :=
  { c with msgcaches := c.msgcaches.erase uid, removed := c.removed.add uid }

def remove (msg : Msg) (c : MsgCaches) : MsgCaches :=
  if msg.uid ∈ c.msgcaches.keys then c.removeUid msg.uid else c

def getMsg (uid : Int) (c : MsgCaches) : Except MsgCachesError Msg :=
  match c.msgcaches.get? uid with
  | some cache => .ok cache.msg
  | none => if c.removed.contains uid then .error .alreadyRemoved else .error .notFound

/-- A message with this uid was pushed. -/
def Knows (c : MsgCaches) (uid : Int) : Prop :=
  uid ∈ c.msgcaches.keys ∨ c.removed.contains uid = true

/-- The message is in a cache. -/
def Holds (c : MsgCaches) (m : Msg) : Prop :=
  ∃ uid cache, (uid, cache) ∈ c.msgcaches.items ∧ cache.msg = m

theorem getMsg_notFound {c : MsgCaches} {uid : Int} :
    c.getMsg uid = .error .notFound ↔ ¬ c.Knows uid := by
  unfold getMsg Knows
  cases h : c.msgcaches.get? uid with
  | some cache =>
    have hmem : uid ∈ c.msgcaches.keys := Dict.mem_keys.mpr ⟨cache, Dict.get?_eq_some.mp h⟩
    simp only [hmem, true_or, not_true_eq_false, iff_false]
    exact nofun
  | none =>
    have hmem := Dict.get?_eq_none.mp h
    cases hr : c.removed.contains uid with
    | true => simp
    | false => simp [hmem]

theorem getMsg_ne_alreadyRemoved {c : MsgCaches} {uid : Int} (h : ¬ c.removed.contains uid = true) :
    c.getMsg uid ≠ .error .alreadyRemoved := by
  unfold getMsg
  split
  · exact nofun
  · rw [if_neg h]
    exact nofun

theorem getMsg_ok {c : MsgCaches} {uid : Int} {m : Msg} (h : c.getMsg uid = .ok m) : c.Holds m := by
  unfold getMsg at h
  split at h
  · next cache hc =>
    cases h
    exact ⟨uid, cache, Dict.get?_eq_some.mp hc, rfl⟩
  · split at h <;> cases h

theorem knows_update {c : MsgCaches} {uid uid' : Int} {cache : MsgCache} :
    (c.update uid cache).Knows uid' ↔ uid' = uid ∨ c.Knows uid' := by
  simp only [Knows, update, Dict.mem_keys_set, or_assoc]

theorem holds_update {c : MsgCaches} {uid : Int} {cache : MsgCache} {m : Msg}
    (h : (c.update uid cache).Holds m) : m = cache.msg ∨ c.Holds m := by
  obtain ⟨uid', cache', hmem, rfl⟩ := h
  rcases Dict.mem_set.mp hmem with heq | ⟨-, hold⟩
  · cases heq
    exact .inl rfl
  · exact .inr ⟨uid', cache', hold, rfl⟩

theorem knows_pushMsg {retry : Retry} {msg : Msg} {c : MsgCaches} {uid : Int} :
    (c.pushMsg retry msg).Knows uid ↔ uid = msg.uid ∨ c.Knows uid := knows_update

theorem holds_pushMsg {retry : Retry} {msg m : Msg} {c : MsgCaches}
    (h : (c.pushMsg retry msg).Holds m) : m = msg ∨ c.Holds m := holds_update h

theorem knows_removeUid {c : MsgCaches} {uid uid' : Int} (h : c.Knows uid') :
    (c.removeUid uid).Knows uid' := by
  unfold Knows removeUid
  rw [Dict.mem_keys_erase, ConsecutiveSet.contains_add]
  rcases h with h | h
  · by_cases heq : uid' = uid
    · exact .inr (.inl heq)
    · exact .inl ⟨heq, h⟩
  · exact .inr (.inr h)

theorem known_removeUid {c : MsgCaches} {uid uid' : Int} (h : (c.removeUid uid).Knows uid') :
    uid' = uid ∨ c.Knows uid' := by
  unfold Knows removeUid at h
  rw [Dict.mem_keys_erase, ConsecutiveSet.contains_add] at h
  rcases h with h | h | h
  · exact .inr (.inl h.2)
  · exact .inl h
  · exact .inr (.inr h)

theorem holds_removeUid {c : MsgCaches} {uid : Int} {m : Msg} (h : (c.removeUid uid).Holds m) :
    c.Holds m := by
  obtain ⟨uid', cache, hmem, rfl⟩ := h
  exact ⟨uid', cache, (Dict.mem_erase.mp hmem).2, rfl⟩

theorem knows_remove {c : MsgCaches} {msg : Msg} {uid : Int} (h : c.Knows uid) :
    (c.remove msg).Knows uid := by
  unfold remove
  split
  · exact knows_removeUid h
  · exact h

theorem known_remove {c : MsgCaches} {msg : Msg} {uid : Int} (h : (c.remove msg).Knows uid) :
    c.Knows uid := by
  unfold remove at h
  split at h
  · next hmem =>
    rcases known_removeUid h with rfl | h
    · exact .inl hmem
    · exact h
  · exact h

theorem removed_remove {c : MsgCaches} {msg : Msg} {uid : Int}
    (h : (c.remove msg).removed.contains uid = true) :
    uid = msg.uid ∨ c.removed.contains uid = true := by
  unfold remove at h
  split at h
  · exact (ConsecutiveSet.contains_add ..).mp h
  · exact .inr h

theorem holds_remove {c : MsgCaches} {msg m : Msg} (h : (c.remove msg).Holds m) : c.Holds m := by
  unfold remove at h
  split at h
  · exact holds_removeUid h
  · exact h

end MsgCaches

end InteractiveSessions
