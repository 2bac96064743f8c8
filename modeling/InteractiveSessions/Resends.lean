import InteractiveSessions.Servers

/-!
# How often and when the caches send their messages

`MsgCaches` together with its clock and a log of what it did: every reading of
`Monotonic`, every message that was sent and every uid that was removed.  The
readings of the system clock are arbitrary, and `send_msg` may raise, which
abandons the pass of `send_expired` and leaves its lap time as it was.

* `Counted`: what holds of the log, whichever calls came, when no uid is pushed
  twice;
* `Spaced`: sends of a message are an interval apart;
* `paced_run`: all this holds after every run, `Spaced` if there was no
  `send_expired` after an abandoned one.
-/

namespace InteractiveSessions

/-- What is written to the log. -/
inductive Note where
  | time (t : ℚ)
  | sent (msg : Msg)
  | removed (uid : Int)
  deriving DecidableEq

def Note.isSent (uid : Int) : Note → Bool
  | .sent msg => msg.uid = uid
  | _ => false

/-- `MsgCaches` at work: the numbers of readings of the system clock and of sends
so far, whether the last `send_expired` was abandoned, and the log, the newest
note first. -/
structure LoggedCaches where
  caches : MsgCaches
  readings : Nat
  sent : Nat
  abandoned : Bool
  log : List Note
  deriving DecidableEq

namespace LoggedCaches

section
variable (clock : Nat → ℚ) (raises : Nat → Bool)

/-- `__init__` -/
def new : LoggedCaches :=
  let (t, monotonic) := (Monotonic.new (clock 0)).time (clock 1)
  ⟨⟨.empty, monotonic, t, .empty⟩, 2, 0, false, [.time t]⟩

/-- `_monotonic.time()` -/
def time (s : LoggedCaches) : ℚ × LoggedCaches :=
  let (t, monotonic) := s.caches.monotonic.time (clock s.readings)
  (t, { s with
    caches := { s.caches with monotonic }
    readings := s.readings + 1
    log := .time t :: s.log })

/-- `_remove` -/
def removeUid (uid : Int) (s : LoggedCaches) : LoggedCaches :=
  { s with caches := s.caches.removeUid uid, log := .removed uid :: s.log }

/-- The cache of `uid` becomes `c`. -/
def update (uid : Int) (c : MsgCache) (s : LoggedCaches) : LoggedCaches :=
  { s with caches := s.caches.update uid c }

/-- `send_msg`, which has sent the message also when it raises. -/
def send (msg : Msg) (s : LoggedCaches) : LoggedCaches :=
  { s with sent := s.sent + 1, abandoned := raises s.sent, log := .sent msg :: s.log }

/-- The body of the loop of `send_expired`. -/
def sendIfExpired (s : LoggedCaches) (x : Int × MsgCache) : LoggedCaches :=
  let (t, s) := s.time clock
  match x.2.sendExpired (t - s.caches.lap) with
  | some (c, true) => (s.update x.1 c).send raises c.msg
  | some (c, false) => s.update x.1 c
  | none => s.removeUid x.1

/-- `self._lap = self._monotonic.time()` -/
def restartLap (s : LoggedCaches) : LoggedCaches :=
  let (t, s) := s.time clock
  { s with caches := { s.caches with lap := t } }

/-- `send_expired` from these caches on. -/
def pass : List (Int × MsgCache) → LoggedCaches → LoggedCaches
  | [], s => s.restartLap clock
  | x :: items, s =>
    let s := s.sendIfExpired clock raises x
    if s.abandoned then s else pass items s

def sendExpired (s : LoggedCaches) : LoggedCaches :=
  pass clock raises s.caches.msgcaches.items { s with abandoned := false }

def pushMsg (retry : Retry) (msg : Msg) (s : LoggedCaches) : LoggedCaches :=
  { s with caches := s.caches.pushMsg retry msg }

def remove (msg : Msg) (s : LoggedCaches) : LoggedCaches :=
  if msg.uid ∈ s.caches.msgcaches.keys then s.removeUid msg.uid else s

/-- The calls of the methods. -/
inductive Call where
  | pushMsg (msg : Msg)
  | remove (msg : Msg)
  | sendExpired
  | getMsg (uid : Int)
  deriving DecidableEq

def step (retry : Retry) (s : LoggedCaches) : Call → LoggedCaches
  | .pushMsg msg => s.pushMsg retry msg
  | .remove msg => s.remove msg
  | .sendExpired => s.sendExpired clock raises
  | .getMsg _ => s

def run (retry : Retry) (calls : List Call) : LoggedCaches :=
  calls.foldl (step clock raises retry) (new clock)

end

/-- The messages that the calls push. -/
def pushed (calls : List Call) : List Msg :=
  calls.filterMap fun
    | .pushMsg msg => some msg
    | _ => none

/-! ## What the log says -/

/-- The readings in the log, the newest first. -/
def times (log : List Note) : List ℚ :=
  log.filterMap fun
    | .time t => some t
    | _ => none

/-- How often the message with this uid was sent. -/
def sends (uid : Int) (log : List Note) : Nat := log.countP (Note.isSent uid)

/-- Between two sends of a message, the first reading after the one and the last
reading before the other are `interval` apart. -/
def Spaced (interval : ℚ) (log : List Note) : Prop :=
  ∀ later mid earlier m m', log = later ++ .sent m' :: (mid ++ .sent m :: earlier) →
    m.uid = m'.uid → (∀ x ∈ mid, x.isSent m.uid = false) →
    ∃ first last, (times mid).getLast? = some first ∧ (times mid).head? = some last ∧
      interval ≤ last - first

/-- What is removed is not sent any more. -/
def Silent (log : List Note) : Prop :=
  ∀ later earlier uid, log = later ++ .removed uid :: earlier →
    ∀ x ∈ later, x.isSent uid = false

/-- **Specification.**  After calls that pushed the messages `msgs`. -/
structure Counted (retry : Retry) (msgs : List Msg) (s : LoggedCaches) : Prop where
  sends_le : ∀ uid, (sends uid s.log : Int) ≤ max 1 retry.tries
  silent : Silent s.log
  cached : ∀ m ∈ msgs, .removed m.uid ∉ s.log → s.caches.getMsg m.uid = .ok m
  alreadyRemoved : ∀ uid, .removed uid ∈ s.log → s.caches.getMsg uid = .error .alreadyRemoved
  notFound : ∀ uid, (∀ m ∈ msgs, m.uid ≠ uid) → s.caches.getMsg uid = .error .notFound
  /-- A `remove` removes what was pushed. -/
  removes : ∀ m ∈ msgs, ∀ m', m'.uid = m.uid → .removed m.uid ∈ (s.remove m').log

/-! ## Reading the log -/

/-- The first reading after the last send. -/
def origin (uid : Int) (log : List Note) : Option ℚ :=
  (times (log.takeWhile fun x => !x.isSent uid)).getLast?

section
variable {uid : Int} {log : List Note} {t : ℚ} {m : Msg}

@[simp] theorem isSent_time : (Note.time t).isSent uid = false := rfl

@[simp] theorem isSent_removed {uid' : Int} : (Note.removed uid').isSent uid = false := rfl

theorem isSent_sent : (Note.sent m).isSent uid = decide (m.uid = uid) := rfl

@[simp] theorem sends_time : sends uid (.time t :: log) = sends uid log :=
  List.countP_cons_of_neg (by simp)

@[simp] theorem sends_removed {uid' : Int} : sends uid (.removed uid' :: log) = sends uid log :=
  List.countP_cons_of_neg (by simp)

theorem sends_sent_self : sends m.uid (.sent m :: log) = sends m.uid log + 1 :=
  List.countP_cons_of_pos (by simp [isSent_sent])

theorem sends_sent_ne (h : m.uid ≠ uid) : sends uid (.sent m :: log) = sends uid log :=
  List.countP_cons_of_neg (by simp [isSent_sent, h])

theorem sends_eq_zero (h : ∀ m, .sent m ∈ log → m.uid ≠ uid) : sends uid log = 0 := by
  refine List.countP_eq_zero.mpr fun x hx => ?_
  cases x with
  | sent m => simpa [isSent_sent] using h m hx
  | time t => simp
  | removed uid' => simp

theorem origin_time : origin uid (.time t :: log) = some ((origin uid log).getD t) := by
  have htimes : ∀ l, times (.time t :: l) = t :: times l := fun _ => rfl
  rw [origin, List.takeWhile_cons_of_pos (by simp), htimes, List.getLast?_cons, origin]

theorem origin_removed {uid' : Int} : origin uid (.removed uid' :: log) = origin uid log := by
  have htimes : ∀ l, times (.removed uid' :: l) = times l := fun _ => rfl
  rw [origin, List.takeWhile_cons_of_pos (by simp), htimes, origin]

theorem origin_sent_self : origin m.uid (.sent m :: log) = none := by
  rw [origin, List.takeWhile_cons_of_neg (by simp [isSent_sent])]
  rfl

theorem origin_sent_ne (h : m.uid ≠ uid) : origin uid (.sent m :: log) = origin uid log := by
  have htimes : ∀ l, times (.sent m :: l) = times l := fun _ => rfl
  rw [origin, List.takeWhile_cons_of_pos (by simp [isSent_sent, h]), htimes, origin]

theorem origin_append {mid earlier : List Note} (h : ∀ x ∈ mid, x.isSent m.uid = false) :
    origin m.uid (mid ++ .sent m :: earlier) = (times mid).getLast? := by
  rw [origin, List.takeWhile_append_of_pos (by simpa using h),
    List.takeWhile_cons_of_neg (by simp [isSent_sent]), List.append_nil]

end

theorem Spaced.cons {interval : ℚ} {log : List Note} {x : Note} (h : Spaced interval log)
    (hx : ∀ m', x = .sent m' → ∀ mid earlier m, log = mid ++ .sent m :: earlier →
      m.uid = m'.uid → (∀ y ∈ mid, y.isSent m.uid = false) →
      ∃ first last, (times mid).getLast? = some first ∧ (times mid).head? = some last ∧
        interval ≤ last - first) : Spaced interval (x :: log) := by
  intro later mid earlier m m' hlog
  cases later with
  | nil =>
    rw [List.nil_append] at hlog
    obtain ⟨rfl, hrest⟩ := List.cons.inj hlog
    exact hx m' rfl mid earlier m hrest
  | cons y later =>
    rw [List.cons_append] at hlog
    exact h later mid earlier m m' (List.cons.inj hlog).2

theorem Spaced.cons_of_ne {interval : ℚ} {log : List Note} {x : Note} (h : Spaced interval log)
    (hx : ∀ m, x ≠ .sent m) : Spaced interval (x :: log) :=
  h.cons fun m hm => absurd hm (hx m)

theorem Silent.cons {log : List Note} {x : Note} (h : Silent log)
    (hx : ∀ uid, .removed uid ∈ log → x.isSent uid = false) : Silent (x :: log) := by
  intro later earlier uid hlog
  cases later with
  | nil => exact fun y hy => absurd hy List.not_mem_nil
  | cons y later =>
    rw [List.cons_append] at hlog
    obtain ⟨rfl, hrest⟩ := List.cons.inj hlog
    have hmem : Note.removed uid ∈ log := by
      rw [hrest]
      exact List.mem_append_right _ (List.mem_cons_self ..)
    rintro z (- | ⟨-, hz⟩)
    · exact hx uid hmem
    · exact h later earlier uid hrest z hz

/-! ## The invariant -/

/-- A cache of a message in `msgs`. -/
structure Kept (retry : Retry) (msgs : List Msg) (log : List Note) (uid : Int) (c : MsgCache) :
    Prop where
  msg_mem : c.msg ∈ msgs
  uid_eq : c.msg.uid = uid
  not_removed : .removed uid ∉ log
  timeouts_eq : c.timeouts = retry.timeouts.drop (sends uid log)

/-- A message that is sent again waits at `now` for the rest of the interval. -/
def Waits (interval now : ℚ) (log : List Note) (uid : Int) (c : MsgCache) : Prop :=
  0 < sends uid log → c.timeouts ≠ [] →
    interval ≤ c.timeout + (now - (origin uid log).getD now)

/-- The same, when there was a reading since the last send. -/
def WaitsSince (interval lap : ℚ) (log : List Note) (uid : Int) (c : MsgCache) : Prop :=
  0 < sends uid log → c.timeouts ≠ [] →
    ∃ first, origin uid log = some first ∧ interval ≤ c.timeout + (lap - first)

/-- What holds at all times. -/
structure Base (retry : Retry) (msgs : List Msg) (s : LoggedCaches) : Prop where
  kept : ∀ uid c, (uid, c) ∈ s.caches.msgcaches.items → Kept retry msgs s.log uid c
  known : ∀ m ∈ msgs, m.uid ∈ s.caches.msgcaches.keys ∨ .removed m.uid ∈ s.log
  removed_iff : ∀ uid, s.caches.removed.contains uid = true ↔ .removed uid ∈ s.log
  sent_mem : ∀ m, .sent m ∈ s.log → m ∈ msgs
  removed_mem : ∀ uid, .removed uid ∈ s.log → ∃ m ∈ msgs, m.uid = uid
  sends_le : ∀ uid, sends uid s.log ≤ retry.timeouts.length
  silent : Silent s.log

/-- In a pass of `send_expired` that has to come to the caches of `todo`. -/
structure Inv (retry : Retry) (msgs : List Msg) (todo : List Int) (s : LoggedCaches) : Prop
    extends Base retry msgs s where
  ahead : ∀ uid c, (uid, c) ∈ s.caches.msgcaches.items → uid ∈ todo →
    WaitsSince retry.interval s.caches.lap s.log uid c
  done : ∀ uid c, (uid, c) ∈ s.caches.msgcaches.items → uid ∉ todo →
    Waits retry.interval s.caches.monotonic.previousTime s.log uid c
  spaced : Spaced retry.interval s.log

variable {retry : Retry} {msgs : List Msg} {todo : List Int} {s : LoggedCaches}
  {clock : Nat → ℚ} {raises : Nat → Bool}

/-! ## A reading -/

theorem time_caches (clock : Nat → ℚ) (s : LoggedCaches) :
    (s.time clock).2.caches.msgcaches = s.caches.msgcaches ∧
      (s.time clock).2.caches.removed = s.caches.removed ∧
      (s.time clock).2.caches.lap = s.caches.lap ∧
      (s.time clock).2.log = .time (s.time clock).1 :: s.log := ⟨rfl, rfl, rfl, rfl⟩

theorem time_previousTime (clock : Nat → ℚ) (s : LoggedCaches) :
    (s.time clock).2.caches.monotonic.previousTime = (s.time clock).1 :=
  s.caches.monotonic.time_previousTime (clock s.readings)

theorem lt_time (clock : Nat → ℚ) (s : LoggedCaches) :
    s.caches.monotonic.previousTime < (s.time clock).1 :=
  s.caches.monotonic.lt_time (clock s.readings)

theorem Waits.time {interval now t : ℚ} {log : List Note} {uid : Int} {c : MsgCache}
    (h : Waits interval now log uid c) (ht : now ≤ t) :
    Waits interval t (.time t :: log) uid c := by
  intro hpos hne
  rw [sends_time] at hpos
  have hle := h hpos hne
  rw [origin_time, Option.getD_some]
  cases horigin : origin uid log with
  | none =>
    rw [horigin, Option.getD_none] at hle
    rw [Option.getD_none]
    linarith
  | some first =>
    rw [horigin, Option.getD_some] at hle
    rw [Option.getD_some]
    linarith

theorem WaitsSince.time {interval lap t : ℚ} {log : List Note} {uid : Int} {c : MsgCache}
    (h : WaitsSince interval lap log uid c) : WaitsSince interval lap (.time t :: log) uid c := by
  intro hpos hne
  rw [sends_time] at hpos
  obtain ⟨first, horigin, hle⟩ := h hpos hne
  exact ⟨first, by rw [origin_time, horigin, Option.getD_some], hle⟩

/-- A note about another message. -/
theorem Waits.cons {interval now : ℚ} {log : List Note} {uid : Int} {c : MsgCache} {x : Note}
    (h : Waits interval now log uid c) (hsends : sends uid (x :: log) = sends uid log)
    (horigin : origin uid (x :: log) = origin uid log) : Waits interval now (x :: log) uid c := by
  intro hpos hne
  rw [hsends] at hpos
  rw [horigin]
  exact h hpos hne

theorem WaitsSince.cons {interval lap : ℚ} {log : List Note} {uid : Int} {c : MsgCache} {x : Note}
    (h : WaitsSince interval lap log uid c) (hsends : sends uid (x :: log) = sends uid log)
    (horigin : origin uid (x :: log) = origin uid log) :
    WaitsSince interval lap (x :: log) uid c := by
  intro hpos hne
  rw [hsends] at hpos
  rw [horigin]
  exact h hpos hne

theorem Kept.cons {log : List Note} {uid : Int} {c : MsgCache} {x : Note}
    (h : Kept retry msgs log uid c) (hsent : x.isSent uid = false) (hremoved : x ≠ .removed uid) :
    Kept retry msgs (x :: log) uid c where
  msg_mem := h.msg_mem
  uid_eq := h.uid_eq
  not_removed hmem := by
    rcases List.mem_cons.mp hmem with heq | hmem
    · exact hremoved heq.symm
    · exact h.not_removed hmem
  timeouts_eq := by
    rw [h.timeouts_eq, sends, sends, List.countP_cons_of_neg (by simp [hsent])]

theorem Base.time (h : Base retry msgs s) : Base retry msgs (s.time clock).2 where
  kept uid c hc := (h.kept uid c hc).cons rfl nofun
  known m hm := (h.known m hm).imp_right (List.mem_cons_of_mem _)
  removed_iff uid := (h.removed_iff uid).trans
    ⟨List.mem_cons_of_mem _, List.mem_of_ne_of_mem (by simp)⟩
  sent_mem m hm := h.sent_mem m (List.mem_of_ne_of_mem (by simp) hm)
  removed_mem uid hm := h.removed_mem uid (List.mem_of_ne_of_mem (by simp) hm)
  sends_le uid := by
    rw [(time_caches clock s).2.2.2, sends_time]
    exact h.sends_le uid
  silent := h.silent.cons fun _ _ => rfl

theorem Inv.time (h : Inv retry msgs todo s) : Inv retry msgs todo (s.time clock).2 where
  toBase := h.toBase.time
  ahead uid c hc htodo := (h.ahead uid c hc htodo).time
  done uid c hc htodo := by
    rw [time_previousTime]
    exact (h.done uid c hc htodo).time (lt_time clock s).le
  spaced := h.spaced.cons_of_ne nofun

/-! ## One cache -/

section
variable {uid : Int} {c : MsgCache}

theorem items_update {c' : MsgCache} {uid' : Int} {d : MsgCache} :
    (uid', d) ∈ (s.update uid c').caches.msgcaches.items ↔
      uid' = uid ∧ d = c' ∨ uid' ≠ uid ∧ (uid', d) ∈ s.caches.msgcaches.items := by
  have hset : (uid', d) ∈ (s.update uid c').caches.msgcaches.items ↔ _ := Dict.mem_set
  rw [hset, Prod.mk.injEq]

/-- A cache gets another timeout. -/
theorem Base.wait (h : Base retry msgs s) (hc : (uid, c) ∈ s.caches.msgcaches.items)
    (timeout : ℚ) : Base retry msgs (s.update uid { c with timeout }) where
  kept uid' d hd := by
    rcases items_update.mp hd with ⟨rfl, rfl⟩ | ⟨-, hd⟩
    · have hkept := h.kept _ c hc
      exact ⟨hkept.msg_mem, hkept.uid_eq, hkept.not_removed, hkept.timeouts_eq⟩
    · exact h.kept uid' d hd
  known m hm := (h.known m hm).imp_left fun hmem => Dict.mem_keys_set.mpr (.inr hmem)
  removed_iff := h.removed_iff
  sent_mem := h.sent_mem
  removed_mem := h.removed_mem
  sends_le := h.sends_le
  silent := h.silent

/-- A cache whose timeout is not over waits for the rest of it. -/
theorem Inv.wait (h : Inv retry msgs (uid :: todo) s)
    (hc : (uid, c) ∈ s.caches.msgcaches.items) (htodo : uid ∉ todo) :
    Inv retry msgs todo (s.update uid { c with
      timeout := c.timeout - (s.caches.monotonic.previousTime - s.caches.lap) }) where
  toBase := h.toBase.wait hc _
  ahead uid' d hd hmem := by
    rcases items_update.mp hd with ⟨rfl, rfl⟩ | ⟨-, hd⟩
    · exact absurd hmem htodo
    · exact h.ahead uid' d hd (List.mem_cons_of_mem _ hmem)
  done uid' d hd hmem := by
    rcases items_update.mp hd with ⟨rfl, rfl⟩ | ⟨hne, hd⟩
    · intro hpos hts
      obtain ⟨first, horigin, hle⟩ := h.ahead _ c hc (List.mem_cons_self ..) hpos hts
      show _ ≤ c.timeout - (s.caches.monotonic.previousTime - s.caches.lap) +
        (s.caches.monotonic.previousTime - (origin uid' s.log).getD _)
      rw [horigin, Option.getD_some]
      linarith
    · exact h.done uid' d hd (by simp [hne, hmem])
  spaced := h.spaced

/-- The message of a cache that is not done yet may be sent after a reading. -/
theorem Inv.spaced_sent (h : Inv retry msgs (uid :: todo) s)
    (hc : (uid, c) ∈ s.caches.msgcaches.items) (hts : c.timeouts ≠ [])
    (hexpired : c.timeout ≤ s.caches.monotonic.previousTime - s.caches.lap)
    {rest : List Note} (hlog : s.log = .time s.caches.monotonic.previousTime :: rest) :
    Spaced retry.interval (.sent c.msg :: s.log) := by
  have huid := (h.kept uid c hc).uid_eq
  refine h.spaced.cons fun m' hm' mid earlier m hsplit hsame hmid => ?_
  cases hm'
  have hm : m.uid = uid := hsame.trans huid
  have hpos : 0 < sends uid s.log := by
    rw [hsplit, ← hm]
    exact List.countP_pos_iff.mpr ⟨.sent m, by simp, by simp [isSent_sent]⟩
  obtain ⟨first, horigin, hle⟩ := h.ahead uid c hc (List.mem_cons_self ..) hpos hts
  refine ⟨first, s.caches.monotonic.previousTime, ?_, ?_, by linarith⟩
  · rw [← origin_append hmid, ← hsplit, hm, horigin]
  · rw [hlog] at hsplit
    cases mid with
    | nil => cases (List.cons.inj hsplit).1
    | cons x mid =>
      obtain rfl := (List.cons.inj hsplit).1
      rfl

section
variable {t : ℚ} {ts : List ℚ} (hc : (uid, c) ∈ s.caches.msgcaches.items)
  (hts : c.timeouts = t :: ts)
include hc hts

theorem Base.drop_timeouts (h : Base retry msgs s) :
    retry.timeouts.drop (sends uid s.log) = t :: ts := by
  rw [← (h.kept uid c hc).timeouts_eq, hts]

/-- A cache sends its message and takes the next of its timeouts. -/
theorem Base.send (h : Base retry msgs s) :
    Base retry msgs ((s.update uid { c with timeout := t, timeouts := ts }).send raises c.msg) := by
  have hkept := h.kept uid c hc
  have huid := hkept.uid_eq
  have hdrop := h.drop_timeouts hc hts
  have hother : ∀ {uid'}, uid' ≠ uid → c.msg.uid ≠ uid' := fun hne heq =>
    hne (heq.symm.trans huid)
  have hsends : sends uid (.sent c.msg :: s.log) = sends uid s.log + 1 := by
    rw [← huid]
    exact sends_sent_self
  constructor
  case kept =>
    intro uid' d hd
    rcases items_update.mp hd with ⟨rfl, rfl⟩ | ⟨hne, hd⟩
    · refine ⟨hkept.msg_mem, huid, ?_, ?_⟩
      · exact fun hmem => hkept.not_removed (List.mem_of_ne_of_mem (by simp) hmem)
      · show ts = retry.timeouts.drop (sends uid' (.sent c.msg :: s.log))
        rw [hsends, ← List.drop_drop, hdrop, List.drop_one, List.tail_cons]
    · exact (h.kept uid' d hd).cons (by simp [isSent_sent, hother hne]) nofun
  case known =>
    exact fun m hm => (h.known m hm).imp (fun hmem => Dict.mem_keys_set.mpr (.inr hmem))
      (List.mem_cons_of_mem _)
  case removed_iff =>
    exact fun uid' => (h.removed_iff uid').trans
      ⟨List.mem_cons_of_mem _, List.mem_of_ne_of_mem (by simp)⟩
  case sent_mem =>
    intro m hm
    rcases List.mem_cons.mp hm with heq | hm
    · cases heq
      exact hkept.msg_mem
    · exact h.sent_mem m hm
  case removed_mem =>
    exact fun uid' hm => h.removed_mem uid' (List.mem_of_ne_of_mem (by simp) hm)
  case sends_le =>
    intro uid'
    show sends uid' (.sent c.msg :: s.log) ≤ _
    by_cases hne : uid' = uid
    · subst hne
      have hlen : retry.timeouts.length - sends uid' s.log = ts.length + 1 := by
        rw [← List.length_drop, hdrop, List.length_cons]
      rw [hsends]
      omega
    · rw [sends_sent_ne (hother hne)]
      exact h.sends_le uid'
  case silent =>
    refine h.silent.cons fun uid' hmem => ?_
    rw [isSent_sent, huid, decide_eq_false_iff_not]
    rintro rfl
    exact hkept.not_removed hmem

/-- A cache whose timeout is over sends its message. -/
theorem Inv.send (h : Inv retry msgs (uid :: todo) s) (htodo : uid ∉ todo)
    (hexpired : c.timeout ≤ s.caches.monotonic.previousTime - s.caches.lap)
    {rest : List Note} (hlog : s.log = .time s.caches.monotonic.previousTime :: rest) :
    Inv retry msgs todo
      ((s.update uid { c with timeout := t, timeouts := ts }).send raises c.msg) := by
  have huid := (h.kept uid c hc).uid_eq
  have hother : ∀ {uid'}, uid' ≠ uid → c.msg.uid ≠ uid' := fun hne heq =>
    hne (heq.symm.trans huid)
  constructor
  case toBase => exact h.toBase.send hc hts
  case ahead =>
    intro uid' d hd hmem
    rcases items_update.mp hd with ⟨rfl, rfl⟩ | ⟨hne, hd⟩
    · exact absurd hmem htodo
    · exact (h.ahead uid' d hd (List.mem_cons_of_mem _ hmem)).cons
        (sends_sent_ne (hother hne)) (origin_sent_ne (hother hne))
  case done =>
    intro uid' d hd hmem
    rcases items_update.mp hd with ⟨rfl, rfl⟩ | ⟨hne, hd⟩
    · intro _ hne
      have ht := Retry.interval_of_drop (h.toBase.drop_timeouts hc hts) hne
      show _ ≤ t + (_ - (origin uid' (.sent c.msg :: s.log)).getD _)
      rw [← huid, origin_sent_self, Option.getD_none, sub_self, add_zero, ht]
    · exact (h.done uid' d hd (by simp [hne, hmem])).cons
        (sends_sent_ne (hother hne)) (origin_sent_ne (hother hne))
  case spaced =>
    have hne : c.timeouts ≠ [] := by simp [hts]
    exact h.spaced_sent (c := c) hc hne hexpired hlog

end

theorem items_removeUid {uid' : Int} {d : MsgCache} :
    (uid', d) ∈ (s.removeUid uid).caches.msgcaches.items ↔
      uid' ≠ uid ∧ (uid', d) ∈ s.caches.msgcaches.items := Dict.mem_erase

/-- A cache is removed. -/
theorem Base.removeUid (h : Base retry msgs s) (hmem : uid ∈ s.caches.msgcaches.keys) :
    Base retry msgs (s.removeUid uid) := by
  constructor
  case kept =>
    intro uid' d hd
    obtain ⟨hne, hd⟩ := items_removeUid.mp hd
    exact (h.kept uid' d hd).cons rfl fun heq => hne (Note.removed.inj heq).symm
  case known =>
    intro m hm
    rcases h.known m hm with hkey | hremoved
    · by_cases heq : m.uid = uid
      · right
        rw [heq]
        exact List.mem_cons_self ..
      · exact .inl (Dict.mem_keys_erase.mpr ⟨heq, hkey⟩)
    · exact .inr (List.mem_cons_of_mem _ hremoved)
  case removed_iff =>
    intro uid'
    show (s.caches.removed.add uid).contains uid' = true ↔ .removed uid' ∈ .removed uid :: s.log
    rw [ConsecutiveSet.contains_add, h.removed_iff, List.mem_cons, Note.removed.injEq]
  case sent_mem => exact fun m hm => h.sent_mem m (List.mem_of_ne_of_mem (by simp) hm)
  case removed_mem =>
    intro uid' hm
    rcases List.mem_cons.mp hm with heq | hm
    · cases heq
      obtain ⟨c, hc⟩ := Dict.mem_keys.mp hmem
      have hkept := h.kept uid c hc
      exact ⟨c.msg, hkept.msg_mem, hkept.uid_eq⟩
    · exact h.removed_mem uid' hm
  case sends_le =>
    intro uid'
    rw [LoggedCaches.removeUid, sends_removed]
    exact h.sends_le uid'
  case silent => exact h.silent.cons fun _ _ => rfl

/-- Nothing changes for the other caches. -/
theorem Inv.removeUid (h : Inv retry msgs todo s) (hmem : uid ∈ s.caches.msgcaches.keys)
    {todo' : List Int} (htodo : ∀ uid', uid' ≠ uid → (uid' ∈ todo' ↔ uid' ∈ todo)) :
    Inv retry msgs todo' (s.removeUid uid) where
  toBase := h.toBase.removeUid hmem
  ahead uid' d hd hmem' := by
    obtain ⟨hne, hd⟩ := items_removeUid.mp hd
    exact (h.ahead uid' d hd ((htodo uid' hne).mp hmem')).cons sends_removed origin_removed
  done uid' d hd hmem' := by
    obtain ⟨hne, hd⟩ := items_removeUid.mp hd
    exact (h.done uid' d hd fun hin => hmem' ((htodo uid' hne).mpr hin)).cons
      sends_removed origin_removed
  spaced := h.spaced.cons_of_ne nofun

/-- What the body of the loop does. -/
theorem sendIfExpired_cases (clock : Nat → ℚ) (raises : Nat → Bool) (s : LoggedCaches) (uid : Int)
    (c : MsgCache) :
    let s₁ := (s.time clock).2
    let elapsed := s₁.caches.monotonic.previousTime - s₁.caches.lap
    (s.sendIfExpired clock raises (uid, c) =
        s₁.update uid { c with timeout := c.timeout - elapsed }) ∨
      (∃ t ts, c.timeouts = t :: ts ∧ c.timeout ≤ elapsed ∧
        s.sendIfExpired clock raises (uid, c) =
          (s₁.update uid { c with timeout := t, timeouts := ts }).send raises c.msg) ∨
      s.sendIfExpired clock raises (uid, c) = s₁.removeUid uid := by
  intro s₁ elapsed
  have hrun : s.sendIfExpired clock raises (uid, c) =
      match c.sendExpired elapsed with
      | some (c, true) => (s₁.update uid c).send raises c.msg
      | some (c, false) => s₁.update uid c
      | none => s₁.removeUid uid := by
    rw [show elapsed = (s.time clock).1 - s₁.caches.lap by rw [← time_previousTime]]
    rfl
  rw [hrun]
  rcases MsgCache.sendExpired_cases elapsed c with
    ⟨-, h⟩ | ⟨hle, ⟨t, ts, hts, h⟩ | ⟨-, h⟩⟩ <;> rw [h]
  · exact .inl rfl
  · exact .inr (.inl ⟨t, ts, hts, hle, rfl⟩)
  · exact .inr (.inr rfl)

theorem Base.sendIfExpired (h : Base retry msgs s) (hc : (uid, c) ∈ s.caches.msgcaches.items) :
    Base retry msgs (s.sendIfExpired clock raises (uid, c)) := by
  have htime : Base retry msgs (s.time clock).2 := h.time
  rcases sendIfExpired_cases clock raises s uid c with hrun | ⟨t, ts, hts, -, hrun⟩ | hrun <;>
    rw [hrun]
  · exact htime.wait hc _
  · exact htime.send hc hts
  · exact htime.removeUid (Dict.mem_keys_of_mem hc)

/-- The other caches are left. -/
theorem mem_sendIfExpired {uid' : Int} {d : MsgCache} (hne : uid' ≠ uid)
    (hd : (uid', d) ∈ s.caches.msgcaches.items) :
    (uid', d) ∈ (s.sendIfExpired clock raises (uid, c)).caches.msgcaches.items := by
  rcases sendIfExpired_cases clock raises s uid c with hrun | ⟨t, ts, -, -, hrun⟩ | hrun <;>
    rw [hrun]
  · exact items_update.mpr (.inr ⟨hne, hd⟩)
  · exact Dict.mem_set.mpr (.inr ⟨hne, hd⟩)
  · exact items_removeUid.mpr ⟨hne, hd⟩

/-- **One cache in a pass.** -/
theorem Inv.sendIfExpired (h : Inv retry msgs (uid :: todo) s)
    (hc : (uid, c) ∈ s.caches.msgcaches.items) (htodo : uid ∉ todo) :
    Inv retry msgs todo (s.sendIfExpired clock raises (uid, c)) := by
  have htime : Inv retry msgs (uid :: todo) (s.time clock).2 := h.time
  have hlog : (s.time clock).2.log =
      .time (s.time clock).2.caches.monotonic.previousTime :: s.log := by
    rw [time_previousTime]
    rfl
  rcases sendIfExpired_cases clock raises s uid c with hrun | ⟨t, ts, hts, hle, hrun⟩ | hrun <;>
    rw [hrun]
  · exact htime.wait hc htodo
  · exact htime.send hc hts htodo hle hlog
  · refine htime.removeUid (Dict.mem_keys_of_mem hc) fun uid' hne => ?_
    rw [List.mem_cons, or_iff_right hne]

end

/-! ## The calls -/

/-- Between two calls every cache is ahead. -/
def Ready (retry : Retry) (msgs : List Msg) (s : LoggedCaches) : Prop :=
  Inv retry msgs s.caches.msgcaches.keys s

/-- After a pass that may have been abandoned. -/
def Passed (retry : Retry) (msgs : List Msg) (s : LoggedCaches) : Prop :=
  Spaced retry.interval s.log ∧ (s.abandoned = false → Ready retry msgs s)

theorem Inv.restartLap (h : Inv retry msgs [] s) : Ready retry msgs (s.restartLap clock) := by
  have htime : Inv retry msgs [] (s.time clock).2 := h.time
  have hbase : Base retry msgs (s.restartLap clock) :=
    ⟨htime.kept, htime.known, htime.removed_iff, htime.sent_mem, htime.removed_mem,
      htime.sends_le, htime.silent⟩
  refine ⟨hbase, fun uid c hc _ hpos hts => ?_, fun uid c hc hmem =>
    absurd (Dict.mem_keys_of_mem hc) hmem, htime.spaced⟩
  have horigin : origin uid (s.time clock).2.log =
      some ((origin uid s.log).getD (s.time clock).1) := origin_time
  have hle := htime.done uid c hc List.not_mem_nil hpos hts
  rw [horigin, Option.getD_some, time_previousTime] at hle
  exact ⟨_, horigin, hle⟩

theorem Base.restartLap (h : Base retry msgs s) : Base retry msgs (s.restartLap clock) :=
  have htime : Base retry msgs (s.time clock).2 := h.time
  ⟨htime.kept, htime.known, htime.removed_iff, htime.sent_mem, htime.removed_mem,
    htime.sends_le, htime.silent⟩

/-- The loop of `send_expired`, by induction on the caches it has to come to. -/
theorem base_pass (items : List (Int × MsgCache)) (hnodup : (items.map Prod.fst).Nodup)
    (hitems : ∀ x ∈ items, x ∈ s.caches.msgcaches.items) (h : Base retry msgs s) :
    Base retry msgs (s.pass clock raises items) := by
  induction items generalizing s with
  | nil => exact h.restartLap
  | cons x items ih =>
    obtain ⟨hx, hnodup⟩ := List.nodup_cons.mp hnodup
    have hstep : Base retry msgs (s.sendIfExpired clock raises x) :=
      h.sendIfExpired (hitems x (List.mem_cons_self ..))
    rw [pass]
    split
    · exact hstep
    · refine ih hnodup (fun y hy => ?_) hstep
      refine mem_sendIfExpired (fun heq => ?_) (hitems y (List.mem_cons_of_mem _ hy))
      exact hx (heq ▸ List.mem_map_of_mem hy)

theorem passed_pass (items : List (Int × MsgCache)) (hnodup : (items.map Prod.fst).Nodup)
    (hitems : ∀ x ∈ items, x ∈ s.caches.msgcaches.items)
    (h : Inv retry msgs (items.map Prod.fst) s) :
    Passed retry msgs (s.pass clock raises items) := by
  induction items generalizing s with
  | nil => exact ⟨h.restartLap.spaced, fun _ => h.restartLap⟩
  | cons x items ih =>
    obtain ⟨hx, hnodup⟩ := List.nodup_cons.mp hnodup
    have hstep : Inv retry msgs (items.map Prod.fst) (s.sendIfExpired clock raises x) :=
      h.sendIfExpired (hitems x (List.mem_cons_self ..)) hx
    rw [pass]
    split
    · next habandoned =>
      refine ⟨hstep.spaced, fun hnot => ?_⟩
      exact absurd habandoned (by simp [hnot])
    · refine ih hnodup (fun y hy => ?_) hstep
      refine mem_sendIfExpired (fun heq => ?_) (hitems y (List.mem_cons_of_mem _ hy))
      exact hx (heq ▸ List.mem_map_of_mem hy)

theorem Base.sendExpired (h : Base retry msgs s) :
    Base retry msgs (s.sendExpired clock raises) :=
  base_pass s.caches.msgcaches.items s.caches.msgcaches.nodup (fun _ hx => hx)
    ⟨h.kept, h.known, h.removed_iff, h.sent_mem, h.removed_mem, h.sends_le, h.silent⟩

theorem Ready.sendExpired (h : Ready retry msgs s) :
    Passed retry msgs (s.sendExpired clock raises) :=
  passed_pass s.caches.msgcaches.items s.caches.msgcaches.nodup (fun _ hx => hx)
    ⟨⟨h.kept, h.known, h.removed_iff, h.sent_mem, h.removed_mem, h.sends_le, h.silent⟩,
      h.ahead, h.done, h.spaced⟩

theorem Base.remove (h : Base retry msgs s) (m : Msg) : Base retry msgs (s.remove m) := by
  unfold LoggedCaches.remove
  split
  · next hmem => exact h.removeUid hmem
  · exact h

theorem Passed.remove (h : Passed retry msgs s) (m : Msg) : Passed retry msgs (s.remove m) := by
  unfold LoggedCaches.remove
  split
  · next hmem =>
    refine ⟨h.1.cons_of_ne nofun, fun hdone => Inv.removeUid (h.2 hdone) hmem fun uid' hne => ?_⟩
    exact Dict.mem_keys_erase.trans (and_iff_right hne)
  · exact h

theorem items_pushMsg {m : Msg} {uid : Int} {d : MsgCache}
    (hd : (uid, d) ∈ (s.pushMsg retry m).caches.msgcaches.items) :
    uid = m.uid ∧ d = MsgCache.new retry m ∨ (uid, d) ∈ s.caches.msgcaches.items := by
  rcases Dict.mem_set.mp hd with heq | ⟨-, hd⟩
  · exact .inl (Prod.mk.inj heq)
  · exact .inr hd

section
variable {m : Msg} (hm : ∀ m' ∈ msgs, m'.uid ≠ m.uid)
include hm

theorem Base.sends_eq_zero (h : Base retry msgs s) : sends m.uid s.log = 0 :=
  LoggedCaches.sends_eq_zero fun m' hm' => hm m' (h.sent_mem m' hm')

theorem Base.pushMsg (h : Base retry msgs s) :
    Base retry (msgs ++ [m]) (s.pushMsg retry m) := by
  constructor
  case kept =>
    intro uid d hd
    rcases items_pushMsg hd with ⟨rfl, rfl⟩ | hd
    · refine ⟨List.mem_append_right _ (List.mem_singleton_self m), rfl, fun hmem => ?_, ?_⟩
      · obtain ⟨m', hm', heq⟩ := h.removed_mem m.uid hmem
        exact hm m' hm' heq
      · show retry.timeouts = retry.timeouts.drop (sends m.uid s.log)
        rw [h.sends_eq_zero hm, List.drop_zero]
    · have hkept := h.kept uid d hd
      exact ⟨List.mem_append_left _ hkept.msg_mem, hkept.uid_eq, hkept.not_removed,
        hkept.timeouts_eq⟩
  case known =>
    intro m' hm'
    rcases List.mem_append.mp hm' with hm' | hm'
    · exact (h.known m' hm').imp_left fun hmem => Dict.mem_keys_set.mpr (.inr hmem)
    · obtain rfl := List.mem_singleton.mp hm'
      exact .inl (Dict.mem_keys_set.mpr (.inl rfl))
  case removed_iff => exact h.removed_iff
  case sent_mem => exact fun m' hm' => List.mem_append_left _ (h.sent_mem m' hm')
  case removed_mem =>
    intro uid hmem
    obtain ⟨m', hm', heq⟩ := h.removed_mem uid hmem
    exact ⟨m', List.mem_append_left _ hm', heq⟩
  case sends_le => exact h.sends_le
  case silent => exact h.silent

theorem Passed.pushMsg (h : Passed retry msgs s) :
    Passed retry (msgs ++ [m]) (s.pushMsg retry m) := by
  refine ⟨h.1, fun hdone => ?_⟩
  have hready : Ready retry msgs s := h.2 hdone
  refine ⟨hready.toBase.pushMsg hm, fun uid d hd _ => ?_, fun uid d hd hmem =>
    absurd (Dict.mem_keys_of_mem hd) hmem, h.1⟩
  rcases items_pushMsg hd with ⟨rfl, rfl⟩ | hd
  · intro hpos
    have hzero : sends m.uid s.log = 0 := hready.toBase.sends_eq_zero hm
    have hpos' : 0 < sends m.uid s.log := hpos
    omega
  · exact hready.ahead uid d hd (Dict.mem_keys_of_mem hd)

end

theorem ready_new : Ready retry [] (LoggedCaches.new clock) where
  kept _ _ hd := absurd hd List.not_mem_nil
  ahead _ _ hd := absurd hd List.not_mem_nil
  done _ _ hd := absurd hd List.not_mem_nil
  known _ hm := absurd hm List.not_mem_nil
  removed_iff uid := by simp [LoggedCaches.new, ConsecutiveSet.contains]
  sent_mem m hm := by simp [LoggedCaches.new] at hm
  removed_mem uid hm := by simp [LoggedCaches.new] at hm
  sends_le uid := by simp [LoggedCaches.new, sends]
  spaced later mid earlier m m' hlog := by
    have hmem : Note.sent m' ∈ (LoggedCaches.new clock).log := by
      rw [hlog]
      exact List.mem_append_right _ (List.mem_cons_self ..)
    simp [LoggedCaches.new] at hmem
  silent later earlier uid hlog := by
    have hmem : Note.removed uid ∈ (LoggedCaches.new clock).log := by
      rw [hlog]
      exact List.mem_append_right _ (List.mem_cons_self ..)
    simp [LoggedCaches.new] at hmem

/-- A call after the messages `msgs` pushes no uid again. -/
theorem uid_ne_of_nodup {m : Msg} (h : ((msgs ++ pushed [.pushMsg m]).map Msg.uid).Nodup) :
    ∀ m' ∈ msgs, m'.uid ≠ m.uid := by
  intro m' hm' heq
  have hsplit : (msgs.map Msg.uid ++ [m.uid]).Nodup := by
    simpa [pushed] using h
  exact List.disjoint_of_nodup_append hsplit (List.mem_map_of_mem hm')
    (heq ▸ List.mem_singleton_self _)

theorem base_step (h : Base retry msgs s) (call : Call)
    (hcall : ((msgs ++ pushed [call]).map Msg.uid).Nodup) :
    Base retry (msgs ++ pushed [call]) (s.step clock raises retry call) := by
  cases call with
  | pushMsg m => exact h.pushMsg (uid_ne_of_nodup hcall)
  | remove m =>
    rw [show pushed [.remove m] = [] from rfl, List.append_nil]
    exact h.remove m
  | sendExpired =>
    rw [show pushed [.sendExpired] = [] from rfl, List.append_nil]
    exact h.sendExpired
  | getMsg uid =>
    rw [show pushed [.getMsg uid] = [] from rfl, List.append_nil]
    exact h

/-- `send_expired` is not called after an abandoned one. -/
def Ok (call : Call) (s : LoggedCaches) : Prop := call = .sendExpired → s.abandoned = false

instance (call : Call) (s : LoggedCaches) : Decidable (Ok call s) :=
  inferInstanceAs (Decidable (_ → _))

/-- **Step.** -/
theorem passed_step (h : Passed retry msgs s) (call : Call) (hok : Ok call s)
    (hcall : ((msgs ++ pushed [call]).map Msg.uid).Nodup) :
    Passed retry (msgs ++ pushed [call]) (s.step clock raises retry call) := by
  cases call with
  | pushMsg m => exact h.pushMsg (uid_ne_of_nodup hcall)
  | remove m =>
    rw [show pushed [.remove m] = [] from rfl, List.append_nil]
    exact h.remove m
  | sendExpired =>
    rw [show pushed [.sendExpired] = [] from rfl, List.append_nil]
    exact (h.2 (hok rfl)).sendExpired
  | getMsg uid =>
    rw [show pushed [.getMsg uid] = [] from rfl, List.append_nil]
    exact h

theorem nodup_pushed {calls : List Call} {call : Call}
    (h : ((pushed (calls ++ [call])).map Msg.uid).Nodup) :
    ((pushed calls).map Msg.uid).Nodup ∧
      ((pushed calls ++ pushed [call]).map Msg.uid).Nodup := by
  have hpushed : pushed (calls ++ [call]) = pushed calls ++ pushed [call] :=
    List.filterMap_append
  rw [hpushed] at h
  refine ⟨?_, h⟩
  rw [List.map_append] at h
  exact h.of_append_left

theorem pushed_append (calls : List Call) (call : Call) :
    pushed (calls ++ [call]) = pushed calls ++ pushed [call] := List.filterMap_append

theorem base_run (calls : List Call) (h : ((pushed calls).map Msg.uid).Nodup) :
    Base retry (pushed calls) (run clock raises retry calls) := by
  induction calls using List.reverseRecOn with
  | nil => exact Inv.toBase ready_new
  | append_singleton calls call ih =>
    obtain ⟨hcalls, hcall⟩ := nodup_pushed h
    rw [pushed_append, run, List.foldl_append]
    exact base_step (ih hcalls) call hcall

theorem passed_run (calls : List Call) (h : ((pushed calls).map Msg.uid).Nodup)
    (hok : Along (fun call s => step clock raises retry s call) Ok calls (new clock)) :
    Passed retry (pushed calls) (run clock raises retry calls) := by
  induction calls using List.reverseRecOn with
  | nil => exact ⟨ready_new.spaced, fun _ => ready_new⟩
  | append_singleton calls call ih =>
    obtain ⟨hcalls, hcall⟩ := nodup_pushed h
    obtain ⟨hbefore, hlast⟩ := along_append_singleton.mp hok
    rw [pushed_append, run, List.foldl_append]
    exact passed_step (ih hcalls hbefore) call hlast hcall

/-! ## What the invariant says -/

theorem Base.getMsg_cached (h : Base retry msgs s) (hmsgs : (msgs.map Msg.uid).Nodup) {m : Msg}
    (hm : m ∈ msgs) (hremoved : .removed m.uid ∉ s.log) : s.caches.getMsg m.uid = .ok m := by
  obtain ⟨c, hc⟩ := Dict.mem_keys.mp ((h.known m hm).resolve_right hremoved)
  have hkept := h.kept m.uid c hc
  have hmsg : c.msg = m := List.inj_on_of_nodup_map hmsgs hkept.msg_mem hm hkept.uid_eq
  rw [MsgCaches.getMsg, Dict.get?_eq_some.mpr hc]
  exact congrArg Except.ok hmsg

theorem Base.getMsg_removed (h : Base retry msgs s) {uid : Int}
    (hremoved : .removed uid ∈ s.log) :
    s.caches.getMsg uid = .error .alreadyRemoved := by
  have hnone : s.caches.msgcaches.get? uid = none := by
    refine Dict.get?_eq_none.mpr fun hmem => ?_
    obtain ⟨c, hc⟩ := Dict.mem_keys.mp hmem
    exact (h.kept uid c hc).not_removed hremoved
  rw [MsgCaches.getMsg, hnone]
  exact if_pos ((h.removed_iff uid).mpr hremoved)

theorem Base.getMsg_notFound (h : Base retry msgs s) {uid : Int}
    (huid : ∀ m ∈ msgs, m.uid ≠ uid) :
    s.caches.getMsg uid = .error .notFound := by
  rw [MsgCaches.getMsg_notFound]
  rintro (hmem | hcontains)
  · obtain ⟨c, hc⟩ := Dict.mem_keys.mp hmem
    have hkept := h.kept uid c hc
    exact huid c.msg hkept.msg_mem hkept.uid_eq
  · obtain ⟨m, hm, heq⟩ := h.removed_mem uid ((h.removed_iff uid).mp hcontains)
    exact huid m hm heq

theorem Base.counted (h : Base retry msgs s) (hmsgs : (msgs.map Msg.uid).Nodup) :
    Counted retry msgs s where
  sends_le uid := by
    rw [← Retry.length_timeouts]
    exact_mod_cast h.sends_le uid
  silent := h.silent
  cached _ hm := h.getMsg_cached hmsgs hm
  alreadyRemoved _ := h.getMsg_removed
  notFound _ := h.getMsg_notFound
  removes m hm m' heq := by
    rw [LoggedCaches.remove, heq]
    split
    · exact List.mem_cons_self ..
    · next hmem => exact (h.known m hm).resolve_left hmem

/-- **Resending.**  Whatever the calls, the clock and the end of every `send_msg`,
when no uid is pushed twice each message is sent at most `max 1 tries` times and
never after its removal, and `get_msg` finds it until then.  Its sends are at
least an interval apart if no `send_expired` is called after one that raised. -/
theorem paced_run (retry : Retry) (clock : Nat → ℚ) (raises : Nat → Bool) (calls : List Call)
    (h : ((pushed calls).map Msg.uid).Nodup) :
    Counted retry (pushed calls) (run clock raises retry calls) ∧
      (Along (fun call s => step clock raises retry s call) Ok calls (new clock) →
        Spaced retry.interval (run clock raises retry calls).log) :=
  ⟨(base_run calls h).counted h, fun hok => (passed_run calls h hok).1⟩

/-- One reply is sent twice, as the clock goes back, and then acknowledged. -/
def callsTwice : List Call :=
  [.pushMsg ⟨.execCommandReply, 7, []⟩, .sendExpired, .sendExpired, .getMsg 7,
    .remove ⟨.ack, 7, []⟩, .sendExpired]

theorem paced_run_twice :
    Counted ⟨2, 1, 60⟩ (pushed callsTwice)
        (run (fun n => if n % 3 = 0 then 5 else n) (fun _ => false) ⟨2, 1, 60⟩ callsTwice) ∧
      Spaced 1
        (run (fun n => if n % 3 = 0 then 5 else n) (fun _ => false) ⟨2, 1, 60⟩ callsTwice).log :=
  have h := paced_run ⟨2, 1, 60⟩ (fun n => if n % 3 = 0 then 5 else n) (fun _ => false) callsTwice
    (by decide)
  ⟨h.1, h.2 (by decide +kernel)⟩

/-- **A pass that is abandoned.**  The first send raises, and 1/100 s after it the
message is sent again, although the interval is 10 s: the lap is still that of
`__init__`. -/
theorem not_spaced_abandoned :
    ¬ Spaced 10 (run (fun n => if n < 2 then 0 else 20) (fun n => n = 0) ⟨2, 10, 60⟩
      [.pushMsg ⟨.execCommandReply, 7, []⟩, .sendExpired, .sendExpired]).log := by
  intro h
  obtain ⟨first, last, hfirst, hlast, hle⟩ :=
    h [.time (2003 / 100)] [.time (2002 / 100)] [.time (2001 / 100), .time (1 / 100)]
      ⟨.execCommandReply, 7, []⟩ ⟨.execCommandReply, 7, []⟩ (by decide +kernel) rfl (by decide)
  cases hfirst
  cases hlast
  norm_num at hle

/-! ## The server -/

/-- The messages that were sent, in their order. -/
def sentMsgs (log : List Note) : List Msg :=
  (log.filterMap fun
    | .sent msg => some msg
    | _ => none).reverse

/-- The server's caches are the logged ones, and what they sent, from its write
with the number `first` on, is in its outbox. -/
structure Follows (before : List Msg) (first : Nat) (l : LoggedCaches) (s : Server) : Prop where
  caches : s.caches = l.caches
  readings : s.readings = l.readings
  writes : s.writes = first + l.sent
  outbox : s.outbox = before ++ sentMsgs l.log

section
variable (env : Env) (before : List Msg) (first : Nat)

/-- How the server's `send_msg` ends. -/
def raisesFrom (n : Nat) : Bool := (env.write (first + n)).isSome

/-- A call that ends with these caches raises exactly if it is abandoned. -/
def Ends (P : Server → Prop) (m : Prog ServerExc Server Unit) (l : LoggedCaches) : Prop :=
  Prog.Settles False P m (fun _ s => Follows before first l s ∧ l.abandoned = false)
    fun _ s => Follows before first l s ∧ l.abandoned = true

variable {env before first} {l : LoggedCaches}

variable (env) in
theorem follows_time :
    Prog.Settles False (Follows before first l) (Server.time env)
      (fun t s => t = (l.time env.clock).1 ∧ Follows before first (l.time env.clock).2 s)
      fun _ _ => False := by
  rintro s ⟨hcaches, hreadings, hwrites, houtbox⟩
  unfold Server.time
  rw [hcaches, hreadings]
  exact ⟨rfl, rfl, rfl, hwrites, houtbox⟩

variable (env) in
theorem follows_send (m : Msg) :
    Ends before first (Follows before first l) (Server.sendReply env m)
      (l.send (raisesFrom env first) m) := by
  rintro s ⟨hcaches, hreadings, hwrites, houtbox⟩
  have hfollows : Follows before first (l.send (raisesFrom env first) m)
      { s with outbox := s.outbox ++ [m], writes := s.writes + 1 } := by
    refine ⟨hcaches, hreadings, ?_, ?_⟩
    · show s.writes + 1 = first + (l.sent + 1)
      rw [hwrites, Nat.add_assoc]
    · show s.outbox ++ [m] = _
      rw [houtbox]
      simp [LoggedCaches.send, sentMsgs]
  unfold Server.sendReply
  rw [hwrites] at hfollows ⊢
  cases hend : env.write (first + l.sent) with
  | none => exact ⟨hfollows, by simp [LoggedCaches.send, raisesFrom, hend]⟩
  | some e => exact ⟨hfollows, by simp [LoggedCaches.send, raisesFrom, hend]⟩

theorem Follows.modifyCaches {s : Server} (h : Follows before first l s) (f : MsgCaches → MsgCaches)
    {k : LoggedCaches} (hcaches : k.caches = f l.caches) (hreadings : k.readings = l.readings)
    (hsent : k.sent = l.sent) (hlog : sentMsgs k.log = sentMsgs l.log) :
    Follows before first k { s with caches := f s.caches } := by
  refine ⟨?_, h.readings.trans hreadings.symm, ?_, ?_⟩
  · rw [hcaches, ← h.caches]
  · rw [hsent]
    exact h.writes
  · rw [hlog]
    exact h.outbox

/-- The body of the loop, with the rest of the loop after it. -/
theorem follows_sendIfExpired (x : Int × MsgCache) (items : List (Int × MsgCache)) {s : Server}
    (hs : Follows before first l s) (hl : l.abandoned = false) :
    ∃ s', Follows before first (l.sendIfExpired env.clock (raisesFrom env first) x) s' ∧
      ((l.sendIfExpired env.clock (raisesFrom env first) x).abandoned = true ∧
          (∃ e, Server.sendExpiredLoop env (x :: items) s = .raised e s') ∨
        (l.sendIfExpired env.clock (raisesFrom env first) x).abandoned = false ∧
          Server.sendExpiredLoop env (x :: items) s = Server.sendExpiredLoop env items s') := by
  have htime := follows_time env s hs
  cases hrun : Server.time env s with
  | raised e s₁ =>
    rw [hrun] at htime
    exact htime.elim
  | hang =>
    rw [hrun] at htime
    exact htime.elim
  | ret t s₁ =>
    rw [hrun] at htime
    obtain ⟨rfl, hs₁⟩ := htime
    rw [Server.sendExpiredLoop, Prog.bind_ret hrun, Prog.bind_ret (Prog.gets_run ..), hs₁.caches]
    unfold LoggedCaches.sendIfExpired
    dsimp only
    rcases MsgCache.sendExpired_cases
        ((l.time env.clock).1 - (l.time env.clock).2.caches.lap) x.2 with
      ⟨-, hcase⟩ | ⟨-, ⟨t, ts, -, hcase⟩ | ⟨-, hcase⟩⟩ <;> rw [hcase]
    · refine ⟨_, hs₁.modifyCaches (MsgCaches.update x.1 _) rfl rfl rfl rfl, .inr ⟨hl, ?_⟩⟩
      exact Prog.bind_ret (Prog.modify_run ..)
    · have hupdate := hs₁.modifyCaches (k := (l.time env.clock).2.update x.1
        { x.2 with timeout := t, timeouts := ts }) (MsgCaches.update x.1 _) rfl rfl rfl rfl
      have hsend := follows_send env x.2.msg _ hupdate
      dsimp only
      rw [Server.modifyCaches, Prog.bind_ret (Prog.modify_run ..), if_pos rfl, Prog.bind_run]
      cases hreply : Server.sendReply env x.2.msg { s₁ with
        caches := s₁.caches.update x.1 { x.2 with timeout := t, timeouts := ts } } with
      | ret _ s₂ =>
        rw [hreply] at hsend
        exact ⟨s₂, hsend.1, .inr ⟨hsend.2, rfl⟩⟩
      | raised e s₂ =>
        rw [hreply] at hsend
        exact ⟨s₂, hsend.1, .inl ⟨hsend.2, e, rfl⟩⟩
      | hang =>
        rw [hreply] at hsend
        exact hsend.elim
    · refine ⟨_, hs₁.modifyCaches (MsgCaches.removeUid x.1) rfl rfl rfl rfl, .inr ⟨hl, ?_⟩⟩
      exact Prog.bind_ret (Prog.modify_run ..)

theorem ends_restartLap (hl : l.abandoned = false) :
    Ends before first (Follows before first l)
      (do
        let t ← Server.time env
        Server.modifyCaches fun cs => { cs with lap := t }) (l.restartLap env.clock) := by
  refine ((follows_time env).mono (fun _ => id) (fun _ _ => id) fun _ _ => False.elim).bind
    fun t => ?_
  rintro s ⟨rfl, hs⟩
  have hlap := hs.modifyCaches (k := l.restartLap env.clock)
    (fun cs => { cs with lap := (l.time env.clock).1 }) rfl rfl rfl rfl
  exact ⟨hlap, hl⟩

/-- The loop and what comes after it, by induction on the caches. -/
theorem ends_pass (items : List (Int × MsgCache)) (hl : l.abandoned = false) :
    Ends before first (Follows before first l)
      (do
        Server.sendExpiredLoop env items
        let t ← Server.time env
        Server.modifyCaches fun cs => { cs with lap := t })
      (l.pass env.clock (raisesFrom env first) items) := by
  induction items generalizing l with
  | nil => exact ends_restartLap hl
  | cons x items ih =>
    intro s hs
    obtain ⟨s', hs', hrun⟩ := follows_sendIfExpired x items hs hl
    rw [LoggedCaches.pass, Prog.bind_run]
    rcases hrun with ⟨habandoned, e, hraised⟩ | ⟨hdone, hrest⟩
    · rw [hraised, if_pos habandoned]
      exact ⟨hs', habandoned⟩
    · rw [hrest, if_neg (by simp [hdone]), ← Prog.bind_run]
      exact ih hdone s' hs'

/-- **The server's `send_expired` is the one above**, and raises when that is
abandoned. -/
theorem ends_sendExpired :
    Ends before first (Follows before first l) (Server.sendExpired env)
      (l.sendExpired env.clock (raisesFrom env first)) := by
  rintro s ⟨hcaches, hreadings, hwrites, houtbox⟩
  rw [Server.sendExpired, Prog.bind_ret (Prog.gets_run ..), hcaches]
  exact ends_pass (l := { l with abandoned := false }) _ rfl s
    ⟨hcaches, hreadings, hwrites, houtbox⟩

end

end LoggedCaches

end InteractiveSessions
