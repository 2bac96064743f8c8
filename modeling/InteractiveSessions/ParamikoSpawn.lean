import InteractiveSessions.AnsiEscape
import InteractiveSessions.Lib.Pieces
import InteractiveSessions.Lib.Runs
import InteractiveSessions.Shell

/-!
# `shells.paramikospawn`

A thread moves what the channel delivers to a queue, from which `read_nonblocking` takes
it.  Before every access to the queue the thread has any number of turns.

* `delivers_of_calls`: nothing is lost on the way, and the end of file comes last;
* `filtersWhole_iff`: the thread filters the whole text if and only if no fragment ends
  inside a character or inside an escape sequence;
* `sendsAll_iff`: `send` sends everything if and only if the channel accepts each slice
  as a whole.
-/

namespace InteractiveSessions

open Utf8

/-- The thread.  `incoming` is what `chan.recv` returns from now on, where `none` is a
`socket.timeout`; after that `chan.recv` waits. -/
inductive Reader where
  | running (incoming : List (Option Bytes))
  | ended
  /-- By a `UnicodeDecodeError`. -/
  | died
  deriving DecidableEq

inductive SpawnExc where
  /-- `queue.Empty` -/
  | empty
  | valueError
  /-- `pexpect.TIMEOUT` -/
  | timeout
  /-- `pexpect.EOF` -/
  | eof
  deriving DecidableEq

/-- `received` is what `chan.recv` has returned, and `turns` how many turns the thread has
before each of the next accesses to the queue. -/
structure ParamikoSpawn where
  reader : Reader
  removeAnsiChars : Bool
  readQueue : List (Option Bytes)
  buf : Bytes
  readReachedEof : Bool
  flagEof : Bool
  timeout : Option ℚ
  received : Bytes
  turns : Nat → Nat

namespace ParamikoSpawn

/-! ## `_read_incoming` -/

/-- What an iteration puts in the queue, if it does not raise. -/
def moved (removeAnsiChars : Bool) (recv : Option Bytes) : Except ReadExc (Option Bytes) :=
  let buf := recv.getD []
  if buf = [] then .ok none
  else if removeAnsiChars then
    match decode? buf with
    | some bufDecoded => .ok (some (encode (ansiEscape.removed bufDecoded)))
    | none => .error .unicodeDecodeError
  else .ok (some buf)

/-- One iteration. -/
def turn (s : ParamikoSpawn) : ParamikoSpawn :=
  match s.reader with
  | .running (recv :: incoming) =>
    let s := { s with received := s.received ++ recv.getD [] }
    match moved s.removeAnsiChars recv with
    | .ok (some buf) =>
      { s with reader := .running incoming, readQueue := s.readQueue ++ [some buf] }
    | .ok none => { s with reader := .ended, readQueue := s.readQueue ++ [none] }
    | .error _ => { s with reader := .died }
  | _ => s

/-- After the turns that the thread has before the next access. -/
def scheduled (s : ParamikoSpawn) : ParamikoSpawn :=
  { turn^[s.turns 0] s with turns := fun k => s.turns (k + 1) }

/-! ## `read_nonblocking` -/

/-- `_read_queue.get(timeout=timeout)` -/
def get (timeout : Option ℚ) : Prog SpawnExc ParamikoSpawn (Option Bytes) := fun s =>
  if ∃ t ∈ timeout, t < 0 then .raised .valueError s
  else
    match s.scheduled.readQueue, timeout with
    | incoming :: queue, _ => .ret incoming { s.scheduled with readQueue := queue }
    | [], some _ => .raised .empty s.scheduled
    | [], none => .hang

/-- `_read_queue.get_nowait()` -/
def getNowait : Prog SpawnExc ParamikoSpawn (Option Bytes) := fun s =>
  match s.scheduled.readQueue with
  | incoming :: queue => .ret incoming { s.scheduled with readQueue := queue }
  | [] => .raised .empty s.scheduled

def setReadReachedEof : Prog SpawnExc ParamikoSpawn Unit :=
  Prog.modify fun s => { s with readReachedEof := true }

/-- The same, unless the queue is empty. -/
def tryGetNowait : Prog SpawnExc ParamikoSpawn (Option (Option Bytes)) :=
  Prog.tryExcept
    (do
      let incoming ← getNowait
      pure (some incoming))
    fun
    | .empty => some (pure none)
    | _ => none

/-- The loop of `_read_from_queue_until_end_or_size`. -/
def untilEndOrSize : Nat → Nat → Bytes → Prog SpawnExc ParamikoSpawn Bytes
  | 0, _, _ => Prog.hang
  | fuel + 1, size, buf =>
    if buf.length < size then do
      let incoming ← tryGetNowait
      match incoming with
      | none => pure buf
      | some none => do
        setReadReachedEof
        pure buf
      | some (some incoming) => untilEndOrSize fuel size (buf ++ incoming)
    else pure buf

/-- What can still be taken from the queue. -/
def pending (s : ParamikoSpawn) : Nat :=
  s.readQueue.length +
    match s.reader with
    | .running incoming => incoming.length
    | _ => 0

/-- `_read_from_queue_until_end_or_size` -/
def readFromQueueUntilEndOrSize (buf : Bytes) (size : Nat) :
    Prog SpawnExc ParamikoSpawn Bytes := do
  let n ← Prog.gets pending
  untilEndOrSize (n + 1) size buf

/-- `_read_from_queue` -/
def readFromQueue (timeout : Option ℚ) (size : Nat) (buf : Bytes) :
    Prog SpawnExc ParamikoSpawn Bytes := do
  let incoming ← get timeout
  match incoming with
  | none => do
    setReadReachedEof
    pure buf
  | some incoming => readFromQueueUntilEndOrSize (buf ++ incoming) size

/-- `_read_with_or_without_timeout` -/
def readWithOrWithoutTimeout (timeout : Option ℚ) (size : Nat) (buf : Bytes) :
    Prog SpawnExc ParamikoSpawn Bytes :=
  if buf = [] then
    Prog.tryExcept (readFromQueue timeout size buf) fun
      | .empty => some do
        let selfBuf ← Prog.gets fun s : ParamikoSpawn => s.buf
        if selfBuf = [] then Prog.raise .timeout else pure buf
      | _ => none
  else readFromQueueUntilEndOrSize buf size

/-- `raise EOF` -/
def raiseEof : Prog SpawnExc ParamikoSpawn Bytes := do
  Prog.modify fun s => { s with flagEof := true }
  Prog.raise .eof

/-- `_read_queue_and_buf` -/
def readQueueAndBuf (timeout : Option ℚ) (size : Nat) : Prog SpawnExc ParamikoSpawn Bytes := do
  let selfBuf ← Prog.gets fun s : ParamikoSpawn => s.buf
  let buf ← readWithOrWithoutTimeout timeout size selfBuf
  Prog.modify fun s => { s with buf := buf.drop size }
  let eof ← Prog.gets fun s : ParamikoSpawn => s.readReachedEof
  if eof ∧ buf.take size = [] then raiseEof else pure (buf.take size)

/-- `read_nonblocking` -/
def readNonblocking (size : Int) (timeout : Option ℚ) : Prog SpawnExc ParamikoSpawn Bytes := do
  let eof ← Prog.gets fun s : ParamikoSpawn => s.readReachedEof
  if eof then raiseEof
  else do
    let selfTimeout ← Prog.gets fun s : ParamikoSpawn => s.timeout
    let timeout :=
      match timeout with
      | some t => if t = -1 then selfTimeout else some t
      | none => some 1000000
    if 0 < size then readQueueAndBuf timeout size.toNat else pure []

/-- What `chan.recv` returns at the end of file: nothing, or a `socket.timeout`. -/
def endOfFile (timedOut : Bool) : Option Bytes := if timedOut then none else some []

/-- `__init__`, with what the channel will deliver. -/
def init (removeAnsiChars : Bool) (pieces : List Bytes) (timedOut : Bool) (timeout : Option ℚ)
    (turns : Nat → Nat) : ParamikoSpawn where
  reader := .running (pieces.map some ++ [endOfFile timedOut])
  removeAnsiChars
  readQueue := []
  buf := []
  readReachedEof := false
  flagEof := false
  timeout
  received := []
  turns

/-! ## The turns of the thread -/

/-- What the thread puts in the queue when that is what it receives. -/
def puts (removeAnsiChars : Bool) : List (Option Bytes) → List (Option Bytes)
  | [] => []
  | recv :: incoming =>
    match moved removeAnsiChars recv with
    | .ok (some buf) => some buf :: puts removeAnsiChars incoming
    | .ok none => [none]
    | .error _ => []

/-- What is in the queue and what will be put there. -/
def stream (s : ParamikoSpawn) : List (Option Bytes) :=
  s.readQueue ++
    match s.reader with
    | .running incoming => puts s.removeAnsiChars incoming
    | _ => []

/-- The bytes in the queue. -/
def queued (s : ParamikoSpawn) : Bytes := s.readQueue.flatMap (·.getD [])

theorem moved_eof {recv : Option Bytes} (removeAnsiChars : Bool) (h : recv.getD [] = []) :
    moved removeAnsiChars recv = .ok none := by
  simp [moved, h]

theorem moved_plain (recv : Option Bytes) :
    moved false recv = .ok (if recv.getD [] = [] then none else some (recv.getD [])) := by
  by_cases h : recv.getD [] = [] <;> simp [moved, h]

/-- What turns of the thread keep. -/
structure Moves (s s' : ParamikoSpawn) : Prop where
  removeAnsiChars : s'.removeAnsiChars = s.removeAnsiChars
  buf : s'.buf = s.buf
  readReachedEof : s'.readReachedEof = s.readReachedEof
  stream : s'.stream = s.stream
  pending : s'.pending ≤ s.pending
  received : s.removeAnsiChars = false →
    ∃ b, s'.received = s.received ++ b ∧ s'.queued = s.queued ++ b

variable {s s' : ParamikoSpawn}

theorem Moves.refl (s : ParamikoSpawn) : Moves s s where
  removeAnsiChars := rfl
  buf := rfl
  readReachedEof := rfl
  stream := rfl
  pending := le_rfl
  received := fun _ => ⟨[], by simp⟩

theorem Moves.trans {s'' : ParamikoSpawn} (h : Moves s s') (h' : Moves s' s'') : Moves s s'' where
  removeAnsiChars := h'.removeAnsiChars.trans h.removeAnsiChars
  buf := h'.buf.trans h.buf
  readReachedEof := h'.readReachedEof.trans h.readReachedEof
  stream := h'.stream.trans h.stream
  pending := h'.pending.trans h.pending
  received := by
    intro hplain
    obtain ⟨b, hb, hqueued⟩ := h.received hplain
    obtain ⟨b', hb', hqueued'⟩ := h'.received (h.removeAnsiChars.trans hplain)
    refine ⟨b ++ b', ?_, ?_⟩
    · rw [hb', hb, List.append_assoc]
    · rw [hqueued', hqueued, List.append_assoc]

theorem turn_ended {s : ParamikoSpawn} (h : s.reader = .ended) : s.turn = s := by
  simp only [turn, h]

theorem turn_died {s : ParamikoSpawn} (h : s.reader = .died) : s.turn = s := by
  simp only [turn, h]

theorem moves_turn (s : ParamikoSpawn) : Moves s s.turn := by
  cases hreader : s.reader with
  | ended =>
    rw [turn_ended hreader]
    exact Moves.refl s
  | died =>
    rw [turn_died hreader]
    exact Moves.refl s
  | running incoming =>
    cases incoming with
    | nil =>
      have hturn : s.turn = s := by simp only [turn, hreader]
      rw [hturn]
      exact Moves.refl s
    | cons recv incoming =>
      cases hmoved : moved s.removeAnsiChars recv with
      | error e =>
        have hturn : s.turn = { s with
            reader := .died, received := s.received ++ recv.getD [] } := by
          simp only [turn, hreader, hmoved]
        rw [hturn]
        constructor <;> simp [stream, pending, puts, hreader, hmoved]
        · intro hplain
          rw [hplain, moved_plain] at hmoved
          cases hmoved
      | ok item =>
        cases item with
        | none =>
          have hturn : s.turn = { s with
              reader := .ended, readQueue := s.readQueue ++ [none],
              received := s.received ++ recv.getD [] } := by
            simp only [turn, hreader, hmoved]
          rw [hturn]
          constructor <;> simp [stream, pending, puts, queued, hreader, hmoved]
          · intro hplain
            rw [hplain, moved_plain] at hmoved
            split at hmoved
            · next h => exact h
            · cases hmoved
        | some buf =>
          have hturn : s.turn = { s with
              reader := .running incoming, readQueue := s.readQueue ++ [some buf],
              received := s.received ++ recv.getD [] } := by
            simp only [turn, hreader, hmoved]
          rw [hturn]
          constructor <;> simp [stream, pending, puts, queued, hreader, hmoved]
          · omega
          · intro hplain
            rw [hplain, moved_plain] at hmoved
            split at hmoved
            · cases hmoved
            · cases hmoved
              rfl

theorem moves_iterate (n : Nat) (s : ParamikoSpawn) : Moves s (turn^[n] s) := by
  induction n generalizing s with
  | zero => exact Moves.refl s
  | succ n ih => exact (moves_turn s).trans (ih s.turn)

theorem moves_scheduled (s : ParamikoSpawn) : Moves s s.scheduled := by
  have h := moves_iterate (s.turns 0) s
  exact { h with }

/-! ## Nothing is lost -/

/-- After `y` was returned there are `buf` and what comes through the queue, in all
`total`.  Without a filter the queue has what was received, in nonempty pieces. -/
structure Fed (plain : Bool) (total y buf : Bytes) (s : ParamikoSpawn) : Prop where
  removeAnsiChars : s.removeAnsiChars = !plain
  received : plain → y ++ buf ++ s.queued = s.received
  stream : if s.readReachedEof then s.stream = [] ∧ y ++ buf = total
    else ∃ items : List Bytes, s.stream = items.map some ++ [none] ∧
      y ++ buf ++ items.flatten = total ∧ (plain → ∀ item ∈ items, item ≠ [])

variable {plain : Bool} {total y buf incoming : Bytes} {queue : List (Option Bytes)}
  {size fuel : Nat} {timeout : Option ℚ}

theorem Fed.moves (h : Fed plain total y buf s) (hmoves : Moves s s') :
    Fed plain total y buf s' where
  removeAnsiChars := hmoves.removeAnsiChars.trans h.removeAnsiChars
  received := by
    intro hplain
    obtain ⟨b, hb, hqueued⟩ := hmoves.received (by rw [h.removeAnsiChars, hplain]; rfl)
    rw [hb, hqueued, ← List.append_assoc, h.received hplain]
  stream := by
    rw [hmoves.stream, hmoves.readReachedEof]
    exact h.stream

theorem Fed.stream_of_not_eof (h : Fed plain total y buf s) (heof : s.readReachedEof = false) :
    ∃ items : List Bytes, s.stream = items.map some ++ [none] ∧
      y ++ buf ++ items.flatten = total ∧ (plain → ∀ item ∈ items, item ≠ []) := by
  have hstream := h.stream
  rwa [heof, if_neg (by simp)] at hstream

/-- Something is taken from the queue. -/
theorem Fed.take (h : Fed plain total y buf s) (heof : s.readReachedEof = false)
    (hqueue : s.readQueue = some incoming :: queue) :
    Fed plain total y (buf ++ incoming) { s with readQueue := queue } ∧
      (plain → incoming ≠ []) := by
  obtain ⟨items, hitems, htotal, hne⟩ := h.stream_of_not_eof heof
  rw [ParamikoSpawn.stream, hqueue] at hitems
  cases items with
  | nil => simp at hitems
  | cons item items =>
    obtain ⟨hitem, hrest⟩ := List.cons.inj hitems
    obtain rfl := Option.some.inj hitem
    constructor
    · constructor
      · exact h.removeAnsiChars
      · intro hplain
        have hreceived := h.received hplain
        rw [queued, hqueue] at hreceived
        simpa [queued] using hreceived
      · dsimp only
        rw [heof, if_neg (by simp)]
        refine ⟨items, hrest, ?_, fun hplain => (List.forall_mem_cons.mp (hne hplain)).2⟩
        simpa using htotal
    · intro hplain
      exact (List.forall_mem_cons.mp (hne hplain)).1

/-- The end of file is taken from the queue. -/
theorem Fed.take_eof (h : Fed plain total y buf s) (heof : s.readReachedEof = false)
    (hqueue : s.readQueue = none :: queue) :
    Fed plain total y buf { s with readQueue := queue, readReachedEof := true } := by
  obtain ⟨items, hitems, htotal, -⟩ := h.stream_of_not_eof heof
  rw [ParamikoSpawn.stream, hqueue] at hitems
  cases items with
  | cons item items => simp at hitems
  | nil =>
    constructor
    · exact h.removeAnsiChars
    · intro hplain
      have hreceived := h.received hplain
      rw [queued, hqueue] at hreceived
      simpa [queued] using hreceived
    · obtain ⟨-, hrest⟩ := List.cons.inj hitems
      exact ⟨hrest, by simpa using htotal⟩

/-- What was received is part of what will be received. -/
theorem Fed.prefix_total (h : Fed plain total y buf s) : y ++ buf ++ s.queued <+: total := by
  by_cases heof : s.readReachedEof = true
  · have hstream := h.stream
    rw [if_pos heof, ParamikoSpawn.stream, List.append_eq_nil_iff] at hstream
    rw [queued, hstream.1.1, ← hstream.2]
    simp
  · obtain ⟨items, hitems, rfl, -⟩ := h.stream_of_not_eof (by simpa using heof)
    rw [List.prefix_append_right_inj]
    have hflat := congrArg (List.flatMap (·.getD [])) hitems
    rw [ParamikoSpawn.stream, List.flatMap_append] at hflat
    refine ⟨_, hflat.trans ?_⟩
    simp [List.flatMap_map]

/-! ### One call -/

theorem fed_scheduled (h : Fed plain total y buf s) : Fed plain total y buf s.scheduled :=
  h.moves (moves_scheduled s)

theorem tryGetNowait_cons {item : Option Bytes} (h : s.scheduled.readQueue = item :: queue) :
    tryGetNowait s = .ret (some item) { s.scheduled with readQueue := queue } := by
  apply Prog.tryExcept_ret
  rw [Prog.bind_run, getNowait, h]
  rfl

theorem tryGetNowait_nil (h : s.scheduled.readQueue = []) :
    tryGetNowait s = .ret none s.scheduled := by
  apply Prog.tryExcept_caught (e := .empty) (p := pure none)
  · rw [Prog.bind_run, getNowait, h]
  · rfl

theorem get_cons {item : Option Bytes} {t : ℚ} (ht : 0 ≤ t)
    (h : s.scheduled.readQueue = item :: queue) :
    get (some t) s = .ret item { s.scheduled with readQueue := queue } := by
  simp [get, h, ht]

theorem get_nil {t : ℚ} (ht : 0 ≤ t) (h : s.scheduled.readQueue = []) :
    get (some t) s = .raised .empty s.scheduled := by
  simp [get, h, ht]

theorem pending_take {item : Option Bytes} (h : s.scheduled.readQueue = item :: queue) :
    ({ s.scheduled with readQueue := queue } : ParamikoSpawn).pending + 1 ≤ s.pending := by
  have hle := (moves_scheduled s).pending
  rw [pending, h, List.length_cons] at hle
  rw [pending]
  dsimp only at hle ⊢
  omega

/-- What `untilEndOrSize` returns: at least what it had, and at the end of file all there is. -/
structure Filled (plain : Bool) (total y buf : Bytes) (size : Nat) (out : Bytes)
    (s : ParamikoSpawn) : Prop where
  fed : Fed plain total y out s
  length_le : buf.length ≤ out.length
  of_eof : s.readReachedEof → out.length ≤ size

theorem untilEndOrSize_filled (h : Fed plain total y buf s) (heof : s.readReachedEof = false)
    (hfuel : s.pending < fuel) :
    ∃ out s', untilEndOrSize fuel size buf s = .ret out s' ∧
      Filled plain total y buf size out s' := by
  induction fuel generalizing s buf with
  | zero => omega
  | succ fuel ih =>
    rw [untilEndOrSize]
    by_cases hsize : buf.length < size
    · have heof' : s.scheduled.readReachedEof = false :=
        (moves_scheduled s).readReachedEof.trans heof
      rw [if_pos hsize]
      cases hqueue : s.scheduled.readQueue with
      | nil =>
        refine ⟨buf, s.scheduled, Prog.bind_ret (tryGetNowait_nil hqueue), fed_scheduled h, le_rfl,
          ?_⟩
        simp [heof']
      | cons item queue =>
        rw [Prog.bind_ret (tryGetNowait_cons hqueue)]
        cases item with
        | none =>
          refine ⟨buf, _, rfl, (fed_scheduled h).take_eof heof' hqueue, le_rfl, ?_⟩
          exact fun _ => hsize.le
        | some incoming =>
          have htake := pending_take hqueue
          obtain ⟨out, s', hrun, hfilled⟩ :=
            ih ((fed_scheduled h).take heof' hqueue).1 heof'
              (Nat.lt_of_lt_of_le htake (Nat.le_of_lt_succ hfuel))
          refine ⟨out, s', hrun, hfilled.fed, ?_, hfilled.of_eof⟩
          exact (by simp : buf.length ≤ (buf ++ incoming).length).trans hfilled.length_le
    · refine ⟨buf, s, if_neg hsize ▸ rfl, h, le_rfl, ?_⟩
      simp [heof]

theorem readFromQueueUntilEndOrSize_filled (h : Fed plain total y buf s)
    (heof : s.readReachedEof = false) (size : Nat) :
    ∃ out s', readFromQueueUntilEndOrSize buf size s = .ret out s' ∧
      Filled plain total y buf size out s' :=
  untilEndOrSize_filled h heof (Nat.lt_succ_self s.pending)

/-- What a call returns is not empty unless the end of file was reached. -/
theorem readFromQueue_meets (h : Fed plain total y [] s) (heof : s.readReachedEof = false) {t : ℚ}
    (ht : 0 ≤ t) (size : Nat) :
    Prog.Meets False
      (fun out s' => Fed plain total y out s' ∧ (s'.readReachedEof → out.length ≤ size) ∧
        (plain → out = [] → s'.readReachedEof))
      (fun e s' => e = .empty ∧ s' = s.scheduled) (readFromQueue (some t) size [] s) := by
  have heof' : s.scheduled.readReachedEof = false :=
    (moves_scheduled s).readReachedEof.trans heof
  rw [readFromQueue]
  cases hqueue : s.scheduled.readQueue with
  | nil =>
    rw [Prog.bind_raised (get_nil ht hqueue)]
    exact ⟨rfl, rfl⟩
  | cons item queue =>
    rw [Prog.bind_ret (get_cons ht hqueue)]
    cases item with
    | none => exact ⟨(fed_scheduled h).take_eof heof' hqueue, fun _ => by simp, fun _ _ => rfl⟩
    | some incoming =>
      obtain ⟨hfed, hne⟩ := (fed_scheduled h).take heof' hqueue
      obtain ⟨out, s', hrun, hfilled⟩ := readFromQueueUntilEndOrSize_filled hfed heof' size
      dsimp only
      rw [hrun]
      refine ⟨hfilled.fed, hfilled.of_eof, fun hplain hout => ?_⟩
      have hle := hfilled.length_le
      simp [hout, hne hplain] at hle

theorem readWithOrWithoutTimeout_meets (h : Fed plain total y s.buf s)
    (heof : s.readReachedEof = false) {t : ℚ} (ht : 0 ≤ t) (size : Nat) :
    Prog.Meets False
      (fun out s' => Fed plain total y out s' ∧ (s'.readReachedEof → out.length ≤ size) ∧
        (plain → out = [] → s'.readReachedEof))
      (fun e s' => e = .timeout ∧ Fed plain total y s'.buf s' ∧ s'.readReachedEof = false)
      (readWithOrWithoutTimeout (some t) size s.buf s) := by
  rw [readWithOrWithoutTimeout]
  by_cases hbuf : s.buf = []
  · rw [hbuf, if_pos rfl]
    rw [hbuf] at h
    have hread := readFromQueue_meets h heof ht size
    cases hrun : readFromQueue (some t) size [] s with
    | ret out s' =>
      rw [hrun] at hread
      rw [Prog.tryExcept_ret hrun]
      exact hread
    | raised e s' =>
      rw [hrun] at hread
      obtain ⟨rfl, rfl⟩ := hread
      have hbuf' : s.scheduled.buf = [] := (moves_scheduled s).buf.trans hbuf
      rw [Prog.tryExcept_caught hrun rfl, Prog.bind_run, Prog.gets_run]
      simp only [hbuf', if_true]
      refine ⟨rfl, ?_, (moves_scheduled s).readReachedEof.trans heof⟩
      rw [hbuf']
      exact fed_scheduled h
    | hang =>
      rw [hrun] at hread
      exact hread.elim
  · rw [if_neg hbuf]
    obtain ⟨out, s', hrun, hfilled⟩ := readFromQueueUntilEndOrSize_filled h heof size
    rw [hrun]
    refine ⟨hfilled.fed, hfilled.of_eof, fun _ hout => ?_⟩
    have hle := hfilled.length_le
    simp [hout, hbuf] at hle

/-- Between two calls. -/
structure Held (plain : Bool) (total y : Bytes) (s : ParamikoSpawn) : Prop where
  fed : Fed plain total y s.buf s
  buf_of_eof : s.readReachedEof → s.buf = []

theorem Fed.splitAt {out : Bytes} (h : Fed plain total y out s) (size : Nat) :
    Fed plain total (y ++ out.take size) (out.drop size) { s with buf := out.drop size } := by
  have hjoin : y ++ out.take size ++ out.drop size = y ++ out := by
    rw [List.append_assoc, List.take_append_drop]
  constructor
  · exact h.removeAnsiChars
  · rw [hjoin]
    exact h.received
  · rw [hjoin]
    exact h.stream

theorem Held.total_of_eof (h : Held plain total y s) (heof : s.readReachedEof = true) :
    y = total := by
  have hstream := h.fed.stream
  rw [if_pos heof, h.buf_of_eof heof, List.append_nil] at hstream
  exact hstream.2

theorem Held.flag (h : Held plain total y s) (b : Bool) :
    Held plain total y { s with flagEof := b } where
  fed := { h.fed with }
  buf_of_eof := h.buf_of_eof

/-- **One call.** -/
theorem readNonblocking_meets (h : Held plain total y s) {size : Nat} (hsize : 0 < size) {t : ℚ}
    (ht : 0 ≤ t) :
    Prog.Meets False
      (fun r s' => Held plain total (y ++ r) s' ∧ r.length ≤ size ∧ (plain → r ≠ []))
      (fun e s' => Held plain total y s' ∧ (e = .timeout ∨ e = .eof ∧ y = total))
      (readNonblocking size (some t) s) := by
  have ht' : t ≠ -1 := by
    rintro rfl
    norm_num at ht
  rw [readNonblocking, Prog.bind_run, Prog.gets_run]
  cases heof : s.readReachedEof with
  | true => exact ⟨h.flag true, .inr ⟨rfl, h.total_of_eof heof⟩⟩
  | false =>
    dsimp only
    rw [if_neg (by simp), Prog.bind_run, Prog.gets_run]
    simp only [ht', if_false]
    rw [if_pos (by omega), Int.toNat_natCast, readQueueAndBuf, Prog.bind_run, Prog.gets_run]
    dsimp only
    have hread := readWithOrWithoutTimeout_meets h.fed heof ht size
    cases hrun : readWithOrWithoutTimeout (some t) size s.buf s with
    | ret out s' =>
      rw [hrun] at hread
      obtain ⟨hfed, hle, hplain⟩ := hread
      have hheld : Held plain total (y ++ out.take size) { s' with buf := out.drop size } :=
        ⟨hfed.splitAt size, fun heof' => List.drop_of_length_le (hle heof')⟩
      rw [Prog.bind_ret hrun, Prog.bind_run, Prog.modify_run]
      dsimp only
      rw [Prog.bind_run, Prog.gets_run]
      dsimp only
      split
      · next hend =>
        rw [hend.2, List.append_nil] at hheld
        exact ⟨hheld.flag true, .inr ⟨rfl, hheld.total_of_eof hend.1⟩⟩
      · next hend =>
        refine ⟨hheld, List.length_take_le .., fun hp hnil => hend ⟨?_, hnil⟩⟩
        rcases List.take_eq_nil_iff.mp hnil with hzero | hnil
        · omega
        · exact hplain hp hnil
    | raised e s' =>
      rw [hrun] at hread
      obtain ⟨rfl, hfed, heof'⟩ := hread
      rw [Prog.bind_raised hrun]
      exact ⟨⟨hfed, fun hend => by simp [heof'] at hend⟩, .inl rfl⟩
    | hang =>
      rw [hrun] at hread
      exact hread.elim

/-! ## Runs -/

/-- A call of `read_nonblocking`. -/
structure Call where
  size : Nat
  timeout : ℚ
  size_pos : 0 < size
  timeout_nonneg : 0 ≤ timeout

/-- What was received and is still to be returned. -/
def unread (s : ParamikoSpawn) : Bytes := s.buf ++ s.queued

namespace Call

def outcome (c : Call) (s : ParamikoSpawn) : Outcome SpawnExc ParamikoSpawn Bytes :=
  readNonblocking c.size (some c.timeout) s

/-- A call, after calls that returned `x.2`. -/
def step (c : Call) (x : ParamikoSpawn × Bytes) : ParamikoSpawn × Bytes :=
  match c.outcome x.1 with
  | .ret r s => (s, x.2 ++ r)
  | .raised _ s => (s, x.2)
  | .hang => x

/-- A call returns, or it raises `TIMEOUT` or `EOF`.  Nothing is lost, and at `EOF`
everything has been returned. -/
def Delivers (stream : Bytes) (c : Call) (x : ParamikoSpawn × Bytes) : Prop :=
  Prog.Meets False
    (fun r s => 1 ≤ r.length ∧ r.length ≤ c.size ∧ x.2 ++ r <+: s.received ∧
      x.2 ++ r ++ s.unread = s.received ∧ s.received <+: stream)
    (fun e s => e = .timeout ∧ x.2 ++ s.unread = s.received ∧ s.received <+: stream ∨
      e = .eof ∧ x.2 = stream)
    (c.outcome x.1)

end Call

theorem Held.unread (h : Held true total y s) :
    y ++ s.unread = s.received ∧ s.received <+: total := by
  have hall := h.fed.received rfl
  have hpre := h.fed.prefix_total
  rw [hall] at hpre
  rw [List.append_assoc] at hall
  exact ⟨hall, hpre⟩

theorem held_step {x : ParamikoSpawn × Bytes} (c : Call) (h : Held plain total x.2 x.1) :
    Held plain total (c.step x).2 (c.step x).1 := by
  have hcall := readNonblocking_meets h c.size_pos c.timeout_nonneg
  unfold Call.step Call.outcome
  cases hrun : readNonblocking c.size (some c.timeout) x.1 with
  | ret r s =>
    rw [hrun] at hcall
    exact hcall.1
  | raised e s =>
    rw [hrun] at hcall
    exact hcall.1
  | hang => exact h

theorem delivers_of_held {x : ParamikoSpawn × Bytes} (c : Call) (h : Held true total x.2 x.1) :
    c.Delivers total x := by
  have hcall := readNonblocking_meets h c.size_pos c.timeout_nonneg
  unfold Call.Delivers Call.outcome
  cases hrun : readNonblocking c.size (some c.timeout) x.1 with
  | ret r s =>
    rw [hrun] at hcall
    obtain ⟨hheld, hle, hne⟩ := hcall
    obtain ⟨hall, hpre⟩ := hheld.unread
    exact ⟨List.length_pos_iff.mpr (hne rfl), hle, ⟨_, hall⟩, hall, hpre⟩
  | raised e s =>
    rw [hrun] at hcall
    obtain ⟨hheld, rfl | ⟨rfl, htotal⟩⟩ := hcall
    · exact .inl ⟨rfl, hheld.unread⟩
    · exact .inr ⟨rfl, htotal⟩
  | hang =>
    rw [hrun] at hcall
    exact hcall.elim

theorem getD_endOfFile (timedOut : Bool) : (endOfFile timedOut).getD [] = [] := by
  cases timedOut <;> rfl

theorem puts_plain {pieces : List Bytes} (h : ∀ p ∈ pieces, p ≠ []) (timedOut : Bool) :
    puts false (pieces.map some ++ [endOfFile timedOut]) = pieces.map some ++ [none] := by
  induction pieces with
  | nil => simp [puts, moved_eof false (getD_endOfFile timedOut)]
  | cons p pieces ih =>
    obtain ⟨hp, hpieces⟩ := List.forall_mem_cons.mp h
    simp [puts, moved_plain, hp, ih hpieces]

theorem held_init {stream : Bytes} (f : Fragmentation stream) (timedOut : Bool)
    (timeout : Option ℚ) (turns : Nat → Nat) :
    Held true stream [] (init false f.pieces timedOut timeout turns) := by
  constructor
  · constructor
    · rfl
    · intro _
      rfl
    · refine ⟨f.pieces, puts_plain f.ne_nil timedOut, ?_, fun _ => f.ne_nil⟩
      simp [init, f.flatten_eq]
  · intro _
    rfl

/-- **Every run.**  However the fragments arrive between the accesses to the queue. -/
theorem delivers_of_calls {stream : Bytes} (f : Fragmentation stream) (timedOut : Bool)
    (timeout : Option ℚ) (turns : Nat → Nat) (calls : List Call) :
    Along Call.step (Call.Delivers stream) calls
      (init false f.pieces timedOut timeout turns, []) := by
  apply along_of_invariant (I := fun x => Held true stream x.2 x.1)
  · intro c x hx
    exact held_step c hx
  · intro c x hx
    exact delivers_of_held c hx
  · exact held_init f timedOut timeout turns

/-! ## The filter -/

/-- The thread after a turn for each fragment and one for the end of file. -/
def finished (pieces : List Bytes) (timedOut : Bool) (timeout : Option ℚ) (turns : Nat → Nat) :
    ParamikoSpawn :=
  turn^[pieces.length + 1] (init true pieces timedOut timeout turns)

/-- The thread ends with the end of file, and before it puts the text without its escape
sequences. -/
def FiltersWhole {t : List Char} (f : Fragmentation (encode t)) (timedOut : Bool)
    (timeout : Option ℚ) (turns : Nat → Nat) : Prop :=
  (finished f.pieces timedOut timeout turns).reader = .ended ∧
    ∃ items : List Bytes,
      (finished f.pieces timedOut timeout turns).readQueue = items.map some ++ [none] ∧
        items.flatten = encode (ansiEscape.removed t)

theorem moved_text {u : List Char} (h : encode u ≠ []) :
    moved true (some (encode u)) = .ok (some (encode (ansiEscape.removed u))) := by
  simp [moved, h, decode?_eq_some.mpr rfl]

theorem moved_invalid {p : Bytes} (h : p ≠ []) (hp : ¬ Valid p) :
    moved true (some p) = .error .unicodeDecodeError := by
  simp [moved, h, decode?_eq_none.mpr hp]

/-- Each fragment is filtered on its own. -/
theorem iterate_turn_texts {ts : List (List Char)} {timedOut : Bool}
    (hne : ∀ p ∈ ts.map encode, p ≠ []) (hmode : s.removeAnsiChars = true)
    (hreader : s.reader = .running ((ts.map encode).map some ++ [endOfFile timedOut])) :
    (turn^[ts.length + 1] s).reader = .ended ∧
      (turn^[ts.length + 1] s).readQueue =
        s.readQueue ++ (ts.map fun u => some (encode (ansiEscape.removed u))) ++ [none] := by
  induction ts generalizing s with
  | nil =>
    have hmoved := moved_eof true (getD_endOfFile timedOut)
    simp [turn, hreader, hmode, hmoved]
  | cons u ts ih =>
    rw [List.map_cons] at hne
    obtain ⟨hu, hts⟩ := List.forall_mem_cons.mp hne
    have hturn : s.turn = { s with
        reader := .running ((ts.map encode).map some ++ [endOfFile timedOut]),
        readQueue := s.readQueue ++ [some (encode (ansiEscape.removed u))],
        received := s.received ++ encode u } := by
      simp [turn, hreader, hmode, moved_text hu]
    have hrest := ih (s := s.turn) hts (by rw [hturn]; exact hmode) (by rw [hturn])
    rw [List.length_cons, Function.iterate_succ_apply]
    rw [hturn] at hrest ⊢
    simpa using hrest

theorem iterate_turn_died {n : Nat} (h : s.reader = .died) : (turn^[n] s).reader = .died := by
  rw [Function.iterate_fixed (turn_died h), h]

/-- A fragment that ends inside a character ends the thread. -/
theorem iterate_turn_invalid {pieces : List Bytes} {timedOut : Bool} (hne : ∀ p ∈ pieces, p ≠ [])
    (hinvalid : ¬ ∀ p ∈ pieces, Valid p) (hmode : s.removeAnsiChars = true)
    (hreader : s.reader = .running (pieces.map some ++ [endOfFile timedOut])) :
    (turn^[pieces.length + 1] s).reader = .died := by
  induction pieces generalizing s with
  | nil => exact absurd (by simp) hinvalid
  | cons p pieces ih =>
    obtain ⟨hp, hpieces⟩ := List.forall_mem_cons.mp hne
    rw [List.length_cons, Function.iterate_succ_apply]
    by_cases hvalid : Valid p
    · obtain ⟨u, rfl⟩ := hvalid
      have hturn : s.turn = { s with
          reader := .running (pieces.map some ++ [endOfFile timedOut]),
          readQueue := s.readQueue ++ [some (encode (ansiEscape.removed u))],
          received := s.received ++ encode u } := by
        simp [turn, hreader, hmode, moved_text hp]
      apply ih hpieces
      · intro hrest
        exact hinvalid (List.forall_mem_cons.mpr ⟨⟨u, rfl⟩, hrest⟩)
      · rw [hturn]
        exact hmode
      · rw [hturn]
    · apply iterate_turn_died
      simp [turn, hreader, hmode, moved_invalid hp hvalid]

theorem flatten_texts {t : List Char} (f : Fragmentation (encode t)) {ts : List (List Char)}
    (hts : f.pieces = ts.map encode) : ts.flatten = t := by
  apply encode_injective
  rw [encode_flatten, ← hts, f.flatten_eq]

theorem flatten_removed (ts : List (List Char)) :
    (ts.map fun u => encode (ansiEscape.removed u)).flatten =
      encode (ts.flatMap ansiEscape.removed) := by
  rw [List.flatMap, encode_flatten, List.map_map]
  rfl

/-- Fragments that are texts are filtered as a whole if no sequence is cut. -/
theorem filtersWhole_texts {t : List Char} (f : Fragmentation (encode t)) (timedOut : Bool)
    (timeout : Option ℚ) (turns : Nat → Nat) {ts : List (List Char)}
    (hts : f.pieces = ts.map encode) :
    FiltersWhole f timedOut timeout turns ↔ ansiEscape.Uncut ts := by
  have hlen : f.pieces.length = ts.length := by rw [hts, List.length_map]
  have hreader : (init true f.pieces timedOut timeout turns).reader =
      .running ((ts.map encode).map some ++ [endOfFile timedOut]) := by rw [init, hts]
  obtain ⟨hended, hqueue⟩ := iterate_turn_texts (hts ▸ f.ne_nil) rfl hreader
  have hitems : (finished f.pieces timedOut timeout turns).readQueue =
      (ts.map fun u => encode (ansiEscape.removed u)).map some ++ [none] := by
    rw [finished, hlen, hqueue, List.map_map]
    rfl
  rw [← Escapes.flatMap_removed_iff, flatten_texts f hts]
  constructor
  · rintro ⟨-, items, hq, hremoved⟩
    rw [hitems, List.append_cancel_right_eq] at hq
    apply encode_injective
    rw [← flatten_removed, ← hremoved, (List.map_injective_iff.mpr (Option.some_injective _)) hq]
  · intro hremoved
    refine ⟨?_, _, hitems, ?_⟩
    · rw [finished, hlen, hended]
    · rw [flatten_removed, hremoved]

/-- **The filter.**  It removes the escape sequences of the whole text if and only if each
fragment is a text and no sequence is cut. -/
theorem filtersWhole_iff {t : List Char} (f : Fragmentation (encode t)) (timedOut : Bool)
    (timeout : Option ℚ) (turns : Nat → Nat) :
    FiltersWhole f timedOut timeout turns ↔
      ∃ ts : List (List Char), f.pieces = ts.map encode ∧ ansiEscape.Uncut ts := by
  constructor
  · intro h
    have hvalid : ∀ p ∈ f.pieces, Valid p := by
      by_contra hinvalid
      have hdied := iterate_turn_invalid (s := init true f.pieces timedOut timeout turns)
        f.ne_nil hinvalid rfl rfl
      have hended := h.1
      rw [finished, hdied] at hended
      cases hended
    obtain ⟨ts, hts⟩ := exists_texts.mpr hvalid
    exact ⟨ts, hts, (filtersWhole_texts f timedOut timeout turns hts).mp h⟩
  · rintro ⟨ts, hts, hcut⟩
    exact (filtersWhole_texts f timedOut timeout turns hts).mpr hcut

/-- What calls deliver of a text without its escape sequences. -/
def Call.DeliversText (text : List Char) (c : Call) (x : ParamikoSpawn × Bytes) : Prop :=
  Prog.Meets False (fun r _ => x.2 ++ r <+: encode text)
    (fun e _ => e = .timeout ∨ e = .eof ∧ x.2 = encode text) (c.outcome x.1)

theorem puts_texts {ts : List (List Char)} (hne : ∀ p ∈ ts.map encode, p ≠ []) (timedOut : Bool) :
    puts true ((ts.map encode).map some ++ [endOfFile timedOut]) =
      (ts.map fun u => encode (ansiEscape.removed u)).map some ++ [none] := by
  induction ts with
  | nil => simp [puts, moved_eof true (getD_endOfFile timedOut)]
  | cons u ts ih =>
    rw [List.map_cons] at hne
    obtain ⟨hu, hts⟩ := List.forall_mem_cons.mp hne
    have hrest := ih hts
    simp only [List.map_cons, List.cons_append, puts, moved_text hu, hrest]

theorem deliversText_of_held {text : List Char} {x : ParamikoSpawn × Bytes} (c : Call)
    (h : Held false (encode text) x.2 x.1) : c.DeliversText text x := by
  have hcall := readNonblocking_meets h c.size_pos c.timeout_nonneg
  unfold Call.DeliversText Call.outcome
  cases hrun : readNonblocking c.size (some c.timeout) x.1 with
  | ret r s =>
    rw [hrun] at hcall
    have hpre := hcall.1.fed.prefix_total
    rw [List.append_assoc] at hpre
    exact (List.prefix_append _ _).trans hpre
  | raised e s =>
    rw [hrun] at hcall
    exact hcall.2
  | hang =>
    rw [hrun] at hcall
    exact hcall.elim

/-- In every run the calls deliver what the thread filters. -/
theorem deliversText_of_calls {t : List Char} (f : Fragmentation (encode t)) (timedOut : Bool)
    (timeout : Option ℚ) (turns : Nat → Nat) (h : FiltersWhole f timedOut timeout turns)
    (calls : List Call) :
    Along Call.step (Call.DeliversText (ansiEscape.removed t)) calls
      (init true f.pieces timedOut timeout turns, []) := by
  obtain ⟨ts, hts, hcut⟩ := (filtersWhole_iff f timedOut timeout turns).mp h
  have hremoved := Escapes.flatMap_removed_iff.mpr hcut
  rw [flatten_texts f hts] at hremoved
  apply along_of_invariant (I := fun x => Held false (encode (ansiEscape.removed t)) x.2 x.1)
  · intro c x hx
    exact held_step c hx
  · intro c x hx
    exact deliversText_of_held c hx
  · constructor
    · constructor
      · rfl
      · intro hplain
        cases hplain
      · refine ⟨ts.map fun u => encode (ansiEscape.removed u), ?_, ?_, ?_⟩
        · simpa [stream, init, hts] using puts_texts (hts ▸ f.ne_nil) timedOut
        · exact (flatten_removed ts).trans (congrArg encode hremoved)
        · intro hplain
          cases hplain
    · intro _
      rfl

/-- The text `ESC [ 0 m`, cut behind its first character. -/
def cutEscape : Fragmentation (encode [AnsiEscape.esc, '[', '0', 'm']) where
  pieces := [[0x1b], [0x5b, 0x30, 0x6d]]
  flatten_eq := by decide +kernel
  ne_nil := by decide

/-- **The filter.**  It lets a sequence through that is cut. -/
theorem not_filtersWhole_cutEscape : ¬ FiltersWhole cutEscape false (some 30) fun _ => 0 := by
  rintro ⟨-, items, hqueue, hflat⟩
  have hthread : (finished cutEscape.pieces false (some 30) fun _ => 0).readQueue =
      [[0x1b], [0x5b, 0x30, 0x6d]].map some ++ [none] := by decide +kernel
  rw [hthread, List.append_cancel_right_eq] at hqueue
  rw [← (List.map_injective_iff.mpr (Option.some_injective _)) hqueue] at hflat
  exact absurd hflat (by decide +kernel)

end ParamikoSpawn

/-! ## `send` -/

/-- A channel.  When so many sends were made, the next one accepts a beginning of what it
is given. -/
structure Channel where
  accepts : Nat → Bytes → Nat
  le_length : ∀ n x, accepts n x ≤ x.length
  pos : ∀ n x, x ≠ [] → 1 ≤ accepts n x

/-- What went through the channel. -/
structure Sent where
  sends : Nat
  bytes : Bytes
  deriving DecidableEq

namespace Channel

variable (chan : Channel)

/-- `chan.send(x)` -/
def send (x : Bytes) : Prog SpawnExc Sent Nat := fun s =>
  .ret (chan.accepts s.sends x) ⟨s.sends + 1, s.bytes ++ x.take (chan.accepts s.sends x)⟩

/-- The loop of `_send_in_chunks`. -/
def sendSlices : List Bytes → Nat → Prog SpawnExc Sent Nat
  | [], sbytes => pure sbytes
  | slice :: slices, sbytes => do
    let n ← chan.send slice
    sendSlices slices (sbytes + n)

end Channel

namespace ParamikoSpawn

def chunkSize : Nat := 32000

/-- `_send_in_chunks` -/
def sendInChunks (chan : Channel) (b : Bytes) : Prog SpawnExc Sent Nat :=
  chan.sendSlices (pieces chunkSize b) 0

/-- `send`, for bytes and without an encoding. -/
def send (chan : Channel) (b : Bytes) : Prog SpawnExc Sent Nat := sendInChunks chan b

/-- The channel accepts each slice as a whole, after so many sends. -/
def AcceptsWhole (chan : Channel) : Nat → List Bytes → Prop
  | _, [] => True
  | n, slice :: slices =>
    chan.accepts n slice = slice.length ∧ AcceptsWhole chan (n + 1) slices

/-- Exactly `b` is sent, and its length is returned. -/
def SendsAll (chan : Channel) (b : Bytes) (s : Sent) : Prop :=
  ∃ s', send chan b s = .ret b.length s' ∧ s'.bytes = s.bytes ++ b

theorem sendSlices_run (chan : Channel) (slices : List Bytes) (sbytes : Nat) (s : Sent) :
    ∃ out : Bytes,
      chan.sendSlices slices sbytes s =
        .ret (sbytes + out.length) ⟨s.sends + slices.length, s.bytes ++ out⟩ ∧
      out.length ≤ slices.flatten.length ∧
      (out.length = slices.flatten.length ↔ AcceptsWhole chan s.sends slices) ∧
      (AcceptsWhole chan s.sends slices → out = slices.flatten) := by
  induction slices generalizing sbytes s with
  | nil => exact ⟨[], by simp [Channel.sendSlices, AcceptsWhole]⟩
  | cons slice slices ih =>
    have hle := chan.le_length s.sends slice
    have hsend : chan.send slice s = .ret (chan.accepts s.sends slice)
      ⟨s.sends + 1, s.bytes ++ slice.take (chan.accepts s.sends slice)⟩ := rfl
    have hlen : (slice.take (chan.accepts s.sends slice)).length = chan.accepts s.sends slice := by
      rw [List.length_take, Nat.min_eq_left hle]
    obtain ⟨out, hrun, hout, hiff, hall⟩ := ih (sbytes + chan.accepts s.sends slice)
      ⟨s.sends + 1, s.bytes ++ slice.take (chan.accepts s.sends slice)⟩
    refine ⟨slice.take (chan.accepts s.sends slice) ++ out, ?_, ?_, ?_, ?_⟩
    · rw [Channel.sendSlices, Prog.bind_ret hsend, hrun, List.length_append, hlen, List.length_cons,
        List.append_assoc, Nat.add_assoc, Nat.add_assoc, Nat.add_comm 1]
    · rw [List.flatten_cons, List.length_append, List.length_append, hlen]
      omega
    · rw [AcceptsWhole, ← hiff, List.flatten_cons, List.length_append, List.length_append, hlen]
      omega
    · rintro ⟨hslice, hrest⟩
      rw [hall hrest, hslice, List.take_length, List.flatten_cons]

/-- **`send`.**  Everything is sent if and only if the channel accepts each slice as a whole. -/
theorem sendsAll_iff (chan : Channel) (b : Bytes) (s : Sent) :
    SendsAll chan b s ↔ AcceptsWhole chan s.sends (pieces chunkSize b) := by
  have hflat : (pieces chunkSize b).flatten = b := pieces_flatten (by decide) b
  obtain ⟨out, hrun, -, hiff, hall⟩ := sendSlices_run chan (pieces chunkSize b) 0 s
  rw [hflat] at hiff hall
  constructor
  · rintro ⟨s', hsend, -⟩
    rw [send, sendInChunks, hrun, Nat.zero_add] at hsend
    injection hsend with hlen
    exact hiff.mp hlen
  · intro haccepts
    have hout := hall haccepts
    refine ⟨⟨s.sends + (pieces chunkSize b).length, s.bytes ++ b⟩, ?_, rfl⟩
    rw [send, sendInChunks, hrun, hout, Nat.zero_add]

/-- Accepts one byte at a time. -/
def oneByte : Channel where
  accepts _ x := min 1 x.length
  le_length _ _ := Nat.min_le_right ..
  pos _ _ hx := Nat.le_min.mpr ⟨le_rfl, List.length_pos_iff.mpr hx⟩

/-- **`send`.**  The second byte is lost. -/
theorem not_sendsAll_oneByte : ¬ SendsAll oneByte [97, 98] ⟨0, []⟩ := by
  rintro ⟨s', hsend, -⟩
  have hvalue : (send oneByte [97, 98] ⟨0, []⟩).value? = some 1 := by decide
  rw [hsend] at hvalue
  exact absurd (Option.some.inj hvalue) (by decide)

end ParamikoSpawn

end InteractiveSessions
