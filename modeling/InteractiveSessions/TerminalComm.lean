import InteractiveSessions.Timeouts
import Mathlib.Algebra.Order.Field.Rat

/-!
# `terminalclient.TerminalComm`: the client's side of the terminal

A read of the terminal delivers some of the next bytes, or it raises a timeout.
What the reads of chunk acks get (`acks`) and what the others get (`line`) stand
apart, each in the order of the reads.  After their end every read times out.
-/

namespace InteractiveSessions

open ChunkComm StrComm GapToken

structure TerminalComm where
  line : Line
  acks : Line
  /-- The time at the `ticks`-th call of `monotonic`, less what was `waited`. -/
  clock : Nat → ℚ
  clock_mono : Monotone clock
  ticks : Nat
  /-- The time spent in reads after the end of `line`. -/
  waited : ℚ
  /-- `_timeout` -/
  timeout : ℚ

namespace TerminalComm

def monotonic : Prog Exc TerminalComm ℚ := fun t =>
  .ret (t.clock t.ticks + t.waited) { t with ticks := t.ticks + 1 }

def read (n : Nat) : Prog Exc TerminalComm Bytes := fun t =>
  if t.line.stream = [] then .raised .timeout { t with waited := t.waited + t.timeout }
  else Prog.zoom line (fun l t => { t with line := l }) (Line.read n) t

/-- A read of `_read_ack`. -/
def readForAck (n : Nat) : Prog Exc TerminalComm Bytes := fun t =>
  if t.acks.stream = [] then .raised .timeout t
  else Prog.zoom acks (fun l t => { t with acks := l }) (Line.read n) t

def write (s : Bytes) : Prog Exc TerminalComm Unit :=
  Prog.modify fun t => { t with line := { t.line with written := t.line.written ++ s } }

def comm (fuel : Nat) : Comm TerminalComm :=
  { ackBase read write (pure ()) fuel with
    readAck := do
      let s ← rawReadUntilSize readForAck fuel chunkIdWidth
      pure (some s) }

/-! ## What the reads do to the terminal -/

def withStream (items : List Item) (t : TerminalComm) : TerminalComm :=
  { t with line := { t.line with stream := items } }

/-- After the timeout at the head of `rest`, or the one after the end. -/
def expired (rest : List Item) (t : TerminalComm) : TerminalComm :=
  { t.withStream rest.tail with
    waited := if rest = [] then t.waited + t.timeout else t.waited }

/-- The bytes `xs` come next, then `rest`; all else is as in `t`. -/
def Next (t : TerminalComm) (rest : List Item) (fuel : Nat) (xs : Bytes) (t' : TerminalComm) :
    Prop :=
  t' = t.withStream (Line.bytes xs ++ rest) ∧ (Line.bytes xs ++ rest).length < fuel

/-- As `Next`, but the terminal may have been written to. -/
def NextWritten (t : TerminalComm) (rest : List Item) (fuel : Nat) (xs : Bytes)
    (t' : TerminalComm) : Prop :=
  ∃ written, Next { t with line := { t.line with written } } rest fuel xs t'

variable {t : TerminalComm} {rest : List Item} {fuel : Nat} {xs : Bytes} {t' : TerminalComm}

theorem Next.length_lt (h : Next t rest fuel xs t') : xs.length < fuel := by
  have := h.2
  rw [List.length_append, Line.length_bytes] at this
  omega

theorem NextWritten.length_lt (h : NextWritten t rest fuel xs t') : xs.length < fuel := by
  obtain ⟨_, h⟩ := h
  exact h.length_lt

theorem read_next {n : Nat} (hn : 0 < n) (hx : xs ≠ [])
    (hle : n ≤ xs.length ∨ Line.leading rest = []) (h : Next t rest fuel xs t') :
    ∃ k t'', 0 < k ∧ k ≤ n ∧ k ≤ xs.length ∧ read n t' = .ret (xs.take k) t'' ∧
      Next t rest fuel (xs.drop k) t'' := by
  obtain ⟨rfl, hlen⟩ := h
  have hstream : (t.withStream (Line.bytes xs ++ rest)).line.stream = Line.bytes xs ++ rest := rfl
  obtain ⟨k, hk0, hkn, hkx, hrun⟩ := Line.read_bytes hn hx hle hstream
  refine ⟨k, t.withStream (Line.bytes (xs.drop k) ++ rest), hk0, hkn, hkx, ?_, rfl, ?_⟩
  · have hne : Line.bytes xs ++ rest ≠ [] := by
      simp [Line.bytes, hx]
    rw [read, if_neg (by rw [hstream]; exact hne), Prog.zoom_ret hrun]
    rfl
  · simp only [List.length_append, Line.length_bytes, List.length_drop] at hlen ⊢
    omega

/-- The terminal that raises a timeout after the bytes that come next. -/
theorem comm_timeout (t : TerminalComm) (hrest : Line.leading rest = []) (fuel fuel' : Nat) :
    Stops (comm fuel').read (Next t rest fuel) (some (.timeout, t.expired rest)) where
  deliver n xs t₁ hn hx h := read_next hn hx (.inr hrest) h
  stop n t₁ _ := by
    rintro ⟨rfl, -⟩
    cases rest with
    | nil => rfl
    | cons item rest =>
      cases item with
      | byte b => cases hrest
      | timeout => rfl

theorem comm_serves (t : TerminalComm) (rest : List Item) (fuel fuel' : Nat) :
    (comm fuel').Serves (NextWritten t rest fuel) where
  read n xs t₁ hn hle := by
    rintro ⟨written, h⟩
    have hx : xs ≠ [] := List.length_pos_iff.mp (by omega)
    obtain ⟨k, t₂, hk0, hkn, -, hrun, h₂⟩ := read_next hn hx (.inl hle) h
    exact ⟨k, t₂, hk0, hkn, hrun, written, h₂⟩
  writeAck id xs t₁ := by
    rintro ⟨written, rfl, hlen⟩
    exact ⟨_, rfl, written ++ id, rfl, hlen⟩

/-! ## What a write reads -/

def withAcks (items : List Item) (t : TerminalComm) : TerminalComm :=
  { t with acks := { t.acks with stream := items } }

/-- As `Next`, for the reads of acks. -/
def NextAcks (t : TerminalComm) (rest : List Item) (fuel : Nat) (xs : Bytes) (t' : TerminalComm) :
    Prop :=
  t' = t.withAcks (Line.bytes xs ++ rest) ∧ (Line.bytes xs ++ rest).length < fuel

theorem NextAcks.length_lt (h : NextAcks t rest fuel xs t') : xs.length < fuel := by
  have := h.2
  rw [List.length_append, Line.length_bytes] at this
  omega

/-- Reads of acks, with a timeout after the bytes that come next. -/
theorem readForAck_stops (t : TerminalComm) (hrest : Line.leading rest = []) (fuel : Nat) :
    Stops readForAck (NextAcks t rest fuel) (some (.timeout, t.withAcks rest.tail)) where
  deliver n xs t₁ hn hx := by
    rintro ⟨rfl, hlen⟩
    have hstream : (t.withAcks (Line.bytes xs ++ rest)).acks.stream = Line.bytes xs ++ rest := rfl
    obtain ⟨k, hk0, hkn, hkx, hrun⟩ := Line.read_bytes hn hx (.inr hrest) hstream
    refine ⟨k, t.withAcks (Line.bytes (xs.drop k) ++ rest), hk0, hkn, hkx, ?_, rfl, ?_⟩
    · have hne : Line.bytes xs ++ rest ≠ [] := by
        simp [Line.bytes, hx]
      rw [readForAck, if_neg (by rw [hstream]; exact hne), Prog.zoom_ret hrun]
      rfl
    · simp only [List.length_append, Line.length_bytes, List.length_drop] at hlen ⊢
      omega
  stop n t₁ _ := by
    rintro ⟨rfl, -⟩
    cases rest with
    | nil => rfl
    | cons item rest =>
      cases item with
      | byte b => cases hrest
      | timeout => rfl

/-- What is left when the ack of the chunk has been read from `items`; `none` if
it does not come next. -/
def dropAck (items : List Item) (chunkId : Nat) : Option (List Item) :=
  if chunkIdWidth ≤ (Line.leading items).length ∧
      Decimal.parseInt ((Line.leading items).take chunkIdWidth) = some (chunkId : Int) then
    some (items.drop chunkIdWidth)
  else none

def dropAcks (chunkIds : List Nat) (items : List Item) : Option (List Item) :=
  chunkIds.foldlM dropAck items

/-- The chunks of `s` whose acks `write(s)` reads. -/
def ackIds (s : Bytes) : List Nat := ((chunksOf s).map Chunk.id).filter (· ≠ 0)

theorem dropAck_length_le {items left : List Item} {chunkId : Nat}
    (h : dropAck items chunkId = some left) : left.length ≤ items.length := by
  rw [dropAck] at h
  split at h
  · cases h
    rw [List.length_drop]
    omega
  · cases h

theorem dropAcks_append (ids ids' : List Nat) (items : List Item) :
    dropAcks (ids ++ ids') items = (dropAcks ids items).bind (dropAcks ids') :=
  List.foldlM_append

theorem dropAcks_length_le {ids : List Nat} {items left : List Item}
    (h : dropAcks ids items = some left) : left.length ≤ items.length := by
  induction ids generalizing items with
  | nil =>
    cases h
    exact Nat.le_refl _
  | cons id ids ih =>
    rw [dropAcks, List.foldlM_cons, Option.bind_eq_bind, Option.bind_eq_some_iff] at h
    obtain ⟨items', hdrop, h⟩ := h
    exact (ih h).trans (dropAck_length_le hdrop)

/-- The next four bytes are read, or the read raises. -/
theorem readAck_cases (hfuel : t.acks.stream.length < fuel) :
    (chunkIdWidth ≤ (Line.leading t.acks.stream).length ∧ (comm fuel).readAck t =
        .ret (some ((Line.leading t.acks.stream).take chunkIdWidth))
          (t.withAcks (t.acks.stream.drop chunkIdWidth))) ∨
      ((Line.leading t.acks.stream).length < chunkIdWidth ∧
        ∃ t', (comm fuel).readAck t = .raised .timeout t') := by
  obtain ⟨xs, tail, hstream, htail⟩ := Line.exists_leading t.acks.stream
  have hleading : Line.leading t.acks.stream = xs := by
    rw [hstream, Line.leading_bytes, htail, List.append_nil]
  have hnext : NextAcks t tail fuel xs t := by
    rw [hstream] at hfuel
    refine ⟨?_, hfuel⟩
    rw [← hstream]
    rfl
  have hstops := readForAck_stops t htail fuel
  have hlt := hnext.length_lt
  rw [hleading]
  rcases Nat.lt_or_ge xs.length chunkIdWidth with hlen | hlen
  · have hrun : rawReadUntilSize readForAck fuel chunkIdWidth t =
        Prog.stopped (some (.timeout, t.withAcks tail.tail)) :=
      rawReadLoop_stops hstops fuel xs _ _ t hlt (by simpa using hlen) hnext
    exact .inr ⟨hlen, _, Prog.bind_raised hrun⟩
  · have htake : (xs.take chunkIdWidth).length = chunkIdWidth := List.length_take_of_le hlen
    have hnext : NextAcks t tail fuel (xs.take chunkIdWidth ++ xs.drop chunkIdWidth) t := by
      rw [List.take_append_drop]
      exact hnext
    obtain ⟨t', hrun, ht', -⟩ := rawReadUntilSize_ret hstops.delivers
      (htake.trans_lt (hlen.trans_lt hlt)) hnext
    have hleft : t.acks.stream.drop chunkIdWidth = Line.bytes (xs.drop chunkIdWidth) ++ tail := by
      rw [hstream, List.drop_append_of_le_length (by rw [Line.length_bytes]; exact hlen)]
      simp only [Line.bytes, List.map_drop]
    rw [htake] at hrun
    rw [hleft, ← ht']
    exact .inl ⟨hlen, Prog.bind_ret hrun⟩

/-- The ack of a chunk is read, or the read raises. -/
theorem readAndVerifyAck_cases {chunkId : Nat} (hid : chunkId ≠ 0)
    (hfuel : t.acks.stream.length < fuel) :
    (∃ left, dropAck t.acks.stream chunkId = some left ∧
        readAndVerifyAck (comm fuel) chunkId t = .ret () (t.withAcks left)) ∨
      (dropAck t.acks.stream chunkId = none ∧
        ∃ e t', readAndVerifyAck (comm fuel) chunkId t = .raised e t') := by
  rw [readAndVerifyAck, if_neg hid]
  rcases readAck_cases hfuel with ⟨hlen, hrun⟩ | ⟨hlen, t', hrun⟩
  · rw [Prog.bind_ret hrun, dropAck]
    dsimp only
    cases hparse : Decimal.parseInt ((Line.leading t.acks.stream).take chunkIdWidth) with
    | none => exact .inr ⟨if_neg (by simp), _, _, rfl⟩
    | some ackChunkId =>
      by_cases heq : (chunkId : Int) = ackChunkId
      · refine .inl ⟨_, if_pos ⟨hlen, by rw [heq]⟩, ?_⟩
        dsimp only
        rw [if_neg (not_not.mpr heq)]
        rfl
      · refine .inr ⟨if_neg fun h => heq (Option.some_inj.mp h.2).symm,
          .chunkIdError chunkId ackChunkId, t.withAcks (t.acks.stream.drop chunkIdWidth), ?_⟩
        dsimp only
        rw [if_pos heq]
        rfl
  · exact .inr ⟨if_neg fun h => absurd h.1 (by omega), _, _, Prog.bind_raised hrun⟩

/-- All chunks are written and their acks are read, or the write raises. -/
theorem writeChunks_cases (i : Nat) (ps : List Bytes)
    (hps : ∀ p ∈ ps, p ≠ [] ∧ p.length ≤ chunkSize) (hfuel : t.acks.stream.length < fuel) :
    (∃ left written,
        dropAcks (((chunksFrom i ps hps).map Chunk.id).filter (· ≠ 0)) t.acks.stream = some left ∧
        writeChunks (comm fuel) i ps t =
          .ret () { t.withAcks left with line := { t.line with written } }) ∨
      (dropAcks (((chunksFrom i ps hps).map Chunk.id).filter (· ≠ 0)) t.acks.stream = none ∧
        ∃ e t', writeChunks (comm fuel) i ps t = .raised e t') := by
  induction ps generalizing i t with
  | nil => exact .inl ⟨t.acks.stream, t.line.written, rfl, rfl⟩
  | cons p ps ih =>
    have hrest : ∀ q ∈ ps, q ≠ [] ∧ q.length ≤ chunkSize := fun q hq =>
      hps q (List.mem_cons_of_mem _ hq)
    let t₁ : TerminalComm := { t with line :=
      { t.line with written := t.line.written ++ bytesForChunkWithToken p (i % 10000) } }
    have hwrite : (comm fuel).write (bytesForChunkWithToken p (i % 10000)) t = .ret () t₁ := rfl
    have hflush : (comm fuel).flush t₁ = .ret () t₁ := rfl
    rw [writeChunks, Prog.bind_ret hwrite, Prog.bind_ret hflush, chunksFrom, List.map_cons]
    by_cases hid : i % 10000 = 0
    · rw [if_neg (not_not.mpr hid), List.filter_cons_of_neg (by simp [hid])]
      exact ih (t := t₁) (i + 1) hrest hfuel
    · rw [if_pos hid, List.filter_cons_of_pos (by simp [hid]), dropAcks, List.foldlM_cons]
      rcases readAndVerifyAck_cases (t := t₁) hid hfuel with
        ⟨left, hdrop, hrun⟩ | ⟨hdrop, e, t', hrun⟩
      · have hle := dropAck_length_le hdrop
        have hdrop : dropAck t.acks.stream (i % 10000) = some left := hdrop
        rw [Prog.bind_ret hrun, hdrop]
        exact ih (t := t₁.withAcks left) (i + 1) hrest (hle.trans_lt hfuel)
      · have hdrop : dropAck t.acks.stream (i % 10000) = none := hdrop
        rw [hdrop]
        exact .inr ⟨rfl, e, t', Prog.bind_raised hrun⟩

theorem write_cases (s : Bytes) (hfuel : t.acks.stream.length < fuel) :
    (∃ left written, dropAcks (ackIds s) t.acks.stream = some left ∧
        ChunkComm.write (comm fuel) s t =
          .ret () { t.withAcks left with line := { t.line with written } }) ∨
      (dropAcks (ackIds s) t.acks.stream = none ∧
        ∃ e t', ChunkComm.write (comm fuel) s t = .raised e t') :=
  writeChunks_cases 0 _ _ hfuel

/-- One chunk has no ack. -/
theorem ackIds_eq_nil {s : Bytes} (hs : s.length ≤ chunkSize) : ackIds s = [] := by
  by_cases hne : s = []
  · subst hne
    rfl
  · rw [ackIds, chunksOf_eq_singleton hne hs]
    rfl

end TerminalComm

end InteractiveSessions
