import InteractiveSessions.StrComm

/-!
# A line between a writer and a reader

The transport below `ChunkReaderBase` and `ChunkWriterBase`, without acks: a
stream of bytes and timeouts on the reading side, a record of what was written
on the other.  `cut` decides how many of the bytes a read delivers.  Every read
shortens the stream, so that some `cut` stands for each way of fragmenting it.
-/

namespace InteractiveSessions

open ChunkComm

/-- What the reading side meets next. -/
inductive Item where
  | byte (b : Byte)
  | timeout
  deriving DecidableEq, Repr

structure Line where
  stream : List Item
  cut : Nat → Nat
  written : Bytes

namespace Line

def bytes (xs : Bytes) : List Item := xs.map Item.byte

@[simp] theorem bytes_nil : bytes [] = [] := rfl

@[simp] theorem bytes_append (xs ys : Bytes) : bytes (xs ++ ys) = bytes xs ++ bytes ys :=
  List.map_append

@[simp] theorem length_bytes (xs : Bytes) : (bytes xs).length = xs.length := List.length_map _

/-- The bytes before the next timeout. -/
def leading : List Item → Bytes
  | .byte b :: items => b :: leading items
  | _ => []

/-- `_read(n)`: it waits on an empty stream, it raises the next timeout, or it
delivers between one and `n` bytes. -/
def read (n : Nat) : Prog Exc Line Bytes := fun l =>
  match l.stream with
  | [] => .hang
  | .timeout :: items => .raised .timeout { l with stream := items }
  | .byte _ :: _ =>
    let s := (leading l.stream).take (min n (1 + l.cut l.stream.length))
    .ret s { l with stream := l.stream.drop s.length }

/-- The methods of a reader and writer without acks. -/
def comm : Comm Line where
  read := read
  write s := Prog.modify fun l => { l with written := l.written ++ s }
  flush := pure ()
  readAck := pure none
  writeAck _ := pure ()

/-- A writer on a fresh line. -/
def writer : ChunkIo Line := ⟨⟨[], fun _ => 0, []⟩, SharedBytesIo.new⟩

/-- A reader on a stream. -/
def reader (stream : List Item) (cut : Nat → Nat) : ChunkIo Line :=
  ⟨⟨stream, cut, []⟩, SharedBytesIo.new⟩

theorem leading_bytes (xs : Bytes) (rest : List Item) :
    leading (bytes xs ++ rest) = xs ++ leading rest := by
  induction xs with
  | nil => rfl
  | cons x xs ih => exact congrArg (x :: ·) ih

/-- The bytes up to the first timeout, or up to the end. -/
theorem exists_leading (items : List Item) :
    ∃ xs tail, items = bytes xs ++ tail ∧ leading tail = [] := by
  induction items with
  | nil => exact ⟨[], [], rfl, rfl⟩
  | cons item items ih =>
    cases item with
    | byte b =>
      obtain ⟨xs, tail, rfl, htail⟩ := ih
      exact ⟨b :: xs, tail, rfl, htail⟩
    | timeout => exact ⟨[], .timeout :: items, rfl, rfl⟩

/-- A read takes some of the bytes that come next.  It stays within `xs` when it
asks for no more or when no byte follows. -/
theorem read_bytes {rest : List Item} {n : Nat} {xs : Bytes} {l : Line} (hn : 0 < n)
    (hx : xs ≠ []) (hle : n ≤ xs.length ∨ leading rest = []) (h : l.stream = bytes xs ++ rest) :
    ∃ k, 0 < k ∧ k ≤ n ∧ k ≤ xs.length ∧
      read n l = .ret (xs.take k) { l with stream := bytes (xs.drop k) ++ rest } := by
  have hpos : 0 < xs.length := List.length_pos_iff.mpr hx
  let j := min n (1 + l.cut l.stream.length)
  let k := min j xs.length
  have htake : (leading l.stream).take j = xs.take k := by
    rw [h, leading_bytes]
    rcases hle with hle | hle
    · have hj : j ≤ xs.length := (Nat.min_le_left ..).trans hle
      rw [List.take_append_of_le_length hj, show k = j from Nat.min_eq_left hj]
    · rw [hle, List.append_nil, ← List.take_eq_take_min]
  have hlen : (xs.take k).length = k := List.length_take_of_le (Nat.min_le_right ..)
  have hdrop : l.stream.drop k = bytes (xs.drop k) ++ rest := by
    rw [h, List.drop_append_of_le_length (by rw [length_bytes]; exact Nat.min_le_right ..)]
    simp only [bytes, List.map_drop]
  refine ⟨k, by omega, by omega, Nat.min_le_right .., ?_⟩
  obtain ⟨x, ys, rfl⟩ := List.exists_cons_of_ne_nil hx
  have hcons : l.stream = .byte x :: (bytes ys ++ rest) := h
  simp only [read, hcons]
  rw [← hcons, htake, hlen, hdrop]

/-- The bytes `xs` come next, then `rest`. -/
def Next (rest : List Item) (fuel : Nat) (xs : Bytes) (l : Line) : Prop :=
  l.stream = bytes xs ++ rest ∧ l.stream.length < fuel

theorem Next.length_lt {rest : List Item} {fuel : Nat} {xs : Bytes} {l : Line}
    (h : Next rest fuel xs l) : xs.length < fuel := by
  have hlen := h.2
  rw [h.1, List.length_append, length_bytes] at hlen
  omega

theorem read_next {rest : List Item} {fuel n : Nat} {xs : Bytes} {l : Line} (hn : 0 < n)
    (hx : xs ≠ []) (hle : n ≤ xs.length ∨ leading rest = []) (h : Next rest fuel xs l) :
    ∃ k l', 0 < k ∧ k ≤ n ∧ k ≤ xs.length ∧ read n l = .ret (xs.take k) l' ∧
      Next rest fuel (xs.drop k) l' ∧ l'.cut = l.cut ∧ l'.written = l.written := by
  obtain ⟨hstream, hlen⟩ := h
  obtain ⟨k, hk0, hkn, hkx, hrun⟩ := read_bytes hn hx hle hstream
  refine ⟨k, _, hk0, hkn, hkx, hrun, ⟨rfl, ?_⟩, rfl, rfl⟩
  rw [hstream, List.length_append, length_bytes] at hlen
  simp only [List.length_append, length_bytes, List.length_drop]
  omega

theorem comm_serves (rest : List Item) (fuel : Nat) : comm.Serves (Next rest fuel) where
  read _ xs _ hn hle h := by
    have hx : xs ≠ [] := List.length_pos_iff.mp (by omega)
    obtain ⟨k, l', hk0, hkn, -, hrun, hl', -⟩ := read_next hn hx (.inl hle) h
    exact ⟨k, l', hk0, hkn, hrun, hl'⟩
  writeAck _ _ l h := ⟨l, rfl, h⟩

/-- The line `l`, which raises a timeout after the bytes that come next. -/
theorem comm_timeout (l : Line) (items : List Item) (fuel : Nat) :
    Stops comm.read
      (fun xs l' => Next (.timeout :: items) fuel xs l' ∧ l'.cut = l.cut ∧ l'.written = l.written)
      (some (.timeout, { l with stream := items })) where
  deliver n xs l₁ hn hx := by
    rintro ⟨h, hcut, hwritten⟩
    obtain ⟨k, l₂, hk0, hkn, hkx, hrun, hl₂, hcut', hwritten'⟩ := read_next hn hx (.inr rfl) h
    exact ⟨k, l₂, hk0, hkn, hkx, hrun, hl₂, hcut'.trans hcut, hwritten'.trans hwritten⟩
  stop n l₁ _ := by
    rintro ⟨⟨hstream, -⟩, hcut, hwritten⟩
    simp only [comm, read, hstream, bytes_nil, List.nil_append, Prog.stopped, hcut, hwritten]

/-- A line that stays silent after the bytes that come next. -/
theorem comm_end (fuel : Nat) : Stops comm.read (Next [] fuel) none where
  deliver n xs l hn hx h := by
    obtain ⟨k, l', hk0, hkn, hkx, hrun, hl', -⟩ := read_next hn hx (.inr rfl) h
    exact ⟨k, l', hk0, hkn, hkx, hrun, hl'⟩
  stop n l _ h := by
    have hstream : l.stream = [] := h.1
    simp only [comm, read, hstream, Prog.stopped]

/-- A reader that has read everything waits for the next chunk. -/
theorem readChunk_end {fuel bound : Nat} (hb : bound ≤ fuel) {io : ChunkIo Line}
    (h : Next [] bound [] io.line) : readChunk comm fuel io = .hang := by
  have hR : ∀ xs s, Next [] bound xs s → xs.length < fuel := fun _ _ h =>
    Nat.lt_of_lt_of_le h.length_lt hb
  exact readChunk_stops (comm_end bound) hR ChunkComm.noGap_nil h

theorem next_reader {xs : Bytes} {fuel : Nat} (hfuel : xs.length < fuel) (cut : Nat → Nat) :
    Next [] fuel xs (reader (bytes xs) cut).line :=
  ⟨(List.append_nil _).symm, by simpa only [reader, length_bytes] using hfuel⟩

/-- The payloads of the frames come next. -/
theorem queue_reader {cs : List Chunk} {fuel : Nat} (hfuel : (wire cs).length < fuel)
    (cut : Nat → Nat) :
    Queue (Next [] fuel) fuel (payloads cs) (reader (bytes (wire cs)) cut) := by
  refine ⟨[], cs, ChunkComm.noGap_nil, fun _ => rfl, ?_, ?_, ?_⟩
  · rw [List.nil_append]
    exact next_reader hfuel cut
  · simpa [reader] using hfuel
  · simp [reader]

theorem comm_records : comm.Records fun xs l => l.written = xs where
  write xs s l h := ⟨{ l with written := l.written ++ s }, rfl, by simp [h]⟩
  flush xs l h := ⟨l, rfl, h⟩
  readAck l := rfl

end Line

open StrComm

/-- **Round trip.**  However the stream is fragmented, the reader returns the
strings that were written, in their order, and consumes the stream exactly. -/
theorem readStrs_writeStrs (ms : List Bytes) (hms : ∀ m ∈ ms, m.length < 10 ^ 11)
    (cut : Nat → Nat) :
    ∃ w, writeStrs Line.comm ms Line.writer = .ret () w ∧
      ∃ enough, ∀ fuel, enough ≤ fuel → ∃ io,
        readStrs Line.comm fuel ms.length (Line.reader (Line.bytes w.line.written) cut) =
          .ret ms io ∧ io.line.stream = [] ∧ io.sharedio.unread = [] := by
  obtain ⟨w, hw, hwire⟩ := writeStrs_wire Line.comm_records ms [] Line.writer rfl
  rw [List.nil_append] at hwire
  refine ⟨w, hw, w.line.written.length + 1, fun fuel hfuel => ?_⟩
  rw [hwire] at hfuel ⊢
  have hqueue := Line.queue_reader (show (wire (chunksOfStrs ms)).length < fuel by omega) cut
  rw [payloads_chunksOfStrs, ← List.append_nil (ms.flatMap encode)] at hqueue
  obtain ⟨io, hrun, hio⟩ := readStrs_encode (Line.comm_serves [] fuel)
    (fun _ _ h => h.length_lt) le_rfl hms hqueue
  obtain ⟨hunread, hnext⟩ := hio.nil
  exact ⟨io, hrun, hnext.1, hunread⟩

/-- The round trip of an empty string and of one that contains both tokens. -/
theorem readStrs_writeStrs_tokens :
    ∃ w, writeStrs Line.comm [[], StrComm.token ++ ChunkComm.token] Line.writer = .ret () w ∧
      ∃ enough, ∀ fuel, enough ≤ fuel → ∃ io,
        readStrs Line.comm fuel 2 (Line.reader (Line.bytes w.line.written) fun _ => 0) =
          .ret [[], StrComm.token ++ ChunkComm.token] io ∧
          io.line.stream = [] ∧ io.sharedio.unread = [] :=
  readStrs_writeStrs [[], StrComm.token ++ ChunkComm.token] (by decide) fun _ => 0

end InteractiveSessions
