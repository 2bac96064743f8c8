import InteractiveSessions.Lib.Triple
import InteractiveSessions.Line

/-!
# What leaves `read_str`

The handler of `read_str` knows `StrCommReadError` and `ChunkReaderError`.  A
length that is no number becomes a `StrCommReadError`, but a chunk size that is
no number stays a `ValueError`.

* `Sound`: the streams in which every attempt at a chunk has a size;
* `raised_iff_sound`: on those, and only on those, nothing but the exceptions of
  the transport leaves the calls of `read_str`.
-/

namespace InteractiveSessions

open ChunkComm StrComm

/-- The chunk reader finds a number for the size of each chunk, wherever the
timeouts make it start again. -/
inductive Sound : List Item → Prop
  | last {x} : Incomplete x → Sound (Line.bytes x)
  | timeout {x items} : Incomplete x → Sound items → Sound (Line.bytes x ++ .timeout :: items)
  | attempt {x v items} : Attempt x v → (∀ s, v ≠ .badSize s) → Sound items →
      Sound (Line.bytes x ++ items)

/-- The exceptions that leave at most `k` calls of `read_str`, one after the
other. -/
def StrComm.raised {τ : Type} (C : Comm τ) (fuel : Nat) : Nat → ChunkIo τ → List Exc
  | 0, _ => []
  | k + 1, io =>
    match readStr C fuel io with
    | .ret _ io' => raised C fuel k io'
    | .raised e io' => e :: raised C fuel k io'
    | .hang => []

namespace Line

/-- What is left of the stream and the buffer. -/
def left (io : ChunkIo Line) : Nat := io.line.stream.length + io.sharedio.unread.length

/-- Less than `k` is left, of a stream that is sound or not. -/
def At (sound : Prop) (k : Nat) (io : ChunkIo Line) : Prop :=
  (Sound io.line.stream ↔ sound) ∧ left io < k

/-- A `ValueError`, or an exception after which less than `k` is left. -/
def Fails (sound : Prop) (k : Nat) (e : Exc) (io : ChunkIo Line) : Prop :=
  (∃ s, e = .valueError s) ∧ ¬ sound ∨ (∀ s, e ≠ .valueError s) ∧ At sound k io

theorem not_at_zero {sound : Prop} (io : ChunkIo Line) : ¬ At sound 0 io := fun h =>
  Nat.not_lt_zero _ h.2

theorem At.mono {sound : Prop} {j k : Nat} (hjk : j ≤ k) {io : ChunkIo Line} (h : At sound j io) :
    At sound k io := ⟨h.1, Nat.lt_of_lt_of_le h.2 hjk⟩

theorem Fails.mono {sound : Prop} {j k : Nat} (hjk : j ≤ k) {e : Exc} {io : ChunkIo Line}
    (h : Fails sound j e io) : Fails sound k e io :=
  h.imp_right fun h => ⟨h.1, h.2.mono hjk⟩

/-! ## One chunk -/

/-- A stream begins with an attempt, or its bytes before the next timeout or
before its end are incomplete. -/
theorem attempt_or_incomplete (stream : List Item) :
    (∃ x v items, stream = bytes x ++ items ∧ Attempt x v) ∨
      (∃ x items, stream = bytes x ++ .timeout :: items ∧ Incomplete x) ∨
      ∃ x, stream = bytes x ∧ Incomplete x := by
  obtain ⟨xs, tail, rfl, htail⟩ := exists_leading stream
  rcases incomplete_or_attempt xs with hxs | ⟨x, v, rest, rfl, hx⟩
  · cases tail with
    | nil => exact .inr (.inr ⟨xs, List.append_nil _, hxs⟩)
    | cons item items =>
      cases item with
      | byte b => cases htail
      | timeout => exact .inr (.inl ⟨xs, items, rfl, hxs⟩)
  · exact .inl ⟨x, v, bytes rest ++ tail, by rw [bytes_append, List.append_assoc], hx⟩

section
variable {fuel : Nat} {io : ChunkIo Line}

theorem readChunk_front {x : Bytes} {v : Verdict} {items : List Item} (hx : Attempt x v)
    (hs : io.line.stream = bytes x ++ items) (hfuel : io.line.stream.length < fuel) :
    ∃ t, t.stream = items ∧ readChunk comm fuel io = v.outcome io.sharedio t := by
  have hnext : Next items fuel (x ++ []) io.line := ⟨by rw [List.append_nil, hs], hfuel⟩
  obtain ⟨t, ht, hrun⟩ := readChunk_attempt (comm_serves items fuel) (fun _ _ h => h.length_lt)
    hx hnext
  exact ⟨t, ht.1, hrun⟩

theorem readChunk_timeout {x : Bytes} {items : List Item} (hx : Incomplete x)
    (hs : io.line.stream = bytes x ++ .timeout :: items) (hfuel : io.line.stream.length < fuel) :
    ∃ io', readChunk comm fuel io = .raised .timeout io' ∧ io'.line.stream = items ∧
      left io' < left io := by
  have hstops := comm_timeout io.line items fuel
  have hR : ∀ xs s, Next (.timeout :: items) fuel xs s ∧ s.cut = io.line.cut ∧
      s.written = io.line.written → xs.length < fuel := fun _ _ h => h.1.length_lt
  have hnext : Next (.timeout :: items) fuel x io.line ∧ io.line.cut = io.line.cut ∧
      io.line.written = io.line.written := ⟨⟨hs, hfuel⟩, rfl, rfl⟩
  obtain ⟨sharedio, hrun, hcases⟩ :=
    readChunk_incomplete hstops.delivers hR (hstops.ends hR) hx hnext
  refine ⟨⟨{ io.line with stream := items }, sharedio⟩, hrun, rfl, ?_⟩
  simp only [left, hs, List.length_append, length_bytes, List.length_cons]
  rcases hcases with rfl | ⟨d, hd, rfl⟩
  · omega
  · rw [SharedBytesIo.unread_write, List.length_append]
    omega

theorem readChunk_last {x : Bytes} (hx : Incomplete x) (hs : io.line.stream = bytes x)
    (hfuel : io.line.stream.length < fuel) : readChunk comm fuel io = .hang := by
  have hR : ∀ xs s, Next [] fuel xs s → xs.length < fuel := fun _ _ h => h.length_lt
  have hstops := comm_end fuel
  have hnext : Next [] fuel x io.line := ⟨hs.trans (List.append_nil _).symm, hfuel⟩
  obtain ⟨sharedio, hrun, -⟩ := readChunk_incomplete hstops.delivers hR (hstops.ends hR) hx hnext
  exact hrun

/-- After an attempt the stream is as sound as what is left of it. -/
theorem outcome_settles {sound : Prop} {k : Nat} {x : Bytes} {v : Verdict} {items : List Item}
    (hx : Attempt x v) (hs : io.line.stream = bytes x ++ items) (hlt : left io < k + 1)
    (hsound : (∀ s, v ≠ .badSize s) → (Sound items ↔ sound)) (hbad : ∀ s, v = .badSize s → ¬ sound)
    {t : Line} (ht : t.stream = items) :
    Prog.Meets sound (fun _ => At sound k) (Fails sound k) (v.outcome io.sharedio t) := by
  have hkept := hx.length_kept_lt
  simp only [left, hs, List.length_append, length_bytes] at hlt
  cases v with
  | chunk d =>
    have hd : d.length < x.length := hkept
    refine ⟨?_, ?_⟩
    · rw [ht]
      exact hsound fun s => Verdict.noConfusion
    · simp only [left, ht, SharedBytesIo.unread_write, List.length_append]
      omega
  | badHdr =>
    refine .inr ⟨fun s => Exc.noConfusion, ?_, ?_⟩
    · rw [ht]
      exact hsound fun s => Verdict.noConfusion
    · simp only [left, ht]
      omega
  | mismatch d =>
    have hd : d.length < x.length := hkept
    refine .inr ⟨fun s => Exc.noConfusion, ?_, ?_⟩
    · rw [ht]
      exact hsound fun s => Verdict.noConfusion
    · simp only [left, ht, SharedBytesIo.unread_write, List.length_append]
      omega
  | badSize s => exact .inl ⟨⟨s, rfl⟩, hbad s rfl⟩

/-- **One chunk.**  The reader waits for ever only on a sound stream, and raises
`ValueError` only on an unsound one. -/
theorem settles_readChunk (sound : Prop) {k : Nat} (hk : k < fuel) :
    Prog.Settles sound (At sound (k + 1)) (readChunk comm fuel) (fun _ => At sound k)
      (Fails sound k) := by
  rintro io ⟨hiff, hlt⟩
  have hfuel : io.line.stream.length < fuel := by
    rw [left] at hlt
    omega
  have hattempt : ∀ {x v items}, io.line.stream = bytes x ++ items → Attempt x v →
      ((∀ s, v ≠ .badSize s) → (Sound items ↔ sound)) → (∀ s, v = .badSize s → ¬ sound) →
      Prog.Meets sound (fun _ => At sound k) (Fails sound k) (readChunk comm fuel io) := by
    intro x v items hs hx hsound hbad
    obtain ⟨t, ht, hrun⟩ := readChunk_front hx hs hfuel
    rw [hrun]
    exact outcome_settles hx hs hlt hsound hbad ht
  have htimeout : ∀ {x items}, io.line.stream = bytes x ++ .timeout :: items → Incomplete x →
      (Sound items ↔ sound) →
      Prog.Meets sound (fun _ => At sound k) (Fails sound k) (readChunk comm fuel io) := by
    intro x items hs hx hsound
    obtain ⟨io', hrun, hstream, hless⟩ := readChunk_timeout hx hs hfuel
    rw [hrun]
    exact .inr ⟨fun s => Exc.noConfusion, by rwa [hstream], by omega⟩
  by_cases hs : Sound io.line.stream
  · have hsound : sound := hiff.mp hs
    generalize hstream : io.line.stream = stream at hs
    cases hs with
    | last hx =>
      rw [readChunk_last hx hstream hfuel]
      exact hsound
    | timeout hx hitems => exact htimeout hstream hx (iff_of_true hitems hsound)
    | attempt hx hv hitems =>
      exact hattempt hstream hx (fun _ => iff_of_true hitems hsound) fun s h => absurd h (hv s)
  · have hunsound : ¬ sound := fun h => hs (hiff.mpr h)
    rcases attempt_or_incomplete io.line.stream with
      ⟨x, v, items, hstream, hx⟩ | ⟨x, items, hstream, hx⟩ | ⟨x, hstream, hx⟩
    · refine hattempt hstream hx (fun hv => iff_of_false (fun hitems => hs ?_) hunsound)
        fun _ _ => hunsound
      rw [hstream]
      exact .attempt hx hv hitems
    · refine htimeout hstream hx (iff_of_false (fun hitems => hs ?_) hunsound)
      rw [hstream]
      exact .timeout hx hitems
    · refine absurd ?_ hs
      rw [hstream]
      exact .last hx

/-! ## The calls above it -/

theorem settles_readUntilSize (sound : Prop) (n : Int) {k : Nat} (hk : k ≤ fuel) :
    Prog.Settles sound (At sound k) (readUntilSize comm fuel n)
      (fun _ => At sound (k - n.toNat)) (Fails sound (k - 1)) := by
  have hloop : ∀ loops k, k ≤ loops → k ≤ fuel →
      Prog.Settles sound (At sound k) (readLoop comm fuel loops n)
        (fun _ => At sound (k - n.toNat)) (Fails sound (k - 1)) := by
    intro loops
    induction loops with
    | zero =>
      intro k hk _
      obtain rfl : k = 0 := by omega
      exact Prog.settles_of_false not_at_zero
    | succ loops ih =>
      intro k hk hfuel io hio
      obtain ⟨j, rfl⟩ : ∃ j, k = j + 1 :=
        ⟨k - 1, by have := hio.2; omega⟩
      rw [readLoop_succ]
      split
      · refine ((settles_readChunk sound (by omega)).bind fun _ => ?_) io hio
        exact (ih j (by omega) (by omega)).mono (fun _ h => h) (fun _ _ h => h.mono (by omega))
          fun _ _ h => h.mono (by omega)
      · refine ⟨hio.1, ?_⟩
        have hlt := hio.2
        simp only [left, SharedBytesIo.unread_read] at hlt ⊢
        split
        · rw [List.length_nil]
          omega
        · rw [List.length_drop]
          omega
  exact hloop fuel k hk hk

theorem settles_readUntilToken (sound : Prop) {k : Nat} (hk : k < fuel) :
    Prog.Settles sound (At sound (k + 1)) (readUntilToken comm fuel) (fun _ => At sound k)
      (Fails sound k) := by
  have hread : ∀ j n, j < k + 1 → 0 < n → Prog.Settles sound (At sound (j + 1))
      (readUntilSize comm fuel (n : Nat)) (fun _ => At sound j) (Fails sound k) := by
    intro j n hj hn
    exact (settles_readUntilSize sound n (by omega)).mono (fun _ h => h)
      (fun _ _ h => h.mono (by omega)) fun _ _ h => h.mono (by omega)
  exact TokenReader.settles_readUntilToken not_at_zero (fun k _ h => h.mono (Nat.le_succ k)) hread
    StrComm.token_ne_nil hk (Nat.lt_succ_self k)

theorem settles_getReadLen (sound : Prop) {k : Nat} (hk : k < fuel) :
    Prog.Settles sound (At sound (k + 1)) (getReadLen comm fuel) (fun _ => At sound k)
      (Fails sound k) := by
  refine ((settles_readUntilSize sound StrComm.lenWidth (by omega)).mono (fun _ h => h)
    (fun _ _ h => h) fun _ _ h => h).bind fun lenStr => ?_
  have hwidth : k + 1 - (StrComm.lenWidth : Int).toNat ≤ k := by
    rw [show StrComm.lenWidth = 11 from rfl]
    omega
  cases Decimal.parseInt lenStr with
  | some n => exact fun _ h => h.mono hwidth
  | none => exact fun _ h => .inr ⟨fun _ => Exc.noConfusion, h.mono hwidth⟩

theorem settles_tryReadStr (sound : Prop) {k : Nat} (hk : k < fuel) :
    Prog.Settles sound (At sound (k + 1)) (tryReadStr comm fuel) (fun _ => At sound k)
      (Fails sound k) := by
  refine (settles_readUntilToken sound hk).bind fun _ => ?_
  cases k with
  | zero => exact Prog.settles_of_false not_at_zero
  | succ k =>
    refine ((settles_getReadLen sound (by omega)).mono (fun _ h => h) (fun _ _ h => h)
      fun _ _ h => h.mono (Nat.le_succ k)).bind fun n => ?_
    exact (settles_readUntilSize sound n (by omega)).mono (fun _ h => h)
      (fun _ _ h => h.mono (by omega)) fun _ _ h => h.mono (by omega)

/-- What leaves `read_str`. -/
def Leaves (sound : Prop) (k : Nat) (e : Exc) (io : ChunkIo Line) : Prop :=
  (∃ s, e = .valueError s) ∧ ¬ sound ∨ e = .timeout ∧ At sound k io

theorem Leaves.mono {sound : Prop} {j k : Nat} (hjk : j ≤ k) {e : Exc} {io : ChunkIo Line}
    (h : Leaves sound j e io) : Leaves sound k e io :=
  h.imp_right fun h => ⟨h.1, h.2.mono hjk⟩

theorem Fails.leaves {sound : Prop} {k : Nat} {e : Exc} {io : ChunkIo Line}
    (h : Fails sound k e io) (hcaught : e ≠ .strCommReadError ∧ e.isChunkReaderError = false) :
    Leaves sound k e io := by
  refine h.imp_right fun ⟨hvalue, hat⟩ => ⟨?_, hat⟩
  cases e with
  | timeout => rfl
  | valueError s => exact absurd rfl (hvalue s)
  | strCommReadError => exact absurd rfl hcaught.1
  | bufferError _ => cases hcaught.2
  | chunkIdError _ _ => cases hcaught.2
  | deserializeError _ => cases hcaught.2

theorem Fails.again {sound : Prop} {k : Nat} {e : Exc} {io : ChunkIo Line}
    (h : Fails sound k e io) (hcaught : e = .strCommReadError ∨ e.isChunkReaderError = true) :
    At sound k io := by
  rcases h with ⟨⟨s, rfl⟩, -⟩ | ⟨-, hat⟩
  · rcases hcaught with hcaught | hcaught <;> cases hcaught
  · exact hat

/-- **A call of `read_str`.** -/
theorem settles_readStr (sound : Prop) {k : Nat} (hk : k < fuel) :
    Prog.Settles sound (At sound (k + 1)) (readStr comm fuel) (fun _ => At sound k)
      (Leaves sound k) := by
  have hloop : ∀ loops k, k < loops → k < fuel →
      Prog.Settles sound (At sound (k + 1)) (readStrLoop comm fuel loops) (fun _ => At sound k)
        (Leaves sound k) := by
    intro loops
    induction loops with
    | zero =>
      intro k hk
      omega
    | succ loops ih =>
      intro k hk hfuel
      refine (settles_tryReadStr sound hfuel).tryExcept (fun e prog hprog => ?_)
        fun e io hnone h => ?_
      · split at hprog
        · next hcaught =>
          cases hprog
          cases k with
          | zero =>
            refine Prog.settles_of_false fun io h => not_at_zero io (h.again ?_)
            simpa using hcaught
          | succ k =>
            exact (ih k (by omega) (by omega)).mono (fun _ h => h.again (by simpa using hcaught))
              (fun _ _ h => h.mono (Nat.le_succ k)) fun _ _ h => h.mono (Nat.le_succ k)
        · cases hprog
      · split at hnone
        · cases hnone
        · next hcaught => exact h.leaves (by simpa using hcaught)
  exact hloop fuel k hk hk

/-- On a sound stream only timeouts leave the calls. -/
theorem raised_of_sound {sound : Prop} (hsound : sound) {k : Nat} (hk : k < fuel) (calls : Nat)
    (h : At sound (k + 1) io) : ∀ e ∈ raised comm fuel calls io, e = .timeout := by
  induction calls generalizing io with
  | zero => exact fun e he => absurd he List.not_mem_nil
  | succ calls ih =>
    have hsettles := settles_readStr sound hk io h
    rw [raised]
    cases hrun : readStr comm fuel io with
    | ret s io' =>
      rw [hrun] at hsettles
      exact ih (hsettles.mono (Nat.le_succ k))
    | raised e io' =>
      rw [hrun] at hsettles
      rcases hsettles with ⟨-, hno⟩ | ⟨rfl, hat⟩
      · exact absurd hsound hno
      · rintro e (- | ⟨-, he⟩)
        · rfl
        · exact ih (hat.mono (Nat.le_succ k)) e he
    | hang => exact fun e he => absurd he List.not_mem_nil

/-- On an unsound stream a `ValueError` leaves one of the calls. -/
theorem raised_of_unsound {k : Nat} (hk : k ≤ fuel) (h : At False k io) :
    ∃ calls s, .valueError s ∈ raised comm fuel calls io := by
  induction k generalizing io with
  | zero => exact absurd h (not_at_zero io)
  | succ k ih =>
    have hsettles := settles_readStr False hk io h
    cases hrun : readStr comm fuel io with
    | ret s io' =>
      rw [hrun] at hsettles
      obtain ⟨calls, s, hs⟩ := ih (by omega) hsettles
      exact ⟨calls + 1, s, by rwa [raised, hrun]⟩
    | raised e io' =>
      rw [hrun] at hsettles
      rcases hsettles with ⟨⟨s, rfl⟩, -⟩ | ⟨rfl, hat⟩
      · exact ⟨1, s, by rw [raised, hrun]; exact List.mem_cons_self ..⟩
      · obtain ⟨calls, s, hs⟩ := ih (by omega) hat
        exact ⟨calls + 1, s, by rw [raised, hrun]; exact List.mem_cons_of_mem _ hs⟩
    | hang =>
      rw [hrun] at hsettles
      exact absurd hsettles id

/-- The size of the first chunk is no number. -/
theorem readStr_badSize {x s : Bytes} {items : List Item} (hx : Attempt x (.badSize s))
    (hs : io.line.stream = bytes x ++ items) (hunread : io.sharedio.unread = [])
    (hfuel : io.line.stream.length < fuel) :
    ∃ io', readStr comm fuel io = .raised (.valueError s) io' := by
  obtain ⟨t, -, hrun⟩ := readChunk_front hx hs hfuel
  have hstopped : readChunk comm fuel io =
      Prog.stopped (some (.valueError s, ⟨t, io.sharedio⟩)) := hrun
  have hsize : readUntilSize comm fuel StrComm.token.length io =
      Prog.stopped (some (.valueError s, ⟨t, io.sharedio⟩)) :=
    readUntilSize_stopped (by omega) (by rw [hunread]; decide) hstopped
  have htoken : readUntilToken comm fuel io = Prog.stopped _ :=
    TokenReader.readUntilToken_first StrComm.token_ne_nil (by omega) hsize
  obtain ⟨loops, rfl⟩ : ∃ n, fuel = n + 1 := ⟨fuel - 1, by omega⟩
  exact ⟨⟨t, io.sharedio⟩, Prog.tryExcept_uncaught (Prog.bind_raised htoken) rfl⟩

end

end Line

/-- **What leaves `read_str`.**  Only the exceptions of the transport do, exactly
when the stream is sound. -/
theorem raised_iff_sound (stream : List Item) (cut : Nat → Nat) :
    (∃ enough, ∀ fuel, enough ≤ fuel → ∀ calls,
      ∀ e ∈ raised Line.comm fuel calls (Line.reader stream cut), e = .timeout) ↔ Sound stream := by
  have hleft : Line.left (Line.reader stream cut) = stream.length := rfl
  constructor
  · rintro ⟨enough, h⟩
    by_contra hno
    have hat : Line.At False (stream.length + 1) (Line.reader stream cut) :=
      ⟨iff_of_false hno id, by omega⟩
    have hle : stream.length + 1 ≤ enough + stream.length + 1 := by omega
    obtain ⟨calls, s, hs⟩ := Line.raised_of_unsound hle hat
    cases h _ (by omega) calls _ hs
  · intro hsound
    refine ⟨stream.length + 1, fun fuel hfuel calls => ?_⟩
    exact Line.raised_of_sound trivial (k := stream.length) (by omega) calls
      ⟨iff_of_true hsound trivial, by omega⟩

/-- A stream of nothing but an attempt without a size. -/
theorem raised_of_badSize {x s : Bytes} (hx : Attempt x (.badSize s)) (cut : Nat → Nat)
    {fuel : Nat} (hfuel : x.length < fuel) :
    .valueError s ∈ raised Line.comm fuel 1 (Line.reader (Line.bytes x) cut) := by
  have hs : (Line.reader (Line.bytes x) cut).line.stream = Line.bytes x ++ [] :=
    (List.append_nil _).symm
  obtain ⟨io', hrun⟩ := Line.readStr_badSize hx hs rfl
    (by rwa [hs, List.append_nil, Line.length_bytes])
  rw [raised, hrun]
  exact List.mem_cons_self ..

/-- The header `0000xxxx`. -/
theorem raised_badSize :
    ¬ ∃ enough, ∀ fuel, enough ≤ fuel → ∀ calls,
      ∀ e ∈ raised Line.comm fuel calls (Line.reader (Line.bytes
        (ChunkComm.token ++ ascii "0000xxxx" ++ ChunkComm.token)) fun _ => 0), e = .timeout := by
  rintro ⟨enough, h⟩
  have hheaded : Headed (ChunkComm.token ++ ascii "0000xxxx" ++ ChunkComm.token)
      (ascii "0000xxxx") :=
    .intro (.intro shortest_token (by decide)) shortest_token returned_token
  have hmem := raised_of_badSize (Attempt.badSize hheaded (by decide)) (fun _ => 0)
    (Nat.lt_of_lt_of_le (by decide) (Nat.le_add_left 49 enough))
  cases h (enough + 49) (by omega) 1 _ hmem

end InteractiveSessions
