import InteractiveSessions.ChunkErrors
import InteractiveSessions.Line

/-!
# Rubbish in the stream of a chunk reader

Whatever else prints to the terminal appears between the bytes of the frames.

* `readUntilSize_noisy`: bytes that are not in the token may stand before and
  after each frame and in one place in each token, and nothing is lost;
* `readUntilSize_intrusion`: bytes in a header or in a payload are noticed,
  unless what they push out of it looks like the token.
-/

namespace InteractiveSessions

open GapToken TokenReader

namespace ChunkComm

/-! ## Rubbish around the frames and in the tokens -/

/-- Rubbish with no byte of the token. -/
def Clean (xs : Bytes) : Prop := ∀ x ∈ xs, x ∉ token

/-- Rubbish in a token, after its first `pos` bytes. -/
structure Gap where
  pos : Nat
  text : Bytes
  pos_pos : 1 ≤ pos
  pos_lt : pos < token.length
  clean : Clean text

def Gap.brokenToken (g : Gap) : Bytes :=
  token.take g.pos ++ (g.text ++ token.drop g.pos)

/-- The rubbish before a frame and in its tokens. -/
structure Noise where
  before : Bytes
  clean : Clean before
  leading : Gap
  middle : Gap
  trailing : Gap

/-- The frame of a chunk with the rubbish before it and in it. -/
def Noise.frame (n : Noise) (c : Chunk) : Bytes :=
  n.before ++ n.leading.brokenToken ++ hdr c.id c.payload.length ++ n.middle.brokenToken ++
    c.payload ++ n.trailing.brokenToken

/-- The frames of the chunks, the `i`-th with the rubbish `noise i`. -/
def noisyWire (noise : Nat → Noise) : List Chunk → Bytes
  | [] => []
  | c :: cs => (noise 0).frame c ++ noisyWire (fun i => noise (i + 1)) cs

def Gap.none : Gap := ⟨1, [], le_rfl, by decide, by simp [Clean]⟩

def Noise.none : Noise := ⟨[], by simp [Clean], .none, .none, .none⟩

theorem Gap.brokenToken_none : Gap.none.brokenToken = token := by decide

theorem Noise.frame_none (c : Chunk) : Noise.none.frame c = c.frame := by
  rw [Noise.frame, Chunk.frame, bytesForChunkWithToken]
  simp only [Noise.none, Gap.brokenToken_none, List.nil_append]

/-- Without rubbish the frames are as they were written. -/
theorem noisyWire_none (cs : List Chunk) : noisyWire (fun _ => .none) cs = wire cs := by
  induction cs with
  | nil => rfl
  | cons c cs ih => rw [noisyWire, Noise.frame_none, ih, wire_cons]

theorem Gap.shortest (g : Gap) {w : Bytes} (hw : Clean w) :
    Shortest token (w ++ g.brokenToken) :=
  shortest_gap token_nodup g.pos_pos g.pos_lt hw g.clean

theorem Clean.nil : Clean [] := by simp [Clean]

theorem token_eq_cons : token = caret :: token.tail := by decide

theorem caret_notMem_tail : caret ∉ token.tail := by decide

theorem Gap.shortest_brokenToken (g : Gap) : Shortest token g.brokenToken := by
  simpa only [List.nil_append] using g.shortest .nil

theorem Gap.brokenToken_cons (g : Gap) : ∃ v, g.brokenToken = caret :: v ∧ caret ∉ v := by
  obtain ⟨k, hk⟩ : ∃ k, g.pos = k + 1 := ⟨g.pos - 1, by have := g.pos_pos; omega⟩
  refine ⟨token.tail.take k ++ (g.text ++ token.tail.drop k), ?_, ?_⟩
  · rw [Gap.brokenToken, token_eq_cons, hk, List.take_succ_cons, List.drop_succ_cons,
      List.tail_cons]
    rfl
  · simp only [List.mem_append, not_or]
    exact ⟨fun h => caret_notMem_tail (List.mem_of_mem_take h),
      fun h => g.clean _ h caret_mem_token,
      fun h => caret_notMem_tail (List.mem_of_mem_drop h)⟩

/-- A token with a gap starts at its first byte. -/
theorem Gap.returned (g : Gap) : Returned token g.brokenToken [] := by
  obtain ⟨u, hret⟩ := exists_returned g.shortest_brokenToken
  obtain ⟨v, hcons, hv⟩ := g.brokenToken_cons
  have hu : u = [] := by
    rw [hcons, ← List.nil_append (caret :: v)] at hret
    exact hret.eq_of_head (by decide) List.not_mem_nil hv
  rwa [hu] at hret

theorem Chunk.parseInt_hdr (c : Chunk) :
    Decimal.parseInt ((hdr c.id c.payload.length).drop chunkIdWidth) =
      some (c.payload.length : Int) := by
  rw [hdr_drop c.id_lt]
  exact Decimal.parseInt_format (by decide) c.length_payload_lt

/-- A frame with rubbish in it is an attempt that succeeds. -/
theorem Noise.attempt (n : Noise) (c : Chunk) : Attempt (n.frame c) (.chunk c.payload) := by
  have hlen := c.length_payload_lt
  have hopened : Opened (n.before ++ n.leading.brokenToken ++ hdr c.id c.payload.length)
      (hdr c.id c.payload.length) :=
    .intro (n.leading.shortest n.clean) (hdr_length c.id_lt hlen)
  have hheaded := Headed.intro hopened n.middle.shortest_brokenToken n.middle.returned
  exact .chunk (.intro hheaded c.parseInt_hdr (Int.toNat_natCast _).symm)
    n.trailing.shortest_brokenToken n.trailing.returned

theorem length_le_noisyWire (noise : Nat → Noise) (cs : List Chunk) :
    cs.length ≤ (noisyWire noise cs).length := by
  induction cs generalizing noise with
  | nil => exact Nat.zero_le _
  | cons c cs ih =>
    have hlt := ((noise 0).attempt c).length_kept_lt
    have hle := ih fun i => noise (i + 1)
    rw [noisyWire, List.length_append, List.length_cons]
    omega

/-! ## Reading on -/

section
variable {τ : Type} {C : Comm τ} {R : Bytes → τ → Prop} {fuel : Nat}

theorem readLoop_chunk (hC : C.Serves R) (hR : ∀ xs s, R xs s → xs.length < fuel) {n : Nat}
    {x d rest : Bytes} (hx : Attempt x (.chunk d)) {io : ChunkIo τ}
    (hlt : io.sharedio.unread.length < n) (hs : R (x ++ rest) io.line) (loops : Nat) :
    ∃ t, R rest t ∧
      readLoop C fuel (loops + 1) n io = readLoop C fuel loops n ⟨t, io.sharedio.write d⟩ := by
  obtain ⟨t, ht, hrun⟩ := readChunk_attempt hC hR hx hs
  refine ⟨t, ht, ?_⟩
  rw [readLoop_more hlt, Prog.bind_ret hrun]

/-- The loop takes the payloads of the frames out of the rubbish. -/
theorem readLoop_noisy (hC : C.Serves R) (hR : ∀ xs s, R xs s → xs.length < fuel) {n : Nat}
    {rest : Bytes} (cs : List Chunk) (noise : Nat → Noise) (loops : Nat) (io : ChunkIo τ)
    (hle : io.sharedio.unread.length + (payloads cs).length ≤ n)
    (hs : R (noisyWire noise cs ++ rest) io.line) :
    ∃ io₁, R rest io₁.line ∧ io₁.sharedio.unread = io.sharedio.unread ++ payloads cs ∧
      readLoop C fuel (loops + cs.length) n io = readLoop C fuel loops n io₁ := by
  induction cs generalizing noise io with
  | nil => exact ⟨io, hs, by rw [payloads_nil, List.append_nil], rfl⟩
  | cons c cs ih =>
    have hpos : 0 < c.payload.length := List.length_pos_iff.mpr c.payload_ne
    rw [payloads_cons, List.length_append] at hle
    rw [noisyWire, List.append_assoc] at hs
    obtain ⟨t, ht, hrun⟩ := readLoop_chunk hC hR ((noise 0).attempt c)
      (n := n) (by omega) hs (loops + cs.length)
    obtain ⟨io₁, hio₁, hunread, hrest⟩ := ih (fun i => noise (i + 1))
      ⟨t, io.sharedio.write c.payload⟩ (by
        rw [SharedBytesIo.unread_write, List.length_append]
        omega) ht
    refine ⟨io₁, hio₁, ?_, ?_⟩
    · rw [hunread, SharedBytesIo.unread_write, payloads_cons, List.append_assoc]
    · rw [List.length_cons, ← Nat.add_assoc, hrun, hrest]

end

end ChunkComm

open ChunkComm

/-- **Rubbish around the frames and in their tokens.**  With no byte of the
token in it, it does not keep the reader from the string that was written. -/
theorem readUntilSize_noisy (s : Bytes) (noise : Nat → Noise) (after : Bytes) (cut : Nat → Nat) :
    ∃ w, ChunkComm.write Line.comm s Line.writer.line = .ret () w ∧
      w.written = wire (chunksOf s) ∧
      ∃ enough, ∀ fuel, enough ≤ fuel → ∃ io,
        readUntilSize Line.comm fuel s.length
          (Line.reader (Line.bytes (noisyWire noise (chunksOf s) ++ after)) cut) = .ret s io := by
  have hwriter : Line.writer.line.written = [] := rfl
  obtain ⟨w, hw, hwire⟩ := write_wire Line.comm_records s hwriter
  refine ⟨w, hw, hwire, (noisyWire noise (chunksOf s) ++ after).length + 1, fun fuel hfuel => ?_⟩
  let io := Line.reader (Line.bytes (noisyWire noise (chunksOf s) ++ after)) cut
  have hnext : Line.Next [] fuel (noisyWire noise (chunksOf s) ++ after) io.line :=
    Line.next_reader (Nat.lt_of_succ_le hfuel) cut
  have hpayloads : io.sharedio.unread ++ payloads (chunksOf s) = s := by
    rw [payloads_chunksOf, show io.sharedio.unread = [] from SharedBytesIo.unread_new,
      List.nil_append]
  have hle := length_le_noisyWire noise (chunksOf s)
  rw [List.length_append] at hfuel
  obtain ⟨loops, hloops⟩ : ∃ n, fuel = n + 1 + (chunksOf s).length :=
    ⟨fuel - 1 - (chunksOf s).length, by omega⟩
  obtain ⟨io₁, -, hunread, hrun⟩ := readLoop_noisy (Line.comm_serves [] fuel)
    (fun _ _ h => h.length_lt) (n := s.length) (chunksOf s) noise (loops + 1) io
    (by rw [← List.length_append, hpayloads]) hnext
  rw [hpayloads] at hunread
  refine ⟨⟨io₁.line, (io₁.sharedio.read s.length).2⟩, ?_⟩
  rw [← hloops] at hrun
  rw [readUntilSize, hrun, readLoop_enough (by rw [hunread]), hunread, List.take_length]

/-! ## Rubbish in a header or in a payload -/

namespace ChunkComm

inductive Field where
  | header
  | payload
  deriving DecidableEq

def Field.bytes : Field → Chunk → Bytes
  | header, c => hdr c.id c.payload.length
  | payload, c => c.payload

/-- Rubbish inside the header or inside the payload of one of the chunks of `s`. -/
structure Intrusion (s : Bytes) where
  before : List Chunk
  chunk : Chunk
  after : List Chunk
  split : chunksOf s = before ++ chunk :: after
  field : Field
  pos : Nat
  rubbish : Bytes
  pos_pos : 0 < pos
  pos_lt : pos < (field.bytes chunk).length
  rubbish_ne : rubbish ≠ []

namespace Intrusion

variable {s : Bytes} (d : Intrusion s)

/-- The field with the rubbish in it. -/
def damaged : Bytes :=
  (d.field.bytes d.chunk).take d.pos ++ d.rubbish ++ (d.field.bytes d.chunk).drop d.pos

/-- What of it stands after the place where the field ends. -/
def displaced : Bytes := d.damaged.drop (d.field.bytes d.chunk).length

/-- The frame with the rubbish in it. -/
def frame : Bytes :=
  match d.field with
  | .header => token ++ d.damaged ++ token ++ d.chunk.payload ++ token
  | .payload => token ++ hdr d.chunk.id d.chunk.payload.length ++ token ++ d.damaged ++ token

def stream : Bytes := wire d.before ++ d.frame ++ wire d.after

theorem length_damaged :
    d.damaged.length = (d.field.bytes d.chunk).length + d.rubbish.length := by
  have := d.pos_lt
  simp only [damaged, List.length_append, List.length_take, List.length_drop]
  omega

theorem length_displaced : d.displaced.length = d.rubbish.length := by
  rw [displaced, List.length_drop, length_damaged, Nat.add_sub_cancel_left]

theorem displaced_ne : d.displaced ≠ [] := by
  intro h
  have := d.length_displaced
  rw [h, List.length_nil, eq_comm, List.length_eq_zero_iff] at this
  exact d.rubbish_ne this

/-- What the reader takes for the field. -/
def taken : Bytes := d.damaged.take (d.field.bytes d.chunk).length

theorem length_taken : d.taken.length = (d.field.bytes d.chunk).length := by
  rw [taken, List.length_take, length_damaged]
  omega

theorem taken_append_displaced : d.taken ++ d.displaced = d.damaged :=
  List.take_append_drop ..

/-- What the reader makes of the frame. -/
def verdict : Verdict :=
  match d.field with
  | .header => .badHdr
  | .payload => .mismatch d.taken

/-- The displaced bytes stand where the token is expected. -/
theorem attempt (h : NoGap token d.displaced) :
    ∃ x rest, d.frame = x ++ rest ∧ Attempt x d.verdict := by
  have hshort : Shortest token (d.displaced ++ token) := shortest_append token_nodup token_ne_nil h
  have hret : Returned token (d.displaced ++ token) d.displaced := by
    obtain ⟨u, hu⟩ := exists_returned hshort
    rwa [hu.eq_of_append hshort] at hu
  have hlen := d.chunk.length_payload_lt
  have htaken := d.length_taken
  rw [frame, verdict, ← d.taken_append_displaced]
  cases hfield : d.field with
  | header =>
    rw [hfield, Field.bytes, hdr_length d.chunk.id_lt hlen] at htaken
    refine ⟨token ++ d.taken ++ (d.displaced ++ token), d.chunk.payload ++ token, ?_, ?_⟩
    · simp only [List.append_assoc]
    · exact .badHdr (.intro shortest_token htaken) hshort hret d.displaced_ne
  | payload =>
    rw [hfield, Field.bytes] at htaken
    refine ⟨token ++ hdr d.chunk.id d.chunk.payload.length ++ token ++ d.taken ++
      (d.displaced ++ token), [], ?_, ?_⟩
    · simp only [List.append_assoc, List.append_nil]
    · have hopened := Opened.intro shortest_token (hdr_length d.chunk.id_lt hlen)
      have hheaded := Headed.intro hopened shortest_token returned_token
      refine .mismatch (.intro hheaded d.chunk.parseInt_hdr ?_) hshort hret d.displaced_ne
      rw [htaken, Int.toNat_natCast]

theorem outcome_verdict {τ : Type} (sharedio : SharedBytesIo) (t : τ) :
    ∃ buffer io, d.verdict.outcome sharedio t = .raised (.bufferError buffer) io := by
  rw [verdict]
  cases d.field with
  | header => exact ⟨_, _, rfl⟩
  | payload => exact ⟨_, _, rfl⟩

theorem length_payloads_before_lt : (payloads d.before).length < s.length := by
  have hpos : 0 < d.chunk.payload.length := List.length_pos_iff.mpr d.chunk.payload_ne
  have hs := congrArg List.length (payloads_chunksOf s)
  rw [d.split, payloads_append, payloads_cons] at hs
  simp only [List.length_append] at hs
  omega

theorem length_before_lt : d.before.length < d.stream.length := by
  have hle := length_le_wire d.before
  have hpos : 0 < d.frame.length := by
    rw [frame]
    cases d.field <;> simp only [List.length_append, token_length] <;> omega
  simp only [stream, List.length_append]
  omega

end Intrusion

end ChunkComm

open ChunkComm

/-- **Rubbish in a field.**  The reader raises `ChunkReaderError`. -/
theorem readUntilSize_intrusion {s : Bytes} (d : Intrusion s) (h : NoGap token d.displaced)
    (cut : Nat → Nat) :
    ∃ enough, ∀ fuel, enough ≤ fuel → ∃ buffer io,
      readUntilSize Line.comm fuel s.length (Line.reader (Line.bytes d.stream) cut) =
        .raised (.bufferError buffer) io := by
  obtain ⟨x, rest, hframe, hx⟩ := d.attempt h
  refine ⟨d.stream.length + 1, fun fuel hfuel => ?_⟩
  let io := Line.reader (Line.bytes d.stream) cut
  have hunread : io.sharedio.unread = [] := SharedBytesIo.unread_new
  have hbefore := d.length_before_lt
  have hlt := d.length_payloads_before_lt
  have hstream : d.stream =
      noisyWire (fun _ => .none) d.before ++ (x ++ (rest ++ wire d.after)) := by
    rw [noisyWire_none, Intrusion.stream, hframe]
    simp only [List.append_assoc]
  have hnext : Line.Next [] fuel d.stream io.line := Line.next_reader (Nat.lt_of_succ_le hfuel) cut
  rw [hstream] at hnext
  obtain ⟨loops, hloops⟩ : ∃ n, fuel = n + 1 + d.before.length :=
    ⟨fuel - 1 - d.before.length, by omega⟩
  -- the frames before the damaged one
  obtain ⟨io₁, hio₁, hunread₁, hrun⟩ := readLoop_noisy (Line.comm_serves [] fuel)
    (fun _ _ h => h.length_lt) (n := s.length) d.before (fun _ => .none) (loops + 1) io
    (by rw [hunread, List.length_nil]; omega) hnext
  rw [← hloops] at hrun
  -- and the damaged one
  obtain ⟨t, -, hchunk⟩ := readChunk_attempt (Line.comm_serves [] fuel) (fun _ _ h => h.length_lt)
    hx hio₁
  obtain ⟨buffer, io₂, hraised⟩ := d.outcome_verdict io₁.sharedio t
  refine ⟨buffer, io₂, ?_⟩
  rw [readUntilSize, hrun, readLoop_more (by rw [hunread₁, hunread, List.nil_append]; exact hlt)]
  exact Prog.bind_raised (hchunk.trans hraised)

/-- A byte in the payload of the two bytes `ab`. -/
def intrusionX : Intrusion (ascii "ab") where
  before := []
  chunk := ⟨0, ascii "ab", zero_lt_ids, by decide, by decide⟩
  after := []
  split := chunksOf_eq_singleton (by decide) (by decide)
  field := .payload
  pos := 1
  rubbish := ascii "x"
  pos_pos := by decide
  pos_lt := by decide
  rubbish_ne := by decide

theorem readUntilSize_intrusionX :
    ∃ enough, ∀ fuel, enough ≤ fuel → ∃ buffer io,
      readUntilSize Line.comm fuel (ascii "ab").length
        (Line.reader (Line.bytes intrusionX.stream) fun _ => 0) =
          .raised (.bufferError buffer) io :=
  readUntilSize_intrusion intrusionX (noGap_of_caret (by decide)) fun _ => 0

end InteractiveSessions
