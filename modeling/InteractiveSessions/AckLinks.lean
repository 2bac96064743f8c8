import InteractiveSessions.ChunkErrors
import InteractiveSessions.Lib.Runs

/-!
# One write and one read over two links, with acks

`ChunkAckBase.write(s)` and `read_until_size(len(s))` run at the same time.  The
bytes of each link arrive in pieces of any size.  A party that finds no byte
waits (here it stops with `timeout`); when a piece arrives it has got so far with
all pieces as it gets in a run from its start on.

* `readLoop_cut`, `writeChunks_cut`: how far reader and writer get;
* `inv_step`: the bytes on the links are those written and not yet received;
* `transferred`: neither party ever raises, one of them can go on until both have
  returned, at most two chunks are on their way, and in the end the reader has
  returned `s`.
-/

namespace InteractiveSessions

open ChunkComm

/-- A party's ends of the links: the pieces that arrived and what it has written. -/
structure Pipe where
  incoming : List Bytes
  written : Bytes
  deriving DecidableEq

namespace Pipe

def read (n : Nat) : Prog Exc Pipe Bytes := fun p =>
  match p.incoming with
  | [] => .raised .timeout p
  | f :: fs =>
    .ret (f.take n) { p with incoming := if n < f.length then f.drop n :: fs else fs }

def write (s : Bytes) : Prog Exc Pipe Unit :=
  Prog.modify fun p => { p with written := p.written ++ s }

def comm (fuel : Nat) : Comm Pipe := ackBase read write (pure ()) fuel

/-- The bytes `xs` have arrived, and `w` was written. -/
structure Arrived (fuel : Nat) (w xs : Bytes) (p : Pipe) : Prop where
  flatten : p.incoming.flatten = xs
  ne_nil : ∀ f ∈ p.incoming, f ≠ []
  written : p.written = w
  length_lt : xs.length < fuel

theorem Arrived.nil {fuel : Nat} {w : Bytes} {p : Pipe} (h : Arrived fuel w [] p) :
    p = ⟨[], w⟩ := by
  obtain ⟨incoming, written⟩ := p
  obtain ⟨hflatten, hne, rfl, -⟩ := h
  cases incoming with
  | nil => rfl
  | cons f fs =>
    rw [List.flatten_cons, List.append_eq_nil_iff] at hflatten
    exact absurd hflatten.1 (hne f (List.mem_cons_self ..))

theorem Arrived.write {fuel : Nat} {w xs : Bytes} {p : Pipe} (h : Arrived fuel w xs p) (s : Bytes) :
    Arrived fuel (w ++ s) xs { p with written := p.written ++ s } :=
  ⟨h.flatten, h.ne_nil, by rw [h.written], h.length_lt⟩

theorem stops (fuel : Nat) (w : Bytes) :
    Stops (comm fuel).read (Arrived fuel w) (some (.timeout, ⟨[], w⟩)) where
  deliver := by
    rintro n xs ⟨incoming, written⟩ hn hx ⟨rfl, hne, rfl, hlen⟩
    cases incoming with
    | nil => exact absurd rfl hx
    | cons f fs =>
      have hf : 0 < f.length := List.length_pos_iff.mpr (hne f (List.mem_cons_self ..))
      have hfs : ∀ g ∈ fs, g ≠ [] := fun g hg => hne g (List.mem_cons_of_mem _ hg)
      simp only [List.flatten_cons, List.length_append] at hlen ⊢
      rcases Nat.lt_or_ge n f.length with hlt | hge
      · refine ⟨n, ⟨f.drop n :: fs, written⟩, hn, le_rfl, by omega, ?_, ?_, ?_, rfl, ?_⟩
        · rw [List.take_append_of_le_length hlt.le]
          simp only [comm, ackBase, read, if_pos hlt]
        · rw [List.drop_append_of_le_length hlt.le, List.flatten_cons]
        · intro g hg
          rcases List.mem_cons.mp hg with rfl | hg
          · rw [← List.length_pos_iff, List.length_drop]
            omega
          · exact hfs g hg
        · rw [List.length_drop, List.length_append]
          omega
      · refine ⟨f.length, ⟨fs, written⟩, hf, hge, by omega, ?_, ?_, hfs, rfl, ?_⟩
        · rw [List.take_left]
          simp only [comm, ackBase, read, if_neg (Nat.not_lt.mpr hge), List.take_of_length_le hge]
        · rw [List.drop_left]
        · rw [List.drop_left]
          omega
  stop := by
    intro n p hn h
    rw [h.nil]
    rfl

end Pipe

/-! ## How far the reader gets -/

def acks (cs : List Chunk) : Bytes := cs.flatMap Chunk.ack

@[simp] theorem acks_cons (c : Chunk) (cs : List Chunk) : acks (c :: cs) = c.ack ++ acks cs := rfl

@[simp] theorem acks_append (cs ds : List Chunk) : acks (cs ++ ds) = acks cs ++ acks ds :=
  List.flatMap_append

theorem length_acks_le (cs : List Chunk) : (acks cs).length ≤ (wire cs).length := by
  induction cs with
  | nil => exact le_rfl
  | cons c cs ih =>
    have := c.length_ack_le
    rw [chunkIdWidth] at this
    simp only [acks_cons, wire_cons, List.length_append, c.length_frame]
    omega

section
variable {fuel : Nat}

/-- An intact frame is read and acknowledged. -/
theorem readChunk_ack (c : Chunk) {w rest : Bytes} {io : ChunkIo Pipe}
    (h : Pipe.Arrived fuel w (c.frame ++ rest) io.line) :
    ∃ t, readChunk (Pipe.comm fuel) fuel io = .ret () ⟨t, io.sharedio.write c.payload⟩ ∧
      Pipe.Arrived fuel (w ++ c.ack) rest t := by
  have hread := (Pipe.stops fuel w).delivers
  have hR : ∀ xs p, Pipe.Arrived fuel w xs p → xs.length < fuel := fun _ _ h => h.length_lt
  rw [c.frame_append] at h
  obtain ⟨t₁, ht₁, hrun₁⟩ :=
    readChunk_opened hread hR (w := []) noGap_nil c.id_lt c.length_payload_lt h
  obtain ⟨t₂, hrun₂, ht₂⟩ := verifyReadToken_ok hread hR ⟨t₁, io.sharedio.write c.payload⟩ ht₁
  rw [hrun₁, Prog.bind_ret hrun₂, Chunk.ack]
  by_cases hid : c.id = 0
  · rw [if_neg (by rw [not_not, format_eq_zeros c.id_lt]; exact hid), if_pos hid, List.append_nil]
    exact ⟨t₂, rfl, ht₂⟩
  · rw [if_pos (by rw [ne_eq, format_eq_zeros c.id_lt]; exact hid), if_neg hid]
    exact ⟨_, onLine_ret rfl, ht₂.write _⟩

/-- The reader stops in the first frame that is not complete, or it returns. -/
theorem readLoop_cut (cs : List Chunk) (loops : Nat) {n : Nat} {w y : Bytes} {io : ChunkIo Pipe}
    (h : Pipe.Arrived fuel w y io.line) (hy : y <+: wire cs) (hloops : cs.length < loops)
    (hn : io.sharedio.unread.length + (payloads cs).length = n) :
    ∃ ds io', Cut Chunk.frame cs ds y ∧ io'.line = ⟨[], w ++ acks ds⟩ ∧
      (ds = cs ∧ readLoop (Pipe.comm fuel) fuel loops n io =
          .ret (io.sharedio.unread ++ payloads cs) io' ∨
        ds ≠ cs ∧ readLoop (Pipe.comm fuel) fuel loops n io = .raised .timeout io') := by
  induction cs generalizing loops w y io with
  | nil =>
    obtain ⟨loops, rfl⟩ : ∃ k, loops = k + 1 := ⟨loops - 1, by omega⟩
    obtain rfl := List.prefix_nil.mp hy
    refine ⟨[], ⟨io.line, (io.sharedio.read n).2⟩, .nil rfl, ?_, .inl ⟨rfl, ?_⟩⟩
    · rw [h.nil]
      simp [acks]
    · rw [readLoop_enough (by rw [← hn, payloads_nil, List.length_nil, Nat.add_zero]), payloads_nil,
        List.append_nil, List.take_of_length_le (by rw [← hn]; exact Nat.le_add_right ..)]
  | cons c cs ih =>
    obtain ⟨loops, rfl⟩ : ∃ k, loops = k + 1 := ⟨loops - 1, by omega⟩
    have hpos := List.length_pos_iff.mpr c.payload_ne
    rw [payloads_cons, List.length_append] at hn
    rw [readLoop_more (by omega)]
    rw [wire_cons] at hy
    rcases prefix_append_cases hy with ⟨hz, hne⟩ | ⟨z, rfl, hz⟩
    · obtain ⟨sharedio, hrun, -⟩ :=
        readChunk_partial (Pipe.stops fuel w) (fun _ _ h => h.length_lt) (w := []) noGap_nil c hz
          hne h
      refine ⟨[], ⟨⟨[], w⟩, sharedio⟩, .nil ⟨hz, hne⟩, by simp [acks],
        .inr ⟨(List.cons_ne_nil c cs).symm, Prog.bind_raised hrun⟩⟩
    · obtain ⟨t, hrun, ht⟩ := readChunk_ack c h
      rw [Prog.bind_ret hrun]
      have hlen : (io.sharedio.write c.payload).unread.length + (payloads cs).length = n := by
        rw [SharedBytesIo.unread_write, List.length_append]
        omega
      have harrived : Pipe.Arrived fuel (w ++ c.ack) z
        (⟨t, io.sharedio.write c.payload⟩ : ChunkIo Pipe).line := ht
      rw [List.length_cons] at hloops
      obtain ⟨ds, io', hcut, hline, hor⟩ := ih loops harrived hz (by omega) hlen
      refine ⟨c :: ds, io', hcut.cons c, by rw [hline, acks_cons, List.append_assoc], ?_⟩
      rw [SharedBytesIo.unread_write, List.append_assoc] at hor
      rcases hor with ⟨rfl, hret⟩ | ⟨hne, hraised⟩
      · exact .inl ⟨rfl, hret⟩
      · exact .inr ⟨fun heq => hne (List.cons.inj heq).2, hraised⟩

/-! ## How far the writer gets -/

/-- The ack of a chunk is read. -/
theorem readAndVerifyAck_ack (c : Chunk) {w x : Bytes} {p : Pipe}
    (h : Pipe.Arrived fuel w (c.ack ++ x) p) :
    ∃ p', readAndVerifyAck (Pipe.comm fuel) c.id p = .ret () p' ∧ Pipe.Arrived fuel w x p' := by
  rw [readAndVerifyAck]
  by_cases hid : c.id = 0
  · rw [Chunk.ack, if_pos hid] at h
    exact ⟨p, by rw [if_pos hid]; rfl, h⟩
  · rw [Chunk.ack, if_neg hid] at h
    obtain ⟨p', hrun, hp'⟩ := rawRead_law (C := Pipe.comm fuel) (Pipe.stops fuel w).delivers
      (fun _ _ h => h.length_lt) _ _ _ h
    rw [Decimal.format_length c.id_lt] at hrun
    have hack : (Pipe.comm fuel).readAck p =
        .ret (some (Decimal.format chunkIdWidth c.id)) p' := Prog.bind_ret hrun
    refine ⟨p', ?_, hp'⟩
    rw [if_neg hid, Prog.bind_ret hack]
    simp only [Decimal.parseInt_format (show 0 < chunkIdWidth by decide) c.id_lt]
    rw [if_neg (by simp)]
    rfl

theorem readAndVerifyAck_stops (c : Chunk) {w z : Bytes} {p : Pipe} (hz : z <+: c.ack)
    (hne : z ≠ c.ack) (h : Pipe.Arrived fuel w z p) :
    readAndVerifyAck (Pipe.comm fuel) c.id p = .raised .timeout ⟨[], w⟩ := by
  have hid : c.id ≠ 0 := by
    intro hid
    rw [Chunk.ack, if_pos hid] at hz hne
    exact hne (List.prefix_nil.mp hz)
  have hlt : z.length < chunkIdWidth := by
    have hlen := c.length_ack_le
    have hle := hz.length_le
    refine lt_of_le_of_ne (hle.trans hlen) fun heq => hne (hz.eq_of_length ?_)
    omega
  have hack : rawReadUntilSize (Pipe.comm fuel).read fuel chunkIdWidth p =
      Prog.stopped (some (.timeout, ⟨[], w⟩)) :=
    rawReadUntilSize_stops (Pipe.stops fuel w) (fun _ _ h => h.length_lt) h hlt
  rw [readAndVerifyAck, if_neg hid]
  exact Prog.bind_raised (Prog.bind_raised hack)

/-- The writer stops after the first chunk whose ack is not complete, or it
returns. -/
theorem writeChunks_cut (i : Nat) (ps : List Bytes) (hps : ∀ p ∈ ps, p ≠ [] ∧ p.length ≤ chunkSize)
    {w x : Bytes} {p : Pipe} (h : Pipe.Arrived fuel w x p) (hx : x <+: acks (chunksFrom i ps hps)) :
    ∃ ds, Cut Chunk.ack (chunksFrom i ps hps) ds x ∧
      (ds = chunksFrom i ps hps ∧ writeChunks (Pipe.comm fuel) i ps p =
          .ret () ⟨[], w ++ wire (chunksFrom i ps hps)⟩ ∨
        ∃ c rest, chunksFrom i ps hps = ds ++ c :: rest ∧
          writeChunks (Pipe.comm fuel) i ps p = .raised .timeout ⟨[], w ++ wire (ds ++ [c])⟩) := by
  induction ps generalizing i w x p with
  | nil =>
    obtain rfl := List.prefix_nil.mp hx
    refine ⟨[], .nil rfl, .inl ⟨rfl, ?_⟩⟩
    rw [h.nil, chunksFrom, wire_nil, List.append_nil]
    rfl
  | cons q ps ih =>
    have hrest : ∀ p ∈ ps, p ≠ [] ∧ p.length ≤ chunkSize := fun p hp =>
      hps p (List.mem_cons_of_mem _ hp)
    have hq := hps q (List.mem_cons_self ..)
    obtain ⟨c, hcs, hid, hframe⟩ : ∃ c : Chunk,
        chunksFrom i (q :: ps) hps = c :: chunksFrom (i + 1) ps hrest ∧ c.id = i % 10000 ∧
          c.frame = bytesForChunkWithToken q (i % 10000) :=
      ⟨⟨i % 10000, q, Nat.mod_lt _ (by decide), hq.1, hq.2⟩, rfl, rfl, rfl⟩
    rw [hcs] at hx ⊢
    have hwrite := h.write c.frame
    have hrun : writeChunks (Pipe.comm fuel) i (q :: ps) p =
        (do
          readAndVerifyAck (Pipe.comm fuel) c.id
          writeChunks (Pipe.comm fuel) (i + 1) ps : Prog Exc Pipe Unit)
          { p with written := p.written ++ c.frame } := by
      rw [writeChunks, hid, hframe]
      by_cases h0 : i % 10000 = 0
      · rw [readAndVerifyAck, if_pos h0, if_neg (not_not.mpr h0)]
        rfl
      · rw [if_pos h0]
        rfl
    rw [hrun]
    rcases prefix_append_cases hx with ⟨hz, hne⟩ | ⟨z, rfl, hz⟩
    · refine ⟨[], .nil ⟨hz, hne⟩, .inr ⟨c, _, rfl, ?_⟩⟩
      rw [Prog.bind_raised (readAndVerifyAck_stops c hz hne hwrite)]
      simp
    · obtain ⟨p', hack, hp'⟩ := readAndVerifyAck_ack c hwrite
      rw [Prog.bind_ret hack]
      obtain ⟨ds, hcut, hor⟩ := ih (i + 1) hrest hp' hz
      refine ⟨c :: ds, hcut.cons c, ?_⟩
      rcases hor with ⟨rfl, hret⟩ | ⟨c', rest, heq, hraised⟩
      · refine .inl ⟨rfl, ?_⟩
        rw [hret, wire_cons, List.append_assoc]
      · refine .inr ⟨c', rest, by rw [heq]; rfl, ?_⟩
        rw [hraised, List.cons_append, wire_cons, List.append_assoc]

end

/-! ## The two parties -/

/-- The bytes on the links and the pieces that the parties have received.  On a
link there is all that its writer writes before it reads again. -/
structure AckLinks where
  toReader : Bytes
  toWriter : Bytes
  writer : List Bytes
  reader : List Bytes
  deriving DecidableEq

namespace AckLinks

section
variable (fuel : Nat) (s : Bytes)

/-- `write(s)`, as far as it gets. -/
def writerRun (received : List Bytes) : Outcome Exc Pipe Unit :=
  write (Pipe.comm fuel) s ⟨received, []⟩

/-- `read_until_size(len(s))`, as far as it gets. -/
def readerRun (received : List Bytes) : Outcome Exc (ChunkIo Pipe) Bytes :=
  readUntilSize (Pipe.comm fuel) fuel s.length ⟨⟨received, []⟩, SharedBytesIo.new⟩

def writerWritten (received : List Bytes) : Bytes :=
  ((writerRun fuel s received).state ⟨received, []⟩).written

def readerWritten (received : List Bytes) : Bytes :=
  ((readerRun fuel s received).state ⟨⟨received, []⟩, SharedBytesIo.new⟩).line.written

inductive Action where
  /-- The next `k` bytes arrive at the reader. -/
  | readerReads (k : Nat)
  /-- The next `k` bytes arrive at the writer. -/
  | writerReads (k : Nat)
  deriving DecidableEq, Repr

def init : AckLinks := ⟨writerWritten fuel s [], [], [], []⟩

def step : Action → AckLinks → AckLinks
  | .readerReads k, x =>
    let reader := x.reader ++ [x.toReader.take k]
    { x with
      toReader := x.toReader.drop k
      reader
      toWriter := x.toWriter ++
        (readerWritten fuel s reader).drop (readerWritten fuel s x.reader).length }
  | .writerReads k, x =>
    let writer := x.writer ++ [x.toWriter.take k]
    { x with
      toWriter := x.toWriter.drop k
      writer
      toReader := x.toReader ++
        (writerWritten fuel s writer).drop (writerWritten fuel s x.writer).length }

/-- The party waits for bytes. -/
def Waits {σ α : Type} (o : Outcome Exc σ α) : Prop := ∃ t, o = .raised .timeout t

instance {σ α : Type} : (o : Outcome Exc σ α) → Decidable (Waits o)
  | .raised e t =>
    decidable_of_iff (e = .timeout) ⟨fun h => ⟨t, by rw [h]⟩, fun ⟨_, h⟩ => by injection h⟩
  | .ret _ _ => isFalse nofun
  | .hang => isFalse nofun

def Returned {σ α : Type} (o : Outcome Exc σ α) : Prop := ∃ a t, o = .ret a t

/-- A party that waits receives bytes that are on its link. -/
def Enabled : Action → AckLinks → Prop
  | .readerReads k, x => 0 < k ∧ k ≤ x.toReader.length ∧ Waits (readerRun fuel s x.reader)
  | .writerReads k, x => 0 < k ∧ k ≤ x.toWriter.length ∧ Waits (writerRun fuel s x.writer)

instance : (a : Action) → (x : AckLinks) → Decidable (Enabled fuel s a x)
  | .readerReads _, _ => inferInstanceAs (Decidable (_ ∧ _ ∧ _))
  | .writerReads _, _ => inferInstanceAs (Decidable (_ ∧ _ ∧ _))

/-- Both parties have returned. -/
def Final (x : AckLinks) : Prop :=
  Returned (writerRun fuel s x.writer) ∧ Returned (readerRun fuel s x.reader)

end

/-! ## How far the parties get with what they have received -/

section
variable {fuel : Nat} {s : Bytes} (hfuel : (wire (chunksOf s)).length < fuel)
include hfuel

theorem readerRun_cut {received : List Bytes} (hne : ∀ f ∈ received, f ≠ [])
    (hy : received.flatten <+: wire (chunksOf s)) :
    ∃ ds io, Cut Chunk.frame (chunksOf s) ds received.flatten ∧ io.line = ⟨[], acks ds⟩ ∧
      readerWritten fuel s received = acks ds ∧
      (ds = chunksOf s ∧ readerRun fuel s received = .ret s io ∨
        ds ≠ chunksOf s ∧ readerRun fuel s received = .raised .timeout io) := by
  have harrived : Pipe.Arrived fuel [] received.flatten
      (⟨⟨received, []⟩, SharedBytesIo.new⟩ : ChunkIo Pipe).line :=
    ⟨rfl, hne, rfl, lt_of_le_of_lt hy.length_le hfuel⟩
  have hcount := length_le_wire (chunksOf s)
  obtain ⟨ds, io, hcut, hline, hor⟩ := readLoop_cut (chunksOf s) fuel harrived hy (by omega)
    (n := s.length) (by simp [payloads_chunksOf])
  rw [payloads_chunksOf] at hor
  have hrun : ds = chunksOf s ∧ readerRun fuel s received = .ret s io ∨
      ds ≠ chunksOf s ∧ readerRun fuel s received = .raised .timeout io := hor
  refine ⟨ds, io, hcut, hline, ?_, hrun⟩
  unfold readerWritten
  rcases hrun with ⟨-, hrun⟩ | ⟨-, hrun⟩ <;>
  · rw [hrun]
    simp only [Outcome.state, hline, List.nil_append]

theorem writerRun_cut {received : List Bytes} (hne : ∀ f ∈ received, f ≠ [])
    (hx : received.flatten <+: acks (chunksOf s)) :
    ∃ ds p, Cut Chunk.ack (chunksOf s) ds received.flatten ∧
      p = ⟨[], wire ((chunksOf s).take (ds.length + 1))⟩ ∧
      writerWritten fuel s received = wire ((chunksOf s).take (ds.length + 1)) ∧
      (ds = chunksOf s ∧ writerRun fuel s received = .ret () p ∨
        ds ≠ chunksOf s ∧ writerRun fuel s received = .raised .timeout p) := by
  have harrived : Pipe.Arrived fuel [] received.flatten ⟨received, []⟩ :=
    ⟨rfl, hne, rfl, lt_of_le_of_lt (hx.length_le.trans (length_acks_le _)) hfuel⟩
  have hps := fits_pieces s
  obtain ⟨ds, hcut, hor⟩ := writeChunks_cut 0 (pieces chunkSize s) hps harrived hx
  have hrun : ds = chunksOf s ∧ writerRun fuel s received =
        .ret () ⟨[], wire ((chunksOf s).take (ds.length + 1))⟩ ∨
      ds ≠ chunksOf s ∧ writerRun fuel s received =
        .raised .timeout ⟨[], wire ((chunksOf s).take (ds.length + 1))⟩ := by
    rcases hor with ⟨heq, hret⟩ | ⟨c, rest, heq, hraised⟩
    · refine .inl ⟨heq, ?_⟩
      rw [heq, show (chunksFrom 0 _ hps) = chunksOf s from rfl,
        List.take_of_length_le (Nat.le_succ _)]
      exact hret
    · have heq' : chunksOf s = ds ++ c :: rest := heq
      refine .inr ⟨fun hds => ?_, ?_⟩
      · have := congrArg List.length heq'
        rw [← hds, List.length_append, List.length_cons] at this
        omega
      · have htake : (chunksOf s).take (ds.length + 1) = ds ++ [c] := by
          rw [heq', List.take_append]
          simp
        rw [htake]
        exact hraised
  refine ⟨ds, _, hcut, rfl, ?_, hrun⟩
  unfold writerWritten
  rcases hrun with ⟨-, hrun⟩ | ⟨-, hrun⟩ <;> rw [hrun] <;> rfl

/-- Whoever receives more writes more. -/
theorem readerWritten_mono {received received' : List Bytes} (hne : ∀ f ∈ received, f ≠ [])
    (hne' : ∀ f ∈ received', f ≠ []) (hy : received.flatten <+: received'.flatten)
    (hy' : received'.flatten <+: wire (chunksOf s)) :
    readerWritten fuel s received <+: readerWritten fuel s received' := by
  obtain ⟨ds, io, hcut, -, hw, -⟩ := readerRun_cut hfuel hne (hy.trans hy')
  obtain ⟨ds', io', hcut', -, hw', -⟩ := readerRun_cut hfuel hne' hy'
  obtain ⟨t, rfl⟩ := hcut.mono hcut' hy
  rw [hw, hw', acks_append]
  exact List.prefix_append ..

theorem writerWritten_mono {received received' : List Bytes} (hne : ∀ f ∈ received, f ≠ [])
    (hne' : ∀ f ∈ received', f ≠ []) (hx : received.flatten <+: received'.flatten)
    (hx' : received'.flatten <+: acks (chunksOf s)) :
    writerWritten fuel s received <+: writerWritten fuel s received' := by
  obtain ⟨ds, p, hcut, -, hw, -⟩ := writerRun_cut hfuel hne (hx.trans hx')
  obtain ⟨ds', p', hcut', -, hw', -⟩ := writerRun_cut hfuel hne' hx'
  have hle := (hcut.mono hcut' hx).length_le
  obtain ⟨t, ht⟩ : (chunksOf s).take (ds.length + 1) <+: (chunksOf s).take (ds'.length + 1) := by
    refine List.prefix_of_prefix_length_le (List.take_prefix ..) (List.take_prefix ..) ?_
    simp only [List.length_take]
    omega
  rw [hw, hw', ← ht, wire_append]
  exact List.prefix_append ..

end

/-! ## The invariant -/

/-- The bytes on the links are those that were written and not yet received. -/
structure Inv (fuel : Nat) (s : Bytes) (x : AckLinks) : Prop where
  reader : ∀ f ∈ x.reader, f ≠ []
  writer : ∀ f ∈ x.writer, f ≠ []
  toReader : x.reader.flatten ++ x.toReader = writerWritten fuel s x.writer
  toWriter : x.writer.flatten ++ x.toWriter = readerWritten fuel s x.reader
  reader_prefix : x.reader.flatten <+: wire (chunksOf s)
  writer_prefix : x.writer.flatten <+: acks (chunksOf s)

section
variable {fuel : Nat} {s : Bytes} {x : AckLinks} (hfuel : (wire (chunksOf s)).length < fuel)
include hfuel

theorem inv_init : Inv fuel s (init fuel s) := by
  refine ⟨nofun, nofun, rfl, ?_, List.nil_prefix, List.nil_prefix⟩
  obtain ⟨ds, io, hcut, -, hw, -⟩ :=
    @readerRun_cut fuel s hfuel [] nofun List.nil_prefix
  have hwire : wire ds = [] := List.prefix_nil.mp hcut.flatMap_prefix
  have hlen := length_le_wire ds
  rw [hwire, List.length_nil] at hlen
  obtain rfl := List.length_eq_zero_iff.mp (Nat.le_zero.mp hlen)
  exact hw.symm

/-- **Step.** -/
theorem inv_step {a : Action} (h : Inv fuel s x) (ha : Enabled fuel s a x) :
    Inv fuel s (step fuel s a x) := by
  have hpiece : ∀ {k : Nat} {l : Bytes}, 0 < k → k ≤ l.length → l.take k ≠ [] := by
    intro k l hk hle
    rw [← List.length_pos_iff, List.length_take]
    omega
  cases a with
  | readerReads k =>
    obtain ⟨hk, hle, -⟩ := ha
    have hne : ∀ f ∈ x.reader ++ [x.toReader.take k], f ≠ [] := by
      intro f hf
      rcases List.mem_append.mp hf with hf | hf
      · exact h.reader f hf
      · exact List.mem_singleton.mp hf ▸ hpiece hk hle
    have hflatten : (x.reader ++ [x.toReader.take k]).flatten =
        x.reader.flatten ++ x.toReader.take k := by simp
    have hprefix : (x.reader ++ [x.toReader.take k]).flatten <+: wire (chunksOf s) := by
      obtain ⟨ds, p, -, -, hw, -⟩ := writerRun_cut hfuel h.writer h.writer_prefix
      have hsent : writerWritten fuel s x.writer <+: wire (chunksOf s) := by
        rw [hw]
        conv_rhs => rw [← List.take_append_drop (ds.length + 1) (chunksOf s), wire_append]
        exact List.prefix_append ..
      refine List.IsPrefix.trans ?_ hsent
      rw [hflatten, ← h.toReader, List.prefix_append_right_inj]
      exact List.take_prefix ..
    refine ⟨hne, h.writer, ?_, ?_, hprefix, h.writer_prefix⟩
    · show (x.reader ++ [x.toReader.take k]).flatten ++ x.toReader.drop k = _
      rw [hflatten, List.append_assoc, List.take_append_drop]
      exact h.toReader
    · show x.writer.flatten ++ (x.toWriter ++
          (readerWritten fuel s (x.reader ++ [x.toReader.take k])).drop
            (readerWritten fuel s x.reader).length) = _
      rw [← List.append_assoc, h.toWriter]
      refine (List.prefix_append_drop ?_).symm
      exact readerWritten_mono hfuel h.reader hne (hflatten ▸ List.prefix_append ..) hprefix
  | writerReads k =>
    obtain ⟨hk, hle, -⟩ := ha
    have hne : ∀ f ∈ x.writer ++ [x.toWriter.take k], f ≠ [] := by
      intro f hf
      rcases List.mem_append.mp hf with hf | hf
      · exact h.writer f hf
      · exact List.mem_singleton.mp hf ▸ hpiece hk hle
    have hflatten : (x.writer ++ [x.toWriter.take k]).flatten =
        x.writer.flatten ++ x.toWriter.take k := by simp
    have hprefix : (x.writer ++ [x.toWriter.take k]).flatten <+: acks (chunksOf s) := by
      obtain ⟨ds, io, hcut, -, hw, -⟩ := readerRun_cut hfuel h.reader h.reader_prefix
      have hsent : readerWritten fuel s x.reader <+: acks (chunksOf s) := by
        obtain ⟨t, ht⟩ := hcut.prefix
        rw [hw, ← ht, acks_append]
        exact List.prefix_append ..
      refine List.IsPrefix.trans ?_ hsent
      rw [hflatten, ← h.toWriter, List.prefix_append_right_inj]
      exact List.take_prefix ..
    refine ⟨h.reader, hne, ?_, ?_, h.reader_prefix, hprefix⟩
    · show x.reader.flatten ++ (x.toReader ++
          (writerWritten fuel s (x.writer ++ [x.toWriter.take k])).drop
            (writerWritten fuel s x.writer).length) = _
      rw [← List.append_assoc, h.toReader]
      refine (List.prefix_append_drop ?_).symm
      exact writerWritten_mono hfuel h.writer hne (hflatten ▸ List.prefix_append ..) hprefix
    · show (x.writer ++ [x.toWriter.take k]).flatten ++ x.toWriter.drop k = _
      rw [hflatten, List.append_assoc, List.take_append_drop]
      exact h.toWriter

end

/-! ## Any run -/

/-- Of two chunks in a row one is acknowledged. -/
theorem length_le_of_acks_nil {i : Nat} {ps : List Bytes}
    {hps : ∀ p ∈ ps, p ≠ [] ∧ p.length ≤ chunkSize} {es cs fs : List Chunk}
    (heq : chunksFrom i ps hps = es ++ cs ++ fs) (hacks : acks cs = []) : cs.length ≤ 1 := by
  cases cs with
  | nil => exact Nat.zero_le _
  | cons c cs =>
    cases cs with
    | nil => exact le_rfl
    | cons c' cs =>
      exfalso
      have hids := (heq ▸ isChain_chunksFrom i ps hps).left_of_append.right_of_append
      rw [List.isChain_cons_cons] at hids
      simp only [acks_cons, List.append_eq_nil_iff] at hacks
      have hc := Chunk.ack_eq_nil.mp hacks.1
      have hc' := Chunk.ack_eq_nil.mp hacks.2.1
      rw [hc, hc'] at hids
      exact absurd hids.1 (by decide)

/-- The writer is at most one chunk without ack before the reader. -/
theorem length_le_of_acks_prefix {s : Bytes} {ds es : List Chunk} (hd : ds <+: chunksOf s)
    (he : es <+: chunksOf s) (h : acks ds <+: acks es) : ds.length ≤ es.length + 1 := by
  rcases List.prefix_or_prefix_of_prefix hd he with hle | ⟨cs, rfl⟩
  · exact Nat.le_succ_of_le hle.length_le
  · rw [acks_append] at h
    have hnil : acks cs = [] := by
      have := h.length_le
      rw [List.length_append] at this
      exact List.length_eq_zero_iff.mp (by omega)
    obtain ⟨fs, heq⟩ := hd
    rw [List.length_append]
    exact Nat.add_le_add_left (length_le_of_acks_nil heq.symm hnil) _

theorem waits_iff {σ α : Type} {o : Outcome Exc σ α} {P : Prop} {a : α} {t : σ}
    (h : P ∧ o = .ret a t ∨ ¬P ∧ o = .raised .timeout t) : Waits o ↔ ¬P := by
  rcases h with ⟨hP, rfl⟩ | ⟨hP, rfl⟩
  · exact iff_of_false (by simp [Waits]) (not_not.mpr hP)
  · exact iff_of_true ⟨t, rfl⟩ hP

theorem returned_iff {σ α : Type} {o : Outcome Exc σ α} {P : Prop} {a : α} {t : σ}
    (h : P ∧ o = .ret a t ∨ ¬P ∧ o = .raised .timeout t) : Returned o ↔ P := by
  rcases h with ⟨hP, rfl⟩ | ⟨hP, rfl⟩
  · exact iff_of_true ⟨a, t, rfl⟩ hP
  · exact iff_of_false (by simp [Returned]) hP

/-- What holds in every state that is reached. -/
structure Transferred (fuel : Nat) (s : Bytes) (x : AckLinks) : Prop where
  writer : Waits (writerRun fuel s x.writer) ∨ Returned (writerRun fuel s x.writer)
  reader : Waits (readerRun fuel s x.reader) ∨ Returned (readerRun fuel s x.reader)
  progress : Final fuel s x ∨ ∃ a, Enabled fuel s a x
  /-- `ws` are the chunks written, `rs` those completely read. -/
  outstanding : ∃ ws rs, ws <+: chunksOf s ∧ writerWritten fuel s x.writer = wire ws ∧
    Cut Chunk.frame (chunksOf s) rs x.reader.flatten ∧ ws.length ≤ rs.length + 2
  final : Final fuel s x →
    (∃ io, readerRun fuel s x.reader = .ret s io ∧ io.line.incoming = []) ∧
      (∃ p, writerRun fuel s x.writer = .ret () p ∧ p.incoming = []) ∧
        x.writer.flatten = readerWritten fuel s x.reader ∧ x.toReader = [] ∧ x.toWriter = []

section
variable {s : Bytes} {ds es : List Chunk} {x y u v : Bytes}

/-- The reader that has got all has received all frames. -/
theorem toReader_nil (hes : Cut Chunk.frame (chunksOf s) es y)
    (hu : y ++ u = wire ((chunksOf s).take (ds.length + 1))) (he : es = chunksOf s) : u = [] := by
  rw [he] at hes
  have hlen := congrArg List.length hu
  have hle : (wire ((chunksOf s).take (ds.length + 1))).length ≤ (wire (chunksOf s)).length := by
    obtain ⟨t, ht⟩ := List.take_prefix (ds.length + 1) (chunksOf s)
    conv_rhs => rw [← ht, wire_append, List.length_append]
    exact Nat.le_add_right ..
  have hy : y = wire (chunksOf s) := hes.eq_flatMap
  rw [hy, List.length_append] at hlen
  exact List.length_eq_zero_iff.mp (by omega)

theorem toWriter_nil (hds : Cut Chunk.ack (chunksOf s) ds x) (hv : x ++ v = acks es)
    (hd : ds = chunksOf s) (he : es = chunksOf s) : v = [] := by
  rw [hd] at hds
  have hx : x = acks (chunksOf s) := hds.eq_flatMap
  rw [hx, he] at hv
  exact List.append_right_eq_self.mp hv

/-- When no frame is on its way, the reader has read the chunks with an ack and
the next one. -/
theorem eq_take_of_toReader_nil (hes : Cut Chunk.frame (chunksOf s) es y)
    (hu : y = wire ((chunksOf s).take (ds.length + 1))) :
    es = (chunksOf s).take (ds.length + 1) := by
  have hcut : Cut Chunk.frame (chunksOf s) ((chunksOf s).take (ds.length + 1)) y := by
    have hne : ∀ c ∈ (chunksOf s).drop (ds.length + 1), c.frame ≠ [] := fun c _ => by
      rw [← List.length_pos_iff, c.length_frame]
      omega
    have hcomplete := Cut.of_complete ((chunksOf s).take (ds.length + 1)) hne
    rw [List.take_append_drop] at hcomplete
    exact hu ▸ hcomplete
  exact hes.unique hcut

/-- Then an ack is on its way to the writer, or the writer has got them all. -/
theorem toWriter_ne_nil (hds : Cut Chunk.ack (chunksOf s) ds x) (hv : x ++ v = acks es)
    (he : es = (chunksOf s).take (ds.length + 1)) (hd : ds ≠ chunksOf s) : v ≠ [] := by
  rintro rfl
  obtain ⟨rest, z, heq, rfl, hz⟩ := hds
  cases rest with
  | nil => exact hd (by rw [heq, List.append_nil])
  | cons c rest =>
    have htake : es = ds ++ [c] := by
      rw [he, heq, List.take_append]
      simp
    rw [htake, List.append_nil, acks_append, acks, List.append_cancel_left_eq] at hv
    exact hz.2 (by rw [hv]; simp [acks])

end

section
variable {fuel : Nat} {s : Bytes} {x : AckLinks} (hfuel : (wire (chunksOf s)).length < fuel)
include hfuel

/-- **Every state that satisfies the invariant.** -/
theorem Transferred.of_inv (h : Inv fuel s x) : Transferred fuel s x := by
  obtain ⟨es, io, hes, hio, hacks, hreader⟩ := readerRun_cut hfuel h.reader h.reader_prefix
  obtain ⟨ds, p, hds, hp, hwire, hwriter⟩ := writerRun_cut hfuel h.writer h.writer_prefix
  have hu : x.reader.flatten ++ x.toReader = wire ((chunksOf s).take (ds.length + 1)) :=
    h.toReader.trans hwire
  have hv : x.writer.flatten ++ x.toWriter = acks es := h.toWriter.trans hacks
  have hfinal : Final fuel s x ↔ ds = chunksOf s ∧ es = chunksOf s :=
    and_congr (returned_iff hwriter) (returned_iff hreader)
  refine ⟨?_, ?_, ?_, ?_, ?_⟩
  · rw [waits_iff hwriter, returned_iff hwriter]
    exact (em _).symm
  · rw [waits_iff hreader, returned_iff hreader]
    exact (em _).symm
  · by_cases hto : x.toReader = []
    · rw [hto, List.append_nil] at hu
      have he := eq_take_of_toReader_nil hes hu
      by_cases hd : ds = chunksOf s
      · refine .inl (hfinal.mpr ⟨hd, ?_⟩)
        rw [he, hd, List.take_of_length_le (Nat.le_succ _)]
      · have hpos := List.length_pos_iff.mpr (toWriter_ne_nil hds hv he hd)
        exact .inr ⟨.writerReads x.toWriter.length, hpos, le_rfl, (waits_iff hwriter).mpr hd⟩
    · refine .inr ⟨.readerReads x.toReader.length, List.length_pos_iff.mpr hto, le_rfl, ?_⟩
      exact (waits_iff hreader).mpr fun he => hto (toReader_nil hes hu he)
  · refine ⟨(chunksOf s).take (ds.length + 1), es, List.take_prefix .., hwire, hes, ?_⟩
    have hle : ds.length ≤ es.length + 1 := by
      refine length_le_of_acks_prefix hds.prefix hes.prefix (hds.flatMap_prefix.trans ?_)
      exact hv ▸ List.prefix_append ..
    rw [List.length_take]
    omega
  · intro hf
    obtain ⟨hd, he⟩ := hfinal.mp hf
    have htoReader := toReader_nil hes hu he
    have htoWriter := toWriter_nil hds hv hd he
    refine ⟨⟨io, ?_, by rw [hio]⟩, ⟨p, ?_, by rw [hp]⟩, ?_, htoReader, htoWriter⟩
    · exact (hreader.resolve_right fun hne => hne.1 he).2
    · exact (hwriter.resolve_right fun hne => hne.1 hd).2
    · rw [← h.toWriter, htoWriter, List.append_nil]

/-- **A transfer.**  In every run of one write and one read, whatever is received
when and in whatever pieces. -/
theorem transferred (h : Reaches (step fuel s) (Enabled fuel s) (init fuel s) x) :
    Transferred fuel s x :=
  .of_inv hfuel (h.invariant (inv_init hfuel) fun _ _ ht ha => inv_step hfuel ht ha)

omit hfuel in
/-- The frame of three bytes arrives in two pieces. -/
theorem transferred_abc : ∃ x,
    Reaches (step 200 (ascii "abc")) (Enabled 200 (ascii "abc")) (init 200 (ascii "abc")) x ∧
      Transferred 200 (ascii "abc") x := by
  have hsteps : Along (step 200 (ascii "abc")) (Enabled 200 (ascii "abc"))
      [.readerReads 40, .readerReads 31] (init 200 (ascii "abc")) := by
    decide +kernel
  have h := reaches_of_along _ .refl hsteps
  exact ⟨_, h, transferred (by decide +kernel) h⟩

end

end AckLinks

end InteractiveSessions
