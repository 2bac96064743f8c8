import InteractiveSessions.Lib.Triple
import InteractiveSessions.Line

/-!
# How many strings a stream can bring

Every string that `read_str` returns takes at least 31 bytes, a token and a
length, from the shared buffer.  So a stream whose pieces bring few payload
bytes to the buffer brings few strings: `returned_length_le`.
-/

namespace InteractiveSessions

open ChunkComm StrComm GapToken

/-- The chunk reader gets at most `n` payload bytes from the stream: it takes it
for a sequence of pieces that end with a token, in which the header is not
followed by a token, or a payload of the length in the header stands. -/
inductive Brings : Nat → Bytes → Prop
  | last {n w x} : NoGap ChunkComm.token w → x.length < hdrLen →
      Brings n (w ++ (ChunkComm.token ++ x))
  | badHdr {n w h d s} : NoGap ChunkComm.token w → h.length = hdrLen →
      NoGap ChunkComm.token d → d ≠ [] → Brings n s →
      Brings n (w ++ (ChunkComm.token ++ (h ++ (d ++ (ChunkComm.token ++ s)))))
  | chunk {n w q d s chunkId} : NoGap ChunkComm.token w → chunkId < 10000 → q.length < 10000 →
      NoGap ChunkComm.token d → Brings n s →
      Brings (q.length + n) (w ++ (ChunkComm.token ++ (hdr chunkId q.length ++
        (ChunkComm.token ++ (q ++ (d ++ (ChunkComm.token ++ s)))))))

/-- With `spent` bytes already read from it, the shared buffer gets no more than
`total` bytes. -/
def Within (bound spent total : Nat) (io : ChunkIo Line) : Prop :=
  ∃ n s, Brings n s ∧ Line.Next [] bound s io.line ∧
    spent + io.sharedio.unread.length + n ≤ total

theorem Within.mono {bound p q k : Nat} (hq : q ≤ p) {io : ChunkIo Line}
    (h : Within bound p k io) : Within bound q k io := by
  obtain ⟨n, s, hs, hnext, hle⟩ := h
  exact ⟨n, s, hs, hnext, by omega⟩

/-- The exceptions that start `read_str` again, within the same total. -/
def Again (bound spent total : Nat) (e : Exc) (io : ChunkIo Line) : Prop :=
  (e = .strCommReadError ∨ e.isChunkReaderError = true) ∧ Within bound spent total io

theorem Again.mono {bound p q k : Nat} (hq : q ≤ p) {e : Exc} {io : ChunkIo Line}
    (h : Again bound p k e io) : Again bound q k e io :=
  ⟨h.1, h.2.mono hq⟩

section
variable {fuel bound : Nat} (hb : bound ≤ fuel)
include hb

theorem triple_readChunk (p k : Nat) :
    Prog.Triple (Within bound p k) (readChunk Line.comm fuel) (fun _ => Within bound p k)
      (Again bound p k) := by
  rintro io ⟨n, s, hs, hnext, hle⟩
  have hC := Line.comm_serves [] bound
  have hR : ∀ xs s, Line.Next [] bound xs s → xs.length < fuel := fun _ _ h =>
    Nat.lt_of_lt_of_le h.length_lt hb
  cases hs with
  | last hw hx =>
    have hrun : readChunk Line.comm fuel io = .hang :=
      readChunk_stops_hdr (Line.comm_end bound) hR hw hx hnext
    rw [hrun]
    trivial
  | badHdr hw hh hd hne hs =>
    obtain ⟨t, hrun, ht⟩ := readChunk_bad_hdr hC.read hR hw hh hd hne hnext
    rw [hrun]
    exact ⟨.inr rfl, _, _, hs, ht, hle⟩
  | @chunk n w q d s chunkId hw hid hq hd hs =>
    have hle' : p + (io.sharedio.write q).unread.length + n ≤ k := by
      rw [SharedBytesIo.unread_write, List.length_append]
      omega
    by_cases hne : d = []
    · subst hne
      obtain ⟨t, hrun, ht⟩ := readChunk_accept hC hR hw hid hq hnext
      rw [hrun]
      exact ⟨_, _, hs, ht, hle'⟩
    · obtain ⟨t, hrun, ht⟩ := readChunk_mismatch hC.read hR hw hid hq hd hne hnext
      rw [hrun]
      exact ⟨.inr rfl, _, _, hs, ht, hle'⟩

theorem triple_readUntilSize (p k : Nat) (n : Int) :
    Prog.Triple (Within bound p k) (readUntilSize Line.comm fuel n)
      (fun _ => Within bound (p + n.toNat) k) (Again bound p k) := by
  have hloop : ∀ loops, Prog.Triple (Within bound p k) (readLoop Line.comm fuel loops n)
      (fun _ => Within bound (p + n.toNat) k) (Again bound p k) := by
    intro loops
    induction loops with
    | zero => exact Prog.triple_hang
    | succ loops ih =>
      refine Prog.Triple.bind (Q := fun r io => Within bound p k io ∧
        r = io.sharedio.readableSize) (fun io h => ⟨h, rfl⟩) fun r => ?_
      refine Prog.Triple.ite (fun _ => ?_) fun hn => ?_
      · exact (Prog.Triple.bind (triple_readChunk hb p k) fun _ => ih).mono
          (fun _ h => h.1) (fun _ _ h => h) fun _ _ h => h
      · rintro io ⟨⟨m, s, hs, hnext, hle⟩, rfl⟩
        refine ⟨m, s, hs, hnext, ?_⟩
        rw [SharedBytesIo.readableSize_eq] at hn
        rw [SharedBytesIo.unread_read]
        split
        · rw [List.length_nil]
          omega
        · rw [List.length_drop]
          omega
  exact hloop fuel

theorem triple_readUntilToken (p k : Nat) :
    Prog.Triple (Within bound p k) (readUntilToken Line.comm fuel)
      (fun _ => Within bound (p + 20) k) (Again bound p k) := by
  apply TokenReader.triple_readUntilToken StrComm.token_ne_nil
  · exact triple_readUntilSize hb p k 20
  · intro n
    exact (triple_readUntilSize hb (p + 20) k n).mono (fun _ h => h)
      (fun _ _ h => h.mono (by omega)) fun _ _ h => h.mono (by omega)

theorem triple_getReadLen (p k : Nat) :
    Prog.Triple (Within bound p k) (getReadLen Line.comm fuel)
      (fun _ => Within bound (p + 11) k) (Again bound p k) := by
  apply Prog.Triple.bind (triple_readUntilSize hb p k StrComm.lenWidth)
  intro lenStr
  cases Decimal.parseInt lenStr with
  | some n => exact fun _ h => h
  | none => exact fun _ h => ⟨.inl rfl, h.mono (by omega)⟩

theorem triple_tryReadStr (p k : Nat) :
    Prog.Triple (Within bound p k) (tryReadStr Line.comm fuel)
      (fun _ => Within bound (p + 31) k) (Again bound p k) := by
  apply Prog.Triple.bind (triple_readUntilToken hb p k)
  intro _
  apply Prog.Triple.bind ((triple_getReadLen hb (p + 20) k).mono (fun _ h => h)
    (fun _ _ h => h) fun _ _ h => h.mono (by omega))
  intro n
  exact (triple_readUntilSize hb (p + 20 + 11) k n).mono (fun _ h => h)
    (fun _ _ h => h.mono (by omega)) fun _ _ h => h.mono (by omega)

/-- A string that is returned has taken 31 bytes; nothing else leaves `read_str`. -/
theorem triple_readStr (p k : Nat) :
    Prog.Triple (Within bound p k) (readStr Line.comm fuel)
      (fun _ => Within bound (p + 31) k) (fun _ _ => False) := by
  have hloop : ∀ loops, Prog.Triple (Within bound p k) (readStrLoop Line.comm fuel loops)
      (fun _ => Within bound (p + 31) k) (fun _ _ => False) := by
    intro loops
    induction loops with
    | zero => exact Prog.triple_hang
    | succ loops ih =>
      apply Prog.Triple.tryExcept (triple_tryReadStr hb p k)
      · intro e prog hprog
        split at hprog
        · cases hprog
          exact ih.mono (fun _ h => h.2) (fun _ _ h => h) fun _ _ h => h
        · cases hprog
      · rintro e io hnone ⟨he, -⟩
        rcases he with rfl | he
        · simp at hnone
        · simp [he] at hnone
  exact hloop fuel

/-- **A stream that brings few bytes brings few strings.** -/
theorem returned_length_le {p k : Nat} {io : ChunkIo Line} (h : Within bound p k io)
    (calls : Nat) : p + 31 * (returned Line.comm fuel calls io).length ≤ k := by
  induction calls generalizing p io with
  | zero =>
    obtain ⟨n, s, -, -, hle⟩ := h
    simp only [returned, List.length_nil]
    omega
  | succ calls ih =>
    have htriple := triple_readStr hb p k
    cases hrun : readStr Line.comm fuel io with
    | ret s io' =>
      have := ih (htriple.of_ret h hrun)
      rw [returned_ret hrun, List.length_cons]
      omega
    | raised e io' => exact (htriple.of_raised h hrun).elim
    | hang =>
      obtain ⟨n, s, -, -, hle⟩ := h
      rw [returned_hang hrun, List.length_nil]
      omega

end

end InteractiveSessions
