import InteractiveSessions.Line

/-!
# The chunk reader at the end of file

At the end of file `select` reports the descriptor readable and `os.read`
returns an empty string, which `ServerComm._read` passes on.  The reader takes
it for a short read and reads again.

* `Suffices`: the streams that hold what is asked for, or an attempt that fails;
* `terminates_iff_suffices`: on those, and only on those, the reader stops.
-/

namespace InteractiveSessions

open ChunkComm

namespace Line

/-- `ServerComm._read(n)` on a stream that ends with the end of file. -/
def readEof (n : Nat) : Prog Exc Line Bytes := fun l =>
  match l.stream with
  | [] => .ret [] l
  | _ :: _ => read n l

def eofComm : Comm Line := { comm with read := readEof }

theorem readEof_nil {n : Nat} {l : Line} (h : l.stream = []) : readEof n l = .ret [] l := by
  simp only [readEof, h]

theorem readEof_next {fuel n : Nat} {xs : Bytes} {l : Line} (hn : 0 < n) (hx : xs ≠ [])
    (h : Next [] fuel xs l) :
    ∃ k l', 0 < k ∧ k ≤ n ∧ k ≤ xs.length ∧ readEof n l = .ret (xs.take k) l' ∧
      Next [] fuel (xs.drop k) l' := by
  obtain ⟨k, l', hk0, hkn, hkx, hrun, hl', -⟩ := read_next hn hx (.inr rfl) h
  refine ⟨k, l', hk0, hkn, hkx, ?_, hl'⟩
  obtain ⟨y, ys, rfl⟩ := List.exists_cons_of_ne_nil hx
  have hstream : l.stream = .byte y :: (bytes ys ++ []) := h.1
  simp only [readEof, hstream]
  exact hrun

theorem eofComm_serves (fuel : Nat) : eofComm.Serves (Next [] fuel) where
  read n xs l hn hle h := by
    have hx : xs ≠ [] := List.length_pos_iff.mp (by omega)
    obtain ⟨k, l', hk0, hkn, -, hrun, hl'⟩ := readEof_next hn hx h
    exact ⟨k, l', hk0, hkn, hrun, hl'⟩
  writeAck _ _ l h := ⟨l, rfl, h⟩

/-- A read of more than is left never ends. -/
theorem rawReadLoop_eof {bound n : Nat} (fuel : Nat) (xs : Bytes) (sio : SharedBytesIo) (l : Line)
    (hn : sio.unread.length + xs.length < n) (h : Next [] bound xs l) :
    rawReadLoop eofComm.read fuel n sio l = .hang := by
  induction fuel generalizing xs sio l with
  | zero => rfl
  | succ fuel ih =>
    have harg : ((n : Int) - sio.unread.length).toNat = n - sio.unread.length := by omega
    rw [rawReadLoop, SharedBytesIo.readableSize_eq, if_pos (by omega), harg]
    by_cases hx : xs = []
    · subst hx
      have hrun : eofComm.read (n - sio.unread.length) l = .ret [] l := readEof_nil h.1
      rw [Prog.bind_ret hrun]
      refine ih [] _ l ?_ h
      rwa [SharedBytesIo.unread_write, List.append_nil]
    · obtain ⟨k, l', -, -, hkx, hrun, hl'⟩ := readEof_next (n := n - sio.unread.length)
        (by omega) hx h
      have hrun' : eofComm.read (n - sio.unread.length) l = .ret (xs.take k) l' := hrun
      rw [Prog.bind_ret hrun']
      refine ih (xs.drop k) _ l' ?_ hl'
      simp only [SharedBytesIo.unread_write, List.length_append, List.length_take,
        List.length_drop]
      omega

theorem eofComm_ends (fuel bound : Nat) : Ends eofComm fuel (Next [] bound) none :=
  fun _ xs l h hn => rawReadLoop_eof fuel xs SharedBytesIo.new l (by simpa using hn) h

end Line

/-- With `unread` bytes in the shared buffer the stream holds the rest of the
`n` bytes, or an attempt that fails before them. -/
inductive Suffices (n : Int) : Nat → Bytes → Prop
  | enough {unread : Nat} {xs} : n ≤ unread → Suffices n unread xs
  | fails {unread : Nat} {x v rest} : unread < n → Attempt x v → (∀ d, v ≠ .chunk d) →
      Suffices n unread (x ++ rest)
  | next {unread : Nat} {x d rest} : unread < n → Attempt x (.chunk d) →
      Suffices n (unread + d.length) rest → Suffices n unread (x ++ rest)

namespace Line

variable {bound fuel : Nat}

/-- On a stream that suffices the loop ends. -/
theorem readLoop_suffices (hb : bound ≤ fuel) {n : Int} {unread : Nat} {xs : Bytes}
    (h : Suffices n unread xs) (loops : Nat) (io : ChunkIo Line) (hloops : xs.length < loops)
    (hunread : io.sharedio.unread.length = unread) (hs : Next [] bound xs io.line) :
    readLoop eofComm fuel loops n io ≠ .hang := by
  have hR : ∀ xs s, Next [] bound xs s → xs.length < fuel := fun _ _ h =>
    Nat.lt_of_lt_of_le h.length_lt hb
  induction h generalizing loops io with
  | enough hle =>
    obtain ⟨loops, rfl⟩ : ∃ k, loops = k + 1 := ⟨loops - 1, by omega⟩
    rw [readLoop_succ, hunread, if_neg (by omega)]
    exact fun hhang => by cases hhang
  | fails hlt hx hv =>
    obtain ⟨loops, rfl⟩ : ∃ k, loops = k + 1 := ⟨loops - 1, by omega⟩
    obtain ⟨t, -, hrun⟩ := readChunk_attempt (eofComm_serves bound) hR hx hs
    obtain ⟨e, io₁, hraised⟩ := Verdict.outcome_raised hv io.sharedio t
    rw [readLoop_succ, hunread, if_pos hlt, Prog.bind_raised (hrun.trans hraised)]
    exact fun hhang => by cases hhang
  | @next unread x d rest hlt hx _ ih =>
    obtain ⟨loops, rfl⟩ : ∃ k, loops = k + 1 := ⟨loops - 1, by omega⟩
    have hpos := hx.length_kept_lt
    obtain ⟨t, ht, hrun⟩ := readChunk_attempt (eofComm_serves bound) hR hx hs
    rw [readLoop_succ, hunread, if_pos hlt, Prog.bind_ret hrun]
    refine ih loops _ ?_ ?_ ht
    · rw [List.length_append] at hloops
      omega
    · rw [SharedBytesIo.unread_write, List.length_append, hunread]

/-- On a stream that does not suffice it never ends. -/
theorem readLoop_not_suffices (hb : bound ≤ fuel) {n : Int} (loops : Nat) (xs : Bytes)
    (io : ChunkIo Line) (h : ¬ Suffices n io.sharedio.unread.length xs)
    (hs : Next [] bound xs io.line) : readLoop eofComm fuel loops n io = .hang := by
  have hR : ∀ xs s, Next [] bound xs s → xs.length < fuel := fun _ _ h =>
    Nat.lt_of_lt_of_le h.length_lt hb
  induction loops generalizing xs io with
  | zero => rfl
  | succ loops ih =>
    have hlt : (io.sharedio.unread.length : Int) < n := by
      by_contra hge
      exact h (.enough (by omega))
    rw [readLoop_succ, if_pos hlt]
    rcases incomplete_or_attempt xs with hxs | ⟨x, v, rest, rfl, hx⟩
    · obtain ⟨sharedio, hrun, -⟩ := readChunk_incomplete (eofComm_serves bound).read hR
        (eofComm_ends fuel bound) hxs hs
      exact Prog.bind_hang hrun
    · obtain ⟨d, rfl⟩ : ∃ d, v = .chunk d := by
        by_contra hv
        exact h (.fails hlt hx fun d hd => hv ⟨d, hd⟩)
      obtain ⟨t, ht, hrun⟩ := readChunk_attempt (eofComm_serves bound) hR hx hs
      rw [Prog.bind_ret hrun]
      refine ih rest _ (fun hrest => ?_) ht
      rw [SharedBytesIo.unread_write, List.length_append] at hrest
      exact h (.next hlt hx hrest)

theorem next_of_stream {xs : Bytes} {l : Line} (h : l.stream = bytes xs) {fuel : Nat}
    (hlt : xs.length < fuel) : Next [] fuel xs l :=
  ⟨h.trans (List.append_nil _).symm, by rwa [h, length_bytes]⟩

theorem readUntilSize_not_suffices {n : Int} {xs : Bytes} {io : ChunkIo Line}
    (h : ¬ Suffices n io.sharedio.unread.length xs) (hs : io.line.stream = bytes xs) (fuel : Nat) :
    readUntilSize eofComm fuel n io = .hang := by
  have hlarge : readUntilSize eofComm (fuel + xs.length + 1) n io = .hang :=
    readLoop_not_suffices le_rfl _ xs io h (next_of_stream hs (by omega))
  rcases readUntilSize_mono eofComm (show fuel ≤ fuel + xs.length + 1 by omega) n io with hm | hm
  · exact hm
  · exact hm.trans hlarge

end Line

/-- **End of file.**  The reader stops exactly on the streams that suffice. -/
theorem terminates_iff_suffices (n : Int) (xs written : Bytes) (cut : Nat → Nat)
    (sharedio : SharedBytesIo) :
    (∃ fuel, readUntilSize Line.eofComm fuel n ⟨⟨Line.bytes xs, cut, written⟩, sharedio⟩ ≠ .hang) ↔
      Suffices n sharedio.unread.length xs := by
  constructor
  · rintro ⟨fuel, hfuel⟩
    by_contra hno
    exact hfuel (Line.readUntilSize_not_suffices hno rfl fuel)
  · intro h
    exact ⟨xs.length + 1, Line.readLoop_suffices le_rfl h _ _ (Nat.lt_succ_self _) rfl
      (Line.next_of_stream rfl (Nat.lt_succ_self _))⟩

/-- An empty stream holds what is in the buffer, and no attempt. -/
theorem suffices_nil {n : Int} {unread : Nat} : Suffices n unread [] ↔ n ≤ unread := by
  refine ⟨fun h => ?_, .enough⟩
  generalize hxs : ([] : Bytes) = xs at h
  cases h with
  | enough hle => exact hle
  | fails _ hx _ =>
    have hlt := hx.length_kept_lt
    rw [(List.append_eq_nil_iff.mp hxs.symm).1] at hlt
    exact absurd hlt (Nat.not_lt_zero _)
  | next _ hx _ =>
    have hlt := hx.length_kept_lt
    rw [(List.append_eq_nil_iff.mp hxs.symm).1] at hlt
    exact absurd hlt (Nat.not_lt_zero _)

/-- Nothing comes before the end of file. -/
theorem not_terminates_empty :
    ¬ ∃ fuel, readUntilSize Line.eofComm fuel 1 (Line.reader (Line.bytes []) fun _ => 0) ≠
      .hang := by
  rintro ⟨fuel, hfuel⟩
  have hno : ¬ Suffices 1 (Line.reader (Line.bytes []) fun _ => 0).sharedio.unread.length [] := by
    rw [suffices_nil]
    decide
  exact hfuel (Line.readUntilSize_not_suffices hno rfl fuel)

end InteractiveSessions
