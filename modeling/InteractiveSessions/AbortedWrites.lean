import InteractiveSessions.Line

/-!
# Writes that are aborted between two chunks

The writer reads an ack after every chunk but the first one (and each 10000th).
When that raises, the rest of the message is never sent, and the next message
begins with its own first chunk.  The reader counts payload bytes only: it takes
the next message for the missing end of the aborted one.

* `eq_of_delivered`: the next message arrives only when it equals that mixture;
* `delivers_iff`: every next message arrives exactly when no chunk was missing.
-/

namespace InteractiveSessions

open ChunkComm StrComm

namespace AckedLink

/-- What `read_until_size` writes as the ack of a frame: `hdr[:chunk_id_width]`. -/
def ackOf (frame : Bytes) : Bytes := (frame.drop ChunkComm.token.length).take chunkIdWidth

/-- The methods of a writer whose peer acknowledges the frames, given as the list
of what was written.  Reading the ack of the `j`-th frame of the link raises `e`. -/
def comm (j : Nat) (e : Exc) : Comm (List Bytes) where
  read _ := Prog.hang
  write s := Prog.modify fun frames => frames ++ [s]
  flush := pure ()
  readAck frames :=
    if frames.length = j then .raised e frames
    else .ret (some (ackOf (frames.getLastD []))) frames
  writeAck _ := pure ()

def writer : ChunkIo (List Bytes) := ⟨[], SharedBytesIo.new⟩

/-- The number of chunks that `write_str(m)` sends. -/
def chunkCount (m : Bytes) : Nat := (pieces chunkSize (encode m)).length

variable {j : Nat} {e : Exc}

theorem ackOf_frame {chunk : Bytes} {chunkId : Nat} (hid : chunkId < 10000) :
    ackOf (bytesForChunkWithToken chunk chunkId) = Decimal.format chunkIdWidth chunkId := by
  rw [ackOf, bytesForChunkWithToken]
  simp only [List.append_assoc]
  rw [List.drop_left, hdr, List.append_assoc, List.take_left' (Decimal.format_length hid)]

theorem readAndVerifyAck_last {chunk : Bytes} {chunkId : Nat} (hid : chunkId < 10000)
    {frames : List Bytes} (hj : frames.length + 1 ≠ j) :
    readAndVerifyAck (comm j e) chunkId (frames ++ [bytesForChunkWithToken chunk chunkId]) =
      .ret () (frames ++ [bytesForChunkWithToken chunk chunkId]) := by
  rw [readAndVerifyAck]
  split
  · rfl
  · have hack : (comm j e).readAck (frames ++ [bytesForChunkWithToken chunk chunkId]) =
        .ret (some (Decimal.format chunkIdWidth chunkId))
          (frames ++ [bytesForChunkWithToken chunk chunkId]) := by
      simp only [comm, List.length_append, List.length_singleton, if_neg hj,
        List.getLastD_concat, ackOf_frame hid]
    rw [Prog.bind_ret hack]
    simp only [Decimal.parseInt_format (show 0 < chunkIdWidth by decide) hid]
    rw [if_neg (by simp)]
    rfl

/-- One chunk: its ack may end the write. -/
theorem writeChunks_cons (i : Nat) (p : Bytes) (ps : List Bytes) (frames : List Bytes) :
    writeChunks (comm j e) i (p :: ps) frames =
      if i % 10000 ≠ 0 ∧ frames.length + 1 = j then
        .raised e (frames ++ [bytesForChunkWithToken p (i % 10000)])
      else
        writeChunks (comm j e) (i + 1) ps (frames ++ [bytesForChunkWithToken p (i % 10000)]) := by
  have hid : i % 10000 < 10000 := Nat.mod_lt _ (by decide)
  have hwrite : (comm j e).write (bytesForChunkWithToken p (i % 10000)) frames =
      .ret () (frames ++ [bytesForChunkWithToken p (i % 10000)]) := rfl
  have hflush : (comm j e).flush (frames ++ [bytesForChunkWithToken p (i % 10000)]) =
      .ret () (frames ++ [bytesForChunkWithToken p (i % 10000)]) := rfl
  rw [writeChunks, Prog.bind_ret hwrite, Prog.bind_ret hflush]
  by_cases h0 : i % 10000 = 0
  · rw [if_neg (by simp [h0]), if_neg (by simp [h0])]
  · rw [if_pos h0]
    by_cases hj : frames.length + 1 = j
    · have hack : readAndVerifyAck (comm j e) (i % 10000)
          (frames ++ [bytesForChunkWithToken p (i % 10000)]) =
            .raised e (frames ++ [bytesForChunkWithToken p (i % 10000)]) := by
        rw [readAndVerifyAck, if_neg h0]
        refine Prog.bind_raised ?_
        simp only [comm, List.length_append, List.length_singleton, if_pos hj]
      rw [if_pos ⟨h0, hj⟩, Prog.bind_raised hack]
    · rw [if_neg (by simp [hj]), Prog.bind_ret (readAndVerifyAck_last hid hj)]

theorem writeChunks_ret (i : Nat) (ps : List Bytes)
    (hps : ∀ p ∈ ps, p ≠ [] ∧ p.length ≤ chunkSize) {frames frames' : List Bytes}
    (h : writeChunks (comm j e) i ps frames = .ret () frames') :
    frames' = frames ++ (chunksFrom i ps hps).map Chunk.frame := by
  induction ps generalizing i frames with
  | nil =>
    cases h
    rw [chunksFrom, List.map_nil, List.append_nil]
  | cons p ps ih =>
    rw [writeChunks_cons] at h
    split at h
    · cases h
    · rw [ih _ (fun q hq => hps q (List.mem_cons_of_mem _ hq)) h, chunksFrom, List.map_cons,
        List.append_assoc]
      rfl

/-- An aborted write has sent the frames up to the `j`-th of the link. -/
theorem writeChunks_raised (i : Nat) (ps : List Bytes)
    (hps : ∀ p ∈ ps, p ≠ [] ∧ p.length ≤ chunkSize) {frames frames' : List Bytes} {e' : Exc}
    (h : writeChunks (comm j e) i ps frames = .raised e' frames') :
    frames.length < j ∧ j ≤ frames.length + ps.length ∧
      frames' = frames ++ ((chunksFrom i ps hps).take (j - frames.length)).map Chunk.frame := by
  induction ps generalizing i frames with
  | nil => cases h
  | cons p ps ih =>
    rw [writeChunks_cons] at h
    split at h
    · case isTrue hj =>
      cases h
      have hone : j - frames.length = 1 := by omega
      refine ⟨by omega, by rw [List.length_cons]; omega, ?_⟩
      rw [hone, chunksFrom, List.take_succ_cons, List.take_zero]
      rfl
    · obtain ⟨hlt, hle, rfl⟩ := ih _ (fun q hq => hps q (List.mem_cons_of_mem _ hq)) h
      simp only [List.length_append, List.length_singleton] at hlt hle ⊢
      refine ⟨by omega, by rw [List.length_cons]; omega, ?_⟩
      obtain ⟨k, hk⟩ : ∃ k, j - frames.length = k + 1 := ⟨j - frames.length - 1, by omega⟩
      have hk' : j - (frames.length + 1) = k := by omega
      rw [hk, hk', chunksFrom, List.take_succ_cons, List.map_cons, List.append_assoc]
      rfl

theorem writeStr_ret {m : Bytes} {w w' : ChunkIo (List Bytes)}
    (h : writeStr (comm j e) m w = .ret () w') :
    w'.line = w.line ++ (chunksOf (encode m)).map Chunk.frame := by
  cases hrun : ChunkComm.write (comm j e) (encode m) w.line with
  | ret u t =>
    rw [writeStr, onLine_ret hrun] at h
    cases h
    exact writeChunks_ret 0 _ _ hrun
  | raised e' t =>
    rw [writeStr, onLine_raised hrun] at h
    cases h
  | hang =>
    rw [writeStr, onLine_hang hrun] at h
    cases h

theorem writeStr_raised {m : Bytes} {e' : Exc} {w : ChunkIo (List Bytes)}
    (h : writeStr (comm j e) m writer = .raised e' w) :
    0 < j ∧ j ≤ chunkCount m ∧ w.line = ((chunksOf (encode m)).take j).map Chunk.frame := by
  cases hrun : ChunkComm.write (comm j e) (encode m) writer.line with
  | ret u t =>
    rw [writeStr, onLine_ret hrun] at h
    cases h
  | raised e' t =>
    rw [writeStr, onLine_raised hrun] at h
    cases h
    obtain ⟨hlt, hle, hline⟩ := writeChunks_raised 0 _ (fits_pieces _) hrun
    simp only [writer, List.length_nil, Nat.zero_add, Nat.sub_zero, List.nil_append]
      at hlt hle hline
    exact ⟨hlt, hle, hline⟩
  | hang =>
    rw [writeStr, onLine_hang hrun] at h
    cases h

theorem chunkCount_eq {m : Bytes} (hm : m.length < 10 ^ 11) :
    chunkCount m = (m.length + 31 + chunkSize - 1) / chunkSize := by
  rw [chunkCount, pieces, List.length_map, List.length_range, length_encode hm]

/-- A message of one chunk needs no ack. -/
theorem writeStr_short {m : Bytes} (hm : (encode m).length ≤ chunkSize) (w : ChunkIo (List Bytes)) :
    ∃ w', writeStr (comm j e) m w = .ret () w' := by
  have hpieces : pieces chunkSize (encode m) = [encode m] :=
    pieces_singleton (encode_ne_nil _) hm
  have hrun : ChunkComm.write (comm j e) (encode m) w.line =
      .ret () (w.line ++ [bytesForChunkWithToken (encode m) 0]) := by
    rw [ChunkComm.write, hpieces, writeChunks_cons, if_neg (by simp)]
    rfl
  exact ⟨_, onLine_ret hrun⟩

/-- Every longer message can be aborted after its second chunk. -/
theorem exists_aborted {m : Bytes} (hm : 1 < chunkCount m) :
    ∃ w, writeStr (comm 2 e) m writer = .raised e w := by
  rw [chunkCount] at hm
  match hps : pieces chunkSize (encode m) with
  | [] | [_] => simp [hps] at hm
  | p :: q :: ps =>
    have hrun : ChunkComm.write (comm 2 e) (encode m) [] =
        .raised e [bytesForChunkWithToken p 0, bytesForChunkWithToken q 1] := by
      rw [ChunkComm.write, hps, writeChunks_cons, if_neg (by simp), writeChunks_cons,
        if_pos (by simp)]
      rfl
    exact ⟨_, onLine_raised hrun⟩

/-! ## What the peer reads -/

/-- From these frames the peer's `read_str` returns `m'`, and it returns nothing
but `m` and `m'`. -/
def Delivered (m m' : Bytes) (frames : List Bytes) : Prop :=
  ∀ cut, ∃ enough, ∀ fuel, enough ≤ fuel →
    let io := Line.reader (Line.bytes frames.flatten) cut
    (∀ k, ∀ s ∈ returned Line.comm fuel k io, s = m ∨ s = m') ∧
      ∃ k, m' ∈ returned Line.comm fuel k io

/-- On the link that the write of `m` left behind, every message that is written
completely is delivered. -/
def Delivers (j : Nat) (e : Exc) (m : Bytes) (w : ChunkIo (List Bytes)) : Prop :=
  ∀ m', m'.length < 10 ^ 11 → ∀ w', writeStr (comm j e) m' w = .ret () w' →
    Delivered m m' w'.line

theorem flatten_frames (cs : List Chunk) : (cs.map Chunk.frame).flatten = wire cs :=
  List.flatMap_def.symm

theorem length_chunksOf_encode (m : Bytes) : (chunksOf (encode m)).length = chunkCount m :=
  length_chunksFrom ..

/-- A string starts with a token and the length that the reader takes for its
own: another one when the length does not fit its field. -/
theorem encode_eq (m : Bytes) :
    ∃ n x, encode m = StrComm.token ++ (Decimal.format StrComm.lenWidth n ++ x) ∧ n < 10 ^ 11 ∧
      (m.length < 10 ^ 11 → n = m.length ∧ x = m) ∧
      (10 ^ 11 ≤ m.length → 0 < n ∧ n < m.length) := by
  obtain ⟨n, hn, htake, hshort, hlong⟩ :=
    Decimal.take_format (show 0 < StrComm.lenWidth by decide) m.length
  refine ⟨n, (Decimal.format StrComm.lenWidth m.length).drop StrComm.lenWidth ++ m, ?_, hn,
    fun hm => ⟨hshort hm, ?_⟩, hlong⟩
  · rw [encode, ← htake, ← List.append_assoc (List.take ..), List.take_append_drop,
      List.append_assoc]
  · have hlen : (Decimal.format StrComm.lenWidth m.length).length = StrComm.lenWidth :=
      Decimal.format_length hm
    rw [List.drop_of_length_le hlen.le, List.nil_append]

section
variable {fuel : Nat}

/-- `read_str` takes as many bytes as the length says, whatever they are. -/
theorem readStr_length {n : Nat} (hn : n < 10 ^ StrComm.lenWidth) {y : Bytes} {io : ChunkIo Line}
    (h : Queue (Line.Next [] fuel) fuel
      (StrComm.token ++ (Decimal.format StrComm.lenWidth n ++ y)) io) :
    readStr Line.comm fuel io = .hang ∨ n ≤ y.length ∧ ∃ io',
      readStr Line.comm fuel io = .ret (y.take n) io' ∧
        Queue (Line.Next [] fuel) fuel (y.drop n) io' := by
  have hC := Line.comm_serves [] fuel
  have hR : ∀ xs s, Line.Next [] fuel xs s → xs.length < fuel := fun _ _ h => h.length_lt
  rcases Nat.lt_or_ge y.length n with hlt | hge
  · left
    obtain ⟨io₁, hrun₁, h₁⟩ := readUntilToken_skip hC hR le_rfl StrComm.noGap_nil h
    obtain ⟨io₂, hrun₂, h₂⟩ := getReadLen_format hC hR le_rfl hn h₁
    have hlast := readUntilSize_hang hC hR le_rfl (fun _ => Line.readChunk_end le_rfl) h₂ hlt
    have htry : tryReadStr Line.comm fuel io = .hang := by
      rw [tryReadStr, Prog.bind_ret hrun₁, Prog.bind_ret hrun₂, hlast]
    obtain ⟨loops, hloops⟩ : ∃ k, fuel = k + 1 := ⟨fuel - 1, by have := h.length_lt; omega⟩
    rw [readStr]
    conv_lhs => rw [hloops]
    rw [readStrLoop, ← hloops, Prog.tryExcept_hang htry]
  · right
    have hlen : (y.take n).length = n := List.length_take_of_le hge
    have henc : StrComm.token ++ (Decimal.format StrComm.lenWidth n ++ y) =
        [] ++ (encode (y.take n) ++ y.drop n) := by
      rw [encode, hlen, List.nil_append, List.append_assoc, List.append_assoc,
        List.take_append_drop]
    rw [henc] at h
    obtain ⟨io', hrun, hio'⟩ := readStr_encode hC hR le_rfl StrComm.noGap_nil
      (by rw [hlen]; exact hn) h
    exact ⟨hge, io', hrun, hio'⟩

end

/-- Both messages arrive when no chunk is missing. -/
theorem delivered_of_complete {m m' : Bytes} (hm : m.length < 10 ^ 11) (hm' : m'.length < 10 ^ 11)
    {frames : List Bytes} (h : frames.flatten = wire (chunksOfStrs [m, m'])) :
    Delivered m m' frames := by
  intro cut
  refine ⟨frames.flatten.length + 1, fun fuel hfuel => ?_⟩
  rw [h] at hfuel ⊢
  have hio := Line.queue_reader (show (wire (chunksOfStrs [m, m'])).length < fuel by omega) cut
  rw [payloads_chunksOfStrs] at hio
  have hC := Line.comm_serves [] fuel
  have hR : ∀ xs s, Line.Next [] fuel xs s → xs.length < fuel := fun _ _ h => h.length_lt
  constructor
  · intro k s hs
    have hss : ∀ s ∈ [m, m'], s.length < 10 ^ StrComm.lenWidth := by
      simpa using ⟨hm, hm'⟩
    simpa using returned_strs hC hR le_rfl (fun _ => Line.readChunk_end le_rfl) hss hio k s hs
  · have hqueue : [m, m'].flatMap encode = [] ++ (encode m ++ ([] ++ (encode m' ++ []))) := by simp
    rw [hqueue] at hio
    obtain ⟨io₁, hrun₁, h₁⟩ := readStr_encode hC hR le_rfl StrComm.noGap_nil hm hio
    obtain ⟨io₂, hrun₂, -⟩ := readStr_encode hC hR le_rfl StrComm.noGap_nil hm' h₁
    refine ⟨2, ?_⟩
    rw [returned_ret hrun₁, returned_ret hrun₂]
    simp

section
variable {m m' : Bytes} {frames : List Bytes}

/-- The first string returned from an aborted message and the one after it. -/
theorem Delivered.first (h : Delivered m m' frames) (hj : 0 < j)
    (hframes : frames.flatten = wire ((chunksOf (encode m)).take j ++ chunksOf (encode m')))
    {n : Nat} {x : Bytes} (hn : n < 10 ^ 11)
    (hm : encode m = StrComm.token ++ (Decimal.format StrComm.lenWidth n ++ x)) :
    let y := x.take (j * chunkSize - 31) ++ encode m'
    n ≤ y.length ∧ (y.take n = m ∨ y.take n = m') ∧
      (y.take n = m' ∨ m'.length + 31 ≤ y.length - n) := by
  intro y
  obtain ⟨enough, h⟩ := h fun _ => 0
  have hcount : StrComm.lenWidth + 20 ≤ j * chunkSize := by
    rw [StrComm.lenWidth, chunkSize]
    omega
  have htake : (encode m).take (j * chunkSize) =
      StrComm.token ++ (Decimal.format StrComm.lenWidth n ++ x.take (j * chunkSize - 31)) := by
    have hrest : j * chunkSize - 20 - StrComm.lenWidth = j * chunkSize - 31 := by
      rw [StrComm.lenWidth]
      omega
    have hlen : (Decimal.format StrComm.lenWidth n).length = StrComm.lenWidth :=
      Decimal.format_length hn
    rw [hm, List.take_append, List.take_of_length_le (by rw [StrComm.token_length]; omega),
      StrComm.token_length, List.take_append, List.take_of_length_le (by rw [hlen]; omega), hlen,
      hrest]
  have hfuel : frames.flatten.length < max enough (frames.flatten.length + 1) := by omega
  obtain ⟨honly, k, hk⟩ := h _ (le_max_left enough (frames.flatten.length + 1))
  rw [hframes] at honly hk hfuel
  have hio := Line.queue_reader hfuel fun _ => 0
  rw [payloads_append, payloads_take_chunksOf, payloads_chunksOf, htake, List.append_assoc,
    List.append_assoc] at hio
  rcases readStr_length hn hio with hhang | ⟨hle, io', hrun, hio'⟩
  · rw [returned_hang hhang] at hk
    simp at hk
  · refine ⟨hle, ?_, ?_⟩
    · refine honly 1 _ ?_
      rw [returned_ret hrun]
      exact List.mem_cons_self ..
    · cases k with
      | zero => simp [returned] at hk
      | succ k =>
        rw [returned_ret hrun] at hk
        rcases List.mem_cons.mp hk with heq | hk
        · exact .inl heq.symm
        · have := length_of_returned (Line.comm_serves [] _) (fun _ _ h => h.length_lt) le_rfl
            (fun _ => Line.readChunk_end le_rfl) hio' k _ hk
          rw [List.length_drop] at this
          exact .inr this

/-- **The next message becomes the end of the aborted one.**  It arrives only when
the mixture of the two is the message itself. -/
theorem Delivered.eq_mixture (h : Delivered m m' frames) (hj : 0 < j) (hlt : j < chunkCount m)
    (hframes : frames.flatten = wire ((chunksOf (encode m)).take j ++ chunksOf (encode m')))
    (hm : m.length < 10 ^ 11) (hm' : m'.length < 10 ^ 11) :
    m' = (m.take (j * chunkSize - 31) ++ encode m').take m.length := by
  have henc : encode m =
      StrComm.token ++ (Decimal.format StrComm.lenWidth m.length ++ m) := by
    rw [encode, List.append_assoc]
  obtain ⟨-, -, hor⟩ := h.first hj hframes hm henc
  have hmissing := lt_length_pieces (show 0 < chunkSize by decide) hlt
  rw [length_encode hm] at hmissing
  rcases hor with heq | hle
  · exact heq.symm
  · rw [List.length_append, length_encode hm', List.length_take] at hle
    rw [chunkSize] at hle hmissing
    omega

end

/-- The frames on the link after an aborted write and a complete one. -/
theorem flatten_after {m m' : Bytes} {e' : Exc} {w w' : ChunkIo (List Bytes)}
    (h : writeStr (comm j e) m writer = .raised e' w)
    (h' : writeStr (comm j e) m' w = .ret () w') :
    w'.line.flatten = wire ((chunksOf (encode m)).take j ++ chunksOf (encode m')) := by
  obtain ⟨-, -, hw⟩ := writeStr_raised h
  rw [writeStr_ret h', hw, List.flatten_append, flatten_frames, flatten_frames, wire_append]

/-- **The next message arrives whatever it is exactly when no chunk of the aborted
one is missing** (and its length fits the field for it). -/
theorem delivers_iff {m : Bytes} {e' : Exc} {w : ChunkIo (List Bytes)}
    (h : writeStr (comm j e) m writer = .raised e' w) :
    Delivers j e m w ↔ j = chunkCount m ∧ m.length < 10 ^ 11 := by
  obtain ⟨hj, hle, -⟩ := writeStr_raised h
  constructor
  · intro hall
    obtain ⟨w', hw'⟩ := writeStr_short (j := j) (e := e) (m := []) (by decide) w
    have hdel := hall [] (by decide) w' hw'
    have hframes := flatten_after h hw'
    -- the empty message is taken for bytes of `m`
    obtain ⟨n, x, henc, hn, hshort, hlong⟩ := encode_eq m
    obtain ⟨hlen, hor, -⟩ := hdel.first hj hframes hn henc
    have htake := List.length_take_of_le hlen
    rcases Nat.lt_or_ge m.length (10 ^ 11) with hm | hm
    · refine ⟨?_, hm⟩
      by_contra hne
      have heq := hdel.eq_mixture hj (by omega) hframes hm (by decide)
      have hmissing := lt_length_pieces (show 0 < chunkSize by decide)
        (show j < chunkCount m by omega)
      rw [length_encode hm] at hmissing
      obtain ⟨rfl, rfl⟩ := hshort hm
      rw [← heq, List.length_nil] at htake
      rw [chunkSize] at hmissing
      omega
    · obtain ⟨hpos, hless⟩ := hlong hm
      rcases hor with heq | heq <;> rw [heq] at htake
      · omega
      · rw [List.length_nil] at htake
        omega
  · rintro ⟨rfl, hm⟩ m' hm' w' hw'
    refine delivered_of_complete hm hm' ?_
    rw [flatten_after h hw', ← length_chunksOf_encode, List.take_length]
    simp [chunksOfStrs]

/-- A message of 2000 bytes goes into two chunks; the write is aborted after the
second. -/
theorem delivers_iff_two : ∃ w,
    writeStr (comm 2 .timeout) (List.replicate 2000 0) writer = .raised .timeout w ∧
      (Delivers 2 .timeout (List.replicate 2000 0) w ↔
        2 = chunkCount (List.replicate 2000 0) ∧
          (List.replicate 2000 (0 : Byte)).length < 10 ^ 11) := by
  have hlen : (List.replicate 2000 (0 : Byte)).length = 2000 := List.length_replicate
  obtain ⟨w, hw⟩ := exists_aborted (e := .timeout) (m := List.replicate 2000 0) (by
    rw [chunkCount_eq (by rw [hlen]; decide), hlen]
    decide)
  exact ⟨w, hw, delivers_iff hw⟩

/-- **A message is swallowed.**  After the second of three chunks an ack is not
received; the four bytes written next do not arrive. -/
theorem not_delivered_exit : ∃ w w',
    writeStr (comm 2 .timeout) (List.replicate 4000 0) writer = .raised .timeout w ∧
      writeStr (comm 2 .timeout) (ascii "exit") w = .ret () w' ∧
        ¬ Delivered (List.replicate 4000 0) (ascii "exit") w'.line := by
  have hlen : (List.replicate 4000 (0 : Byte)).length = 4000 := List.length_replicate
  have hcount : chunkCount (List.replicate 4000 0) = 3 := by
    rw [chunkCount_eq (by rw [hlen]; decide), hlen]
    rfl
  obtain ⟨w, hw⟩ := exists_aborted (e := .timeout) (m := List.replicate 4000 0) (by omega)
  obtain ⟨w', hw'⟩ := writeStr_short (j := 2) (e := .timeout) (m := ascii "exit") (by decide) w
  refine ⟨w, w', hw, hw', fun h => ?_⟩
  have heq := h.eq_mixture (by decide) (by omega) (flatten_after hw hw') (by rw [hlen]; decide)
    (by decide)
  have := congrArg List.length heq
  simp only [List.length_take, List.length_append, List.length_replicate,
    length_encode (show (ascii "exit").length < 10 ^ StrComm.lenWidth by decide)] at this
  revert this
  decide

end AckedLink

end InteractiveSessions
