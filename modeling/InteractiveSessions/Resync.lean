import InteractiveSessions.Budget

/-!
# After a loss the reader need not come back to the frames

All tokens of a frame are the same.  A reader that has taken the trailing token
of a frame for the leading one takes the first bytes of the next frame for a
header, goes on after that frame's second token and is, after the frame, again
behind a trailing token: it reads no chunk any more (`brings_behind`).

A loss at the end of a frame leads there, whatever was lost
(`brings_short`, `brings_middle`, `brings_long`), at the latest with the help
of one intact message that contains a token.  So there is no number of messages
after which the reader is in step again: `not_resyncs`.
-/

namespace InteractiveSessions

open ChunkComm StrComm GapToken

/-- A frame that has lost `len` bytes of its payload and its trailing token. -/
structure Damage where
  c : Chunk
  start : Nat
  len : Nat
  len_pos : 0 < len
  within : start + len ≤ c.payload.length + ChunkComm.token.length

/-- The frames of the strings `ms`. -/
def onWire (ms : List Bytes) : Bytes := wire (chunksOfStrs ms)

namespace Damage

variable (d : Damage)

/-- What remains of the payload and the trailing token. -/
def remains : Bytes :=
  (d.c.payload ++ ChunkComm.token).take d.start ++
    (d.c.payload ++ ChunkComm.token).drop (d.start + d.len)

/-- The damaged frame. -/
def frame : Bytes :=
  ChunkComm.token ++ (hdr d.c.id d.c.payload.length ++ (ChunkComm.token ++ d.remains))

def stream (ms : List Bytes) : Bytes := d.frame ++ onWire ms

/-- There is a number of messages after which all intact ones are delivered. -/
def Resyncs : Prop :=
  ∃ N, ∀ ms, (∀ m ∈ ms, (encode m).length ≤ chunkSize) → ∀ cut, ∃ enough, ∀ fuel, enough ≤ fuel →
    ∃ calls, ∀ m ∈ ms.drop N,
      m ∈ returned Line.comm fuel calls (Line.reader (Line.bytes (d.stream ms)) cut)

theorem length_remains : d.remains.length + d.len = d.c.payload.length + 20 := by
  have := d.within
  rw [ChunkComm.token_length] at this
  simp only [remains, List.length_append, List.length_take, List.length_drop,
    ChunkComm.token_length]
  omega

end Damage

/-- The frame of a message that fits in one chunk. -/
theorem onWire_cons {m : Bytes} (hm : (encode m).length ≤ chunkSize) (ms : List Bytes) :
    onWire (m :: ms) = ChunkComm.token ++ (hdr 0 (encode m).length ++ (ChunkComm.token ++
      (encode m ++ (ChunkComm.token ++ onWire ms)))) := by
  have h := chunksOf_eq_singleton (encode_ne_nil m) hm
  rw [onWire, chunksOfStrs, List.flatMap_cons, h]
  exact Chunk.frame_append _ _

/-- A message of one chunk without the first byte of the token. -/
def Plain (m : Bytes) : Prop := caret ∉ m ∧ (encode m).length ≤ chunkSize

/-- **Out of step.**  Behind a trailing token no plain message is read. -/
theorem brings_behind {ms : List Bytes} (hms : ∀ m ∈ ms, Plain m) {w : Bytes} (hw : caret ∉ w) :
    Brings 0 (w ++ (ChunkComm.token ++ onWire ms)) := by
  induction ms generalizing w with
  | nil => exact .last (x := []) (noGap_of_caret hw) (by decide)
  | cons m ms ih =>
    obtain ⟨hm, hlen⟩ := hms m (List.mem_cons_self ..)
    have hrest := ih (fun x hx => hms x (List.mem_cons_of_mem _ hx)) (caret_notMem_encode hm)
    have hd : caret ∉ ChunkComm.token.drop 8 ++ hdr 0 (encode m).length := by
      intro h
      rcases List.mem_append.mp h with h | h
      · revert h
        decide
      · exact caret_notMem_hdr _ _ h
    have hne : ChunkComm.token.drop 8 ++ hdr 0 (encode m).length ≠ [] := by
      intro h
      have := (List.append_eq_nil_iff.mp h).1
      revert this
      decide
    have hsplit : onWire (m :: ms) = ChunkComm.token.take 8 ++
        ((ChunkComm.token.drop 8 ++ hdr 0 (encode m).length) ++
          (ChunkComm.token ++ (encode m ++ (ChunkComm.token ++ onWire ms)))) := by
      rw [onWire_cons hlen, List.append_assoc, ← List.append_assoc (ChunkComm.token.take 8),
        List.take_append_drop]
    rw [hsplit]
    exact .badHdr (noGap_of_caret hw) (by decide) (noGap_of_caret hd) hne hrest

def pad (n : Nat) : Bytes := List.replicate n 120

theorem length_pad (n : Nat) : (pad n).length = n := List.length_replicate

theorem caret_notMem_pad (n : Nat) : caret ∉ pad n := by
  intro h
  have := List.eq_of_mem_replicate h
  revert this
  decide

/-- A message that fills its chunk and contains the token: 1955 bytes of the
payload stand before it, 25 after it. -/
def fat : Bytes := pad 1924 ++ (ChunkComm.token ++ pad 25)

theorem length_fat : fat.length = 1969 := by
  simp only [fat, List.length_append, length_pad, ChunkComm.token_length]

theorem length_encode_fat : (encode fat).length = chunkSize := by
  rw [length_encode (by rw [length_fat]; decide), length_fat]
  rfl

/-- What stands before the token in the payload of `fat`. -/
def fatHead : Bytes :=
  StrComm.token ++ Decimal.format StrComm.lenWidth fat.length ++ pad 1924

theorem encode_fat : encode fat = fatHead ++ (ChunkComm.token ++ pad 25) :=
  (List.append_assoc _ (pad 1924) _).symm

theorem length_fatHead : fatHead.length = 1955 := by
  have h := length_encode_fat
  simp only [encode_fat, List.length_append, length_pad, ChunkComm.token_length, chunkSize] at h
  omega

theorem caret_notMem_fatHead : caret ∉ fatHead := by
  intro h
  rcases List.mem_append.mp h with h | h
  · rcases List.mem_append.mp h with h | h
    · revert h
      decide
    · have := Decimal.mem_format h
      have hcaret : caret.toNat = 94 := rfl
      omega
  · exact caret_notMem_pad _ h

/-- The frame of `fat` and what follows. -/
theorem onWire_fat (ms : List Bytes) :
    onWire (fat :: ms) = ChunkComm.token ++ (hdr 0 2000 ++ (ChunkComm.token ++
      (fatHead ++ (ChunkComm.token ++ (pad 25 ++
        (ChunkComm.token ++ onWire ms)))))) := by
  rw [onWire_cons length_encode_fat.le, length_encode_fat, encode_fat]
  simp only [List.append_assoc]
  rfl

namespace Damage

variable {d : Damage} {ms : List Bytes}

/-- The reader finds the header and reads `q` for the payload. -/
theorem brings_stream {q e s : Bytes} {n : Nat} (hq : q.length = d.c.payload.length)
    (he : NoGap ChunkComm.token e) (hs : Brings n s)
    (h : d.remains ++ onWire ms = q ++ (e ++ (ChunkComm.token ++ s))) :
    Brings (d.c.payload.length + n) (d.stream ms) := by
  have hsplit : d.stream ms = [] ++ (ChunkComm.token ++ (hdr d.c.id q.length ++
      (ChunkComm.token ++ (q ++ (e ++ (ChunkComm.token ++ s)))))) := by
    rw [hq, ← h]
    simp only [stream, frame, List.nil_append, List.append_assoc]
  rw [hsplit, ← hq]
  exact .chunk ChunkComm.noGap_nil d.c.id_lt (hq ▸ d.c.length_payload_lt) he hs

/-- What the reader meets when it has taken the leading token of `fat`. -/
theorem brings_hdr_fat (hms : ∀ m ∈ ms, Plain m) :
    Brings 0 (hdr 0 2000 ++ (ChunkComm.token ++ (fatHead ++ (ChunkComm.token ++
      (pad 25 ++ (ChunkComm.token ++ onWire ms)))))) := by
  have hlen := length_fatHead
  have hd : caret ∉ fatHead.drop 8 := fun h => caret_notMem_fatHead (List.mem_of_mem_drop h)
  have hne : fatHead.drop 8 ≠ [] := by
    rw [← List.length_pos_iff, List.length_drop]
    omega
  rw [← List.take_append_drop 8 fatHead, List.append_assoc]
  refine .badHdr (noGap_of_caret (caret_notMem_hdr _ _)) ?_ (noGap_of_caret hd) hne
    (brings_behind hms (caret_notMem_pad 25))
  exact List.length_take_of_le (by omega)

/-- A loss of at most 20 bytes: the reader takes the leading token of the next
frame for the trailing one. -/
theorem brings_short (hlen : d.len ≤ 20) (hms : ∀ m ∈ ms, Plain m) :
    Brings d.c.payload.length (d.stream (fat :: ms)) := by
  have hremains := d.length_remains
  have hpos := d.len_pos
  have hgap : NoGap ChunkComm.token (d.remains.drop d.c.payload.length) := by
    intro p hp h
    have h1 := gapMatch_length h
    have h2 := hp.length_le
    rw [ChunkComm.token_length] at h1
    rw [List.length_drop] at h2
    omega
  have htake : (d.remains.take d.c.payload.length).length = d.c.payload.length :=
    List.length_take_of_le (by omega)
  refine brings_stream htake hgap (brings_hdr_fat hms) ?_
  rw [onWire_fat, ← List.append_assoc (d.remains.take _), List.take_append_drop]

/-- The payload takes `k` bytes from the next frame, and the next token is the
one behind `g`. -/
theorem brings_next {g s : Bytes} {k : Nat} (hk : d.remains.length + k = d.c.payload.length)
    (hkg : k ≤ g.length) (hg : caret ∉ g.drop k) (hs : Brings 0 s)
    (h : onWire ms = g ++ (ChunkComm.token ++ s)) : Brings d.c.payload.length (d.stream ms) := by
  refine brings_stream (q := d.remains ++ g.take k) ?_ (noGap_of_caret hg) hs ?_
  · rw [List.length_append, List.length_take_of_le hkg, hk]
  · rw [h, List.append_assoc, ← List.append_assoc (g.take k), List.take_append_drop]

/-- The token and the header of a frame from the second byte on. -/
theorem caret_notMem_drop_hdr {k : Nat} (hk : 0 < k) (x : Bytes) (hx : caret ∉ x) :
    caret ∉ (ChunkComm.token ++ x).drop k := by
  obtain ⟨j, rfl⟩ : ∃ j, k = j + 1 := ⟨k - 1, by omega⟩
  intro h
  have htail : ChunkComm.token = caret :: ChunkComm.token.drop 1 := by decide
  rw [htail, List.cons_append, List.drop_succ_cons] at h
  rcases List.mem_append.mp (List.mem_of_mem_drop h) with h | h
  · revert h
    decide
  · exact hx h

/-- A loss of 21 to 48 bytes: the payload ends in the token or the header of the
next frame. -/
theorem brings_middle {m : Bytes} (hlo : 20 < d.len) (hhi : d.len ≤ 48) (hm : Plain m)
    (hms : ∀ m ∈ ms, Plain m) : Brings d.c.payload.length (d.stream (m :: ms)) := by
  have hremains := d.length_remains
  have hhdr : (hdr 0 (encode m).length).length = 8 :=
    hdr_length (by decide) (Nat.lt_of_le_of_lt hm.2 (by decide))
  refine brings_next (g := ChunkComm.token ++ hdr 0 (encode m).length) (k := d.len - 20) (by omega)
    ?_ (caret_notMem_drop_hdr (by omega) _ (caret_notMem_hdr _ _))
    (brings_behind hms (caret_notMem_encode hm.1)) ?_
  · rw [List.length_append, ChunkComm.token_length, hhdr]
    omega
  · rw [onWire_cons hm.2, List.append_assoc]

/-- A longer loss: the payload ends in the payload of the next frame. -/
theorem brings_long (hlen : 48 < d.len) (hms : ∀ m ∈ ms, Plain m) :
    Brings d.c.payload.length (d.stream (fat :: ms)) := by
  have hremains := d.length_remains
  have hpayload := d.c.payload_le
  have hhdr : (hdr 0 2000).length = 8 := hdr_length (by decide) (by decide)
  have hfat := length_fatHead
  rw [chunkSize] at hpayload
  have hg : caret ∉ (ChunkComm.token ++ hdr 0 2000 ++ (ChunkComm.token ++ fatHead)).drop
      (d.len - 20) := by
    rw [List.drop_append, List.drop_eq_nil_of_le, List.nil_append]
    · apply caret_notMem_drop_hdr _ _ caret_notMem_fatHead
      rw [List.length_append, ChunkComm.token_length, hhdr]
      omega
    · rw [List.length_append, ChunkComm.token_length, hhdr]
      omega
  refine brings_next (k := d.len - 20) (by omega) ?_ hg (brings_behind hms (caret_notMem_pad 25)) ?_
  · simp only [List.length_append, ChunkComm.token_length, hhdr, hfat]
    omega
  · rw [onWire_fat]
    simp only [List.append_assoc]

/-- The messages that the reader would have to deliver, all different. -/
def late : List Bytes := (List.range 100).map pad

theorem late_nodup : late.Nodup := by
  refine List.Nodup.map ?_ List.nodup_range
  intro i j h
  rw [← length_pad i, ← length_pad j, h]

theorem plain_pad {n : Nat} (hn : n ≤ 1000) : Plain (pad n) := by
  refine ⟨caret_notMem_pad n, ?_⟩
  have hlt : (pad n).length < 10 ^ StrComm.lenWidth := by
    rw [length_pad, StrComm.lenWidth]
    omega
  rw [length_encode hlt, length_pad, chunkSize]
  omega

/-- A stream that brings no more than the damaged payload has no room for a
hundred messages. -/
theorem not_resyncs_of_brings {first : Bytes} (hfirst : (encode first).length ≤ chunkSize)
    (h : ∀ ms, (∀ m ∈ ms, Plain m) → Brings d.c.payload.length (d.stream (first :: ms))) :
    ¬ d.Resyncs := by
  rintro ⟨N, hN⟩
  let plain := List.replicate N (pad 0) ++ late
  have hplain : ∀ m ∈ plain, Plain m := by
    intro m hm
    rcases List.mem_append.mp hm with hm | hm
    · rw [List.eq_of_mem_replicate hm]
      exact plain_pad (by omega)
    · obtain ⟨i, hi, rfl⟩ := List.mem_map.mp hm
      have := List.mem_range.mp hi
      exact plain_pad (by omega)
  have hfit : ∀ m ∈ first :: plain, (encode m).length ≤ chunkSize := by
    intro m hm
    rcases List.mem_cons.mp hm with rfl | hm
    · exact hfirst
    · exact (hplain m hm).2
  obtain ⟨enough, hrun⟩ := hN (first :: plain) hfit fun _ => 0
  let bound := (d.stream (first :: plain)).length + 1
  obtain ⟨calls, hall⟩ := hrun (max enough bound) (Nat.le_max_left ..)
  -- all of `late` comes after the first `N` messages
  have hsub : late ⊆ returned Line.comm (max enough bound) calls
      (Line.reader (Line.bytes (d.stream (first :: plain))) fun _ => 0) := by
    intro m hm
    apply hall
    have hdrop : (first :: plain).drop (N + 1) = late := by
      rw [List.drop_succ_cons]
      exact List.drop_left' List.length_replicate
    apply List.drop_subset_drop_left (first :: plain) (Nat.le_succ N)
    rw [hdrop]
    exact hm
  have hlate := (late_nodup.subperm hsub).length_le
  have hwithin : Within bound 0 d.c.payload.length
      (Line.reader (Line.bytes (d.stream (first :: plain))) fun _ => 0) := by
    refine ⟨_, _, h plain hplain, ⟨?_, ?_⟩, ?_⟩
    · rw [List.append_nil]
      rfl
    · simp [Line.reader, bound]
    · simp [Line.reader]
  have hfew := returned_length_le (Nat.le_max_right enough bound) hwithin calls
  have hpayload := d.c.payload_le
  rw [late, List.length_map, List.length_range] at hlate
  rw [chunkSize] at hpayload
  omega

/-- **No resynchronisation.**  Whatever part of a frame's payload and trailing
token is lost, there is no number of messages after which all intact messages
are delivered. -/
theorem not_resyncs (d : Damage) : ¬ d.Resyncs := by
  rcases Nat.lt_or_ge 20 d.len with hlo | hshort
  · rcases Nat.lt_or_ge 48 d.len with hlong | hhi
    · exact not_resyncs_of_brings length_encode_fat.le fun _ => brings_long hlong
    · exact not_resyncs_of_brings (plain_pad (n := 0) (by omega)).2 fun _ =>
        brings_middle hlo hhi (plain_pad (by omega))
  · exact not_resyncs_of_brings length_encode_fat.le fun _ => brings_short hshort

/-- The frame of a string of 20 bytes that has lost the last byte of its payload
and its trailing token. -/
def cutOff : Damage where
  c := ⟨0, encode (pad 20), zero_lt_ids, encode_ne_nil _, by decide⟩
  start := 50
  len := 21
  len_pos := by decide
  within := by decide

/-- Plain messages are enough to keep the reader out of step after it. -/
theorem not_resyncs_cutOff : ¬ cutOff.Resyncs :=
  not_resyncs_of_brings (plain_pad (n := 0) (by omega)).2 fun _ =>
    brings_middle (by decide) (by decide) (plain_pad (by omega))

end Damage

end InteractiveSessions
