import InteractiveSessions.Lib.Pieces
import InteractiveSessions.SharedBytesIo
import InteractiveSessions.TokenReader

/-!
# `chunkcomm`: byte strings sent as framed chunks

The writer cuts a byte string into chunks of at most 2000 bytes and sends each
as `token header token chunk token`.  The reader collects the chunks in a
`SharedBytesIO` and reads from there.  A transport, given by its methods, is a
parameter (`Comm`); so are the two hooks for acknowledging chunks.
-/

namespace InteractiveSessions

/-- The exceptions of the wire layers. -/
inductive Exc where
  /-- `ChunkReaderError('Buffer: {!r}')` with the content of the shared buffer -/
  | bufferError (buffer : Bytes)
  /-- `ChunkReaderError('Expected chunk_id {chunk_id}, got {ack_chunk_id}')` -/
  | chunkIdError (chunkId : Nat) (ackChunkId : Int)
  /-- `ChunkReaderError('Unable to desirialize chunk_id {chunk_id_str}')` -/
  | deserializeError (chunkIdStr : Bytes)
  | strCommReadError
  /-- `ValueError` of `int(s)` -/
  | valueError (s : Bytes)
  /-- The timeout of a transport. -/
  | timeout
  deriving DecidableEq, Repr

/-- Whether the exception is a `ChunkReaderError`. -/
def Exc.isChunkReaderError : Exc → Bool
  | .bufferError _ | .chunkIdError .. | .deserializeError _ => true
  | .strCommReadError | .valueError _ | .timeout => false

namespace ChunkComm

/-! ## `ChunkIOBase` -/

def chunkSize : Nat := 2000

def token : Bytes := ascii "^)\x7d>?gDYs[ULFqAkSf~|"

def chunkIdWidth : Nat := 4

/-- `len(str(CHUNKSIZE))` -/
def lenWidth : Nat := 4

def hdrLen : Nat := chunkIdWidth + lenWidth

/-- `_hdr_tmpl.format(chunk_id=chunk_id, chunk_len=chunk_len)` -/
def hdr (chunkId chunkLen : Nat) : Bytes :=
  Decimal.format chunkIdWidth chunkId ++ Decimal.format lenWidth chunkLen

/-- The methods that a subclass supplies: the transport (`_read`, `_write`,
`_flush`) and the hooks `_read_ack` (`none` is `NoAck`) and `_write_ack`. -/
structure Comm (τ : Type) where
  read : Nat → Prog Exc τ Bytes
  write : Bytes → Prog Exc τ Unit
  flush : Prog Exc τ Unit
  readAck : Prog Exc τ (Option Bytes)
  writeAck : Bytes → Prog Exc τ Unit

section
variable {τ : Type}

/-! ## `ChunkWriterBase` -/

/-- `_bytes_for_chunk_with_token`, joined -/
def bytesForChunkWithToken (chunk : Bytes) (chunkId : Nat) : Bytes :=
  token ++ hdr chunkId chunk.length ++ token ++ chunk ++ token

def readAndVerifyAck (C : Comm τ) (chunkId : Nat) : Prog Exc τ Unit :=
  if chunkId = 0 then pure ()
  else do
    match ← C.readAck with
    | none => pure ()
    | some chunkIdStr =>
      match Decimal.parseInt chunkIdStr with
      | none => Prog.raise (.deserializeError chunkIdStr)
      | some ackChunkId =>
        if (chunkId : Int) ≠ ackChunkId then Prog.raise (.chunkIdError chunkId ackChunkId)
        else pure ()

/-- The loop of `write`, from the `i`-th chunk on. -/
def writeChunks (C : Comm τ) : Nat → List Bytes → Prog Exc τ Unit
  | _, [] => pure ()
  | i, chunk :: chunks => do
    let chunkId := i % 10000
    C.write (bytesForChunkWithToken chunk chunkId)
    C.flush
    if chunkId ≠ 0 then readAndVerifyAck C chunkId
    writeChunks C (i + 1) chunks

def write (C : Comm τ) (s : Bytes) : Prog Exc τ Unit := writeChunks C 0 (pieces chunkSize s)

/-! ## `ChunkReaderBase` -/

/-- A reader: its transport and its `_sharedio`. -/
structure ChunkIo (τ : Type) where
  line : τ
  sharedio : SharedBytesIo

/-- A method of the transport. -/
def onLine {α : Type} (m : Prog Exc τ α) : Prog Exc (ChunkIo τ) α :=
  Prog.zoom ChunkIo.line (fun t io => { io with line := t }) m

theorem onLine_ret {α : Type} {m : Prog Exc τ α} {io : ChunkIo τ} {a : α} {t : τ}
    (h : m io.line = .ret a t) : onLine m io = .ret a { io with line := t } :=
  Prog.zoom_ret h

theorem onLine_raised {α : Type} {m : Prog Exc τ α} {io : ChunkIo τ} {e : Exc} {t : τ}
    (h : m io.line = .raised e t) : onLine m io = .raised e { io with line := t } :=
  Prog.zoom_raised h

theorem onLine_stopped {α : Type} {m : Prog Exc τ α} {io : ChunkIo τ} {o : Option (Exc × τ)}
    (h : m io.line = Prog.stopped o) :
    onLine m io = Prog.stopped (o.map fun x => (x.1, { io with line := x.2 })) :=
  Prog.zoom_stopped h

theorem onLine_mono {α : Type} {m m' : Prog Exc τ α} (h : m ≤ m') : onLine m ≤ onLine m' :=
  Prog.zoom_mono h

theorem onLine_hang {α : Type} {m : Prog Exc τ α} {io : ChunkIo τ}
    (h : m io.line = .hang) : onLine m io = .hang :=
  Prog.zoom_hang h

/-- The loop of `_read_until_size`. -/
def rawReadLoop (read : Nat → Prog Exc τ Bytes) : Nat → Int → SharedBytesIo → Prog Exc τ Bytes
  | 0, _, _ => Prog.hang
  | fuel + 1, n, sio =>
    if sio.readableSize < n then do
      let s ← read (n - sio.readableSize).toNat
      rawReadLoop read fuel n (sio.write s)
    else pure (sio.read n).1

/-- `_read_until_size`: the bytes read so far are in a buffer of the call. -/
def rawReadUntilSize (read : Nat → Prog Exc τ Bytes) (fuel : Nat) (n : Int) : Prog Exc τ Bytes :=
  rawReadLoop read fuel n SharedBytesIo.new

/-- `_read_token` -/
def readToken (C : Comm τ) (fuel : Nat) : Prog Exc τ Bytes :=
  TokenReader.readUntilToken fuel token fun n => rawReadUntilSize C.read fuel n

def verifyReadToken (C : Comm τ) (fuel : Nat) : Prog Exc (ChunkIo τ) Unit := do
  let s ← onLine (readToken C fuel)
  if s ≠ [] then
    let buffer ← Prog.gets fun io : ChunkIo τ => io.sharedio.value
    Prog.raise (.bufferError buffer)

/-- The loop body of `read_until_size`. -/
def readChunk (C : Comm τ) (fuel : Nat) : Prog Exc (ChunkIo τ) Unit := do
  let _ ← onLine (readToken C fuel)
  let hdr ← onLine (rawReadUntilSize C.read fuel hdrLen)
  verifyReadToken C fuel
  let chunkSizeStr := hdr.drop chunkIdWidth
  match Decimal.parseInt chunkSizeStr with
  | none => Prog.raise (.valueError chunkSizeStr)
  | some chunkSize =>
    let chunk ← onLine (rawReadUntilSize C.read fuel chunkSize)
    Prog.modify fun io => { io with sharedio := io.sharedio.write chunk }
    verifyReadToken C fuel
    let chunkId := hdr.take chunkIdWidth
    if chunkId ≠ ascii "0000" then onLine (C.writeAck chunkId)

/-- `_sharedio.read(n)` -/
def sharedRead (n : Int) : Prog Exc (ChunkIo τ) Bytes := fun io =>
  .ret (io.sharedio.read n).1 { io with sharedio := (io.sharedio.read n).2 }

/-- The loop of `read_until_size`. -/
def readLoop (C : Comm τ) (loops : Nat) : Nat → Int → Prog Exc (ChunkIo τ) Bytes
  | 0, _ => Prog.hang
  | fuel + 1, n => do
    let readableSize ← Prog.gets fun io : ChunkIo τ => io.sharedio.readableSize
    if readableSize < n then
      readChunk C loops
      readLoop C loops fuel n
    else sharedRead n

def readUntilSize (C : Comm τ) (fuel : Nat) (n : Int) : Prog Exc (ChunkIo τ) Bytes :=
  readLoop C fuel fuel n

/-! ## More fuel changes no result -/

theorem rawReadLoop_mono (read : Nat → Prog Exc τ Bytes) {fuel fuel' : Nat} (hle : fuel ≤ fuel')
    (n : Int) (sio : SharedBytesIo) :
    rawReadLoop read fuel n sio ≤ rawReadLoop read fuel' n sio := by
  induction fuel generalizing fuel' sio with
  | zero => exact Prog.hang_le _
  | succ fuel ih =>
    obtain ⟨fuel', rfl⟩ : ∃ n, fuel' = n + 1 := ⟨fuel' - 1, by omega⟩
    exact Prog.ite_mono (Prog.bind_mono (Prog.le_refl _) fun _ => ih (by omega) _)
      (Prog.le_refl _)

section
variable (C : Comm τ) {fuel fuel' : Nat}

theorem readToken_mono (hle : fuel ≤ fuel') : readToken C fuel ≤ readToken C fuel' :=
  TokenReader.readUntilToken_mono (fun n => rawReadLoop_mono C.read hle n _) hle

theorem verifyReadToken_mono (hle : fuel ≤ fuel') :
    verifyReadToken C fuel ≤ verifyReadToken C fuel' :=
  Prog.bind_mono (onLine_mono (readToken_mono C hle)) fun _ => Prog.le_refl _

theorem readChunk_mono (hle : fuel ≤ fuel') : readChunk C fuel ≤ readChunk C fuel' := by
  have hraw : ∀ n, onLine (rawReadUntilSize C.read fuel n) ≤
      onLine (rawReadUntilSize C.read fuel' n) := fun n =>
    onLine_mono (rawReadLoop_mono C.read hle n _)
  refine Prog.bind_mono (onLine_mono (readToken_mono C hle)) fun _ =>
    Prog.bind_mono (hraw _) fun hdr => Prog.bind_mono (verifyReadToken_mono C hle) fun _ => ?_
  dsimp only
  cases Decimal.parseInt (hdr.drop chunkIdWidth) with
  | none => exact Prog.le_refl _
  | some n =>
    exact Prog.bind_mono (hraw n) fun _ => Prog.bind_mono (Prog.le_refl _) fun _ =>
      Prog.bind_mono (verifyReadToken_mono C hle) fun _ => Prog.le_refl _

theorem readLoop_mono (hle : fuel ≤ fuel') {loops loops' : Nat} (hloops : loops ≤ loops')
    (n : Int) : readLoop C fuel loops n ≤ readLoop C fuel' loops' n := by
  induction loops generalizing loops' with
  | zero => exact Prog.hang_le _
  | succ loops ih =>
    obtain ⟨loops', rfl⟩ : ∃ n, loops' = n + 1 := ⟨loops' - 1, by omega⟩
    exact Prog.bind_mono (Prog.le_refl _) fun _ =>
      Prog.ite_mono (Prog.bind_mono (readChunk_mono C hle) fun _ => ih (by omega))
        (Prog.le_refl _)

theorem readUntilSize_mono (hle : fuel ≤ fuel') (n : Int) :
    readUntilSize C fuel n ≤ readUntilSize C fuel' n :=
  readLoop_mono C hle hle n

end

/-! ## The tokens and headers on the wire -/

theorem token_nodup : token.Nodup := by decide

theorem token_length : token.length = 20 := by decide

theorem token_ne_nil : token ≠ [] := by decide

/-- The first byte of the token. -/
def caret : Byte := 94

theorem caret_mem_token : caret ∈ token := by decide

theorem hdr_length {chunkId chunkLen : Nat} (hid : chunkId < 10000) (hlen : chunkLen < 10000) :
    (hdr chunkId chunkLen).length = hdrLen := by
  rw [hdr, List.length_append, Decimal.format_length hid, Decimal.format_length hlen, hdrLen]

theorem hdr_take {chunkId chunkLen : Nat} (hid : chunkId < 10000) :
    (hdr chunkId chunkLen).take chunkIdWidth = Decimal.format chunkIdWidth chunkId :=
  List.take_left' (Decimal.format_length hid)

theorem hdr_drop {chunkId chunkLen : Nat} (hid : chunkId < 10000) :
    (hdr chunkId chunkLen).drop chunkIdWidth = Decimal.format lenWidth chunkLen :=
  List.drop_left' (Decimal.format_length hid)

/-- A text without the first byte of the token has no gap occurrence of it. -/
theorem noGap_of_caret {w : Bytes} (hw : caret ∉ w) : GapToken.NoGap token w :=
  GapToken.noGap_of_notMem caret_mem_token hw

theorem noGap_nil : GapToken.NoGap token [] := noGap_of_caret List.not_mem_nil

theorem caret_notMem_hdr (chunkId chunkLen : Nat) : caret ∉ hdr chunkId chunkLen := by
  intro h
  rcases List.mem_append.mp h with h | h <;>
  · have := Decimal.mem_format h
    have hcaret : caret.toNat = 94 := rfl
    omega

theorem length_bytesForChunkWithToken {chunk : Bytes} {chunkId : Nat} (hid : chunkId < 10000)
    (hlen : chunk.length < 10000) :
    (bytesForChunkWithToken chunk chunkId).length = chunk.length + 68 := by
  simp only [bytesForChunkWithToken, List.length_append, token_length, hdr_length hid hlen, hdrLen,
    chunkIdWidth, lenWidth]
  omega

/-! ## Reading from a transport that delivers -/

/-- Whenever the bytes `xs` come next (`R xs`), a read of at most that many
bytes delivers some of them. -/
def Delivers (read : Nat → Prog Exc τ Bytes) (R : Bytes → τ → Prop) : Prop :=
  ∀ n xs s, 0 < n → n ≤ xs.length → R xs s →
    ∃ k s', 0 < k ∧ k ≤ n ∧ read n s = .ret (xs.take k) s' ∧ R (xs.drop k) s'

section
variable {read : Nat → Prog Exc τ Bytes} {R : Bytes → τ → Prop}

theorem rawReadLoop_ret (hread : Delivers read R) {ys : Bytes} (fuel : Nat) (xs : Bytes)
    (sio : SharedBytesIo) (s : τ) (hfuel : xs.length < fuel) (hs : R (xs ++ ys) s) :
    ∃ s', rawReadLoop read fuel (sio.unread.length + xs.length : Nat) sio s =
      .ret (sio.unread ++ xs) s' ∧ R ys s' := by
  induction fuel generalizing xs sio s with
  | zero => omega
  | succ fuel ih =>
    by_cases hx : xs = []
    · subst hx
      refine ⟨s, ?_, hs⟩
      rw [rawReadLoop, SharedBytesIo.readableSize_eq, if_neg (by simp), Prog.pure_run,
        SharedBytesIo.read_fst, if_neg (by omega)]
      simp
    · have hpos : 0 < xs.length := List.length_pos_iff.mpr hx
      obtain ⟨k, s₁, hk0, hkn, hrd, hs₁⟩ := hread xs.length (xs ++ ys) s hpos (by simp) hs
      rw [List.take_append_of_le_length hkn] at hrd
      rw [List.drop_append_of_le_length hkn] at hs₁
      obtain ⟨s₂, hrun, hs₂⟩ := ih (xs.drop k) (sio.write (xs.take k)) s₁
        (by rw [List.length_drop]; omega) hs₁
      have hlen : (sio.write (xs.take k)).unread.length + (xs.drop k).length =
          sio.unread.length + xs.length := by
        simp only [SharedBytesIo.unread_write, List.length_append, List.length_take,
          List.length_drop]
        omega
      rw [hlen, SharedBytesIo.unread_write, List.append_assoc, List.take_append_drop] at hrun
      refine ⟨s₂, ?_, hs₂⟩
      have harg : (((sio.unread.length + xs.length : Nat) : Int) - sio.unread.length).toNat =
          xs.length := by omega
      rw [rawReadLoop, SharedBytesIo.readableSize_eq, if_pos (by omega), harg,
        Prog.bind_ret hrd, hrun]

theorem rawReadUntilSize_ret (hread : Delivers read R) {fuel : Nat} {xs ys : Bytes} {s : τ}
    (hfuel : xs.length < fuel) (hs : R (xs ++ ys) s) :
    ∃ s', rawReadUntilSize read fuel xs.length s = .ret xs s' ∧ R ys s' := by
  have h := rawReadLoop_ret hread fuel xs SharedBytesIo.new s hfuel hs
  simpa [rawReadUntilSize] using h

end

/-! ## Reading one frame -/

/-- A chunk that the writer can send. -/
structure Chunk where
  id : Nat
  payload : Bytes
  id_lt : id < 10000
  payload_ne : payload ≠ []
  payload_le : payload.length ≤ chunkSize

def Chunk.frame (c : Chunk) : Bytes := bytesForChunkWithToken c.payload c.id

/-- The frame up to the end of its payload. -/
def Chunk.opened (c : Chunk) : Bytes :=
  token ++ (hdr c.id c.payload.length ++ (token ++ c.payload))

theorem Chunk.length_payload_lt (c : Chunk) : c.payload.length < 10000 :=
  Nat.lt_of_le_of_lt c.payload_le (by decide)

theorem Chunk.length_frame (c : Chunk) : c.frame.length = c.payload.length + 68 :=
  length_bytesForChunkWithToken c.id_lt c.length_payload_lt

theorem Chunk.opened_append (c : Chunk) (rest : Bytes) :
    c.opened ++ rest = token ++ (hdr c.id c.payload.length ++ (token ++ (c.payload ++ rest))) := by
  simp only [Chunk.opened, List.append_assoc]

theorem Chunk.frame_append (c : Chunk) (rest : Bytes) :
    c.frame ++ rest = token ++ (hdr c.id c.payload.length ++
      (token ++ (c.payload ++ (token ++ rest)))) := by
  simp only [Chunk.frame, bytesForChunkWithToken, List.append_assoc]

theorem Chunk.length_opened (c : Chunk) : c.opened.length = c.payload.length + 48 := by
  simp only [Chunk.opened, List.length_append, token_length,
    hdr_length c.id_lt c.length_payload_lt, hdrLen, chunkIdWidth, lenWidth]
  omega

/-- The methods work while the stream lasts: reads deliver, acks are accepted. -/
structure Comm.Serves (C : Comm τ) (R : Bytes → τ → Prop) : Prop where
  read : Delivers C.read R
  writeAck : ∀ id xs s, R xs s → ∃ s', C.writeAck id s = .ret () s' ∧ R xs s'

section
variable {C : Comm τ} {R : Bytes → τ → Prop} {fuel : Nat}

/-- The law of `_read_until_size` that the token reader asks for. -/
theorem rawRead_law (hread : Delivers C.read R) (hR : ∀ xs s, R xs s → xs.length < fuel)
    (xs ys : Bytes) (s : τ) (hs : R (xs ++ ys) s) :
    ∃ s', rawReadUntilSize C.read fuel xs.length s = .ret xs s' ∧ R ys s' := by
  have := hR _ _ hs
  rw [List.length_append] at this
  exact rawReadUntilSize_ret hread (by omega) hs

theorem readToken_skip (hread : Delivers C.read R) (hR : ∀ xs s, R xs s → xs.length < fuel)
    {w rest : Bytes} (hw : GapToken.NoGap token w) {s : τ} (hs : R (w ++ (token ++ rest)) s) :
    ∃ s', readToken C fuel s = .ret w s' ∧ R rest s' := by
  have hlen := hR _ _ hs
  simp only [List.length_append] at hlen
  exact TokenReader.readUntilToken_append token_nodup token_ne_nil (rawRead_law hread hR) hw
    (by omega) hs

theorem verifyReadToken_ok (hread : Delivers C.read R) (hR : ∀ xs s, R xs s → xs.length < fuel)
    {rest : Bytes} (io : ChunkIo τ) (hs : R (token ++ rest) io.line) :
    ∃ t, verifyReadToken C fuel io = .ret () { io with line := t } ∧ R rest t := by
  obtain ⟨t, hrun, ht⟩ := readToken_skip hread hR (w := []) noGap_nil hs
  refine ⟨t, ?_, ht⟩
  rw [verifyReadToken, Prog.bind_ret (onLine_ret hrun)]
  rfl

/-- Up to the end of the payload: a header with the payload's length, after
bytes without a gap occurrence of the token. -/
theorem readChunk_opened (hread : Delivers C.read R) (hR : ∀ xs s, R xs s → xs.length < fuel)
    {w q rest : Bytes} (hw : GapToken.NoGap token w) {chunkId : Nat} (hid : chunkId < 10000)
    (hq : q.length < 10000) {io : ChunkIo τ}
    (hs : R (w ++ (token ++ (hdr chunkId q.length ++ (token ++ (q ++ rest))))) io.line) :
    ∃ t, R rest t ∧ readChunk C fuel io =
      (do
        verifyReadToken C fuel
        if Decimal.format chunkIdWidth chunkId ≠ ascii "0000" then
          onLine (C.writeAck (Decimal.format chunkIdWidth chunkId)))
        ⟨t, io.sharedio.write q⟩ := by
  obtain ⟨t₁, hrun₁, ht₁⟩ := readToken_skip hread hR hw hs
  obtain ⟨t₂, hrun₂, ht₂⟩ := rawRead_law hread hR _ _ _ ht₁
  rw [hdr_length hid hq] at hrun₂
  obtain ⟨t₃, hrun₃, ht₃⟩ := verifyReadToken_ok hread hR ⟨t₂, io.sharedio⟩ ht₂
  obtain ⟨t₄, hrun₄, ht₄⟩ := rawRead_law hread hR _ _ _ ht₃
  have hsize : Decimal.parseInt ((hdr chunkId q.length).drop chunkIdWidth) =
      some (q.length : Int) := by
    rw [hdr_drop hid]
    exact Decimal.parseInt_format (by decide) hq
  refine ⟨t₄, ht₄, ?_⟩
  rw [readChunk, Prog.bind_ret (onLine_ret hrun₁), Prog.bind_ret (onLine_ret hrun₂),
    Prog.bind_ret hrun₃, hsize]
  simp only
  rw [Prog.bind_ret (onLine_ret hrun₄), Prog.bind_ret (Prog.modify_run ..), hdr_take hid]

theorem readChunk_accept (hC : C.Serves R) (hR : ∀ xs s, R xs s → xs.length < fuel)
    {w q rest : Bytes} (hw : GapToken.NoGap token w) {chunkId : Nat} (hid : chunkId < 10000)
    (hq : q.length < 10000) {io : ChunkIo τ}
    (hs : R (w ++ (token ++ (hdr chunkId q.length ++ (token ++ (q ++ (token ++ rest)))))) io.line) :
    ∃ t, readChunk C fuel io = .ret () ⟨t, io.sharedio.write q⟩ ∧ R rest t := by
  obtain ⟨t₁, ht₁, hrun₁⟩ := readChunk_opened hC.read hR hw hid hq hs
  obtain ⟨t₂, hrun₂, ht₂⟩ := verifyReadToken_ok hC.read hR ⟨t₁, io.sharedio.write q⟩ ht₁
  rw [hrun₁, Prog.bind_ret hrun₂]
  split
  · obtain ⟨t₃, hrun₃, ht₃⟩ := hC.writeAck (Decimal.format chunkIdWidth chunkId) _ _ ht₂
    exact ⟨t₃, onLine_ret hrun₃, ht₃⟩
  · exact ⟨t₂, rfl, ht₂⟩

/-- **Frame rule.**  After bytes without a gap occurrence of the token, an intact
frame adds its payload to the shared buffer and is consumed to its end. -/
theorem readChunk_frame (hC : C.Serves R) (hR : ∀ xs s, R xs s → xs.length < fuel)
    {w rest : Bytes} (hw : GapToken.NoGap token w) (c : Chunk) {io : ChunkIo τ}
    (hs : R (w ++ (c.frame ++ rest)) io.line) :
    ∃ t, readChunk C fuel io = .ret () ⟨t, io.sharedio.write c.payload⟩ ∧ R rest t := by
  rw [c.frame_append] at hs
  exact readChunk_accept hC hR hw c.id_lt c.length_payload_lt hs

end

/-! ## Reading from a sequence of intact frames -/

def wire (cs : List Chunk) : Bytes := cs.flatMap Chunk.frame

def payloads (cs : List Chunk) : Bytes := cs.flatMap Chunk.payload

@[simp] theorem wire_nil : wire [] = [] := rfl

@[simp] theorem wire_cons (c : Chunk) (cs : List Chunk) : wire (c :: cs) = c.frame ++ wire cs :=
  rfl

@[simp] theorem wire_append (cs ds : List Chunk) : wire (cs ++ ds) = wire cs ++ wire ds :=
  List.flatMap_append

@[simp] theorem payloads_nil : payloads [] = [] := rfl

@[simp] theorem payloads_cons (c : Chunk) (cs : List Chunk) :
    payloads (c :: cs) = c.payload ++ payloads cs := rfl

@[simp] theorem payloads_append (cs ds : List Chunk) :
    payloads (cs ++ ds) = payloads cs ++ payloads ds := List.flatMap_append

theorem length_payloads_le (cs : List Chunk) : (payloads cs).length ≤ (wire cs).length := by
  induction cs with
  | nil => exact le_rfl
  | cons c cs ih =>
    simp only [payloads_cons, wire_cons, List.length_append, c.length_frame]
    omega

theorem length_le_wire (cs : List Chunk) : cs.length ≤ (wire cs).length := by
  induction cs with
  | nil => exact le_rfl
  | cons c cs ih =>
    simp only [List.length_cons, wire_cons, List.length_append, c.length_frame]
    omega

theorem payloads_eq_nil {cs : List Chunk} (h : payloads cs = []) : cs = [] := by
  cases cs with
  | nil => rfl
  | cons c cs => exact absurd (List.append_eq_nil_iff.mp h).1 c.payload_ne

/-- The bytes `xs` come next: first those in the shared buffer, then the
payloads of frames on the line, less than `bound` bytes in all.  There may be
rubbish before the first frame. -/
def Queue (R : Bytes → τ → Prop) (bound : Nat) (xs : Bytes) (io : ChunkIo τ) : Prop :=
  ∃ w cs, GapToken.NoGap token w ∧ (cs = [] → w = []) ∧ R (w ++ wire cs) io.line ∧
    io.sharedio.unread.length + (w ++ wire cs).length < bound ∧
    xs = io.sharedio.unread ++ payloads cs

section
variable {C : Comm τ} {R : Bytes → τ → Prop} {fuel bound : Nat}

theorem Queue.length_lt {xs : Bytes} {io : ChunkIo τ} (h : Queue R bound xs io) :
    xs.length < bound := by
  obtain ⟨w, cs, -, -, -, hlen, rfl⟩ := h
  have := length_payloads_le cs
  rw [List.length_append] at hlen ⊢
  omega

/-- Once every byte is read, buffer and line are used up. -/
theorem Queue.nil {io : ChunkIo τ} (h : Queue R bound [] io) :
    io.sharedio.unread = [] ∧ R [] io.line := by
  obtain ⟨w, cs, -, hw, hR, -, hxs⟩ := h
  obtain ⟨hu, hp⟩ := List.append_eq_nil_iff.mp hxs.symm
  obtain rfl := payloads_eq_nil hp
  obtain rfl := hw rfl
  exact ⟨hu, hR⟩

theorem readLoop_succ {n : Int} {loops : Nat} {io : ChunkIo τ} :
    readLoop C fuel (loops + 1) n io =
      if (io.sharedio.unread.length : Int) < n then
        (do readChunk C fuel; readLoop C fuel loops n : Prog Exc (ChunkIo τ) Bytes) io
      else sharedRead n io := by
  rw [readLoop, Prog.bind_ret (Prog.gets_run ..), SharedBytesIo.readableSize_eq]
  split <;> rfl

theorem readLoop_enough {n loops : Nat} {io : ChunkIo τ}
    (h : n ≤ io.sharedio.unread.length) :
    readLoop C fuel (loops + 1) n io = .ret (io.sharedio.unread.take n)
      ⟨io.line, (io.sharedio.read n).2⟩ := by
  rw [readLoop_succ, if_neg (by omega), sharedRead, SharedBytesIo.read_fst, if_neg (by omega),
    Int.toNat_natCast]

theorem readLoop_more {n loops : Nat} {io : ChunkIo τ}
    (h : io.sharedio.unread.length < n) :
    readLoop C fuel (loops + 1) n io =
      (do readChunk C fuel; readLoop C fuel loops n : Prog Exc (ChunkIo τ) Bytes) io := by
  rw [readLoop_succ, if_pos (by omega)]

theorem readLoop_queue (hC : C.Serves R) (hR : ∀ xs s, R xs s → xs.length < fuel)
    {xs ys : Bytes} (loops : Nat) (w : Bytes) (cs : List Chunk) (io : ChunkIo τ)
    (hloops : cs.length < loops) (hw : GapToken.NoGap token w) (hwcs : cs = [] → w = [])
    (hs : R (w ++ wire cs) io.line)
    (hlen : io.sharedio.unread.length + (w ++ wire cs).length < bound)
    (hxs : xs ++ ys = io.sharedio.unread ++ payloads cs) :
    ∃ io', readLoop C fuel loops xs.length io = .ret xs io' ∧ Queue R bound ys io' := by
  induction loops generalizing w cs io with
  | zero => omega
  | succ loops ih =>
    rcases Nat.lt_or_ge io.sharedio.unread.length xs.length with hlt | hge
    · -- one more chunk is needed
      rw [readLoop_more hlt]
      cases cs with
      | nil =>
        have := congrArg List.length hxs
        simp only [List.length_append, payloads_nil, List.length_nil] at this
        omega
      | cons c cs =>
        rw [List.length_append, wire_cons, List.length_append, c.length_frame] at hlen
        rw [List.length_cons] at hloops
        obtain ⟨t, hrun, ht⟩ := readChunk_frame hC hR hw c hs
        rw [Prog.bind_ret hrun]
        refine ih [] cs _ (by omega) noGap_nil (fun _ => rfl) ht ?_ ?_
        · rw [SharedBytesIo.unread_write, List.length_append, List.nil_append]
          omega
        · rw [hxs, SharedBytesIo.unread_write, List.append_assoc, payloads_cons]
    · have htake := congrArg (List.take xs.length) hxs
      have hdrop := congrArg (List.drop xs.length) hxs
      rw [List.take_left, List.take_append_of_le_length hge] at htake
      rw [List.drop_left, List.drop_append_of_le_length hge] at hdrop
      have hunread : (io.sharedio.read xs.length).2.unread = io.sharedio.unread.drop xs.length := by
        rw [SharedBytesIo.unread_read, if_neg (by omega), Int.toNat_natCast]
      refine ⟨⟨io.line, (io.sharedio.read xs.length).2⟩, ?_, w, cs, hw, hwcs, hs, ?_, ?_⟩
      · rw [readLoop_enough hge, ← htake]
      · simp only [hunread, List.length_drop]
        omega
      · simp only [hunread, hdrop]

/-- **The chunk layer is a byte queue.**  Over intact frames
`read_until_size` returns the next bytes of the joined payloads. -/
theorem readUntilSize_queue (hC : C.Serves R) (hR : ∀ xs s, R xs s → xs.length < fuel)
    (hb : bound ≤ fuel) (xs ys : Bytes) (io : ChunkIo τ) (h : Queue R bound (xs ++ ys) io) :
    ∃ io', readUntilSize C fuel xs.length io = .ret xs io' ∧ Queue R bound ys io' := by
  obtain ⟨w, cs, hw, hwcs, hs, hlen, hxs⟩ := h
  have := length_le_wire cs
  rw [List.length_append] at hlen
  exact readLoop_queue hC hR fuel w cs io (by omega) hw hwcs hs
    (by rw [List.length_append]; exact hlen) hxs

end

/-! ## What the writer sends -/

theorem zero_lt_ids : 0 < 10000 := by decide

theorem fits_pieces (s : Bytes) : ∀ p ∈ pieces chunkSize s, p ≠ [] ∧ p.length ≤ chunkSize :=
  fun _ hp => mem_pieces (by decide) hp

theorem fits_of_cons {q : Bytes} {ps : List Bytes}
    (h : ∀ p ∈ q :: ps, p ≠ [] ∧ p.length ≤ chunkSize) :
    ∀ p ∈ ps, p ≠ [] ∧ p.length ≤ chunkSize := fun p hp => h p (List.mem_cons_of_mem _ hp)

/-- The chunks of the `i`-th and the following pieces. -/
def chunksFrom : (i : Nat) → (ps : List Bytes) → (∀ p ∈ ps, p ≠ [] ∧ p.length ≤ chunkSize) →
    List Chunk
  | _, [], _ => []
  | i, p :: ps, h =>
    ⟨i % 10000, p, Nat.mod_lt _ (by decide), (h p (List.mem_cons_self ..)).1,
      (h p (List.mem_cons_self ..)).2⟩ ::
      chunksFrom (i + 1) ps (fits_of_cons h)

def chunksOf (s : Bytes) : List Chunk :=
  chunksFrom 0 (pieces chunkSize s) (fits_pieces s)

/-- A string of at most 2000 bytes goes into one chunk. -/
theorem chunksOf_eq_singleton {s : Bytes} (hne : s ≠ []) (hle : s.length ≤ chunkSize) :
    chunksOf s = [⟨0, s, zero_lt_ids, hne, hle⟩] := by
  have h := pieces_singleton hne hle
  simp only [chunksOf, h, chunksFrom, Nat.zero_mod]

theorem map_payload_chunksFrom (i : Nat) (ps : List Bytes)
    (h : ∀ p ∈ ps, p ≠ [] ∧ p.length ≤ chunkSize) : (chunksFrom i ps h).map Chunk.payload = ps := by
  induction ps generalizing i with
  | nil => rfl
  | cons p ps ih => rw [chunksFrom, List.map_cons, ih]

theorem payloads_chunksFrom (i : Nat) (ps : List Bytes)
    (h : ∀ p ∈ ps, p ≠ [] ∧ p.length ≤ chunkSize) : payloads (chunksFrom i ps h) = ps.flatten := by
  induction ps generalizing i with
  | nil => rfl
  | cons p ps ih => rw [chunksFrom, payloads_cons, ih, List.flatten_cons]

theorem payloads_chunksOf (s : Bytes) : payloads (chunksOf s) = s := by
  rw [chunksOf, payloads_chunksFrom, pieces_flatten (by decide)]

theorem length_chunksFrom (i : Nat) (ps : List Bytes)
    (h : ∀ p ∈ ps, p ≠ [] ∧ p.length ≤ chunkSize) : (chunksFrom i ps h).length = ps.length := by
  rw [← List.length_map (f := Chunk.payload), map_payload_chunksFrom]

/-- The ids are consecutive. -/
theorem isChain_chunksFrom (i : Nat) (ps : List Bytes)
    (h : ∀ p ∈ ps, p ≠ [] ∧ p.length ≤ chunkSize) :
    (chunksFrom i ps h).IsChain fun c c' => c'.id = (c.id + 1) % 10000 := by
  induction ps generalizing i with
  | nil => exact .nil
  | cons p ps ih =>
    rw [chunksFrom, List.isChain_cons]
    refine ⟨?_, ih _ _⟩
    cases ps with
    | nil => nofun
    | cons q ps =>
      rintro c ⟨⟩
      exact (Nat.mod_add_mod i 10000 1).symm

/-- All chunks but the last one are full. -/
theorem isChain_chunksOf (s : Bytes) :
    (chunksOf s).IsChain fun c _ => c.payload.length = chunkSize := by
  have h := isChain_pieces (show 0 < chunkSize by decide) s
  rw [← map_payload_chunksFrom 0 (pieces chunkSize s) (fits_pieces s),
    List.isChain_map] at h
  exact h

theorem chunksOf_head_full {s : Bytes} {c c' : Chunk} {cs : List Chunk}
    (h : chunksOf s = c :: c' :: cs) : c.payload.length = chunkSize := by
  have hchain := isChain_chunksOf s
  rw [h, List.isChain_cons_cons] at hchain
  exact hchain.1

theorem payloads_take_chunksFrom (j i : Nat) (ps : List Bytes)
    (h : ∀ p ∈ ps, p ≠ [] ∧ p.length ≤ chunkSize) :
    payloads ((chunksFrom i ps h).take j) = (ps.take j).flatten := by
  induction ps generalizing i j with
  | nil => simp [chunksFrom]
  | cons p ps ih =>
    cases j with
    | zero => simp
    | succ j => rw [chunksFrom, List.take_succ_cons, payloads_cons, ih, List.take_succ_cons,
        List.flatten_cons]

/-- The first `j` chunks carry the first bytes. -/
theorem payloads_take_chunksOf (j : Nat) (s : Bytes) :
    payloads ((chunksOf s).take j) = s.take (j * chunkSize) := by
  rw [chunksOf, payloads_take_chunksFrom, take_pieces_flatten (by decide)]

section
variable {C : Comm τ} {W : Bytes → τ → Prop}

/-- Writes append to what was written, and no acks are read. -/
structure Comm.Records (C : Comm τ) (W : Bytes → τ → Prop) : Prop where
  write : ∀ xs s t, W xs t → ∃ t', C.write s t = .ret () t' ∧ W (xs ++ s) t'
  flush : ∀ xs t, W xs t → ∃ t', C.flush t = .ret () t' ∧ W xs t'
  readAck : ∀ t, C.readAck t = .ret none t

theorem readAndVerifyAck_none (h : C.Records W) (chunkId : Nat) (t : τ) :
    readAndVerifyAck C chunkId t = .ret () t := by
  rw [readAndVerifyAck]
  split
  · rfl
  · rw [Prog.bind_ret (h.readAck t)]
    rfl

theorem writeChunks_wire (h : C.Records W) (i : Nat) (ps : List Bytes)
    (hps : ∀ p ∈ ps, p ≠ [] ∧ p.length ≤ chunkSize) {xs : Bytes} {t : τ} (ht : W xs t) :
    ∃ t', writeChunks C i ps t = .ret () t' ∧ W (xs ++ wire (chunksFrom i ps hps)) t' := by
  induction ps generalizing i xs t with
  | nil => exact ⟨t, rfl, by simpa [chunksFrom] using ht⟩
  | cons p ps ih =>
    obtain ⟨t₁, hrun₁, ht₁⟩ := h.write _ (bytesForChunkWithToken p (i % 10000)) _ ht
    obtain ⟨t₂, hrun₂, ht₂⟩ := h.flush _ _ ht₁
    obtain ⟨t₃, hrun₃, ht₃⟩ := ih (i + 1) (fun q hq => hps q (List.mem_cons_of_mem _ hq)) ht₂
    refine ⟨t₃, ?_, by rw [chunksFrom, wire_cons, ← List.append_assoc]; exact ht₃⟩
    rw [writeChunks, Prog.bind_ret hrun₁, Prog.bind_ret hrun₂]
    split
    · rw [Prog.bind_ret (readAndVerifyAck_none h _ _)]
      exact hrun₃
    · exact hrun₃

theorem write_wire (h : C.Records W) (s : Bytes) {xs : Bytes} {t : τ} (ht : W xs t) :
    ∃ t', write C s t = .ret () t' ∧ W (xs ++ wire (chunksOf s)) t' :=
  writeChunks_wire h 0 _ _ ht

end

/-! ## `ChunkAckBase` -/

/-- `ChunkAckBase` on a transport: an ack is the chunk id, read and written as it
is. -/
def ackBase (read : Nat → Prog Exc τ Bytes) (write : Bytes → Prog Exc τ Unit)
    (flush : Prog Exc τ Unit) (fuel : Nat) : Comm τ where
  read := read
  write := write
  flush := flush
  readAck := do
    let chunkId ← rawReadUntilSize read fuel chunkIdWidth
    pure (some chunkId)
  writeAck chunkId := do
    write chunkId
    flush

/-- What `read_until_size` writes for the chunk. -/
def Chunk.ack (c : Chunk) : Bytes :=
  if c.id = 0 then [] else Decimal.format chunkIdWidth c.id

theorem Chunk.length_ack_le (c : Chunk) : c.ack.length ≤ chunkIdWidth := by
  rw [ack]
  split
  · exact Nat.zero_le _
  · exact (Decimal.format_length c.id_lt).le

theorem Chunk.ack_eq_nil {c : Chunk} : c.ack = [] ↔ c.id = 0 := by
  rw [ack]
  split
  · next h => exact iff_of_true rfl h
  · next h =>
    refine iff_of_false (fun hnil => ?_) h
    have hlen : (Decimal.format chunkIdWidth c.id).length = chunkIdWidth :=
      Decimal.format_length c.id_lt
    rw [hnil] at hlen
    exact absurd hlen (by decide)

theorem format_eq_zeros {chunkId : Nat} (hid : chunkId < 10000) :
    Decimal.format chunkIdWidth chunkId = ascii "0000" ↔ chunkId = 0 := by
  constructor
  · intro h
    have hparse := Decimal.parseInt_format (show 0 < chunkIdWidth by decide) hid
    have hzero : Decimal.parseInt (ascii "0000") = some 0 := by decide
    rw [h, hzero, Option.some_inj] at hparse
    omega
  · rintro rfl
    decide

end

end ChunkComm

end InteractiveSessions
