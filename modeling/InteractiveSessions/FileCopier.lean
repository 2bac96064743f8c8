import InteractiveSessions.TokenReader
import InteractiveSessions.Lib.Decimal

/-!
# `_filecopier`: a remote file is read over the terminal

`_RemoteFileProxy.read` has the remote `FileHandle` write a response to the terminal: a
token, the packed length of the data and the data.  It skips what comes before the token.

* `read_run`: a read consumes one response;
* `copyFile_copies`: `_FileCopier` writes exactly the content of the remote file, whatever
  its bytes are.
-/

namespace InteractiveSessions

namespace FileCopier

/-! ## The remote side -/

/-- `TOKEN` of `RunnerHandler` -/
def token : Bytes := ascii "+7_<sf80UBtd%umz"

/-- `struct.Struct('!I').pack(n)`, if it does not raise -/
def pack (n : Nat) : Option Bytes :=
  if n < 2 ^ 32 then
    some [UInt8.ofNat (n / 2 ^ 24), UInt8.ofNat (n / 2 ^ 16), UInt8.ofNat (n / 2 ^ 8),
      UInt8.ofNat n]
  else none

/-- `struct.Struct('!I').unpack(b)[0]` -/
def unpack (b : Bytes) : Nat := b.foldl (fun n x => n * 256 + x.toNat) 0

/-- What `FileHandle.read` writes when it has read `buf`. -/
def response (buf : Bytes) : Option Bytes := (pack buf.length).map fun size => token ++ size ++ buf

/-- Output of other programs: no byte of the token. -/
def Rubbish : Type := { b : Bytes // ∀ x ∈ b, x ∉ token }

/-- Both ends of a transfer.  `rest` is what the remote file still has, `output` what the
terminal has and was not read, and `rubbish` what will stand before the next responses.
Of the output a read delivers some bytes, as `cuts` has it. -/
structure Transfer where
  rest : Bytes
  output : Bytes
  rubbish : Nat → Rubbish
  cuts : Nat → Nat
  before : Option Bytes
  written : Bytes

inductive FileExc where
  /-- `pexpect.TIMEOUT` -/
  | timeout
  | remoteFileReadingFailed (size maxsize : Nat)
  | remoteFileOperationTimeout (output : Bytes)
  deriving DecidableEq

/-- `FileHandle.read` -/
def fileHandleRead (size : Nat) (s : Transfer) : Transfer :=
  match response (s.rest.take size) with
  | some toBeFlushed =>
    { s with
      rest := s.rest.drop size
      output := s.output ++ ((s.rubbish 0).1 ++ toBeFlushed)
      rubbish := fun k => s.rubbish (k + 1) }
  | none => { s with rest := s.rest.drop size }

/-! ## `_RemoteFileProxy` -/

/-- `send_command('{proxy_handle}.read({size})')` -/
def sendCommand (size : Nat) : Prog FileExc Transfer Unit := Prog.modify (fileHandleRead size)

/-- `pterm.read_nonblocking` -/
def readNonblocking (size : Nat) : Prog FileExc Transfer Bytes := fun s =>
  if s.output = [] then .raised .timeout s
  else
    .ret (s.output.take (min size (1 + s.cuts 0)))
      { s with
        output := s.output.drop (min size (1 + s.cuts 0))
        cuts := fun k => s.cuts (k + 1) }

/-- The loop of `_read_until_size`. -/
def readUntilSizeLoop : Nat → Nat → Bytes → Prog FileExc Transfer Bytes
  | 0, _, _ => Prog.hang
  | fuel + 1, toread, buf =>
    if 0 < toread then do
      let ret ← readNonblocking toread
      readUntilSizeLoop fuel (toread - ret.length) (buf ++ ret)
    else pure buf

/-- `_read_until_size` -/
def readUntilSize (size : Nat) : Prog FileExc Transfer Bytes := readUntilSizeLoop (size + 1) size []

/-- `_read_buffer_size` -/
def readBufferSize (maxsize : Nat) : Prog FileExc Transfer Nat := do
  let n ← Prog.gets fun s : Transfer => s.output.length
  let _ ← TokenReader.readUntilToken (n + 1) token readUntilSize
  let b ← readUntilSize 4
  let size := unpack b
  if maxsize < size then Prog.raise (.remoteFileReadingFailed size maxsize) else pure size

/-- `timeouthandling` -/
def timeouthandling (body : Prog FileExc Transfer Bytes) : Prog FileExc Transfer Bytes :=
  Prog.tryExcept body fun
    | .timeout => some do
      let before ← Prog.gets fun s : Transfer => s.before
      Prog.raise (.remoteFileOperationTimeout (before.getD []))
    | _ => none

/-- `read` -/
def read (size : Nat) : Prog FileExc Transfer Bytes := do
  sendCommand size
  timeouthandling do
    let n ← readBufferSize size
    readUntilSize n

/-! ## `_FileCopier` -/

/-- `writef.write` of a local file -/
def write (buf : Bytes) : Prog FileExc Transfer Unit :=
  Prog.modify fun s => { s with written := s.written ++ buf }

/-- The loop of `_copy_file_from_readf_to_writef`. -/
def copyLoop (buffersize : Nat) : Nat → Prog FileExc Transfer Unit
  | 0 => Prog.hang
  | fuel + 1 => do
    let buf ← read buffersize
    if buf ≠ [] then do
      write buf
      copyLoop buffersize fuel
    else pure ()

/-- `_copy_file_from_readf_to_writef` -/
def copyFile (buffersize : Nat) : Prog FileExc Transfer Unit := do
  let n ← Prog.gets fun s : Transfer => s.rest.length
  copyLoop buffersize (n + 1)

/-! ## One read -/

theorem unpack_pack {n : Nat} {b : Bytes} (h : pack n = some b) : unpack b = n ∧ b.length = 4 := by
  unfold pack at h
  split at h
  · next hn =>
    cases h
    refine ⟨?_, rfl⟩
    simp only [unpack, List.foldl_cons, List.foldl_nil, UInt8.toNat_ofNat']
    omega
  · cases h

/-- Nothing but the output and the cuts differ from `t`. -/
def At (t : Transfer) (output : Bytes) (s : Transfer) : Prop :=
  ∃ cuts, s = { t with output := output, cuts := cuts }

theorem readUntilSizeLoop_run {t s : Transfer} {fuel : Nat} {buf xs ys : Bytes}
    (h : At t (xs ++ ys) s) (hfuel : xs.length < fuel) :
    ∃ s', readUntilSizeLoop fuel xs.length buf s = .ret (buf ++ xs) s' ∧ At t ys s' := by
  induction fuel generalizing s buf xs with
  | zero => omega
  | succ fuel ih =>
    rw [readUntilSizeLoop]
    by_cases hxs : xs = []
    · subst hxs
      exact ⟨s, by simp, h⟩
    · have hpos := List.length_pos_iff.mpr hxs
      obtain ⟨cuts, rfl⟩ := h
      -- The read delivers the first `k` bytes of `xs`.
      obtain ⟨k, hk⟩ : ∃ k, k = min xs.length (1 + cuts 0) := ⟨_, rfl⟩
      have hread : readNonblocking xs.length { t with output := xs ++ ys, cuts := cuts } =
          .ret (xs.take k) { t with
            output := xs.drop k ++ ys, cuts := fun k => cuts (k + 1) } := by
        have hne : xs ++ ys ≠ [] := by simp [hxs]
        have hle : k ≤ xs.length := by omega
        rw [readNonblocking]
        dsimp only
        rw [if_neg hne, ← hk, List.take_append_of_le_length hle, List.drop_append_of_le_length hle]
      have hrest : xs.length - (xs.take k).length = (xs.drop k).length := by
        rw [List.length_drop, List.length_take]
        omega
      have hnext : At t (xs.drop k ++ ys)
          { t with output := xs.drop k ++ ys, cuts := fun k => cuts (k + 1) } := ⟨_, rfl⟩
      have hlt : (xs.drop k).length < fuel := by
        rw [List.length_drop]
        omega
      obtain ⟨s', hrun, hat⟩ : ∃ s', readUntilSizeLoop fuel (xs.drop k).length (buf ++ xs.take k)
          { t with output := xs.drop k ++ ys, cuts := fun k => cuts (k + 1) } =
            .ret (buf ++ xs.take k ++ xs.drop k) s' ∧ At t ys s' := ih hnext hlt
      refine ⟨s', ?_, hat⟩
      rw [if_pos hpos, Prog.bind_ret hread, hrest, hrun, List.append_assoc, List.take_append_drop]

theorem readUntilSize_run {t : Transfer} (xs ys : Bytes) (s : Transfer) (h : At t (xs ++ ys) s) :
    ∃ s', readUntilSize xs.length s = .ret xs s' ∧ At t ys s' :=
  readUntilSizeLoop_run h (Nat.lt_succ_self _)

theorem token_nodup : token.Nodup := by decide

theorem token_ne_nil : token ≠ [] := by decide

theorem noGap_rubbish (r : Rubbish) : GapToken.NoGap token r.1 := by
  have hmem : (43 : Byte) ∈ token := by decide
  apply GapToken.noGap_of_notMem hmem
  intro h
  exact r.2 43 h hmem

/-- The reader skips the rubbish and the token, and unpacks the length. -/
theorem readBufferSize_run {t s : Transfer} {r : Rubbish} {buf header ys : Bytes} {maxsize : Nat}
    (hpack : pack buf.length = some header) (hle : buf.length ≤ maxsize)
    (h : At t (r.1 ++ (token ++ (header ++ ys))) s) :
    ∃ s', readBufferSize maxsize s = .ret buf.length s' ∧ At t ys s' := by
  have hfuel : r.1.length + token.length < s.output.length + 1 := by
    obtain ⟨cuts, rfl⟩ := h
    simp only [List.length_append]
    omega
  obtain ⟨s₁, htoken, hat₁⟩ := TokenReader.readUntilToken_append token_nodup token_ne_nil
    readUntilSize_run (noGap_rubbish r) hfuel h
  obtain ⟨s₂, hheader, hat₂⟩ := readUntilSize_run header ys s₁ hat₁
  obtain ⟨hunpack, hlen⟩ := unpack_pack hpack
  rw [hlen] at hheader
  refine ⟨s₂, ?_, hat₂⟩
  rw [readBufferSize, Prog.bind_ret (Prog.gets_run _ s), Prog.bind_ret htoken,
    Prog.bind_ret hheader, hunpack, if_neg (by omega)]
  rfl

theorem exists_response {buf : Bytes} (h : buf.length < 2 ^ 32) :
    ∃ header, pack buf.length = some header ∧ response buf = some (token ++ header ++ buf) := by
  obtain ⟨header, hpack⟩ : ∃ header, pack buf.length = some header := ⟨_, if_pos h⟩
  exact ⟨header, hpack, by rw [response, hpack]; rfl⟩

/-- A read consumes one response and returns its data. -/
theorem read_run {s : Transfer} {size : Nat} (hsize : size < 2 ^ 32) (h : s.output = []) :
    ∃ s', read size s = .ret (s.rest.take size) s' ∧ At (fileHandleRead size s) [] s' := by
  have hle : (s.rest.take size).length ≤ size := List.length_take_le ..
  have hlt : (s.rest.take size).length < 2 ^ 32 := by omega
  obtain ⟨header, hpack, hresponse⟩ := exists_response hlt
  have hat : At (fileHandleRead size s)
      ((s.rubbish 0).1 ++ (token ++ (header ++ (s.rest.take size ++ []))))
      (fileHandleRead size s) := by
    refine ⟨(fileHandleRead size s).cuts, ?_⟩
    simp [fileHandleRead, hresponse, h]
  obtain ⟨s₁, hread₁, hat₁⟩ := readBufferSize_run hpack hle hat
  obtain ⟨s₂, hread₂, hat₂⟩ := readUntilSize_run _ _ s₁ hat₁
  refine ⟨s₂, ?_, hat₂⟩
  have hbody := Prog.bind_ret (f := readUntilSize) hread₁
  have hsend : sendCommand size s = .ret () (fileHandleRead size s) := rfl
  rw [read, Prog.bind_ret hsend]
  exact Prog.tryExcept_ret (hbody.trans hread₂)

/-! ## The copy -/

/-- A size that fits a response. -/
structure BufferSize where
  val : Nat
  pos : 0 < val
  lt : val < 2 ^ 32

/-- A read consumes its response: what the terminal has afterwards is what it had before. -/
def ConsumesResponse (size : Nat) (s : Transfer) : Prop :=
  ∃ buf toBeFlushed s₁ s₂, response buf = some toBeFlushed ∧
    sendCommand size s = .ret () s₁ ∧ s₁.output = s.output ++ ((s.rubbish 0).1 ++ toBeFlushed) ∧
    read size s = .ret buf s₂ ∧ s₂.output = s.output

/-- A read, of which the data is written. -/
def round (size : Nat) (s : Transfer) : Transfer :=
  match read size s with
  | .ret buf s' => { s' with written := s'.written ++ buf }
  | .raised _ s' => s'
  | .hang => s

/-- `content` is the content of the remote file. -/
def init (content : Bytes) (rubbish : Nat → Rubbish) (cuts : Nat → Nat) (before : Option Bytes) :
    Transfer where
  rest := content
  output := []
  rubbish
  cuts
  before
  written := []

theorem fileHandleRead_written (size : Nat) (s : Transfer) :
    (fileHandleRead size s).written = s.written := by
  unfold fileHandleRead
  split <;> rfl

theorem fileHandleRead_rest (size : Nat) (s : Transfer) :
    (fileHandleRead size s).rest = s.rest.drop size := by
  unfold fileHandleRead
  split <;> rfl

theorem round_output {s : Transfer} (size : BufferSize) (h : s.output = []) :
    (round size.val s).output = [] := by
  obtain ⟨s', hrun, cuts, rfl⟩ := read_run size.lt h
  rw [round, hrun]

theorem consumesResponse_of_output {s : Transfer} (size : BufferSize) (h : s.output = []) :
    ConsumesResponse size.val s := by
  have hlt : (s.rest.take size.val).length < 2 ^ 32 :=
    (List.length_take_le ..).trans_lt size.lt
  obtain ⟨header, -, hresponse⟩ := exists_response hlt
  obtain ⟨s', hrun, cuts, rfl⟩ := read_run size.lt h
  refine ⟨_, _, fileHandleRead size.val s, _, hresponse, rfl, ?_, hrun, h.symm⟩
  simp [fileHandleRead, hresponse]

/-- The loop writes what the remote file still has. -/
theorem copyLoop_run (size : BufferSize) {fuel : Nat} {s : Transfer} (h : s.output = [])
    (hfuel : s.rest.length < fuel) :
    ∃ s', copyLoop size.val fuel s = .ret () s' ∧ s'.written = s.written ++ s.rest := by
  induction fuel generalizing s with
  | zero => omega
  | succ fuel ih =>
    have hpos := size.pos
    obtain ⟨s₁, hread, cuts, rfl⟩ := read_run size.lt h
    rw [copyLoop, Prog.bind_ret hread]
    by_cases hbuf : s.rest.take size.val = []
    · -- The response without data ends the loop.
      have hrest : s.rest = [] := by
        rcases List.take_eq_nil_iff.mp hbuf with hzero | hrest
        · omega
        · exact hrest
      refine ⟨_, by rw [if_neg (not_not.mpr hbuf)]; rfl, ?_⟩
      rw [hrest, List.append_nil]
      exact fileHandleRead_written size.val s
    · have hlen : (s.rest.drop size.val).length < fuel := by
        have hne := List.length_pos_iff.mpr hbuf
        rw [List.length_take] at hne
        rw [List.length_drop]
        omega
      rw [if_pos hbuf, write, Prog.bind_ret (Prog.modify_run _ _)]
      obtain ⟨s', hrun, hwritten⟩ := ih (s := { fileHandleRead size.val s with
        output := [], cuts := cuts,
        written := (fileHandleRead size.val s).written ++ s.rest.take size.val })
        rfl (by rw [fileHandleRead_rest]; exact hlen)
      refine ⟨s', hrun, hwritten.trans ?_⟩
      dsimp only
      rw [fileHandleRead_written, fileHandleRead_rest, List.append_assoc, List.take_append_drop]

/-- **The copy.**  The loop ends, it writes the content, and every read consumes one
response. -/
theorem copyFile_copies (size : BufferSize) (content : Bytes) (rubbish : Nat → Rubbish)
    (cuts : Nat → Nat) (before : Option Bytes) :
    (∃ s', copyFile size.val (init content rubbish cuts before) = .ret () s' ∧
        s'.written = content) ∧
      ∀ k, ConsumesResponse size.val ((round size.val)^[k] (init content rubbish cuts before)) := by
  constructor
  · exact copyLoop_run size rfl (Nat.lt_succ_self content.length)
  · intro k
    apply consumesResponse_of_output
    induction k with
    | zero => rfl
    | succ k ih =>
      rw [Function.iterate_succ_apply']
      exact round_output size ih

end FileCopier

end InteractiveSessions
