import InteractiveSessions.FileCopier
import InteractiveSessions.Lib.Base64
import InteractiveSessions.Lib.Expect
import InteractiveSessions.Lib.Runs

/-!
# `_filecopier`: a remote file is written over the terminal

`_RemoteFileProxy.write` asks the remote `FileHandle` to write so many characters, waits
for a marker, sends the data in base64 and waits for another marker.  Both ends take their
steps in any order, and the terminal delivers what was written in parts of any size.

* `copies_to_target`: unless the copy fails, the target file is the beginning of the source
  file, and when the copy ends it is the source file;
* `copies_between_targets`: so it is when the source file is read over another terminal;
* `can_finish`: the two ends never wait for each other.
-/

namespace InteractiveSessions

namespace RemoteFile

def readingStart : Bytes := ascii "reading start"

def readingStop : Bytes := ascii "reading stop"

/-- Where the copy loop is. -/
inductive Control where
  /-- `_read` -/
  | reading
  /-- `expect('reading start')`, and then `send(buf)` -/
  | start (buf : Bytes)
  /-- `expect('reading stop')` -/
  | stop
  | done
  | failed
  deriving DecidableEq

/-- Where `FileHandle` is: in `infile.read(size)` it has read `got`. -/
inductive Writer where
  | idle
  | reading (size : Nat) (got : Bytes)
  | failed
  deriving DecidableEq

end RemoteFile

/-- Both ends.  `commands` are the sizes of the `write` commands on their way, `stdin` what
the remote side has to read, `output` what the terminal has to deliver and `buffer` what it
has delivered; `file` is what the handle was given to write.  `noise` is what others have
written since the last marker. -/
structure RemoteFile (σ : Type) where
  source : σ
  control : RemoteFile.Control
  commands : List Nat
  stdin : Bytes
  writer : RemoteFile.Writer
  output : Bytes
  buffer : Bytes
  file : Bytes
  noise : Bytes
  deriving DecidableEq

namespace RemoteFile

variable {σ : Type}

def init (source : σ) : RemoteFile σ := ⟨source, .reading, [], [], .idle, [], [], [], []⟩

/-! ## The ends -/

/-- `readf.read(size)`, unless it raises. -/
abbrev Reader (σ : Type) : Type := σ → Option (Bytes × σ)

/-- The copy loop up to its next `expect`. -/
def clientStep (read : Reader σ) (s : RemoteFile σ) : RemoteFile σ :=
  match s.control with
  | .reading =>
    match read s.source with
    | none => { s with control := .failed }
    | some (buf, source) =>
      if buf = [] then { s with source, control := .done }
      else { s with
        source
        commands := s.commands ++ [(Base64.encode buf).length]
        control := .start (Base64.encode buf) }
  | .start buf =>
    match Expect.after? readingStart s.buffer with
    | some rest => { s with buffer := rest, stdin := s.stdin ++ buf, control := .stop }
    | none => s
  | .stop =>
    match Expect.after? readingStop s.buffer with
    | some rest => { s with buffer := rest, control := .reading }
    | none => s
  | .done | .failed => s

/-- The `expect` raises `pexpect.TIMEOUT`. -/
def clientTimeout (s : RemoteFile σ) : RemoteFile σ :=
  match s.control with
  | .start _ | .stop => { s with control := .failed }
  | .reading | .done | .failed => s

/-- `_write_stdout_with_flush` of a marker -/
def mark (m : Bytes) (s : RemoteFile σ) : RemoteFile σ :=
  { s with output := s.output ++ m, noise := [] }

/-- The remote side takes the command, and `FileHandle.write` starts. -/
def accept (s : RemoteFile σ) : RemoteFile σ :=
  match s.writer, s.commands with
  | .idle, size :: rest => mark readingStart { s with writer := .reading size [], commands := rest }
  | _, _ => s

/-- `infile.read(size)` gets up to so many characters. -/
def input (k : Nat) (s : RemoteFile σ) : RemoteFile σ :=
  match s.writer with
  | .reading size got => { s with
    writer := .reading size (got ++ s.stdin.take (min k (size - got.length)))
    stdin := s.stdin.drop (min k (size - got.length)) }
  | .idle | .failed => s

/-- `FileHandle.write` after `infile.read(size)` -/
def finish (s : RemoteFile σ) : RemoteFile σ :=
  match s.writer with
  | .reading size got =>
    if got.length = size then
      match Base64.decode got with
      | some buf => mark readingStop { s with writer := .idle, file := s.file ++ buf }
      | none => { s with writer := .failed }
    else s
  | .idle | .failed => s

def deliver (k : Nat) (s : RemoteFile σ) : RemoteFile σ :=
  { s with buffer := s.buffer ++ s.output.take k, output := s.output.drop k }

inductive Action where
  | client
  | timeout
  | accept
  | input (k : Nat)
  | finish
  | deliver (k : Nat)
  /-- Others write to the terminal. -/
  | rubbish (b : Bytes)

def step (read : Reader σ) (a : Action) (s : RemoteFile σ) : RemoteFile σ :=
  match a with
  | .client => clientStep read s
  | .timeout => clientTimeout s
  | .accept => accept s
  | .input k => input k s
  | .finish => finish s
  | .deliver k => deliver k s
  | .rubbish b => { s with output := s.output ++ b, noise := s.noise ++ b }

/-- There is no marker in it. -/
def Free (b : Bytes) : Prop := ¬ readingStart <:+: b ∧ ¬ readingStop <:+: b

instance (b : Bytes) : Decidable (Free b) := inferInstanceAs (Decidable (_ ∧ _))

/-- What others write is no marker, and completes none. -/
def Ok : Action → RemoteFile σ → Prop
  | .rubbish b, s => Free (s.noise ++ b)
  | _, _ => True

instance (a : Action) (s : RemoteFile σ) : Decidable (Ok a s) := by
  cases a <;> unfold Ok <;> infer_instance

/-! ## Sources -/

/-- The reads give `content` part by part, and then nothing. -/
inductive Reads (read : Reader σ) : σ → Bytes → Prop where
  | eof {s s' : σ} (h : read s = some ([], s')) : Reads read s []
  | part {s s' : σ} {buf rest : Bytes} (h : read s = some (buf, s')) (hbuf : buf ≠ [])
      (hrest : Reads read s' rest) : Reads read s (buf ++ rest)

/-- `read` of a local file of which so much is left. -/
def readLocal (size : Nat) : Reader Bytes := fun rest => some (rest.take size, rest.drop size)

theorem reads_readLocal {size : Nat} (hsize : 0 < size) (content : Bytes) :
    Reads (readLocal size) content content := by
  induction hn : content.length using Nat.strong_induction_on generalizing content with
  | _ n ih =>
    by_cases hnil : content = []
    · subst hnil
      have heof : readLocal size [] = some ([], []) := by simp [readLocal]
      exact .eof heof
    · have hpos := List.length_pos_iff.mpr hnil
      have hbuf : content.take size ≠ [] := by
        rw [Ne, List.take_eq_nil_iff]
        exact not_or.mpr ⟨hsize.ne', hnil⟩
      have hrest : Reads (readLocal size) (content.drop size) (content.drop size) :=
        ih _ (by rw [List.length_drop]; omega) _ rfl
      have hread : readLocal size content = some (content.take size, content.drop size) := rfl
      have hparts := Reads.part hread hbuf hrest
      rwa [List.take_append_drop] at hparts

/-- `_RemoteFileProxy.read` of a file at another target. -/
def readRemote (size : Nat) : Reader FileCopier.Transfer := fun t =>
  match FileCopier.read size t with
  | .ret buf t' => some (buf, t')
  | .raised .. | .hang => none

theorem reads_readRemote (size : FileCopier.BufferSize) {t : FileCopier.Transfer}
    (h : t.output = []) : Reads (readRemote size.val) t t.rest := by
  induction hn : t.rest.length using Nat.strong_induction_on generalizing t with
  | _ n ih =>
    obtain ⟨t', hread, cuts, rfl⟩ := FileCopier.read_run size.lt h
    have hread' : readRemote size.val t = some (t.rest.take size.val,
        { FileCopier.fileHandleRead size.val t with output := [], cuts := cuts }) := by
      rw [readRemote, hread]
    have hpos := size.pos
    by_cases hnil : t.rest = []
    · rw [hnil] at hread' ⊢
      rw [List.take_nil] at hread'
      exact .eof hread'
    · have hlen := List.length_pos_iff.mpr hnil
      have hbuf : t.rest.take size.val ≠ [] := by
        rw [Ne, List.take_eq_nil_iff]
        exact not_or.mpr ⟨hpos.ne', hnil⟩
      have hdrop := FileCopier.fileHandleRead_rest size.val t
      have hrest := ih _ (by rw [hdrop, List.length_drop]; omega)
        (t := { FileCopier.fileHandleRead size.val t with output := [], cuts := cuts }) rfl rfl
      have hparts := Reads.part hread' hbuf hrest
      dsimp only at hparts
      rwa [hdrop, List.take_append_drop] at hparts

/-! ## What holds at all times -/

theorem unbordered_readingStart : Expect.Unbordered readingStart :=
  Expect.unbordered_of_drop (by decide)

theorem unbordered_readingStop : Expect.Unbordered readingStop :=
  Expect.unbordered_of_drop (by decide)

theorem free_nil : Free [] := by decide

/-- Where both ends are, what is between them, and what is still to be written: `todo` is
on its way, and `rest` was not read yet. -/
structure Phase (content rest todo : Bytes) (c : Control) (commands : List Nat) (stdin : Bytes)
    (w : Writer) (text : Bytes) (s : RemoteFile σ) : Prop where
  control : s.control = c
  commands : s.commands = commands
  stdin : s.stdin = stdin
  writer : s.writer = w
  text : s.buffer ++ s.output = text ++ s.noise
  free : Free s.noise
  file : s.file ++ (todo ++ rest) = content

/-- The phases of a copy of `content`. -/
inductive Inv (read : Reader σ) (content : Bytes) (s : RemoteFile σ) : Prop where
  | reading {rest : Bytes} (hsource : Reads read s.source rest)
      (h : Phase content rest [] .reading [] [] .idle [] s)
  | asked {rest buf : Bytes} (hsource : Reads read s.source rest) (hbuf : buf ≠ [])
      (h : Phase content rest buf (.start (Base64.encode buf)) [(Base64.encode buf).length] []
        .idle [] s)
  | started {rest buf r : Bytes} (hsource : Reads read s.source rest) (hbuf : buf ≠ [])
      (hr : Free r) (h : Phase content rest buf (.start (Base64.encode buf)) [] []
        (.reading (Base64.encode buf).length []) (r ++ readingStart) s)
  | sent {rest buf got stdin : Bytes} (hsource : Reads read s.source rest)
      (hgot : got ++ stdin = Base64.encode buf)
      (h : Phase content rest buf .stop [] stdin (.reading (Base64.encode buf).length got) [] s)
  | stopped {rest r : Bytes} (hsource : Reads read s.source rest) (hr : Free r)
      (h : Phase content rest [] .stop [] [] .idle (r ++ readingStop) s)
  | done (h : Phase content [] [] .done [] [] .idle [] s)
  | failed (h : s.control = .failed)

section
variable {read : Reader σ} {content rest todo : Bytes} {c : Control} {commands : List Nat}
  {stdin : Bytes} {w : Writer} {text : Bytes} {s : RemoteFile σ} {source : σ}

theorem inv_init (h : Reads read source content) : Inv read content (init source) :=
  .reading h ⟨rfl, rfl, rfl, rfl, rfl, free_nil, rfl⟩

/-! ### The client -/

/-- What is delivered has no marker. -/
theorem Phase.after?_none (h : Phase content rest todo c commands stdin w [] s) :
    Expect.after? readingStart s.buffer = none ∧ Expect.after? readingStop s.buffer = none := by
  have hbuffer : s.buffer <:+: s.noise := by
    have htext := h.text
    rw [List.nil_append] at htext
    exact htext ▸ List.infix_append_left
  constructor
  · exact Expect.after?_eq_none.mpr fun hin => h.free.1 (hin.trans hbuffer)
  · exact Expect.after?_eq_none.mpr fun hin => h.free.2 (hin.trans hbuffer)

/-- What stands behind the marker is not delivered yet, or from others. -/
theorem Phase.after?_some {m r t : Bytes}
    (h : Phase content rest todo c commands stdin w (r ++ m) s) (hm : Expect.Unbordered m)
    (hr : ¬ m <:+: r) (hfound : Expect.after? m s.buffer = some t) : t ++ s.output = s.noise := by
  have hall := Expect.after?_append hfound s.output
  rw [h.text, List.append_assoc, Expect.after?_append_marker hm hr] at hall
  exact (Option.some.inj hall).symm

/-- The marker was delivered. -/
theorem Phase.after?_delivered {m r : Bytes}
    (h : Phase content rest todo c commands stdin w (r ++ m) s) (hm : Expect.Unbordered m)
    (hr : ¬ m <:+: r) (hall : s.output = []) : Expect.after? m s.buffer = some s.noise := by
  have htext := h.text
  rw [hall, List.append_nil] at htext
  rw [htext, List.append_assoc, Expect.after?_append_marker hm hr]

/-- The next read. -/
theorem clientStep_reading (hsource : Reads read s.source rest)
    (h : Phase content rest [] .reading [] [] .idle [] s) :
    Inv read content (clientStep read s) := by
  cases hsource with
  | eof hread =>
    simp only [clientStep, h.control, hread, if_true]
    exact .done ⟨rfl, h.commands, h.stdin, h.writer, h.text, h.free, h.file⟩
  | part hread hbuf hrest =>
    simp only [clientStep, h.control, hread, if_neg hbuf]
    refine .asked hrest hbuf ⟨rfl, ?_, h.stdin, h.writer, h.text, h.free, h.file⟩
    simp only [h.commands, List.nil_append]

/-- The marker is found, and the data sent. -/
theorem clientStep_started (read : Reader σ) {buf r t : Bytes} (hr : Free r)
    (h : Phase content rest buf (.start (Base64.encode buf)) [] []
      (.reading (Base64.encode buf).length []) (r ++ readingStart) s)
    (hfound : Expect.after? readingStart s.buffer = some t) :
    (clientStep read s).source = s.source ∧
      Phase content rest buf .stop [] (Base64.encode buf)
        (.reading (Base64.encode buf).length []) [] (clientStep read s) := by
  simp only [clientStep, h.control, hfound]
  refine ⟨trivial, rfl, h.commands, ?_, h.writer, ?_, h.free, h.file⟩
  · simp only [h.stdin, List.nil_append]
  · exact h.after?_some unbordered_readingStart hr.1 hfound

/-- The other marker is found. -/
theorem clientStep_stopped (read : Reader σ) {r t : Bytes} (hr : Free r)
    (h : Phase content rest [] .stop [] [] .idle (r ++ readingStop) s)
    (hfound : Expect.after? readingStop s.buffer = some t) :
    (clientStep read s).source = s.source ∧
      Phase content rest [] .reading [] [] .idle [] (clientStep read s) := by
  simp only [clientStep, h.control, hfound]
  exact ⟨trivial, rfl, h.commands, h.stdin, h.writer,
    h.after?_some unbordered_readingStop hr.2 hfound, h.free, h.file⟩

theorem Inv.clientStep (h : Inv read content s) : Inv read content (clientStep read s) := by
  cases h with
  | reading hsource h => exact clientStep_reading hsource h
  | asked hsource hbuf h =>
    have hsame : RemoteFile.clientStep read s = s := by
      simp only [RemoteFile.clientStep, h.control, h.after?_none.1]
    rw [hsame]
    exact .asked hsource hbuf h
  | started hsource hbuf hr h =>
    cases hfound : Expect.after? readingStart s.buffer with
    | none =>
      have hsame : RemoteFile.clientStep read s = s := by
        simp only [RemoteFile.clientStep, h.control, hfound]
      rw [hsame]
      exact .started hsource hbuf hr h
    | some t =>
      obtain ⟨hsame, hsent⟩ := clientStep_started read hr h hfound
      exact .sent (hsame ▸ hsource) (List.nil_append _) hsent
  | sent hsource hgot h =>
    have hsame : RemoteFile.clientStep read s = s := by
      simp only [RemoteFile.clientStep, h.control, h.after?_none.2]
    rw [hsame]
    exact .sent hsource hgot h
  | stopped hsource hr h =>
    cases hfound : Expect.after? readingStop s.buffer with
    | none =>
      have hsame : RemoteFile.clientStep read s = s := by
        simp only [RemoteFile.clientStep, h.control, hfound]
      rw [hsame]
      exact .stopped hsource hr h
    | some t =>
      obtain ⟨hsame, hreading⟩ := clientStep_stopped read hr h hfound
      exact .reading (hsame ▸ hsource) hreading
  | done h =>
    have hsame : RemoteFile.clientStep read s = s := by
      simp only [RemoteFile.clientStep, h.control]
    rw [hsame]
    exact .done h
  | failed h =>
    have hsame : RemoteFile.clientStep read s = s := by
      simp only [RemoteFile.clientStep, h]
    rw [hsame]
    exact .failed h

theorem Inv.clientTimeout (h : Inv read content s) : Inv read content (clientTimeout s) := by
  cases hc : s.control with
  | start buf => exact .failed (by simp only [RemoteFile.clientTimeout, hc])
  | stop => exact .failed (by simp only [RemoteFile.clientTimeout, hc])
  | reading | done | failed =>
    have hsame : RemoteFile.clientTimeout s = s := by simp only [RemoteFile.clientTimeout, hc]
    rwa [hsame]

/-! ### The remote side -/

/-- The marker stands behind what others have written. -/
theorem Phase.mark {todo' : Bytes} {c' : Control} {commands' : List Nat} {stdin' : Bytes}
    {w' : Writer} {s' : RemoteFile σ} (h : Phase content rest todo c commands stdin w [] s)
    (m : Bytes) (hcontrol : s'.control = c') (hcommands : s'.commands = commands')
    (hstdin : s'.stdin = stdin') (hwriter : s'.writer = w') (hbuffer : s'.buffer = s.buffer)
    (houtput : s'.output = s.output) (hfile : s'.file ++ (todo' ++ rest) = content) :
    Phase content rest todo' c' commands' stdin' w' (s.noise ++ m) (s'.mark m) := by
  refine ⟨hcontrol, hcommands, hstdin, hwriter, ?_, free_nil, hfile⟩
  have htext := h.text
  rw [List.nil_append] at htext
  simp only [RemoteFile.mark, hbuffer, houtput, List.append_nil]
  rw [← List.append_assoc, htext]

theorem accept_asked {buf : Bytes} (h : Phase content rest buf (.start (Base64.encode buf))
      [(Base64.encode buf).length] [] .idle [] s) :
    (accept s).source = s.source ∧ Phase content rest buf (.start (Base64.encode buf)) [] []
      (.reading (Base64.encode buf).length []) (s.noise ++ readingStart) (accept s) := by
  simp only [accept, h.writer, h.commands]
  exact ⟨rfl, h.mark readingStart h.control rfl h.stdin rfl rfl rfl h.file⟩

/-- Nothing to accept. -/
theorem accept_same (h : s.writer ≠ .idle ∨ s.commands = []) : accept s = s := by
  unfold accept
  split
  · next hwriter hcommands => simp [hwriter, hcommands] at h
  · rfl

theorem accept_control (s : RemoteFile σ) : (accept s).control = s.control := by
  unfold accept
  split <;> rfl

theorem Inv.accept (h : Inv read content s) : Inv read content (accept s) := by
  cases h with
  | asked hsource hbuf h =>
    obtain ⟨hsame, hstarted⟩ := accept_asked h
    exact .started (hsame ▸ hsource) hbuf h.free hstarted
  | reading hsource h => exact (accept_same (.inr h.commands)).symm ▸ .reading hsource h
  | started hsource hbuf hr h =>
    exact (accept_same (.inr h.commands)).symm ▸ .started hsource hbuf hr h
  | sent hsource hgot h => exact (accept_same (.inr h.commands)).symm ▸ .sent hsource hgot h
  | stopped hsource hr h => exact (accept_same (.inr h.commands)).symm ▸ .stopped hsource hr h
  | done h => exact (accept_same (.inr h.commands)).symm ▸ .done h
  | failed h => exact .failed ((accept_control s).trans h)

/-- Some of the data is read. -/
theorem input_sent {buf got : Bytes} (hgot : got ++ stdin = Base64.encode buf)
    (h : Phase content rest buf .stop [] stdin (.reading (Base64.encode buf).length got) [] s)
    (k : Nat) :
    (input k s).source = s.source ∧ Phase content rest buf .stop [] (stdin.drop k)
      (.reading (Base64.encode buf).length (got ++ stdin.take k)) [] (input k s) := by
  have hlen : (Base64.encode buf).length - got.length = stdin.length := by
    rw [← hgot, List.length_append, Nat.add_sub_cancel_left]
  have htake : s.stdin.take (min k stdin.length) = stdin.take k := by
    rw [h.stdin, ← List.take_take, List.take_length]
  have hdrop : s.stdin.drop (min k stdin.length) = stdin.drop k := by
    rw [h.stdin]
    rcases le_total k stdin.length with hle | hle
    · rw [min_eq_left hle]
    · rw [min_eq_right hle, List.drop_length, List.drop_eq_nil_of_le hle]
  simp only [input, h.writer, hlen, htake, hdrop]
  exact ⟨trivial, h.control, h.commands, rfl, rfl, h.text, h.free, h.file⟩

theorem input_same (k : Nat) (h : s.writer = .idle) : input k s = s := by
  simp only [input, h]

theorem input_control (k : Nat) (s : RemoteFile σ) : (input k s).control = s.control := by
  unfold input
  split <;> rfl

theorem Inv.input (h : Inv read content s) (k : Nat) : Inv read content (input k s) := by
  cases h with
  | started hsource hbuf hr h =>
    -- There is nothing to read yet.
    have hsame : RemoteFile.input k s = s := by
      have hwriter := h.writer
      have hstdin := h.stdin
      cases s
      simp only at hwriter hstdin
      simp only [RemoteFile.input, hwriter, hstdin, List.take_nil, List.drop_nil, List.append_nil]
    rw [hsame]
    exact .started hsource hbuf hr h
  | sent hsource hgot h =>
    obtain ⟨hsame, hsent⟩ := input_sent hgot h k
    refine .sent (hsame ▸ hsource) ?_ hsent
    rw [List.append_assoc, List.take_append_drop, hgot]
  | reading hsource h => exact (input_same k h.writer).symm ▸ .reading hsource h
  | asked hsource hbuf h => exact (input_same k h.writer).symm ▸ .asked hsource hbuf h
  | stopped hsource hr h => exact (input_same k h.writer).symm ▸ .stopped hsource hr h
  | done h => exact (input_same k h.writer).symm ▸ .done h
  | failed h => exact .failed ((input_control k s).trans h)

/-- The data is complete: what was encoded is written. -/
theorem finish_sent {buf : Bytes}
    (h : Phase content rest buf .stop [] []
      (.reading (Base64.encode buf).length (Base64.encode buf)) [] s) :
    (finish s).source = s.source ∧
      Phase content rest [] .stop [] [] .idle (s.noise ++ readingStop) (finish s) := by
  simp only [finish, h.writer, if_true, Base64.decode_encode]
  refine ⟨rfl, h.mark readingStop h.control h.commands h.stdin rfl rfl rfl ?_⟩
  simp only [List.append_assoc, List.nil_append]
  exact h.file

theorem finish_same (h : ∀ size got, s.writer = .reading size got → got.length ≠ size) :
    finish s = s := by
  unfold finish
  cases hwriter : s.writer with
  | reading size got => exact if_neg (h size got hwriter)
  | idle | failed => rfl

theorem finish_control (s : RemoteFile σ) : (finish s).control = s.control := by
  unfold finish
  cases s.writer with
  | reading size got =>
    dsimp only
    split
    · split <;> rfl
    · rfl
  | idle | failed => rfl

theorem finish_idle (h : s.writer = .idle) : finish s = s :=
  finish_same fun size got hwriter => by simp [h] at hwriter

theorem Inv.finish (h : Inv read content s) : Inv read content (finish s) := by
  cases h with
  | @started rest buf r hsource hbuf hr h =>
    have hsame : RemoteFile.finish s = s := finish_same fun size got hwriter => by
      rw [h.writer] at hwriter
      cases hwriter
      exact (List.length_pos_iff.mpr (Base64.encode_ne_nil hbuf)).ne
    rw [hsame]
    exact .started hsource hbuf hr h
  | @sent rest buf got stdin hsource hgot h =>
    by_cases hlen : got.length = (Base64.encode buf).length
    · have hstdin : stdin = [] := by
        rw [← hgot, List.length_append] at hlen
        exact List.length_eq_zero_iff.mp (by omega)
      subst hstdin
      rw [List.append_nil] at hgot
      subst hgot
      obtain ⟨hsame, hstopped⟩ := finish_sent h
      exact .stopped (hsame ▸ hsource) h.free hstopped
    · have hsame : RemoteFile.finish s = s := finish_same fun size got' hwriter => by
        rw [h.writer] at hwriter
        cases hwriter
        exact hlen
      rw [hsame]
      exact .sent hsource hgot h
  | reading hsource h => exact (finish_idle h.writer).symm ▸ .reading hsource h
  | asked hsource hbuf h => exact (finish_idle h.writer).symm ▸ .asked hsource hbuf h
  | stopped hsource hr h => exact (finish_idle h.writer).symm ▸ .stopped hsource hr h
  | done h => exact (finish_idle h.writer).symm ▸ .done h
  | failed h => exact .failed ((finish_control s).trans h)

/-! ### The terminal -/

/-- Something is delivered, or written by others. -/
theorem Phase.terminal {s' : RemoteFile σ} {b : Bytes}
    (h : Phase content rest todo c commands stdin w text s) (hcontrol : s'.control = s.control)
    (hcommands : s'.commands = s.commands) (hstdin : s'.stdin = s.stdin)
    (hwriter : s'.writer = s.writer) (hfile : s'.file = s.file)
    (htext : s'.buffer ++ s'.output = s.buffer ++ s.output ++ b)
    (hnoise : s'.noise = s.noise ++ b) (hfree : Free (s.noise ++ b)) :
    Phase content rest todo c commands stdin w text s' := by
  refine ⟨hcontrol.trans h.control, hcommands.trans h.commands, hstdin.trans h.stdin,
    hwriter.trans h.writer, ?_, hnoise ▸ hfree, hfile ▸ h.file⟩
  rw [htext, h.text, hnoise, List.append_assoc]

theorem Inv.terminal {s' : RemoteFile σ} {b : Bytes} (h : Inv read content s)
    (hsource : s'.source = s.source) (hcontrol : s'.control = s.control)
    (hcommands : s'.commands = s.commands) (hstdin : s'.stdin = s.stdin)
    (hwriter : s'.writer = s.writer) (hfile : s'.file = s.file)
    (htext : s'.buffer ++ s'.output = s.buffer ++ s.output ++ b)
    (hnoise : s'.noise = s.noise ++ b) (hfree : Free s.noise → Free (s.noise ++ b)) :
    Inv read content s' := by
  have hphase : ∀ {rest todo c commands stdin w text},
      Phase content rest todo c commands stdin w text s →
        Phase content rest todo c commands stdin w text s' := fun h =>
    h.terminal hcontrol hcommands hstdin hwriter hfile htext hnoise (hfree h.free)
  cases h with
  | reading h' h => exact .reading (hsource ▸ h') (hphase h)
  | asked h' hbuf h => exact .asked (hsource ▸ h') hbuf (hphase h)
  | started h' hbuf hr h => exact .started (hsource ▸ h') hbuf hr (hphase h)
  | sent h' hgot h => exact .sent (hsource ▸ h') hgot (hphase h)
  | stopped h' hr h => exact .stopped (hsource ▸ h') hr (hphase h)
  | done h => exact .done (hphase h)
  | failed h => exact .failed (hcontrol.trans h)

theorem Phase.deliver (h : Phase content rest todo c commands stdin w text s) (k : Nat) :
    Phase content rest todo c commands stdin w text (deliver k s) := by
  refine h.terminal (b := []) rfl rfl rfl rfl rfl ?_ ?_ ?_
  · simp only [RemoteFile.deliver, List.append_assoc, List.take_append_drop, List.append_nil]
  · simp only [RemoteFile.deliver, List.append_nil]
  · rw [List.append_nil]
    exact h.free

theorem Inv.deliver (h : Inv read content s) (k : Nat) : Inv read content (deliver k s) := by
  refine h.terminal (b := []) rfl rfl rfl rfl rfl rfl ?_ ?_ fun hfree => ?_
  · simp only [RemoteFile.deliver, List.append_assoc, List.take_append_drop, List.append_nil]
  · simp only [RemoteFile.deliver, List.append_nil]
  · rwa [List.append_nil]

/-- **Step.** -/
theorem inv_step (h : Inv read content s) (a : Action) (hok : Ok a s) :
    Inv read content (step read a s) := by
  cases a with
  | client => exact h.clientStep
  | timeout => exact h.clientTimeout
  | accept => exact h.accept
  | input k => exact h.input k
  | finish => exact h.finish
  | deliver k => exact h.deliver k
  | rubbish b =>
    exact h.terminal rfl rfl rfl rfl rfl rfl (List.append_assoc ..).symm rfl fun _ => hok

theorem inv_reachable (hsource : Reads read source content)
    (h : Reaches (step read) Ok (init source) s) : Inv read content s :=
  h.invariant (inv_init hsource) fun a _ ht hok => inv_step ht a hok

/-! ## The copy -/

/-- What is written is the beginning of the content, and at the end the content. -/
def Copies (content : Bytes) (s : RemoteFile σ) : Prop :=
  (s.control ≠ .failed → s.file <+: content) ∧
    (s.control = .done → s.file = content ∧ s.writer = .idle ∧ s.stdin = [])

theorem copies_of_reads (hsource : Reads read source content)
    (h : Reaches (step read) Ok (init source) s) : Copies content s := by
  have hprefix : ∀ {rest todo c commands stdin w text},
      Phase content rest todo c commands stdin w text s → s.file <+: content :=
    fun h => ⟨_, h.file⟩
  cases inv_reachable hsource h with
  | reading _ h => exact ⟨fun _ => hprefix h, fun hdone => by simp [h.control] at hdone⟩
  | asked _ _ h => exact ⟨fun _ => hprefix h, fun hdone => by simp [h.control] at hdone⟩
  | started _ _ _ h => exact ⟨fun _ => hprefix h, fun hdone => by simp [h.control] at hdone⟩
  | sent _ _ h => exact ⟨fun _ => hprefix h, fun hdone => by simp [h.control] at hdone⟩
  | stopped _ _ h => exact ⟨fun _ => hprefix h, fun hdone => by simp [h.control] at hdone⟩
  | done h => exact ⟨fun _ => hprefix h, fun _ => ⟨by simpa using h.file, h.writer, h.stdin⟩⟩
  | failed h => exact ⟨fun hne => absurd h hne, fun hdone => by simp [h] at hdone⟩

end

/-- **Run.**  A local file is copied to a target. -/
theorem copies_to_target {size : Nat} (hsize : 0 < size) {content : Bytes} {s : RemoteFile Bytes}
    (h : Reaches (step (readLocal size)) Ok (init content) s) : Copies content s :=
  copies_of_reads (reads_readLocal hsize content) h

/-- **Run.**  A file at one target is copied to another. -/
theorem copies_between_targets (size : FileCopier.BufferSize) {content : Bytes}
    {rubbish : Nat → FileCopier.Rubbish} {cuts : Nat → Nat} {before : Option Bytes}
    {s : RemoteFile FileCopier.Transfer}
    (h : Reaches (step (readRemote size.val)) Ok
      (init (FileCopier.init content rubbish cuts before)) s) : Copies content s :=
  copies_of_reads (reads_readRemote size rfl) h

/-- Two reads.  Others write the front of a marker before it comes, and it comes in parts. -/
def twoReads : List Action :=
  [.client, .rubbish (ascii "reading sto"), .accept, .deliver 16, .client, .deliver 9, .client,
    .input 3, .client, .input 9, .finish, .deliver 40, .client,
    .client, .accept, .deliver 40, .client, .input 40, .finish, .deliver 40, .client, .client]

theorem copies_to_target_twoReads :
    let s := twoReads.foldl (fun s a => step (readLocal 3) a s) (init (ascii "abcd"))
    s.control = .done ∧ Copies (ascii "abcd") s :=
  ⟨by decide +kernel, copies_to_target (by decide)
    (reaches_of_along twoReads .refl (by decide +kernel))⟩

/-- `abcd`, with rubbish before each response, which comes in parts of three. -/
def abcd : FileCopier.Transfer :=
  FileCopier.init (ascii "abcd") (fun _ => ⟨ascii "abc", by decide +kernel⟩) (fun _ => 2) none

theorem copies_between_targets_twoReads :
    let s := twoReads.foldl (fun s a => step (readRemote 3) a s) (init abcd)
    s.control = .done ∧ Copies (ascii "abcd") s :=
  ⟨by decide +kernel, copies_between_targets ⟨3, by decide, by decide⟩
    (reaches_of_along twoReads .refl (by decide +kernel))⟩

/-! ## No deadlock -/

section
variable {read : Reader σ} {content rest todo : Bytes} {stdin : Bytes} {s : RemoteFile σ}
  {source : σ}

/-- The terminal delivers everything. -/
theorem deliver_output (s : RemoteFile σ) : (deliver s.output.length s).output = [] :=
  List.drop_length ..

/-- The copy goes on to its next read. -/
def LeadsToRead (read : Reader σ) (content rest : Bytes) (s : RemoteFile σ) : Prop :=
  ∃ s', Reaches (step read) Ok s s' ∧ s'.source = s.source ∧
    Phase content rest [] .reading [] [] .idle [] s'

/-- Actions that do not concern the source. -/
theorem LeadsToRead.of_step (a : Action) (hok : Ok a s)
    (hsource : (step read a s).source = s.source)
    (h : LeadsToRead read content rest (step read a s)) : LeadsToRead read content rest s := by
  obtain ⟨s', hs', hsource', hphase⟩ := h
  exact ⟨s', (Reaches.tail a .refl hok).trans hs', hsource'.trans hsource, hphase⟩

theorem leadsToRead_stopped {r : Bytes} (hr : Free r)
    (h : Phase content rest [] .stop [] [] .idle (r ++ readingStop) s) :
    LeadsToRead read content rest s := by
  apply LeadsToRead.of_step (.deliver s.output.length) trivial rfl
  have hdelivered := h.deliver s.output.length
  have hfound := hdelivered.after?_delivered unbordered_readingStop hr.2 (deliver_output s)
  obtain ⟨hsource, hreading⟩ := clientStep_stopped read hr hdelivered hfound
  exact LeadsToRead.of_step .client trivial hsource ⟨_, .refl, rfl, hreading⟩

theorem leadsToRead_sent {buf got : Bytes} (hgot : got ++ stdin = Base64.encode buf)
    (h : Phase content rest buf .stop [] stdin (.reading (Base64.encode buf).length got) [] s) :
    LeadsToRead read content rest s := by
  obtain ⟨hsource, hinput⟩ := input_sent hgot h stdin.length
  apply LeadsToRead.of_step (.input stdin.length) trivial hsource
  rw [List.take_length, List.drop_length, hgot] at hinput
  obtain ⟨hsource', hstopped⟩ := finish_sent hinput
  exact LeadsToRead.of_step .finish trivial hsource' (leadsToRead_stopped hinput.free hstopped)

theorem leadsToRead_started {buf r : Bytes} (hr : Free r)
    (h : Phase content rest buf (.start (Base64.encode buf)) [] []
      (.reading (Base64.encode buf).length []) (r ++ readingStart) s) :
    LeadsToRead read content rest s := by
  apply LeadsToRead.of_step (.deliver s.output.length) trivial rfl
  have hdelivered := h.deliver s.output.length
  have hfound := hdelivered.after?_delivered unbordered_readingStart hr.1 (deliver_output s)
  obtain ⟨hsource, hsent⟩ := clientStep_started read hr hdelivered hfound
  exact LeadsToRead.of_step .client trivial hsource (leadsToRead_sent (List.nil_append _) hsent)

theorem leadsToRead_asked (read : Reader σ) {buf : Bytes}
    (h : Phase content rest buf (.start (Base64.encode buf)) [(Base64.encode buf).length] []
      .idle [] s) : LeadsToRead read content rest s := by
  obtain ⟨hsource, hstarted⟩ := accept_asked h
  exact LeadsToRead.of_step .accept trivial hsource (leadsToRead_started h.free hstarted)

/-- From a read on, by induction on what the source still has. -/
theorem finishes_reading (hsource : Reads read source rest) (hs : s.source = source)
    (h : Phase content rest [] .reading [] [] .idle [] s) :
    ∃ s', Reaches (step read) Ok s s' ∧ s'.control = .done := by
  induction hsource generalizing s with
  | eof hread =>
    refine ⟨clientStep read s, Reaches.tail Action.client .refl trivial, ?_⟩
    simp only [clientStep, h.control, hs, hread, if_true]
  | @part _ source' buf rest hread hbuf hrest ih =>
    have hclient : clientStep read s = { s with
        source := source'
        commands := s.commands ++ [(Base64.encode buf).length]
        control := .start (Base64.encode buf) } := by
      simp only [clientStep, h.control, hs, hread, if_neg hbuf]
    have hasked : Phase content rest buf (.start (Base64.encode buf)) [(Base64.encode buf).length]
        [] .idle [] (clientStep read s) := by
      rw [hclient]
      exact ⟨rfl, by simp only [h.commands, List.nil_append], h.stdin, h.writer, h.text, h.free,
        h.file⟩
    obtain ⟨s₁, hs₁, hsource₁, hreading⟩ := leadsToRead_asked read hasked
    obtain ⟨s', hs', hdone⟩ := ih (hsource₁.trans (by rw [hclient])) hreading
    exact ⟨s', (Reaches.tail Action.client .refl trivial).trans (hs₁.trans hs'), hdone⟩

/-- **No deadlock.**  A copy that has not failed can always end. -/
theorem can_finish (hsource : Reads read source content)
    (h : Reaches (step read) Ok (init source) s) (hs : s.control ≠ .failed) :
    ∃ s', Reaches (step read) Ok s s' ∧ s'.control = .done ∧ s'.file = content := by
  have hlast : ∀ {rest}, Reads read s.source rest → LeadsToRead read content rest s →
      ∃ s', Reaches (step read) Ok s s' ∧ s'.control = .done := by
    rintro rest hrest ⟨s₁, hs₁, hsource₁, hreading⟩
    obtain ⟨s', hs', hdone⟩ := finishes_reading hrest hsource₁ hreading
    exact ⟨s', hs₁.trans hs', hdone⟩
  have hfinish : ∃ s', Reaches (step read) Ok s s' ∧ s'.control = .done := by
    cases inv_reachable hsource h with
    | reading hrest h => exact finishes_reading hrest rfl h
    | asked hrest _ h => exact hlast hrest (leadsToRead_asked read h)
    | started hrest _ hr h => exact hlast hrest (leadsToRead_started hr h)
    | sent hrest hgot h => exact hlast hrest (leadsToRead_sent hgot h)
    | stopped hrest hr h => exact hlast hrest (leadsToRead_stopped hr h)
    | done h => exact ⟨s, .refl, h.control⟩
    | failed h => exact absurd h hs
  obtain ⟨s', hs', hdone⟩ := hfinish
  exact ⟨s', hs', hdone, ((copies_of_reads hsource (h.trans hs')).2 hdone).1⟩

end

/-- The copy is in its second write. -/
theorem can_finish_twoReads :
    let s := (twoReads.take 16).foldl (fun s a => step (readLocal 3) a s) (init (ascii "abcd"))
    s.file = ascii "abc" ∧ s.control = .start (ascii "ZA==") ∧
      ∃ s', Reaches (step (readLocal 3)) Ok s s' ∧ s'.control = .done ∧ s'.file = ascii "abcd" :=
  ⟨by decide +kernel, by decide +kernel, can_finish (reads_readLocal (by decide) _)
    (reaches_of_along (twoReads.take 16) .refl (by decide +kernel)) (by decide +kernel)⟩

end RemoteFile

end InteractiveSessions
