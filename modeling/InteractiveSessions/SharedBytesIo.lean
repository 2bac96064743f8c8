import InteractiveSessions.Lib.Decimal
import InteractiveSessions.Lib.Runs

/-!
# `SharedBytesIO`: one buffer with a reader and a writer position

The class of that name in `chunkcomm.py`, over the `BytesIO` operations it
uses.  The positions are part of the type: the reader is never past the
writer, and the writer is at the end of the buffer.

Seen from outside it is a queue: `unread_write`, `read_fst` and `unread_read`
say so, and `readableSize_eq` is its length.  `asQueue` says it of whole runs,
together with what the dropping of the bytes already read guarantees.
-/

namespace InteractiveSessions

/-! ## `BytesIO` -/

namespace BytesIo

/-- `seek(pos)` and `write(s)` -/
def write (pos : Nat) (s value : Bytes) : Bytes :=
  value.take pos ++ s ++ value.drop (pos + s.length)

/-- `seek(pos)` and `read(size)`; a negative size reads to the end. -/
def read (pos : Nat) (size : Int) (value : Bytes) : Bytes :=
  if size < 0 then value.drop pos else (value.drop pos).take size.toNat

end BytesIo

def maxBufferSize : Nat := 100 * 2000

structure SharedBytesIo where
  value : Bytes
  readerPos : Nat
  writerPos : Nat
  readerPos_le : readerPos ≤ writerPos
  writerPos_eq : writerPos = value.length
  deriving DecidableEq, Repr

namespace SharedBytesIo

/-- The state after `__init__`. -/
def new : SharedBytesIo := ⟨[], 0, 0, le_rfl, rfl⟩

def readableSize (io : SharedBytesIo) : Int := io.writerPos - io.readerPos

/-- The bytes written and not yet read. -/
def unread (io : SharedBytesIo) : Bytes := io.value.drop io.readerPos

theorem write_end (io : SharedBytesIo) (s : Bytes) :
    BytesIo.write io.writerPos s io.value = io.value ++ s := by
  rw [BytesIo.write, io.writerPos_eq, List.take_length, List.drop_of_length_le (by omega),
    List.append_nil]

def write (s : Bytes) (io : SharedBytesIo) : SharedBytesIo where
  value := BytesIo.write io.writerPos s io.value
  readerPos := io.readerPos
  writerPos := io.writerPos + s.length
  readerPos_le := io.readerPos_le.trans (Nat.le_add_right ..)
  writerPos_eq := by rw [write_end, List.length_append, io.writerPos_eq]

/-- `_clean_already_read` -/
def cleanAlreadyRead (io : SharedBytesIo) : SharedBytesIo where
  value := BytesIo.read io.readerPos (-1) io.value
  readerPos := 0
  writerPos := (BytesIo.read io.readerPos (-1) io.value).length
  readerPos_le := Nat.zero_le _
  writerPos_eq := rfl

/-- `_reader.read(size)` -/
def readerRead (size : Int) (io : SharedBytesIo) : Bytes × SharedBytesIo :=
  let s := BytesIo.read io.readerPos size io.value
  (s, { io with
    readerPos := io.readerPos + s.length
    readerPos_le := by
      have h := io.readerPos_le
      have hlen : s.length ≤ io.value.length - io.readerPos := by
        simp only [s, BytesIo.read]
        split <;> simp
      rw [io.writerPos_eq] at h ⊢
      omega })

def read (size : Int) (io : SharedBytesIo) : Bytes × SharedBytesIo :=
  if maxBufferSize < io.readerPos + size then readerRead size (cleanAlreadyRead io)
  else readerRead size io

@[simp] theorem unread_new : new.unread = [] := rfl

theorem readableSize_eq (io : SharedBytesIo) : io.readableSize = io.unread.length := by
  have h := io.readerPos_le
  rw [readableSize, unread, List.length_drop, ← io.writerPos_eq]
  omega

@[simp] theorem unread_write (s : Bytes) (io : SharedBytesIo) :
    (io.write s).unread = io.unread ++ s := by
  have h := io.readerPos_le
  rw [io.writerPos_eq] at h
  have hdef : (io.write s).unread =
      (BytesIo.write io.writerPos s io.value).drop io.readerPos := rfl
  rw [hdef, write_end, List.drop_append_of_le_length h, unread]

@[simp] theorem unread_cleanAlreadyRead (io : SharedBytesIo) :
    io.cleanAlreadyRead.unread = io.unread := rfl

theorem readerRead_fst (size : Int) (io : SharedBytesIo) :
    (io.readerRead size).1 = if size < 0 then io.unread else io.unread.take size.toNat := rfl

theorem unread_readerRead (size : Int) (io : SharedBytesIo) :
    (io.readerRead size).2.unread = if size < 0 then [] else io.unread.drop size.toNat := by
  have h : (io.readerRead size).2.unread = io.unread.drop (io.readerRead size).1.length := by
    rw [unread, unread, List.drop_drop]
    rfl
  rw [h, readerRead_fst]
  split
  · exact List.drop_length
  · rw [List.length_take]
    rcases Nat.le_total size.toNat io.unread.length with hle | hle
    · rw [Nat.min_eq_left hle]
    · rw [Nat.min_eq_right hle, List.drop_length, List.drop_of_length_le hle]

theorem read_fst (size : Int) (io : SharedBytesIo) :
    (io.read size).1 = if size < 0 then io.unread else io.unread.take size.toNat := by
  rw [read]
  split <;> rw [readerRead_fst]
  rw [unread_cleanAlreadyRead]

theorem unread_read (size : Int) (io : SharedBytesIo) :
    (io.read size).2.unread = if size < 0 then [] else io.unread.drop size.toNat := by
  rw [read]
  split <;> rw [unread_readerRead]
  rw [unread_cleanAlreadyRead]

/-! ## What is stored -/

@[simp] theorem value_readerRead (size : Int) (io : SharedBytesIo) :
    (io.readerRead size).2.value = io.value := rfl

@[simp] theorem value_cleanAlreadyRead (io : SharedBytesIo) :
    io.cleanAlreadyRead.value = io.unread := rfl

/-- What is stored are the bytes read and kept and the unread ones. -/
theorem length_value (io : SharedBytesIo) :
    io.value.length = io.readerPos + io.unread.length := by
  have h := io.readerPos_le
  rw [io.writerPos_eq] at h
  rw [unread, List.length_drop]
  omega

/-- After a read of `size` bytes that are there. -/
theorem length_value_read {size : Int} {io : SharedBytesIo} (h0 : 0 ≤ size)
    (hsize : size ≤ io.readableSize) :
    ((io.read size).2.value.length : Int) ≤
      max (maxBufferSize : Int) size + (io.read size).2.readableSize := by
  have hunread : ((io.read size).2.unread.length : Int) = io.unread.length - size := by
    rw [readableSize_eq] at hsize
    rw [unread_read, if_neg (not_lt.mpr h0), List.length_drop]
    omega
  rw [readableSize_eq, hunread, read]
  split
  · -- only the bytes not yet read were kept
    rw [value_readerRead, value_cleanAlreadyRead]
    omega
  · rw [value_readerRead, length_value]
    omega

/-! ## Runs -/

inductive Op where
  | write (s : Bytes)
  | read (size : Int)

/-- The stream, and all the bytes that were written to it and read from it. -/
structure Use where
  io : SharedBytesIo
  written : Bytes
  taken : Bytes

namespace Use

def new : Use := ⟨SharedBytesIo.new, [], []⟩

def step : Op → Use → Use
  | .write s, u => { u with io := u.io.write s, written := u.written ++ s }
  | .read size, u =>
    { u with io := (u.io.read size).2, taken := u.taken ++ (u.io.read size).1 }

/-- A read asks for no more than is there. -/
def InRange : Op → Use → Prop
  | .write _, _ => True
  | .read size, u => 0 ≤ size ∧ size ≤ u.io.readableSize

instance : (op : Op) → (u : Use) → Decidable (InRange op u)
  | .write _, _ => isTrue trivial
  | .read size, u => inferInstanceAs (Decidable (0 ≤ size ∧ size ≤ u.io.readableSize))

/-- What a read returns and leaves in the buffer. -/
def ReadsNext : Op → Use → Prop
  | .write _, _ => True
  | .read size, u =>
    (u.io.read size).1 = (u.written.drop u.taken.length).take size.toNat ∧
      ((u.io.read size).1.length : Int) = size ∧
      ((u.io.read size).2.value.length : Int) ≤
        max (maxBufferSize : Int) size + (u.io.read size).2.readableSize

def Sized (u : Use) : Prop :=
  u.io.readableSize = (u.written.length : Int) - u.taken.length

/-- The unread bytes are those that were written and not taken. -/
def Balanced (u : Use) : Prop := u.written = u.taken ++ u.io.unread

theorem Balanced.sized {u : Use} (h : u.Balanced) : u.Sized := by
  rw [Sized, readableSize_eq, h, List.length_append]
  omega

theorem Balanced.step {op : Op} {u : Use} (h : u.Balanced) (hop : InRange op u) :
    (Use.step op u).Balanced := by
  cases op with
  | write s =>
    show u.written ++ s = u.taken ++ (u.io.write s).unread
    rw [unread_write, ← List.append_assoc, ← h]
  | read size =>
    show u.written = u.taken ++ (u.io.read size).1 ++ (u.io.read size).2.unread
    rw [read_fst, unread_read, if_neg (not_lt.mpr hop.1), if_neg (not_lt.mpr hop.1),
      List.append_assoc, List.take_append_drop]
    exact h

theorem Balanced.readsNext {op : Op} {u : Use} (h : u.Balanced) (hop : InRange op u) :
    ReadsNext op u := by
  cases op with
  | write s => trivial
  | read size =>
    have hread : (u.io.read size).1 = u.io.unread.take size.toNat := by
      rw [read_fst, if_neg (not_lt.mpr hop.1)]
    refine ⟨?_, ?_, length_value_read hop.1 hop.2⟩
    · rw [hread, h, List.drop_left]
    · have := hop.2
      have h0 := hop.1
      rw [readableSize_eq] at this
      rw [hread, List.length_take]
      omega

/-- **The stream is a queue** in every run whose reads are in range, whether or
not bytes already read were dropped on the way. -/
theorem asQueue (ops : List Op) (h : Along step InRange ops new) :
    Along step (fun op u => ReadsNext op u ∧ (step op u).Sized) ops new := by
  apply Along.of_invariant (I := Balanced) _ _ ops _ h
  · exact fun op u hu hop => hu.step hop
  · exact fun op u hu hop => ⟨hu.readsNext hop, (hu.step hop).sized⟩
  · rfl

theorem asQueue_abc :
    Along step InRange [.write [97, 98, 99], .read 2, .read 0, .read 1] new ∧
      Along step (fun op u => ReadsNext op u ∧ (step op u).Sized)
        [.write [97, 98, 99], .read 2, .read 0, .read 1] new := by
  have h : Along step InRange [.write [97, 98, 99], .read 2, .read 0, .read 1] new := by decide
  exact ⟨h, asQueue _ h⟩

end Use

end SharedBytesIo

end InteractiveSessions
