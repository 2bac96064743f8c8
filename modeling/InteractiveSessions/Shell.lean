import InteractiveSessions.Lib.Triple
import InteractiveSessions.Lib.Utf8
import Mathlib.Algebra.Order.Field.Rat

/-!
# `shells.shell`: texts read from the terminal

`_read` and `_read_until_end` decode every piece that a read delivers on its own.
The bytes of a character that is cut become four characters each.

* `consumesEcho_iff`: `_exec_cmd` consumes exactly the echo of a command if and only
  if no read ends inside a character;
* `returnsText_iff`: so does `_read_until_end` return the text that was output.

A `str` is the list of its characters.
-/

namespace InteractiveSessions

open Utf8

/-! ## `compatibility` -/

namespace Compatibility

/-- `'\\x{:02x}'.format(c)` -/
def decodeErrorChar (c : Byte) : List Char :=
  ['\\', 'x', Nat.digitChar (c.toNat / 16), Nat.digitChar (c.toNat % 16)]

/-- `b.decode('utf-8', 'compatibilityreplace')` -/
def toString (b : Bytes) : List Char := decodeWith decodeErrorChar b

theorem two_le_length (c : Byte) : 2 ≤ (decodeErrorChar c).length := by simp [decodeErrorChar]

end Compatibility

/-! ## The terminal -/

inductive ReadExc where
  /-- `pexpect.TIMEOUT` -/
  | timeout
  /-- `TimeoutError(output)` -/
  | timeoutError (output : List Char)
  | unicodeDecodeError
  deriving DecidableEq

/-- `incoming` is what the terminal outputs from now on, in the fragments in which it
arrives.  After the last one every read times out. -/
structure Spawn where
  incoming : List Bytes
  buffer : Bytes
  before : Option Bytes
  sent : Bytes
  deriving DecidableEq

/-- An output in nonempty fragments. -/
structure Fragmentation (b : Bytes) where
  pieces : List Bytes
  flatten_eq : pieces.flatten = b
  ne_nil : ∀ p ∈ pieces, p ≠ []

namespace Shell

/-- What is left of the fragments when `size` bytes of the first one are taken. -/
def remaining (size : Nat) (f : Bytes) (fs : List Bytes) : List Bytes :=
  if f.drop size = [] then fs else f.drop size :: fs

def readNonblocking (size : Nat) : Prog ReadExc Spawn Bytes := fun s =>
  match s.incoming with
  | [] => .raised .timeout s
  | f :: fs => .ret (f.take size) { s with incoming := remaining size f fs }

def sendline (cmd : List Char) : Prog ReadExc Spawn Unit :=
  Prog.modify fun s => { s with sent := s.sent ++ encode cmd ++ [10] }

def clearBuffer : Prog ReadExc Spawn Unit := Prog.modify fun s => { s with buffer := [] }

/-! ## `Shell` -/

def readStrNonblocking (size : Nat) : Prog ReadExc Spawn (List Char) := do
  let ret ← readNonblocking size
  pure (Compatibility.toString ret)

def wrapTimeoutException {α : Type} (body : Prog ReadExc Spawn α) : Prog ReadExc Spawn α :=
  Prog.tryExcept body fun
    | .timeout => some do
      let before ← Prog.gets fun s : Spawn => s.before
      match before with
      | none => Prog.raise (.timeoutError [])
      | some b =>
        match decode? b with
        | some output => Prog.raise (.timeoutError output)
        | none => Prog.raise .unicodeDecodeError
    | _ => none

/-- The loop of `_read`.  Every read delivers something. -/
def readLoop : Nat → Int → List Char → Prog ReadExc Spawn (List Char)
  | 0, _, _ => Prog.hang
  | fuel + 1, count, output =>
    if 0 < count then do
      let out ← readStrNonblocking count.toNat
      clearBuffer
      readLoop fuel (count - out.length) (output ++ out)
    else pure output

/-- `_read` -/
def read (count : Nat) : Prog ReadExc Spawn (List Char) :=
  wrapTimeoutException (readLoop (count + 1) count [])

/-- `_exec_cmd` -/
def execCmd (ttyEcho : Bool) (cmd : List Char) : Prog ReadExc Spawn Unit := do
  sendline cmd
  if ttyEcho then do
    let _ ← read (cmd.length + 2)
    pure ()
  else pure ()

/-- A read of the loop of `_read_until_end`, which a timeout ends. -/
def readOrTimeout : Prog ReadExc Spawn (Option (List Char)) :=
  Prog.tryExcept
    (do
      let out ← readStrNonblocking 1024
      pure (some out))
    fun
    | .timeout => some (pure none)
    | _ => none

/-- The loop of `_read_until_end`. -/
def readUntilTimeout : Nat → List Char → Prog ReadExc Spawn (List Char)
  | 0, _ => Prog.hang
  | fuel + 1, output => do
    let out ← readOrTimeout
    match out with
    | some out => readUntilTimeout fuel (output ++ out)
    | none => pure output

/-- The first read of `_read_until_end`, if there is a `timeout`. -/
def readFirst (timeout : ℚ) : Prog ReadExc Spawn (List Char) :=
  if timeout ≠ 0 then wrapTimeoutException (readStrNonblocking 1024) else pure []

/-- `_read_until_end` -/
def readUntilEnd (timeout : ℚ) : Prog ReadExc Spawn (List Char) := do
  let first ← readFirst timeout
  let s ← Prog.gets fun s : Spawn => s
  let output ← readUntilTimeout (s.incoming.flatten.length + 1) first
  clearBuffer
  pure output

/-! ## One read -/

variable {s : Spawn} {size fuel : Nat} {count : Int} {output : List Char} {u : List Char}
  {f : Bytes} {fs : List Bytes} {after : Bytes}

theorem remaining_flatten (size : Nat) (f : Bytes) (fs : List Bytes) :
    (remaining size f fs).flatten = f.drop size ++ fs.flatten := by
  unfold remaining
  split
  · next h => rw [h, List.nil_append]
  · rfl

theorem remaining_ne_nil (h : ∀ p ∈ f :: fs, p ≠ []) :
    ∀ p ∈ remaining size f fs, p ≠ [] := by
  intro p hp
  unfold remaining at hp
  split at hp
  · exact h p (List.mem_cons_of_mem _ hp)
  · next hne =>
    rcases List.mem_cons.mp hp with rfl | hp
    · exact hne
    · exact h p (List.mem_cons_of_mem _ hp)

theorem readStrNonblocking_cons (h : s.incoming = f :: fs) :
    readStrNonblocking size s =
      .ret (Compatibility.toString (f.take size)) { s with incoming := remaining size f fs } := by
  simp only [readStrNonblocking, Prog.bind_run, readNonblocking, h, Prog.pure_run]

theorem readLoop_cons (hcount : 0 < count) (h : s.incoming = f :: fs) :
    readLoop (fuel + 1) count output s =
      readLoop fuel (count - (Compatibility.toString (f.take count.toNat)).length)
        (output ++ Compatibility.toString (f.take count.toNat))
        { s with incoming := remaining count.toNat f fs, buffer := [] } := by
  rw [readLoop, if_pos hcount, Prog.bind_ret (readStrNonblocking_cons h)]
  rfl

theorem readLoop_done (hcount : count ≤ 0) :
    readLoop (fuel + 1) count output s = .ret output s := by
  rw [readLoop, if_neg (by omega)]
  rfl

/-- A read within `z` takes a first part of it. -/
theorem exists_remaining {z : Bytes} (h : (f :: fs).flatten = z ++ after)
    (hsize : size ≤ z.length) :
    ∃ rest, z = f.take size ++ rest ∧ (remaining size f fs).flatten = rest ++ after := by
  have hsplit : f.take size ++ (f.drop size ++ fs.flatten) = z ++ after := by
    rw [← List.append_assoc, List.take_append_drop, ← h, List.flatten_cons]
  have hpre : f.take size <+: z := by
    refine List.prefix_of_prefix_length_le ⟨_, hsplit⟩ (List.prefix_append z after) ?_
    exact (List.length_take_le ..).trans hsize
  obtain ⟨rest, rfl⟩ := hpre
  refine ⟨rest, rfl, ?_⟩
  rw [remaining_flatten]
  rw [List.append_assoc, List.append_cancel_left_eq] at hsplit
  exact hsplit

/-! ## The echo of a command -/

def crlf : List Char := ['\r', '\n']

/-- When the characters `u` are still to be echoed, a read asks for that many bytes.
It returns whole characters, and so do the reads after it. -/
inductive Whole : List Char → List Bytes → Prop
  | done (fs : List Bytes) : Whole [] fs
  | read {u t : List Char} {f : Bytes} {fs : List Bytes} (hu : u ≠ [])
      (htake : f.take u.length = encode t)
      (h : Whole (u.drop t.length) (remaining u.length f fs)) : Whole u (f :: fs)

/-- `_exec_cmd` consumes the echo of the command and nothing of what comes after it. -/
def ConsumesEcho (cmd : List Char) (after : Bytes)
    (f : Fragmentation (encode (cmd ++ crlf) ++ after)) (s : Spawn) : Prop :=
  ∃ s', execCmd true cmd { s with incoming := f.pieces } = .ret () s' ∧
    s'.incoming.flatten = after

theorem exists_cons_of_flatten (h : s.incoming.flatten ≠ []) : ∃ f fs, s.incoming = f :: fs := by
  apply List.exists_cons_of_ne_nil
  rintro hnil
  exact h (by rw [hnil, List.flatten_nil])

/-- Whole characters: what is counted is what was echoed. -/
theorem readLoop_whole (output : List Char) (h : Whole u fs) (hinc : s.incoming = fs)
    (hstream : fs.flatten = encode u ++ after) (hne : ∀ p ∈ fs, p ≠ []) (hfuel : u.length < fuel) :
    ∃ out s', readLoop fuel u.length output s = .ret out s' ∧ s'.incoming.flatten = after := by
  induction h generalizing fuel output s with
  | done fs =>
    obtain ⟨fuel, rfl⟩ : ∃ n, fuel = n + 1 := ⟨fuel - 1, by omega⟩
    refine ⟨output, s, readLoop_done le_rfl, ?_⟩
    rw [hinc, hstream]
    rfl
  | @read u t f fs hu htake h ih =>
    obtain ⟨fuel, rfl⟩ : ∃ n, fuel = n + 1 := ⟨fuel - 1, by omega⟩
    obtain ⟨rest, hrest, hflatten⟩ := exists_remaining hstream (length_le_length_encode u)
    have hf : f ≠ [] := hne f (List.mem_cons_self ..)
    have ht : t ≠ [] := by
      rintro rfl
      simp [hu, hf] at htake
    have hpos := List.length_pos_iff.mpr ht
    rw [htake] at hrest
    obtain ⟨v, rfl, rfl⟩ := exists_text hrest
    rw [List.drop_left] at h ih
    have hcount : (0 : Int) < (t ++ v).length := by simp; omega
    rw [readLoop_cons hcount hinc, Int.toNat_natCast, htake, Compatibility.toString,
      decodeWith_encode]
    have hsub : ((t ++ v).length : Int) - t.length = v.length := by simp
    rw [hsub]
    exact ih _ rfl hflatten (remaining_ne_nil hne) (by simp at hfuel; omega)

/-- Once too much was counted, the loop ends before the end of the echo. -/
theorem readLoop_behind {z : Bytes} (hz : z ≠ []) (hstream : s.incoming.flatten = z ++ after)
    (hcount : count < starts z) {out : List Char} {s' : Spawn}
    (hrun : readLoop fuel count output s = .ret out s') :
    ∃ rest, rest ≠ [] ∧ s'.incoming.flatten = rest ++ after := by
  induction fuel generalizing count output s z with
  | zero => cases hrun
  | succ fuel ih =>
    by_cases hpos : 0 < count
    · obtain ⟨f, fs, hinc⟩ := exists_cons_of_flatten (s := s) (by simp [hstream, hz])
      have hle := starts_le z
      rw [hinc] at hstream
      have hcount' : count.toNat ≤ z.length := by omega
      obtain ⟨rest, hrest, hflatten⟩ := exists_remaining hstream hcount'
      have hstarts := starts_le_length Compatibility.two_le_length (f.take count.toNat)
      rw [readLoop_cons hpos hinc] at hrun
      refine ih ?_ hflatten ?_ hrun
      · rintro rfl
        have hlen := congrArg List.length hrest
        simp only [List.append_nil, List.length_take] at hlen
        omega
      · rw [hrest, starts_append] at hcount
        unfold Compatibility.toString
        omega
    · rw [readLoop_done (by omega)] at hrun
      cases hrun
      exact ⟨z, hz, hstream⟩

/-- A read that cuts a character counts too much. -/
theorem readLoop_not_whole (h : ¬ Whole u s.incoming)
    (hstream : s.incoming.flatten = encode u ++ after) {out : List Char} {s' : Spawn}
    (hrun : readLoop fuel u.length output s = .ret out s') :
    ∃ rest, rest ≠ [] ∧ s'.incoming.flatten = rest ++ after := by
  induction fuel generalizing output s u with
  | zero => cases hrun
  | succ fuel ih =>
    have hu : u ≠ [] := by
      rintro rfl
      exact h (.done _)
    have hpos := List.length_pos_iff.mpr hu
    have hlen := length_le_length_encode u
    obtain ⟨f, fs, hinc⟩ := exists_cons_of_flatten (s := s) (by
      rw [hstream]
      intro hnil
      have := congrArg List.length hnil
      rw [List.length_append, List.length_nil] at this
      omega)
    rw [hinc] at hstream h
    obtain ⟨rest, hrest, hflatten⟩ := exists_remaining hstream hlen
    rw [readLoop_cons (by omega) hinc, Int.toNat_natCast] at hrun
    by_cases hvalid : Valid (f.take u.length)
    · obtain ⟨t, ht⟩ := hvalid
      rw [ht] at hrest hrun
      obtain ⟨v, rfl, rfl⟩ := exists_text hrest
      have hsub : ((t ++ v).length : Int) - t.length = v.length := by simp
      rw [Compatibility.toString, decodeWith_encode, hsub] at hrun
      refine ih (fun hv => h (.read hu ht ?_)) hflatten hrun
      rwa [List.drop_left]
    · have hstarts : starts (f.take u.length) <
          (Compatibility.toString (f.take u.length)).length := by
        rcases starts_lt_or_valid Compatibility.two_le_length (f.take u.length) with hlt | hv
        · exact hlt
        · exact absurd hv hvalid
      have hall := congrArg starts hrest
      rw [starts_encode, starts_append] at hall
      refine readLoop_behind ?_ hflatten ?_ hrun
      · rintro rfl
        exact hvalid ⟨u, by rw [hrest, List.append_nil]⟩
      · omega

theorem wrapTimeoutException_ret_iff {α : Type} {m : Prog ReadExc Spawn α} {a : α}
    {s' : Spawn} : wrapTimeoutException m s = .ret a s' ↔ m s = .ret a s' := by
  unfold wrapTimeoutException
  constructor
  · intro h
    cases hm : m s with
    | ret b t => rwa [Prog.tryExcept_ret hm] at h
    | raised e t =>
      exfalso
      cases e with
      | timeout =>
        rw [Prog.tryExcept_caught hm rfl, Prog.bind_ret (Prog.gets_run _ t)] at h
        cases hb : t.before with
        | none =>
          rw [hb] at h
          cases h
        | some b =>
          rw [hb] at h
          cases hd : decode? b <;> simp [hd] at h
      | timeoutError output =>
        rw [Prog.tryExcept_uncaught hm rfl] at h
        cases h
      | unicodeDecodeError =>
        rw [Prog.tryExcept_uncaught hm rfl] at h
        cases h
    | hang =>
      rw [Prog.tryExcept_hang hm] at h
      cases h
  · exact Prog.tryExcept_ret

/-- A command that is echoed returns when its loop does. -/
theorem execCmd_ret_iff {cmd : List Char} {s' : Spawn} :
    execCmd true cmd s = .ret () s' ↔
      ∃ out, readLoop ((cmd ++ crlf).length + 1) (cmd ++ crlf).length []
        { s with sent := s.sent ++ encode cmd ++ [10] } = .ret out s' := by
  have hlen : cmd.length + 2 = (cmd ++ crlf).length := by simp [crlf]
  simp only [execCmd, sendline, if_true]
  rw [Prog.bind_ret (Prog.modify_run _ s), hlen]
  constructor
  · intro h
    obtain ⟨out, t, hread, hret⟩ := Prog.ret_of_bind h
    cases hret
    exact ⟨out, wrapTimeoutException_ret_iff.mp hread⟩
  · rintro ⟨out, hloop⟩
    have hread : read (cmd ++ crlf).length { s with sent := s.sent ++ encode cmd ++ [10] } =
        .ret out s' := wrapTimeoutException_ret_iff.mpr hloop
    rw [Prog.bind_ret hread]
    rfl

/-- **The echo.**  `_exec_cmd` consumes exactly the echo of a command if and only if
every read returns whole characters. -/
theorem consumesEcho_iff (cmd : List Char) (after : Bytes)
    (f : Fragmentation (encode (cmd ++ crlf) ++ after)) (s : Spawn) :
    ConsumesEcho cmd after f s ↔ Whole (cmd ++ crlf) f.pieces := by
  constructor
  · rintro ⟨s', hrun, hafter⟩
    by_contra hwhole
    obtain ⟨out, hloop⟩ := execCmd_ret_iff.mp hrun
    obtain ⟨rest, hrest, hflatten⟩ := readLoop_not_whole hwhole f.flatten_eq hloop
    rw [hafter] at hflatten
    exact hrest (List.self_eq_append_left.mp hflatten)
  · intro hwhole
    obtain ⟨out, s', hloop, hafter⟩ := readLoop_whole []
      (s := { s with incoming := f.pieces, sent := s.sent ++ encode cmd ++ [10] }) hwhole rfl
      f.flatten_eq f.ne_nil (Nat.lt_succ_self _)
    exact ⟨s', execCmd_ret_iff.mpr ⟨out, hloop⟩, hafter⟩

theorem whole_of_narrow (hu : Narrow u) (hstream : fs.flatten = encode u ++ after)
    (hne : ∀ p ∈ fs, p ≠ []) : Whole u fs := by
  induction hn : u.length using Nat.strong_induction_on generalizing u fs with
  | _ n ih =>
    by_cases hnil : u = []
    · exact hnil ▸ .done fs
    · cases fs with
      | nil =>
        have hlen := congrArg List.length hstream
        have hpos := List.length_pos_iff.mpr hnil
        have hle := length_le_length_encode u
        rw [List.flatten_nil, List.length_nil, List.length_append] at hlen
        omega
      | cons f fs =>
        obtain ⟨rest, hrest, hflatten⟩ := exists_remaining hstream (length_le_length_encode u)
        obtain ⟨t, ht⟩ : ∃ t, f.take u.length = encode t := by
          refine ⟨u.take (f.take u.length).length, ?_⟩
          rw [← take_encode_narrow hu, hrest, List.take_left]
        have hpos : t ≠ [] := by
          rintro rfl
          simp [hnil, hne f (List.mem_cons_self ..)] at ht
        rw [ht] at hrest
        obtain ⟨v, rfl, rfl⟩ := exists_text hrest
        refine .read hnil ht ?_
        rw [List.drop_left]
        refine ih v.length ?_ (fun c hc => hu c (List.mem_append_right t hc)) hflatten
          (remaining_ne_nil hne) rfl
        have := List.length_pos_iff.mpr hpos
        rw [List.length_append] at hn
        omega

/-- One byte after the other. -/
theorem narrow_of_whole (h : Whole u fs) (hstream : fs = (encode u ++ after).map ([·])) :
    Narrow u := by
  induction h with
  | done fs => nofun
  | @read u t f fs hu htake h ih =>
    obtain ⟨c, v, rfl⟩ := List.exists_cons_of_ne_nil hu
    obtain ⟨x, xs, hx⟩ := List.exists_cons_of_ne_nil (encodeChar_ne_nil c)
    rw [encode_cons, hx] at hstream
    simp only [List.cons_append, List.map_cons, List.cons.injEq] at hstream
    obtain ⟨rfl, rfl⟩ := hstream
    have ht : encode t = [x] := by simpa using htake.symm
    have htlen : t.length = 1 := by
      have hle := length_le_length_encode t
      have hne : t ≠ [] := by
        rintro rfl
        cases ht
      have := List.length_pos_iff.mpr hne
      rw [ht, List.length_singleton] at hle
      omega
    have hxs : xs = [] := by
      have hpre : encode t <+: encode (c :: v) := by
        rw [ht, encode_cons, hx]
        exact ⟨xs ++ encode v, rfl⟩
      obtain ⟨w, hw⟩ := prefix_of_encode_prefix hpre
      obtain ⟨d, rfl⟩ := List.length_eq_one_iff.mp htlen
      obtain ⟨rfl, -⟩ := List.cons.inj hw
      rw [encode_cons, hx] at ht
      simpa using ht
    subst hxs
    refine List.forall_mem_cons.mpr ⟨?_, ?_⟩
    · rw [← String.length_utf8EncodeChar, hx]
      rfl
    · rw [htlen] at ih
      refine ih ?_
      simp [remaining]

/-- **All fragmentations.**  However the echo is fragmented, it is consumed exactly, if
and only if the command has no character of several bytes. -/
theorem whole_iff_narrow (cmd : List Char) (after : Bytes) :
    (∀ f : Fragmentation (encode (cmd ++ crlf) ++ after), Whole (cmd ++ crlf) f.pieces) ↔
      Narrow cmd := by
  constructor
  · intro h
    have hnarrow : Narrow (cmd ++ crlf) := by
      refine narrow_of_whole (h ⟨(encode (cmd ++ crlf) ++ after).map ([·]), ?_, ?_⟩) rfl
      · simp [← List.flatMap_def]
      · intro p hp
        obtain ⟨x, -, rfl⟩ := List.mem_map.mp hp
        exact List.cons_ne_nil x []
    exact fun c hc => hnarrow c (List.mem_append_left crlf hc)
  · intro h f
    refine whole_of_narrow (List.forall_mem_append.mpr ⟨h, ?_⟩) f.flatten_eq f.ne_nil
    intro c hc
    rw [crlf, List.mem_cons, List.mem_singleton] at hc
    rcases hc with rfl | rfl
    · rfl
    · rfl

/-- The echo of `é`, cut inside it. -/
def cutEcho : Fragmentation (encode (['é'] ++ crlf) ++ []) where
  pieces := [[0xc3], [0xa9, 13, 10]]
  flatten_eq := by decide +kernel
  ne_nil := by decide

/-- **A cut.**  Three bytes of the echo are left. -/
theorem not_consumesEcho_cut : ¬ ConsumesEcho ['é'] [] cutEcho ⟨[], [], none, []⟩ := by
  rintro ⟨s', hrun, hafter⟩
  have hleft : execCmd true ['é'] ⟨cutEcho.pieces, [], none, []⟩ =
      .ret () ⟨[[0xa9, 13, 10]], [], none, [0xc3, 0xa9, 10]⟩ := by decide +kernel
  rw [hleft] at hrun
  cases hrun
  cases hafter

/-! ## Up to the end of the output -/

/-- Reads of at most 1024 bytes. -/
structure Reads (b : Bytes) extends Fragmentation b where
  length_le : ∀ p ∈ pieces, p.length ≤ 1024

def ReturnsText (timeout : ℚ) {t : List Char} (f : Reads (encode t)) (s : Spawn) : Prop :=
  ∃ s', readUntilEnd timeout { s with incoming := f.pieces } = .ret t s'

theorem readStrNonblocking_nil (h : s.incoming = []) :
    readStrNonblocking size s = .raised .timeout s := by
  simp only [readStrNonblocking, Prog.bind_run, readNonblocking, h]

theorem readStrNonblocking_whole (h : s.incoming = f :: fs) (hle : f.length ≤ size) :
    readStrNonblocking size s = .ret (Compatibility.toString f) { s with incoming := fs } := by
  rw [readStrNonblocking_cons h, List.take_of_length_le hle, remaining, List.drop_of_length_le hle,
    if_pos rfl]

theorem readOrTimeout_nil (h : s.incoming = []) : readOrTimeout s = .ret none s :=
  Prog.tryExcept_caught (Prog.bind_raised (readStrNonblocking_nil h)) rfl

theorem readOrTimeout_whole (h : s.incoming = f :: fs) (hle : f.length ≤ 1024) :
    readOrTimeout s = .ret (some (Compatibility.toString f)) { s with incoming := fs } :=
  Prog.tryExcept_ret (Prog.bind_ret (readStrNonblocking_whole h hle))

theorem readUntilTimeout_run (output : List Char) (hinc : s.incoming = fs)
    (hle : ∀ p ∈ fs, p.length ≤ 1024) (hfuel : fs.length < fuel) :
    readUntilTimeout fuel output s =
      .ret (output ++ fs.flatMap Compatibility.toString) { s with incoming := [] } := by
  induction fs generalizing fuel output s with
  | nil =>
    obtain ⟨fuel, rfl⟩ : ∃ n, fuel = n + 1 := ⟨fuel - 1, by omega⟩
    rw [readUntilTimeout, Prog.bind_ret (readOrTimeout_nil hinc), ← hinc]
    show Outcome.ret output s = _
    rw [hinc, List.flatMap_nil, List.append_nil, ← hinc]
  | cons f fs ih =>
    obtain ⟨fuel, rfl⟩ : ∃ n, fuel = n + 1 := ⟨fuel - 1, by omega⟩
    obtain ⟨hf, hfs⟩ := List.forall_mem_cons.mp hle
    rw [readUntilTimeout, Prog.bind_ret (readOrTimeout_whole hinc hf)]
    dsimp only
    rw [ih _ rfl hfs (by simpa using hfuel), List.flatMap_cons, List.append_assoc]

theorem length_le_length_flatten (h : ∀ p ∈ fs, p ≠ []) : fs.length ≤ fs.flatten.length := by
  induction fs with
  | nil => simp
  | cons f fs ih =>
    obtain ⟨hf, hfs⟩ := List.forall_mem_cons.mp h
    have hpos := List.length_pos_iff.mpr hf
    have hrest := ih hfs
    rw [List.flatten_cons, List.length_append, List.length_cons]
    omega

/-- After the first read, if there is one. -/
theorem readUntilEnd_first {timeout : ℚ} {first : List Char} {s₁ : Spawn}
    (hfirst : readFirst timeout s = .ret first s₁)
    (hne : ∀ p ∈ s₁.incoming, p ≠ []) (hle : ∀ p ∈ s₁.incoming, p.length ≤ 1024) :
    readUntilEnd timeout s = .ret (first ++ s₁.incoming.flatMap Compatibility.toString)
      { s₁ with incoming := [], buffer := [] } := by
  have hrest := readUntilTimeout_run first (s := s₁) rfl hle
    (Nat.lt_succ_of_le (length_le_length_flatten hne))
  rw [readUntilEnd, Prog.bind_ret hfirst, Prog.bind_ret (Prog.gets_run _ s₁), Prog.bind_ret hrest]
  rfl

/-- What `_read_until_end` returns, unless nothing is there before the `timeout`. -/
theorem readUntilEnd_run {timeout : ℚ} (hinc : s.incoming = fs) (hne : ∀ p ∈ fs, p ≠ [])
    (hle : ∀ p ∈ fs, p.length ≤ 1024) (hsome : timeout = 0 ∨ fs ≠ []) :
    readUntilEnd timeout s =
      .ret (fs.flatMap Compatibility.toString) { s with incoming := [], buffer := [] } := by
  by_cases htimeout : timeout = 0
  · have hfirst : readFirst timeout s = .ret [] s := by
      rw [readFirst, if_neg (not_not.mpr htimeout)]
      rfl
    rw [readUntilEnd_first hfirst (hinc ▸ hne) (hinc ▸ hle), hinc, List.nil_append]
  · obtain ⟨f, fs, rfl⟩ := List.exists_cons_of_ne_nil (hsome.resolve_left htimeout)
    obtain ⟨hf, hfs⟩ := List.forall_mem_cons.mp hle
    have hfirst : readFirst timeout s =
        .ret (Compatibility.toString f) { s with incoming := fs } := by
      rw [readFirst, if_pos htimeout]
      exact wrapTimeoutException_ret_iff.mpr (readStrNonblocking_whole hinc hf)
    rw [readUntilEnd_first hfirst (List.forall_mem_cons.mp hne).2 hfs, List.flatMap_cons]

/-- `_read_until_end` returns the text that was output if and only if every read
returns whole characters and, for a `timeout`, something was output. -/
theorem returnsText_one_iff (timeout : ℚ) {t : List Char} (f : Reads (encode t)) (s : Spawn) :
    ReturnsText timeout f s ↔ (∀ p ∈ f.pieces, Valid p) ∧ (timeout = 0 ∨ t ≠ []) := by
  have hnil : f.pieces = [] ↔ t = [] := by
    constructor
    · intro h
      apply encode_injective
      rw [← f.flatten_eq, h]
      rfl
    · rintro rfl
      have hlen := length_le_length_flatten f.ne_nil
      rw [f.flatten_eq] at hlen
      exact List.length_eq_zero_iff.mp (Nat.le_zero.mp hlen)
  rw [← flatMap_decodeWith_iff Compatibility.two_le_length f.flatten_eq]
  by_cases hsome : timeout = 0 ∨ t ≠ []
  · have hrun := readUntilEnd_run (s := { s with incoming := f.pieces }) rfl f.ne_nil f.length_le
      (hsome.imp_right fun ht hp => ht (hnil.mp hp))
    constructor
    · rintro ⟨s', h⟩
      exact ⟨congrArg (fun o => o.value?.getD []) (hrun.symm.trans h), hsome⟩
    · rintro ⟨h, -⟩
      exact ⟨_, hrun.trans (congrArg (Outcome.ret · _) h)⟩
  · refine iff_of_false ?_ fun h => hsome h.2
    rintro ⟨s', hrun⟩
    obtain ⟨htimeout, ht⟩ := not_or.mp hsome
    obtain ⟨out, s₁, hfirst, -⟩ := Prog.ret_of_bind hrun
    rw [readFirst, if_pos htimeout, wrapTimeoutException_ret_iff,
      readStrNonblocking_nil (hnil.mpr (not_not.mp ht))] at hfirst
    cases hfirst

/-- **Two runs.** -/
theorem returnsText_iff (timeout : ℚ) {t : List Char} (f g : Reads (encode t)) (s : Spawn) :
    (ReturnsText timeout f s ∧ ReturnsText timeout g s) ↔
      (∀ p ∈ f.pieces, Valid p) ∧ (∀ p ∈ g.pieces, Valid p) ∧ (timeout = 0 ∨ t ≠ []) := by
  rw [returnsText_one_iff, returnsText_one_iff]
  tauto

/-- `é` in one read. -/
def oneRead : Reads (encode ['é']) where
  pieces := [[0xc3, 0xa9]]
  flatten_eq := by decide +kernel
  ne_nil := by decide
  length_le := by decide

/-- `é` in two reads. -/
def twoReads : Reads (encode ['é']) where
  pieces := [[0xc3], [0xa9]]
  flatten_eq := by decide +kernel
  ne_nil := by decide
  length_le := by decide

/-- **Two texts.**  The second run returns `\\xc3\\xa9`. -/
theorem not_returnsText_twoReads :
    ¬ (ReturnsText 0 oneRead ⟨[], [], none, []⟩ ∧ ReturnsText 0 twoReads ⟨[], [], none, []⟩) := by
  rintro ⟨-, s', h⟩
  have hrun : (readUntilEnd 0 ⟨[[0xc3], [0xa9]], [], none, []⟩).value? =
      some "\\xc3\\xa9".toList := by decide +kernel
  have hvalue : some "\\xc3\\xa9".toList = some ['é'] :=
    hrun.symm.trans (congrArg Outcome.value? h)
  exact absurd hvalue (by decide +kernel)

end Shell

end InteractiveSessions
