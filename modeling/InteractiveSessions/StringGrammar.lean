import InteractiveSessions.BadSizes

/-!
# What the string layer takes for a string

The string layer reads from the shared buffer, in which the chunk layer puts the
payloads it accepts and also those it rejects.  `Turn` says what one turn of the
loop of `read_str` makes of the bytes to come: a string, a length that is no
number, or a rejected chunk, after which the search goes on from the bytes that
are left.  When there is no turn the reader waits (`Waits`).

* `waits_or_turn`: there is nothing else;
* `tryReadStr_turn`, `tryReadStr_waits`: what the loop body does with them;
* `returned_iff_spells`: only strings of `ss` are returned, exactly when the bytes
  spell no others.
-/

namespace InteractiveSessions.StrComm

open ChunkComm GapToken

/-- The unread bytes of the shared buffer, and the bytes on the line. -/
structure Pending where
  buffer : Bytes
  line : Bytes

def Pending.size (p : Pending) : Nat := p.buffer.length + p.line.length

/-- Chunks are accepted while the buffer holds less than `n` bytes. -/
inductive Fills (n : Nat) : Pending → Pending → Prop
  | refl {p} : Fills n p p
  | chunk {b x d rest q} : b.length < n → Attempt x (.chunk d) → Fills n ⟨b ++ d, rest⟩ q →
      Fills n ⟨b, x ++ rest⟩ q

/-- The bytes have no complete string.  When more cannot be read, the second
bytes are still unread. -/
inductive Unfinished : Bytes → Bytes → Prop
  | token {w} : NoGap token w →
      Unfinished w (TokenReader.unsearched token (TokenReader.reset token) w)
  | len {w u} : Shortest token w → u.length < lenWidth → Unfinished (w ++ u) u
  | content {w l u n} : Shortest token w → l.length = lenWidth → Decimal.parseInt l = some n →
      u.length < n.toNat → Unfinished (w ++ (l ++ u)) u

/-- What a read of `n` bytes takes of the buffer, and what it leaves. -/
def readOf (n : Int) (b : Bytes) : Bytes := if n < 0 then b else b.take n.toNat

def unreadOf (n : Int) (b : Bytes) : Bytes := if n < 0 then [] else b.drop n.toNat

/-- What one turn of the loop finds in the bytes to come. -/
inductive Turn : Pending → Option Bytes → Pending → Prop
  | string {p w l b line n} : Shortest token w → l.length = lenWidth →
      Decimal.parseInt l = some n →
      Fills (w.length + (lenWidth + n.toNat)) p ⟨w ++ (l ++ b), line⟩ → n.toNat ≤ b.length →
      Turn p (some (readOf n b)) ⟨unreadOf n b, line⟩
  | badLen {p w l b line} : Shortest token w → l.length = lenWidth → Decimal.parseInt l = none →
      Fills (w.length + lenWidth) p ⟨w ++ (l ++ b), line⟩ → Turn p none ⟨b, line⟩
  | rejected {p w u x v rest} : Fills (w.length + 1) p ⟨w, x ++ rest⟩ → Unfinished w u →
      Attempt x v → (∀ d, v ≠ .chunk d) → Turn p none ⟨u ++ v.kept, rest⟩

/-- Nothing is found before the bytes end. -/
inductive Waits : Pending → Prop
  | intro {p w u line} : Fills (w.length + 1) p ⟨w, line⟩ → Unfinished w u → Incomplete line →
      Waits p

/-- The strings that are found in the bytes to come are all in `ss`. -/
inductive Spells (ss : List Bytes) : Pending → Prop
  | waits {p} : Waits p → Spells ss p
  | turn {p o q} : Turn p o q → (∀ s ∈ o, s ∈ ss) → Spells ss q → Spells ss p

/-! ## Filling the buffer -/

namespace Fills

variable {n m : Nat} {p q : Pending}

theorem isPrefix_buffer (h : Fills n p q) : p.buffer <+: q.buffer := by
  induction h with
  | refl => exact List.prefix_rfl
  | chunk _ _ _ ih => exact (List.prefix_append ..).trans ih

theorem size_le (h : Fills n p q) : q.size ≤ p.size := by
  induction h with
  | refl => exact le_rfl
  | @chunk b x d rest q _ hx _ ih =>
    have hd : d.length < x.length := hx.length_kept_lt
    simp only [Pending.size, List.length_append] at ih ⊢
    omega

theorem mono (hnm : n ≤ m) (h : Fills n p q) : Fills m p q := by
  induction h with
  | refl => exact .refl
  | chunk hlt hx _ ih => exact .chunk (by omega) hx ih

/-- Every read of more bytes accepts the same chunks. -/
theorem of_lt (h : Fills n p q) (hlt : q.buffer.length < m) : Fills m p q := by
  induction h with
  | refl => exact .refl
  | chunk _ hx hf ih =>
    have hle := hf.isPrefix_buffer.length_le
    simp only [List.length_append] at hle
    exact .chunk (by omega) hx (ih hlt)

/-- A read of fewer bytes stops at one of the chunks. -/
theorem truncate (h : Fills m p q) (hm : n ≤ q.buffer.length) :
    ∃ b line, Fills n p ⟨b, line⟩ ∧ n ≤ b.length ∧ b <+: q.buffer := by
  induction h with
  | @refl p => exact ⟨p.buffer, p.line, .refl, hm, List.prefix_rfl⟩
  | @chunk b x d rest q _ hx hf ih =>
    rcases Nat.lt_or_ge b.length n with hlt | hge
    · obtain ⟨b', line, hf', hle, hpre⟩ := ih hm
      exact ⟨b', line, .chunk hlt hx hf', hle, hpre⟩
    · exact ⟨b, x ++ rest, .refl, hge, (List.prefix_append b d).trans hf.isPrefix_buffer⟩

/-- Bytes that are in the buffer do not matter to the reads after them. -/
theorem drop {xs b c line line' : Bytes}
    (h : Fills (xs.length + m) ⟨xs ++ b, line⟩ ⟨xs ++ c, line'⟩) :
    Fills m ⟨b, line⟩ ⟨c, line'⟩ := by
  generalize hp : (⟨xs ++ b, line⟩ : Pending) = p at h
  generalize hq : (⟨xs ++ c, line'⟩ : Pending) = q at h
  induction h generalizing b line with
  | refl =>
    subst hp
    simp only [Pending.mk.injEq, List.append_cancel_left_eq] at hq
    obtain ⟨rfl, rfl⟩ := hq
    exact .refl
  | chunk hlt hx _ ih =>
    simp only [Pending.mk.injEq] at hp
    obtain ⟨rfl, rfl⟩ := hp
    rw [List.length_append] at hlt
    exact .chunk (by omega) hx (ih (by rw [List.append_assoc]) hq)

/-- A read of `xs`, and what comes after it. -/
theorem split {xs c line : Bytes} (h : Fills (xs.length + m) p ⟨xs ++ c, line⟩) :
    ∃ b line₁, Fills xs.length p ⟨xs ++ b, line₁⟩ ∧ Fills m ⟨b, line₁⟩ ⟨c, line⟩ := by
  generalize hq : (⟨xs ++ c, line⟩ : Pending) = q at h
  induction h with
  | refl =>
    subst hq
    exact ⟨c, line, .refl, .refl⟩
  | @chunk b x d rest q hlt hx hf ih =>
    subst hq
    rcases Nat.lt_or_ge b.length xs.length with hless | hge
    · obtain ⟨b', line₁, hf₁, hf₂⟩ := ih rfl
      exact ⟨b', line₁, .chunk hless hx hf₁, hf₂⟩
    · have hb : b <+: xs ++ c := (List.prefix_append b d).trans hf.isPrefix_buffer
      obtain ⟨b', rfl⟩ := List.prefix_of_prefix_length_le (List.prefix_append xs c) hb hge
      exact ⟨b', x ++ rest, .refl, (Fills.chunk hlt hx hf).drop⟩

end Fills

/-- All chunks that are accepted before the first that is not. -/
theorem exists_fills (p : Pending) :
    ∃ w line, Fills (p.size + 1) p ⟨w, line⟩ ∧ (Incomplete line ∨
      ∃ x v rest, line = x ++ rest ∧ Attempt x v ∧ ∀ d, v ≠ .chunk d) := by
  obtain ⟨b, line⟩ := p
  induction hk : line.length using Nat.strong_induction_on generalizing b line with
  | _ k ih =>
    subst hk
    rcases incomplete_or_attempt line with hline | ⟨x, v, rest, rfl, hx⟩
    · exact ⟨b, line, .refl, .inl hline⟩
    · by_cases hv : ∀ d, v ≠ .chunk d
      · exact ⟨b, x ++ rest, .refl, .inr ⟨x, v, rest, rfl, hx, hv⟩⟩
      · obtain ⟨d, hd⟩ := not_forall_not.mp hv
        subst hd
        have hkept : d.length < x.length := hx.length_kept_lt
        obtain ⟨w, line, hf, hline⟩ := ih rest.length
          (by rw [List.length_append]; omega) (b ++ d) rest rfl
        refine ⟨w, line, .chunk ?_ hx (hf.mono ?_), hline⟩
        · simp only [Pending.size]
          omega
        · simp only [Pending.size, List.length_append]
          omega

/-! ## There is nothing else -/

theorem length_of_shortest {w : Bytes} (h : Shortest token w) : 20 ≤ w.length := by
  have hlen := gapMatch_length h.1
  rwa [token_length] at hlen

theorem Unfinished.length_le {w u : Bytes} (h : Unfinished w u) : u.length ≤ w.length := by
  cases h with
  | token _ => exact TokenReader.length_unsearched_le ..
  | len _ _ =>
    rw [List.length_append]
    omega
  | content _ _ _ _ =>
    simp only [List.length_append]
    omega

/-- Bytes begin with a complete string or with a length that is no number, or
they are unfinished. -/
theorem unfinished_or_complete (w : Bytes) :
    (∃ u, Unfinished w u) ∨ ∃ t l b, w = t ++ (l ++ b) ∧ Shortest token t ∧
      l.length = lenWidth ∧ ∀ n, Decimal.parseInt l = some n → n.toNat ≤ b.length := by
  by_cases hno : NoGap token w
  · exact .inl ⟨_, .token hno⟩
  obtain ⟨q, hq, hm⟩ : ∃ q, q <+: w ∧ GapMatch token q := by
    simpa [NoGap] using hno
  obtain ⟨t, htq, ht⟩ := exists_shortest hm
  obtain ⟨r, rfl⟩ := htq.trans hq
  rcases shorter_or_split r lenWidth with hlt | ⟨l, b, rfl, hl⟩
  · exact .inl ⟨r, .len ht hlt⟩
  by_cases hb : ∀ n, Decimal.parseInt l = some n → n.toNat ≤ b.length
  · exact .inr ⟨t, l, b, rfl, ht, hl, hb⟩
  · simp only [not_forall, not_le, exists_prop] at hb
    obtain ⟨n, hnum, hlt⟩ := hb
    exact .inl ⟨b, .content ht hl hnum hlt⟩

/-- The chunks that a read of the token, the length and `n` bytes needs. -/
theorem exists_fills_complete {p : Pending} {t l b line : Bytes} {m n : Nat}
    (h : Fills m p ⟨t ++ (l ++ b), line⟩) (hl : l.length = lenWidth) (hn : n ≤ b.length) :
    ∃ b' line', Fills (t.length + (lenWidth + n)) p ⟨t ++ (l ++ b'), line'⟩ ∧ n ≤ b'.length := by
  obtain ⟨w, line', hf, hle, hpre⟩ := h.truncate (n := t.length + (lenWidth + n)) (by
    simp only [List.length_append, hl]
    omega)
  have hpre' : t ++ l <+: t ++ (l ++ b) := by
    rw [← List.append_assoc]
    exact List.prefix_append ..
  obtain ⟨b', rfl⟩ := List.prefix_of_prefix_length_le hpre' hpre (by
    rw [List.length_append, hl]
    omega)
  rw [List.append_assoc] at hf hle
  refine ⟨b', line', hf, ?_⟩
  simp only [List.length_append, hl] at hle
  omega

theorem waits_or_turn (p : Pending) : Waits p ∨ ∃ o q, Turn p o q := by
  obtain ⟨w, line, hf, hline⟩ := exists_fills p
  rcases unfinished_or_complete w with ⟨u, hu⟩ | ⟨t, l, b, rfl, ht, hl, hb⟩
  · have hf' : Fills (w.length + 1) p ⟨w, line⟩ := hf.of_lt (Nat.lt_succ_self _)
    rcases hline with hline | ⟨x, v, rest, rfl, hx, hv⟩
    · exact .inl (.intro hf' hu hline)
    · exact .inr ⟨none, _, .rejected hf' hu hx hv⟩
  · cases hnum : Decimal.parseInt l with
    | none =>
      obtain ⟨b', line', hf', -⟩ := exists_fills_complete hf hl (Nat.zero_le _)
      exact .inr ⟨none, _, .badLen ht hl hnum hf'⟩
    | some n =>
      obtain ⟨b', line', hf', hn⟩ := exists_fills_complete hf hl (hb n hnum)
      exact .inr ⟨_, _, .string ht hl hnum hf' hn⟩

/-- Each turn uses up bytes. -/
theorem Turn.size_lt {p q : Pending} {o : Option Bytes} (h : Turn p o q) : q.size < p.size := by
  cases h with
  | @string w l b line n hw hl _ hf _ =>
    have hsize := hf.size_le
    have hw := length_of_shortest hw
    have hleft : (unreadOf n b).length ≤ b.length := by
      rw [unreadOf]
      split
      · exact Nat.zero_le _
      · rw [List.length_drop]
        omega
    simp only [Pending.size, List.length_append] at hsize ⊢
    omega
  | badLen hw hl _ hf =>
    have hsize := hf.size_le
    have hw := length_of_shortest hw
    simp only [Pending.size, List.length_append] at hsize ⊢
    omega
  | rejected hf hu hx _ =>
    have hsize := hf.size_le
    have hu := hu.length_le
    have hkept := hx.length_kept_lt
    simp only [Pending.size, List.length_append] at hsize ⊢
    omega

/-! ## What the reader does -/

/-- The state of a reader before which these bytes lie. -/
def Holds (p : Pending) (io : ChunkIo Line) : Prop :=
  io.line.stream = Line.bytes p.line ∧ io.sharedio.unread = p.buffer

section
variable {fuel : Nat} {p q : Pending} {io : ChunkIo Line}

theorem Holds.length_stream_le (h : Holds p io) : io.line.stream.length ≤ p.size := by
  rw [h.1, Line.length_bytes]
  exact Nat.le_add_left ..

/-- A chunk that is accepted. -/
theorem readChunk_holds {b x d rest : Bytes} (hx : Attempt x (.chunk d))
    (h : Holds ⟨b, x ++ rest⟩ io) (hfuel : Pending.size ⟨b, x ++ rest⟩ < fuel) :
    ∃ io', readChunk Line.comm fuel io = .ret () io' ∧ Holds ⟨b ++ d, rest⟩ io' := by
  have hstream : io.line.stream = Line.bytes x ++ Line.bytes rest :=
    h.1.trans (Line.bytes_append ..)
  have hlen : io.line.stream.length < fuel := Nat.lt_of_le_of_lt h.length_stream_le hfuel
  obtain ⟨t, ht, hrun⟩ := Line.readChunk_front hx hstream hlen
  refine ⟨⟨t, io.sharedio.write d⟩, hrun, ht, ?_⟩
  rw [SharedBytesIo.unread_write, h.2]

/-- A chunk that is not. -/
theorem readChunk_rejected {b x rest : Bytes} {v : Verdict} (hx : Attempt x v)
    (hv : ∀ d, v ≠ .chunk d) (h : Holds ⟨b, x ++ rest⟩ io)
    (hfuel : Pending.size ⟨b, x ++ rest⟩ < fuel) :
    ∃ e io', readChunk Line.comm fuel io = .raised e io' ∧ Holds ⟨b ++ v.kept, rest⟩ io' := by
  have hstream : io.line.stream = Line.bytes x ++ Line.bytes rest :=
    h.1.trans (Line.bytes_append ..)
  have hlen : io.line.stream.length < fuel := Nat.lt_of_le_of_lt h.length_stream_le hfuel
  obtain ⟨t, ht, hrun⟩ := Line.readChunk_front hx hstream hlen
  have hunread : io.sharedio.unread = b := h.2
  cases v with
  | chunk d => exact absurd rfl (hv d)
  | badHdr | badSize =>
    exact ⟨_, ⟨t, io.sharedio⟩, hrun, ht, hunread.trans (List.append_nil b).symm⟩
  | mismatch d =>
    refine ⟨_, ⟨t, io.sharedio.write d⟩, hrun, ht, ?_⟩
    rw [SharedBytesIo.unread_write, hunread]
    rfl

/-- A read of bytes that are there. -/
theorem readLoop_taken {n : Int} (hf : Fills n.toNat p q) (hn : n.toNat ≤ q.buffer.length)
    {loops : Nat} (hloops : p.line.length < loops) (h : Holds p io) (hfuel : p.size < fuel) :
    ∃ io', readLoop Line.comm fuel loops n io = .ret (readOf n q.buffer) io' ∧
      Holds ⟨unreadOf n q.buffer, q.line⟩ io' := by
  obtain ⟨loops, rfl⟩ : ∃ k, loops = k + 1 := ⟨loops - 1, by omega⟩
  induction hf generalizing loops io with
  | refl =>
    have hunread := h.2
    rw [readLoop_succ, if_neg (by rw [hunread]; omega)]
    refine ⟨{ io with sharedio := (io.sharedio.read n).2 }, ?_, h.1, ?_⟩
    · rw [sharedRead, SharedBytesIo.read_fst, hunread, readOf]
    · rw [SharedBytesIo.unread_read, hunread, unreadOf]
  | @chunk b x d rest q hlt hx hf ih =>
    have hd : d.length < x.length := hx.length_kept_lt
    have hunread : io.sharedio.unread = b := h.2
    obtain ⟨io₁, hrun, h₁⟩ := readChunk_holds hx h hfuel
    simp only [Pending.size, List.length_append] at hfuel hloops
    obtain ⟨loops, rfl⟩ : ∃ k, loops = k + 1 := ⟨loops - 1, by omega⟩
    rw [readLoop_succ, if_pos (by rw [hunread]; omega), Prog.bind_ret hrun]
    refine ih hn h₁ ?_ loops ?_
    · simp only [Pending.size, List.length_append]
      omega
    · simp only
      omega

/-- A read of more comes to the chunk after them. -/
theorem readLoop_short {n : Nat} (hf : Fills n p q) (hn : q.buffer.length < n)
    {loops : Nat} (hloops : p.line.length < loops) (h : Holds p io) (hfuel : p.size < fuel) :
    ∃ io₁, Holds q io₁ ∧ ∀ o, readChunk Line.comm fuel io₁ = Prog.stopped o →
      readLoop Line.comm fuel loops n io = Prog.stopped o := by
  obtain ⟨loops, rfl⟩ : ∃ k, loops = k + 1 := ⟨loops - 1, by omega⟩
  induction hf generalizing loops io with
  | refl =>
    have hunread := h.2
    refine ⟨io, h, fun o ho => ?_⟩
    rw [readLoop_succ, if_pos (by rw [hunread]; omega)]
    exact Prog.bind_stopped ho
  | @chunk b x d rest q hlt hx hf ih =>
    have hd : d.length < x.length := hx.length_kept_lt
    have hunread : io.sharedio.unread = b := h.2
    obtain ⟨io₁, hrun, h₁⟩ := readChunk_holds hx h hfuel
    simp only [Pending.size, List.length_append] at hfuel hloops
    obtain ⟨loops, rfl⟩ : ∃ k, loops = k + 1 := ⟨loops - 1, by omega⟩
    rw [readLoop_succ, if_pos (by rw [hunread]; omega), Prog.bind_ret hrun]
    refine ih hn h₁ ?_ loops ?_
    · simp only [Pending.size, List.length_append]
      omega
    · simp only
      omega

/-- The bytes `xs` come next, then those in `c`, when `m` of these are asked
for. -/
def Follows (fuel m : Nat) (c line : Bytes) (xs : Bytes) (io : ChunkIo Line) : Prop :=
  ∃ p, Holds p io ∧ p.size < fuel ∧ Fills (xs.length + m) p ⟨xs ++ c, line⟩

theorem Follows.intro {m : Nat} {c line xs : Bytes} (h : Holds p io) (hfuel : p.size < fuel)
    (hf : Fills (xs.length + m) p ⟨xs ++ c, line⟩) : Follows fuel m c line (xs ++ []) io := by
  rw [List.append_nil]
  exact ⟨p, h, hfuel, hf⟩

theorem Follows.nil {m : Nat} {c line : Bytes} (h : Follows fuel m c line [] io) :
    ∃ p, Holds p io ∧ p.size < fuel ∧ Fills m p ⟨c, line⟩ := by
  obtain ⟨p, hio, hsize, hf⟩ := h
  exact ⟨p, hio, hsize, by simpa using hf⟩

theorem readUntilSize_follows {m : Nat} {c line : Bytes} (xs ys : Bytes) (io : ChunkIo Line)
    (h : Follows fuel m c line (xs ++ ys) io) :
    ∃ io', readUntilSize Line.comm fuel (xs.length : Nat) io = .ret xs io' ∧
      Follows fuel m c line ys io' := by
  obtain ⟨p, hio, hsize, hf⟩ := h
  rw [List.length_append, List.append_assoc, Nat.add_assoc] at hf
  obtain ⟨b, line₁, hf₁, hf₂⟩ := hf.split
  have hloops : p.line.length < fuel := Nat.lt_of_le_of_lt (Nat.le_add_left ..) hsize
  obtain ⟨io', hrun, hio'⟩ := readLoop_taken (n := (xs.length : Nat)) hf₁
    (by simp) hloops hio hsize
  have htaken : readOf (xs.length : Nat) (xs ++ b) = xs := by simp [readOf]
  have hleft : unreadOf (xs.length : Nat) (xs ++ b) = b := by simp [unreadOf]
  rw [htaken] at hrun
  rw [hleft] at hio'
  refine ⟨io', hrun, ⟨b, line₁⟩, hio', ?_, hf₂⟩
  have hle := hf₁.size_le
  simp only [Pending.size, List.length_append] at hle hsize ⊢
  omega

/-- A read of more than comes next. -/
theorem readUntilSize_short {n : Nat} {u line : Bytes} (h : Follows fuel 1 [] line u io)
    (hn : u.length < n) :
    ∃ io₁, Holds ⟨u, line⟩ io₁ ∧ ∀ o, readChunk Line.comm fuel io₁ = Prog.stopped o →
      readUntilSize Line.comm fuel n io = Prog.stopped o := by
  obtain ⟨p, hio, hsize, hf⟩ := h
  rw [List.append_nil] at hf
  exact readLoop_short (hf.of_lt hn) hn (Nat.lt_of_le_of_lt (Nat.le_add_left ..) hsize) hio hsize

/-- The token. -/
theorem readUntilToken_follows {m : Nat} {w c line : Bytes} (hw : Shortest token w)
    (h : Holds p io) (hfuel : p.size < fuel) (hf : Fills (w.length + m) p ⟨w ++ c, line⟩) :
    ∃ u io', readUntilToken Line.comm fuel io = .ret u io' ∧ Follows fuel m c line [] io' := by
  have hlen : w.length < fuel := by
    have hle := hf.size_le
    simp only [Pending.size, List.length_append] at hle hfuel
    omega
  have hread : ∃ u io', readUntilToken Line.comm fuel io = .ret u io' ∧
      Follows fuel m c line [] io' ∧ TokenReader.Returned token w u :=
    TokenReader.readUntilToken_shortest token_nodup token_ne_nil readUntilSize_follows hw hlen
      (Follows.intro h hfuel hf)
  obtain ⟨u, io', hrun, hio', -⟩ := hread
  exact ⟨u, io', hrun, hio'⟩

/-- The token and the length. -/
theorem getReadLen_follows {m : Nat} {l c line : Bytes} (hl : l.length = lenWidth)
    (h : Follows fuel (lenWidth + m) (l ++ c) line [] io) :
    ∃ io', Follows fuel m c line [] io' ∧ ∀ n, Decimal.parseInt l = n →
      getReadLen Line.comm fuel io =
        match n with
        | some n => .ret n io'
        | none => .raised .strCommReadError io' := by
  obtain ⟨p, hio, hsize, hf⟩ := h.nil
  rw [← hl] at hf
  obtain ⟨io', hrun, hio'⟩ := readUntilSize_follows l [] io (Follows.intro hio hsize hf)
  rw [hl] at hrun
  refine ⟨io', hio', ?_⟩
  rintro n rfl
  rw [getReadLen, Prog.bind_ret hrun]
  cases Decimal.parseInt l <;> rfl

/-- When no string is complete the reader comes to the next chunk. -/
theorem tryReadStr_unfinished {w u line : Bytes} (hu : Unfinished w u) (h : Holds p io)
    (hfuel : p.size < fuel) (hf : Fills (w.length + 1) p ⟨w, line⟩) :
    ∃ io₁, Holds ⟨u, line⟩ io₁ ∧ ∀ o, readChunk Line.comm fuel io₁ = Prog.stopped o →
      tryReadStr Line.comm fuel io = Prog.stopped o := by
  cases hu with
  | token hno =>
    have hlen : w.length < fuel := by
      have hle := hf.size_le
      simp only [Pending.size] at hle hfuel
      omega
    let u := TokenReader.unsearched token (TokenReader.reset token) w
    have hread : ∃ n io₁ rest, u.length < n ∧ Follows fuel 1 [] line u io₁ ∧
        readUntilToken Line.comm fuel io = (readUntilSize Line.comm fuel (n : Nat) >>= rest) io₁ :=
      TokenReader.readUntilToken_unsearched token_nodup token_ne_nil readUntilSize_follows hno hlen
        ⟨p, h, hfuel, by rwa [List.append_nil]⟩
    obtain ⟨n, io₁, rest, hn, hio₁, hrun⟩ := hread
    obtain ⟨io₂, hio₂, hstop⟩ := readUntilSize_short hio₁ hn
    exact ⟨io₂, hio₂, fun o ho =>
      Prog.bind_stopped (hrun.trans (Prog.bind_stopped (hstop o ho)))⟩
  | @len t u ht hlt =>
    rw [List.length_append, Nat.add_assoc] at hf
    obtain ⟨_, io₁, hrun, hio₁⟩ := readUntilToken_follows ht h hfuel hf
    obtain ⟨p₁, h₁, hsize, hf₁⟩ := hio₁.nil
    have hu₁ : Follows fuel 1 [] line u io₁ := ⟨p₁, h₁, hsize, by rwa [List.append_nil]⟩
    obtain ⟨io₂, hio₂, hstop⟩ := readUntilSize_short hu₁ hlt
    refine ⟨io₂, hio₂, fun o ho => ?_⟩
    rw [tryReadStr, Prog.bind_ret hrun]
    exact Prog.bind_stopped (Prog.bind_stopped (hstop o ho))
  | @content t l u n ht hl hnum hlt =>
    rw [List.length_append, List.length_append, hl, Nat.add_assoc, Nat.add_assoc] at hf
    obtain ⟨_, io₁, hrun, hio₁⟩ := readUntilToken_follows ht h hfuel hf
    obtain ⟨io₂, hio₂, hlen⟩ := getReadLen_follows hl hio₁
    obtain ⟨p₂, h₂, hsize, hf₂⟩ := hio₂.nil
    obtain ⟨k, rfl⟩ : ∃ k : Nat, n = k := ⟨n.toNat, (Int.toNat_of_nonneg (by omega)).symm⟩
    have hu₂ : Follows fuel 1 [] line u io₂ := ⟨p₂, h₂, hsize, by rwa [List.append_nil]⟩
    obtain ⟨io₃, hio₃, hstop⟩ := readUntilSize_short hu₂ hlt
    refine ⟨io₃, hio₃, fun o ho => ?_⟩
    rw [tryReadStr, Prog.bind_ret hrun, Prog.bind_ret (hlen _ hnum)]
    exact hstop o ho

theorem tryReadStr_waits (hw : Waits p) (h : Holds p io) (hfuel : p.size < fuel) :
    tryReadStr Line.comm fuel io = .hang := by
  cases hw with
  | intro hf hu hline =>
    obtain ⟨io₁, hio₁, hstop⟩ := tryReadStr_unfinished hu h hfuel hf
    have hle := hf.size_le
    have hlen : io₁.line.stream.length < fuel := by
      have hlt := Nat.lt_of_le_of_lt hle hfuel
      rw [hio₁.1, Line.length_bytes]
      simp only [Pending.size] at hlt ⊢
      omega
    exact hstop none (Line.readChunk_last hline hio₁.1 hlen)

/-- **A turn of the loop.**  It returns the string that it finds; otherwise it
raises. -/
theorem tryReadStr_turn {o : Option Bytes} (ht : Turn p o q) (h : Holds p io)
    (hfuel : p.size < fuel) :
    ∃ io', Holds q io' ∧
      match o with
      | some s => tryReadStr Line.comm fuel io = .ret s io'
      | none => ∃ e, tryReadStr Line.comm fuel io = .raised e io' := by
  cases ht with
  | @string w l b line n hw hl hnum hf hn =>
    obtain ⟨_, io₁, hrun, hio₁⟩ := readUntilToken_follows hw h hfuel hf
    obtain ⟨io₂, hio₂, hlen⟩ := getReadLen_follows hl hio₁
    obtain ⟨p₂, h₂, hsize, hf₂⟩ := hio₂.nil
    obtain ⟨io₃, hrun₃, h₃⟩ := readLoop_taken hf₂ hn
      (Nat.lt_of_le_of_lt (Nat.le_add_left ..) hsize) h₂ hsize
    refine ⟨io₃, h₃, ?_⟩
    simp only
    rw [tryReadStr, Prog.bind_ret hrun, Prog.bind_ret (hlen _ hnum)]
    exact hrun₃
  | @badLen w l b line hw hl hnum hf =>
    obtain ⟨_, io₁, hrun, hio₁⟩ := readUntilToken_follows hw h hfuel hf
    obtain ⟨io₂, hio₂, hlen⟩ := getReadLen_follows (m := 0) hl hio₁
    obtain ⟨p₂, h₂, -, hf₂⟩ := hio₂.nil
    have hq : p₂ = ⟨b, line⟩ := by
      cases hf₂ with
      | refl => rfl
      | chunk hlt _ _ => exact absurd hlt (Nat.not_lt_zero _)
    refine ⟨io₂, hq ▸ h₂, .strCommReadError, ?_⟩
    rw [tryReadStr, Prog.bind_ret hrun]
    exact Prog.bind_raised (hlen _ hnum)
  | @rejected w u x v rest hf hu hx hv =>
    obtain ⟨io₁, hio₁, hstop⟩ := tryReadStr_unfinished hu h hfuel hf
    have hle := hf.size_le
    have hle' := hu.length_le
    have hsize : Pending.size ⟨u, x ++ rest⟩ < fuel := by
      simp only [Pending.size] at hle hfuel ⊢
      omega
    obtain ⟨e, io₂, hrun, hio₂⟩ := readChunk_rejected hx hv hio₁ hsize
    exact ⟨io₂, hio₂, e, hstop (some (e, io₂)) hrun⟩

end

/-! ## What the calls return -/

section
variable {fuel : Nat} {ss : List Bytes} {spelled : Prop}

/-- Less than `k` bytes lie ahead, and they spell only strings of `ss`, or not. -/
def Ahead (ss : List Bytes) (spelled : Prop) (k : Nat) (io : ChunkIo Line) : Prop :=
  ∃ p, Holds p io ∧ (Spells ss p ↔ spelled) ∧ p.size < k

/-- A string of `ss`, or another. -/
def Finds (ss : List Bytes) (spelled : Prop) (k : Nat) (s : Bytes) (io : ChunkIo Line) : Prop :=
  s ∈ ss ∧ Ahead ss spelled k io ∨ s ∉ ss ∧ ¬ spelled

theorem not_ahead_zero (io : ChunkIo Line) : ¬ Ahead ss spelled 0 io := by
  rintro ⟨p, -, -, hlt⟩
  exact Nat.not_lt_zero _ hlt

theorem Ahead.mono {j k : Nat} (hjk : j ≤ k) {io : ChunkIo Line} (h : Ahead ss spelled j io) :
    Ahead ss spelled k io := by
  obtain ⟨p, hio, hiff, hlt⟩ := h
  exact ⟨p, hio, hiff, by omega⟩

theorem Finds.mono {j k : Nat} (hjk : j ≤ k) {s : Bytes} {io : ChunkIo Line}
    (h : Finds ss spelled j s io) : Finds ss spelled k s io :=
  h.imp_left fun h => ⟨h.1, h.2.mono hjk⟩

/-- A turn after which as much is spelled as before it, unless it returns
another string. -/
theorem meets_turn {k : Nat} (hk : k < fuel) {p q : Pending} {o : Option Bytes} (ht : Turn p o q)
    {io : ChunkIo Line} (h : Holds p io) (hlt : p.size < k + 1)
    (hq : (∀ s ∈ o, s ∈ ss) → (Spells ss q ↔ spelled)) (ho : ¬ (∀ s ∈ o, s ∈ ss) → ¬ spelled) :
    Prog.Meets spelled (Finds ss spelled k) (fun _ => Ahead ss spelled k)
      (tryReadStr Line.comm fuel io) := by
  have hsize := ht.size_lt
  have hfuel : p.size < fuel := by omega
  obtain ⟨io', hio', hrun⟩ := tryReadStr_turn ht h hfuel
  cases o with
  | none =>
    obtain ⟨e, hrun⟩ := hrun
    rw [hrun]
    exact ⟨q, hio', hq nofun, by omega⟩
  | some s =>
    have hrun : tryReadStr Line.comm fuel io = .ret s io' := hrun
    rw [hrun]
    by_cases hs : s ∈ ss
    · exact .inl ⟨hs, q, hio', hq (by simpa using hs), by omega⟩
    · exact .inr ⟨hs, ho (by simpa using hs)⟩

/-- **The loop body.**  It waits for ever only where nothing but strings of `ss`
is spelled, and returns another string only where one is. -/
theorem settles_tryReadStr {k : Nat} (hk : k < fuel) :
    Prog.Settles spelled (Ahead ss spelled (k + 1)) (tryReadStr Line.comm fuel)
      (Finds ss spelled k) fun _ => Ahead ss spelled k := by
  rintro io ⟨p, hio, hiff, hlt⟩
  have hwait : Waits p → Prog.Meets spelled (Finds ss spelled k) (fun _ => Ahead ss spelled k)
      (tryReadStr Line.comm fuel io) := by
    intro hw
    have hfuel : p.size < fuel := by omega
    rw [tryReadStr_waits hw hio hfuel]
    exact hiff.mp (.waits hw)
  by_cases hp : Spells ss p
  · have hspelled : spelled := hiff.mp hp
    cases hp with
    | waits hw => exact hwait hw
    | turn ht ho hq =>
      exact meets_turn hk ht hio hlt (fun _ => iff_of_true hq hspelled) fun h => absurd ho h
  · have hnot : ¬ spelled := fun h => hp (hiff.mpr h)
    rcases waits_or_turn p with hw | ⟨o, q, ht⟩
    · exact hwait hw
    · refine meets_turn hk ht hio hlt (fun ho => iff_of_false (fun hq => hp ?_) hnot) fun _ => hnot
      exact .turn ht ho hq

/-- A call of `read_str`. -/
theorem settles_readStr {k : Nat} (hk : k < fuel) :
    Prog.Settles spelled (Ahead ss spelled (k + 1)) (readStr Line.comm fuel)
      (Finds ss spelled k) fun _ => Ahead ss spelled k := by
  have hloop : ∀ loops k, k < loops → k < fuel →
      Prog.Settles spelled (Ahead ss spelled (k + 1)) (readStrLoop Line.comm fuel loops)
        (Finds ss spelled k) fun _ => Ahead ss spelled k := by
    intro loops
    induction loops with
    | zero =>
      intro k hk
      omega
    | succ loops ih =>
      intro k hk hfuel
      refine (settles_tryReadStr hfuel).tryExcept (fun e prog hprog => ?_) fun _ _ _ h => h
      split at hprog
      · cases hprog
        cases k with
        | zero => exact Prog.settles_of_false not_ahead_zero
        | succ k =>
          exact (ih k (by omega) (by omega)).mono (fun _ h => h)
            (fun _ _ h => h.mono (Nat.le_succ k)) fun _ _ h => h.mono (Nat.le_succ k)
      · cases hprog
  exact hloop fuel k hk hk

end

end InteractiveSessions.StrComm
