import InteractiveSessions.ChunkComm

/-!
# What the chunk reader takes for a chunk

Any text is, for the reader, one attempt at a chunk after the other: `Attempt`
says which texts are one, and what becomes of it.  A text with which no attempt
ends is `Incomplete`.

* `incomplete_or_attempt`: there is nothing else;
* `readChunk_attempt`, `readChunk_incomplete`: what the reader does with them.
-/

namespace InteractiveSessions

open GapToken TokenReader

theorem TokenReader.Returned.unique {α : Type} {token P u u' : List α} (h : Returned token P u)
    (h' : Returned token P u') : u = u' := by
  obtain ⟨g, hg1, hg2, ho, hlast, hf⟩ := h
  obtain ⟨g', hg1', hg2', ho', hlast', hf'⟩ := h'
  obtain rfl : g = g' := by
    rcases Nat.lt_trichotomy g g' with hlt | heq | hgt
    · exact absurd ho' (hlast g' hlt hg2')
    · exact heq
    · exact absurd ho (hlast' g hgt hg2)
  have hle := hf.2.2 _ hf'.1 hf'.2.1
  have hge := hf'.2.2 _ hf.1 hf.2.1
  have hpre := List.prefix_of_prefix_length_le hf.1 hf'.1 hle
  exact List.append_cancel_right (hpre.eq_of_length (Nat.le_antisymm hle hge))

namespace ChunkComm

theorem exists_returned {p : Bytes} (hp : Shortest token p) : ∃ u, Returned token p u := by
  obtain ⟨-, hret⟩ := feed_shortest (p := []) (s := p) token_nodup hp
  exact ⟨_, hret⟩

theorem shortest_token : Shortest token token := by
  simpa only [List.nil_append] using shortest_append token_nodup token_ne_nil noGap_nil

theorem returned_token : Returned token token [] := by
  obtain ⟨u, hret⟩ := exists_returned shortest_token
  have hu : u = [] := Returned.eq_of_append (w := []) shortest_token hret
  rwa [hu] at hret

/-! ## Attempts -/

/-- The text up to the end of the header `h`. -/
inductive Opened : Bytes → Bytes → Prop
  | intro {p h} : Shortest token p → h.length = hdrLen → Opened (p ++ h) h

/-- The text up to the token after the header, which stands at its place. -/
inductive Headed : Bytes → Bytes → Prop
  | intro {x h q} : Opened x h → Shortest token q → Returned token q [] → Headed (x ++ q) h

/-- The text up to the end of the payload `d`. -/
inductive Carries : Bytes → Bytes → Bytes → Prop
  | intro {x h d n} : Headed x h → Decimal.parseInt (h.drop chunkIdWidth) = some n →
      d.length = n.toNat → Carries (x ++ d) h d

/-- What becomes of an attempt. -/
inductive Verdict where
  | chunk (payload : Bytes)
  /-- The token is not where it should be after the header. -/
  | badHdr
  /-- The payload is kept, but the token is not where it should be after it. -/
  | mismatch (payload : Bytes)
  /-- The length in the header is no number. -/
  | badSize (chunkSizeStr : Bytes)
  deriving DecidableEq

inductive Attempt : Bytes → Verdict → Prop
  | badHdr {x h q u} : Opened x h → Shortest token q → Returned token q u → u ≠ [] →
      Attempt (x ++ q) .badHdr
  | badSize {x h} : Headed x h → Decimal.parseInt (h.drop chunkIdWidth) = none →
      Attempt x (.badSize (h.drop chunkIdWidth))
  | mismatch {x h d q u} : Carries x h d → Shortest token q → Returned token q u → u ≠ [] →
      Attempt (x ++ q) (.mismatch d)
  | chunk {x h d q} : Carries x h d → Shortest token q → Returned token q [] →
      Attempt (x ++ q) (.chunk d)

/-- No attempt ends in the text. -/
inductive Incomplete : Bytes → Prop
  | leading {x} : NoGap token x → Incomplete x
  | hdr {p h} : Shortest token p → h.length < hdrLen → Incomplete (p ++ h)
  | second {x h y} : Opened x h → NoGap token y → Incomplete (x ++ y)
  | payload {x h d n} : Headed x h → Decimal.parseInt (h.drop chunkIdWidth) = some n →
      d.length < n.toNat → Incomplete (x ++ d)
  | trailing {x h d y} : Carries x h d → NoGap token y → Incomplete (x ++ y)

/-- The first gap occurrence in a text. -/
theorem noGap_or_shortest (xs : Bytes) :
    NoGap token xs ∨ ∃ p u rest, xs = p ++ rest ∧ Shortest token p ∧ Returned token p u := by
  by_cases hno : NoGap token xs
  · exact .inl hno
  · obtain ⟨q, hq, hm⟩ : ∃ q, q <+: xs ∧ GapMatch token q := by
      simpa [NoGap] using hno
    obtain ⟨p, hpq, hp⟩ := exists_shortest hm
    obtain ⟨rest, rfl⟩ := hpq.trans hq
    obtain ⟨u, hret⟩ := exists_returned hp
    exact .inr ⟨p, u, rest, rfl, hp, hret⟩

theorem shorter_or_split (xs : Bytes) (n : Nat) :
    xs.length < n ∨ ∃ d rest, xs = d ++ rest ∧ d.length = n := by
  rcases Nat.lt_or_ge xs.length n with hlt | hge
  · exact .inl hlt
  · refine .inr ⟨xs.take n, xs.drop n, (List.take_append_drop ..).symm, ?_⟩
    rw [List.length_take, Nat.min_eq_left hge]

/-- Each text is incomplete, or it begins with an attempt. -/
theorem incomplete_or_attempt (xs : Bytes) :
    Incomplete xs ∨ ∃ x v rest, xs = x ++ rest ∧ Attempt x v := by
  rcases noGap_or_shortest xs with hno | ⟨p, -, xs, rfl, hp, -⟩
  · exact .inl (.leading hno)
  rcases shorter_or_split xs hdrLen with hlt | ⟨h, xs, rfl, hlen⟩
  · exact .inl (.hdr hp hlt)
  have hopened : Opened (p ++ h) h := .intro hp hlen
  rw [← List.append_assoc]
  rcases noGap_or_shortest xs with hno | ⟨q, u, xs, rfl, hq, hret⟩
  · exact .inl (.second hopened hno)
  rw [← List.append_assoc]
  by_cases hu : u = []
  swap
  · exact .inr ⟨_, .badHdr, xs, rfl, .badHdr hopened hq hret hu⟩
  subst hu
  have hheaded : Headed (p ++ h ++ q) h := .intro hopened hq hret
  cases hsize : Decimal.parseInt (h.drop chunkIdWidth) with
  | none => exact .inr ⟨_, _, xs, rfl, .badSize hheaded hsize⟩
  | some n =>
    rcases shorter_or_split xs n.toNat with hlt | ⟨d, xs, rfl, hd⟩
    · exact .inl (.payload hheaded hsize hlt)
    have hcarries : Carries (p ++ h ++ q ++ d) h d := .intro hheaded hsize hd
    rw [← List.append_assoc]
    rcases noGap_or_shortest xs with hno | ⟨r, u, xs, rfl, hr, hret⟩
    · exact .inl (.trailing hcarries hno)
    rw [← List.append_assoc]
    by_cases hu : u = []
    · subst hu
      exact .inr ⟨_, _, xs, rfl, .chunk hcarries hr hret⟩
    · exact .inr ⟨_, _, xs, rfl, .mismatch hcarries hr hret hu⟩

theorem Opened.length_le {x h : Bytes} (hx : Opened x h) : hdrLen ≤ x.length := by
  cases hx with
  | intro hp hh =>
    rw [List.length_append]
    omega

/-- The payload of an attempt. -/
def Verdict.kept : Verdict → Bytes
  | chunk d | mismatch d => d
  | badHdr | badSize _ => []

theorem Carries.length_lt {x h d : Bytes} (hx : Carries x h d) : d.length < x.length := by
  cases hx with
  | intro hheaded _ _ =>
    cases hheaded with
    | intro hopened _ _ =>
      have := hopened.length_le
      rw [show hdrLen = 8 from rfl] at this
      simp only [List.length_append]
      omega

/-- An attempt is longer than its payload. -/
theorem Attempt.length_kept_lt {x : Bytes} {v : Verdict} (h : Attempt x v) :
    v.kept.length < x.length := by
  cases h with
  | badHdr hopened _ _ _ =>
    have := hopened.length_le
    rw [show hdrLen = 8 from rfl] at this
    simp only [Verdict.kept, List.length_append, List.length_nil]
    omega
  | badSize hheaded _ =>
    cases hheaded with
    | intro hopened _ _ =>
      have := hopened.length_le
      rw [show hdrLen = 8 from rfl] at this
      simp only [Verdict.kept, List.length_append, List.length_nil]
      omega
  | mismatch hcarries _ _ _ =>
    have := hcarries.length_lt
    simp only [Verdict.kept, List.length_append]
    omega
  | chunk hcarries _ _ =>
    have := hcarries.length_lt
    simp only [Verdict.kept, List.length_append]
    omega

/-! ## What the reader does -/

variable {τ : Type} {C : Comm τ} {fuel : Nat} {R : Bytes → τ → Prop}

/-- The state and the result after an attempt, when the transport is in the
state `t`. -/
def Verdict.outcome (sharedio : SharedBytesIo) (t : τ) : Verdict → Outcome Exc (ChunkIo τ) Unit
  | chunk d => .ret () ⟨t, sharedio.write d⟩
  | badHdr => .raised (.bufferError sharedio.value) ⟨t, sharedio⟩
  | mismatch d => .raised (.bufferError (sharedio.write d).value) ⟨t, sharedio.write d⟩
  | badSize s => .raised (.valueError s) ⟨t, sharedio⟩

theorem Verdict.outcome_raised {v : Verdict} (h : ∀ d, v ≠ .chunk d) (sharedio : SharedBytesIo)
    (t : τ) : ∃ e io, v.outcome sharedio t = .raised e io := by
  cases v with
  | chunk d => exact absurd rfl (h d)
  | badHdr => exact ⟨_, _, rfl⟩
  | mismatch d => exact ⟨_, _, rfl⟩
  | badSize s => exact ⟨_, _, rfl⟩

/-- The loop body of `read_until_size` after the header is verified. -/
def readPayload (C : Comm τ) (fuel : Nat) (hdr : Bytes) : Prog Exc (ChunkIo τ) Unit :=
  match Decimal.parseInt (hdr.drop chunkIdWidth) with
  | none => Prog.raise (.valueError (hdr.drop chunkIdWidth))
  | some chunkSize => do
    let chunk ← onLine (rawReadUntilSize C.read fuel chunkSize)
    Prog.modify fun io => { io with sharedio := io.sharedio.write chunk }
    verifyReadToken C fuel
    if hdr.take chunkIdWidth ≠ ascii "0000" then onLine (C.writeAck (hdr.take chunkIdWidth))

section
variable (hread : Delivers C.read R) (hR : ∀ xs s, R xs s → xs.length < fuel)
include hread hR

theorem readToken_shortest {p u rest : Bytes} (hp : Shortest token p) (hret : Returned token p u)
    {s : τ} (hs : R (p ++ rest) s) : ∃ s', readToken C fuel s = .ret u s' ∧ R rest s' := by
  have hlen := hR _ _ hs
  rw [List.length_append] at hlen
  have hlt : p.length < fuel := by omega
  have htoken : ∃ u' s', readToken C fuel s = .ret u' s' ∧ R rest s' ∧ Returned token p u' :=
    readUntilToken_shortest token_nodup token_ne_nil (rawRead_law hread hR) hp hlt hs
  obtain ⟨u', s', hrun, hs', hret'⟩ := htoken
  obtain rfl := hret.unique hret'
  exact ⟨s', hrun, hs'⟩

theorem verifyReadToken_shortest {p rest : Bytes} (hp : Shortest token p)
    (hret : Returned token p []) (io : ChunkIo τ) (hs : R (p ++ rest) io.line) :
    ∃ t, verifyReadToken C fuel io = .ret () ⟨t, io.sharedio⟩ ∧ R rest t := by
  obtain ⟨t, hrun, ht⟩ := readToken_shortest hread hR hp hret hs
  refine ⟨t, ?_, ht⟩
  rw [verifyReadToken, Prog.bind_ret (onLine_ret hrun)]
  rfl

theorem verifyReadToken_misplaced {p u rest : Bytes} (hp : Shortest token p)
    (hret : Returned token p u) (hu : u ≠ []) (io : ChunkIo τ) (hs : R (p ++ rest) io.line) :
    ∃ t, verifyReadToken C fuel io = .raised (.bufferError io.sharedio.value) ⟨t, io.sharedio⟩ ∧
      R rest t := by
  obtain ⟨t, hrun, ht⟩ := readToken_shortest hread hR hp hret hs
  refine ⟨t, ?_, ht⟩
  rw [verifyReadToken, Prog.bind_ret (onLine_ret hrun), if_pos hu]
  rfl

theorem readChunk_of_opened {x h rest : Bytes} (hx : Opened x h) {io : ChunkIo τ}
    (hs : R (x ++ rest) io.line) :
    ∃ t, R rest t ∧ readChunk C fuel io =
      (do
        verifyReadToken C fuel
        readPayload C fuel h) ⟨t, io.sharedio⟩ := by
  cases hx with
  | @intro p h hp hh =>
    obtain ⟨u, hret⟩ := exists_returned hp
    rw [List.append_assoc] at hs
    obtain ⟨t₁, hrun₁, ht₁⟩ := readToken_shortest hread hR hp hret hs
    obtain ⟨t₂, hrun₂, ht₂⟩ := rawRead_law hread hR _ _ _ ht₁
    rw [hh] at hrun₂
    refine ⟨t₂, ht₂, ?_⟩
    rw [readChunk, Prog.bind_ret (onLine_ret hrun₁), Prog.bind_ret (onLine_ret hrun₂)]
    rfl

theorem readChunk_of_headed {x h rest : Bytes} (hx : Headed x h) {io : ChunkIo τ}
    (hs : R (x ++ rest) io.line) :
    ∃ t, R rest t ∧ readChunk C fuel io = readPayload C fuel h ⟨t, io.sharedio⟩ := by
  cases hx with
  | intro hopened hq hret =>
    rw [List.append_assoc] at hs
    obtain ⟨t₁, ht₁, hrun₁⟩ := readChunk_of_opened hread hR hopened hs
    obtain ⟨t₂, hrun₂, ht₂⟩ := verifyReadToken_shortest hread hR hq hret ⟨t₁, io.sharedio⟩ ht₁
    exact ⟨t₂, ht₂, by rw [hrun₁, Prog.bind_ret hrun₂]⟩

/-- A read of as many bytes as the header says. -/
theorem rawReadUntilSize_toNat {d rest : Bytes} {n : Int} (hd : d.length = n.toNat) {s : τ}
    (hs : R (d ++ rest) s) : ∃ s', rawReadUntilSize C.read fuel n s = .ret d s' ∧ R rest s' := by
  rcases Int.lt_or_le n 0 with hneg | hpos
  · have hnil : d = [] := List.eq_nil_of_length_eq_zero (by omega)
    subst hnil
    have hlt := hR _ _ hs
    obtain ⟨k, rfl⟩ : ∃ k, fuel = k + 1 := ⟨fuel - 1, by omega⟩
    refine ⟨s, ?_, hs⟩
    rw [rawReadUntilSize, rawReadLoop, SharedBytesIo.readableSize_eq,
      if_neg (by simp only [SharedBytesIo.unread_new, List.length_nil]; omega), Prog.pure_run,
      SharedBytesIo.read_fst, if_pos hneg]
    rfl
  · obtain ⟨s', hrun, hs'⟩ := rawRead_law hread hR d rest s hs
    rw [hd, Int.toNat_of_nonneg hpos] at hrun
    exact ⟨s', hrun, hs'⟩

theorem readChunk_of_carries {x h d rest : Bytes} (hx : Carries x h d) {io : ChunkIo τ}
    (hs : R (x ++ rest) io.line) :
    ∃ t, R rest t ∧ readChunk C fuel io =
      (do
        verifyReadToken C fuel
        if h.take chunkIdWidth ≠ ascii "0000" then onLine (C.writeAck (h.take chunkIdWidth)))
        ⟨t, io.sharedio.write d⟩ := by
  cases hx with
  | intro hheaded hsize hd =>
    rw [List.append_assoc] at hs
    obtain ⟨t₁, ht₁, hrun₁⟩ := readChunk_of_headed hread hR hheaded hs
    obtain ⟨t₂, hrun₂, ht₂⟩ := rawReadUntilSize_toNat hread hR hd ht₁
    refine ⟨t₂, ht₂, ?_⟩
    rw [hrun₁, readPayload, hsize]
    simp only
    rw [Prog.bind_ret (onLine_ret hrun₂), Prog.bind_ret (Prog.modify_run ..)]

end

/-- **An attempt.** -/
theorem readChunk_attempt (hC : C.Serves R) (hR : ∀ xs s, R xs s → xs.length < fuel)
    {x rest : Bytes} {v : Verdict} (hx : Attempt x v) {io : ChunkIo τ}
    (hs : R (x ++ rest) io.line) :
    ∃ t, R rest t ∧ readChunk C fuel io = v.outcome io.sharedio t := by
  cases hx with
  | badHdr hopened hq hret hu =>
    rw [List.append_assoc] at hs
    obtain ⟨t₁, ht₁, hrun₁⟩ := readChunk_of_opened hC.read hR hopened hs
    obtain ⟨t₂, hrun₂, ht₂⟩ := verifyReadToken_misplaced hC.read hR hq hret hu
      ⟨t₁, io.sharedio⟩ ht₁
    exact ⟨t₂, ht₂, by rw [hrun₁, Prog.bind_raised hrun₂, Verdict.outcome]⟩
  | badSize hheaded hsize =>
    obtain ⟨t, ht, hrun⟩ := readChunk_of_headed hC.read hR hheaded hs
    refine ⟨t, ht, ?_⟩
    rw [hrun, readPayload, hsize]
    rfl
  | @mismatch x h d q u hcarries hq hret hu =>
    rw [List.append_assoc] at hs
    obtain ⟨t₁, ht₁, hrun₁⟩ := readChunk_of_carries hC.read hR hcarries hs
    obtain ⟨t₂, hrun₂, ht₂⟩ := verifyReadToken_misplaced hC.read hR hq hret hu
      ⟨t₁, io.sharedio.write d⟩ ht₁
    exact ⟨t₂, ht₂, by rw [hrun₁, Prog.bind_raised hrun₂, Verdict.outcome]⟩
  | @chunk x h d q hcarries hq hret =>
    rw [List.append_assoc] at hs
    obtain ⟨t₁, ht₁, hrun₁⟩ := readChunk_of_carries hC.read hR hcarries hs
    obtain ⟨t₂, hrun₂, ht₂⟩ := verifyReadToken_shortest hC.read hR hq hret
      ⟨t₁, io.sharedio.write d⟩ ht₁
    rw [hrun₁, Prog.bind_ret hrun₂]
    split
    · obtain ⟨t₃, hrun₃, ht₃⟩ := hC.writeAck (h.take chunkIdWidth) _ _ ht₂
      exact ⟨t₃, ht₃, onLine_ret hrun₃⟩
    · exact ⟨t₂, ht₂, rfl⟩

/-! ## At the end of the stream -/

/-- What ends the reads of the transport ends the reader, with this shared
buffer. -/
def lift (sharedio : SharedBytesIo) (o : Option (Exc × τ)) : Option (Exc × ChunkIo τ) :=
  o.map fun x => (x.1, ⟨x.2, sharedio⟩)

/-- A read of more than comes next ends with `o`. -/
def Ends (C : Comm τ) (fuel : Nat) (R : Bytes → τ → Prop) (o : Option (Exc × τ)) : Prop :=
  ∀ n xs s, R xs s → xs.length < n → rawReadUntilSize C.read fuel n s = Prog.stopped o

section
variable {o : Option (Exc × τ)} (hread : Delivers C.read R) (hR : ∀ xs s, R xs s → xs.length < fuel)
  (hend : Ends C fuel R o)
include hread hR hend

theorem readToken_ends {w : Bytes} (hw : NoGap token w) {s : τ} (hs : R w s) :
    readToken C fuel s = Prog.stopped o := by
  have hstop : ∀ (n : Nat) xs s, R xs s → xs.length < n →
      rawReadUntilSize C.read fuel n s = Prog.stopped o := hend
  exact readUntilToken_stops token_nodup token_ne_nil (rawRead_law hread hR)
    (Prog.stopped_ne_ret o) hstop hw (hR _ _ hs) hs

theorem verifyReadToken_ends {w : Bytes} (hw : NoGap token w) (io : ChunkIo τ)
    (hs : R w io.line) : verifyReadToken C fuel io = Prog.stopped (lift io.sharedio o) :=
  Prog.bind_stopped (onLine_stopped (readToken_ends hread hR hend hw hs))

/-- **At the end.**  A payload that was read to its end is kept. -/
theorem readChunk_incomplete {xs : Bytes} (hxs : Incomplete xs) {io : ChunkIo τ}
    (hs : R xs io.line) :
    ∃ sharedio, readChunk C fuel io = Prog.stopped (lift sharedio o) ∧
      (sharedio = io.sharedio ∨ ∃ d, d.length < xs.length ∧ sharedio = io.sharedio.write d) := by
  cases hxs with
  | leading hno =>
    exact ⟨_, Prog.bind_stopped (onLine_stopped (readToken_ends hread hR hend hno hs)), .inl rfl⟩
  | @hdr p h hp hlt =>
    obtain ⟨u, hret⟩ := exists_returned hp
    obtain ⟨t, hrun, ht⟩ := readToken_shortest hread hR hp hret hs
    refine ⟨io.sharedio, ?_, .inl rfl⟩
    rw [readChunk, Prog.bind_ret (onLine_ret hrun)]
    exact Prog.bind_stopped (onLine_stopped (hend _ _ _ ht hlt))
  | second hopened hno =>
    obtain ⟨t, ht, hrun⟩ := readChunk_of_opened hread hR hopened hs
    refine ⟨io.sharedio, ?_, .inl rfl⟩
    rw [hrun]
    exact Prog.bind_stopped (verifyReadToken_ends hread hR hend hno _ ht)
  | @payload x h d n hheaded hsize hlt =>
    obtain ⟨t, ht, hrun⟩ := readChunk_of_headed hread hR hheaded hs
    obtain ⟨n, rfl⟩ : ∃ k : Nat, n = k := ⟨n.toNat, (Int.toNat_of_nonneg (by omega)).symm⟩
    refine ⟨io.sharedio, ?_, .inl rfl⟩
    rw [hrun, readPayload, hsize]
    exact Prog.bind_stopped (onLine_stopped (hend _ _ _ ht hlt))
  | @trailing x h d y hcarries hno =>
    obtain ⟨t, ht, hrun⟩ := readChunk_of_carries hread hR hcarries hs
    have hlt := hcarries.length_lt
    refine ⟨io.sharedio.write d, ?_, .inr ⟨d, ?_, rfl⟩⟩
    · rw [hrun]
      exact Prog.bind_stopped
        (verifyReadToken_ends hread hR hend hno ⟨t, io.sharedio.write d⟩ ht)
    · rw [List.length_append]
      omega

end

end ChunkComm

end InteractiveSessions
