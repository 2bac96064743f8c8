import InteractiveSessions.Line

/-!
# Transport timeouts while strings are read

A timeout of the transport leaves `read_str`, and the caller calls it again.
What the interrupted call had taken from the stream is gone, except for a
payload that was read to its end.  `Harmless` lists the timeouts that cost
nothing; `readsBack_of_harmless` shows that a run with no others returns the
strings that were written.  `not_readsBack_cut` is a run with another one.
-/

namespace InteractiveSessions

open ChunkComm StrComm GapToken

namespace StrComm

variable {τ : Type}

/-- `read_str`, called again after each timeout. -/
def retryStr (C : Comm τ) (fuel : Nat) : Nat → Prog Exc (ChunkIo τ) Bytes
  | 0 => Prog.hang
  | loops + 1 => Prog.tryExcept (readStr C fuel) fun e =>
    if e = .timeout then some (retryStr C fuel loops) else none

/-- The next `k` strings. -/
def receiveStrs (C : Comm τ) (fuel : Nat) : Nat → Prog Exc (ChunkIo τ) (List Bytes)
  | 0 => pure []
  | k + 1 => do
    let s ← retryStr C fuel fuel
    let ss ← receiveStrs C fuel k
    pure (s :: ss)

theorem retryStr_mono (C : Comm τ) {fuel fuel' : Nat} (hle : fuel ≤ fuel') {loops loops' : Nat}
    (hloops : loops ≤ loops') : retryStr C fuel loops ≤ retryStr C fuel' loops' := by
  induction loops generalizing loops' with
  | zero => exact Prog.hang_le _
  | succ loops ih =>
    obtain ⟨loops', rfl⟩ : ∃ n, loops' = n + 1 := ⟨loops' - 1, by omega⟩
    refine Prog.tryExcept_mono (readStr_mono C hle) fun e => ?_
    by_cases he : e = .timeout
    · simp only [he, ↓reduceIte]
      exact .inr ⟨_, _, rfl, rfl, ih (by omega)⟩
    · simp [he]

end StrComm

/-! ## Placements of timeouts -/

namespace Line

/-- The bytes of a stream, without its timeouts. -/
def erase : List Item → Bytes
  | [] => []
  | .byte b :: items => b :: erase items
  | .timeout :: items => erase items

theorem erase_append (xs ys : List Item) : erase (xs ++ ys) = erase xs ++ erase ys := by
  induction xs with
  | nil => rfl
  | cons x xs ih =>
    cases x with
    | byte b => exact congrArg (b :: ·) ih
    | timeout => exact ih

theorem erase_bytes (xs : Bytes) : erase (bytes xs) = xs := by
  induction xs with
  | nil => rfl
  | cons x xs ih => exact congrArg (x :: ·) ih

end Line

/-- What the reader meets after `write_str` of the strings `ms` (`writeStrs_wire`
says that `wire` is what it writes): the bytes, with timeouts in between. -/
structure Placement (ms : List Bytes) where
  items : List Item
  intact : Line.erase items = wire (chunksOfStrs ms)

/-- One timeout, after `n` bytes. -/
def Placement.after (ms : List Bytes) (n : Nat) : Placement ms where
  items := Line.bytes ((wire (chunksOfStrs ms)).take n) ++
    .timeout :: Line.bytes ((wire (chunksOfStrs ms)).drop n)
  intact := by
    rw [Line.erase_append, Line.erase, Line.erase_bytes, Line.erase_bytes, List.take_append_drop]

/-- However the reads are cut, the reader gets the strings `ms` from the stream. -/
def ReadsBack (ms : List Bytes) (items : List Item) : Prop :=
  ∀ cut, ∃ enough, ∀ fuel, enough ≤ fuel → ∃ io,
    receiveStrs Line.comm fuel ms.length (Line.reader items cut) = .ret ms io

/-- Streams for the strings `ms` with timeouts that cost nothing.  A timeout may
come before a string starts, in bytes that are skipped before it, or in the
trailing token of its first frame: after the first byte of that token, and once
only if more frames follow.  After the last payload it may come anywhere. -/
inductive Harmless : List Bytes → List Item → Prop
  | done (items) : Harmless [] items
  | skipped {ms items b} : b ≠ caret → Harmless ms items → Harmless ms (.byte b :: items)
  | before {ms items} : Harmless ms items → Harmless ms (.timeout :: items)
  | none {ms items m} : Harmless ms items →
      Harmless (m :: ms) (Line.bytes (wire (chunksOf (encode m))) ++ items)
  | single {ms items m c j} : chunksOf (encode m) = [c] → 0 < j → j < ChunkComm.token.length →
      Harmless ms items →
      Harmless (m :: ms) (Line.bytes (c.opened ++ ChunkComm.token.take j) ++ .timeout :: items)
  | first {ms items m c cs j} : chunksOf (encode m) = c :: cs → cs ≠ [] → 0 < j →
      j < ChunkComm.token.length → Harmless ms items →
      Harmless (m :: ms) (Line.bytes (c.opened ++ ChunkComm.token.take j) ++
        .timeout :: (Line.bytes (ChunkComm.token.drop j ++ wire cs) ++ items))
  | last {items m c} : chunksOf (encode m) = [c] →
      Harmless [m] (Line.bytes c.opened ++ .timeout :: items)

theorem Harmless.skip {ms : List Bytes} {items : List Item} (h : Harmless ms items) {w : Bytes}
    (hw : caret ∉ w) : Harmless ms (Line.bytes w ++ items) := by
  induction w with
  | nil => exact h
  | cons b w ih =>
    rw [List.mem_cons, not_or] at hw
    exact .skipped (fun hb => hw.1 hb.symm) (ih hw.2)

/-! ## One call of `read_str` -/

theorem ChunkComm.noGap_take {j : Nat} (hj : j < ChunkComm.token.length) :
    NoGap ChunkComm.token (ChunkComm.token.take j) := by
  have h := noGap_append_of_prefix ChunkComm.token_nodup ChunkComm.noGap_nil
    (List.take_prefix j ChunkComm.token) (by
      intro h
      have := congrArg List.length h
      rw [List.length_take] at this
      omega)
  simpa using h

theorem ChunkComm.noGap_drop {j : Nat} (hj : 0 < j) :
    NoGap ChunkComm.token (ChunkComm.token.drop j) := by
  apply ChunkComm.noGap_of_caret
  intro h
  have h1 := (List.drop_subset_drop_left ChunkComm.token hj) h
  revert h1
  decide

section
variable {fuel : Nat} {io : ChunkIo Line}

theorem readStr_raises_timeout {io' : ChunkIo Line} (hfuel : 0 < fuel)
    (hunread : io.sharedio.unread = [])
    (h : readChunk Line.comm fuel io = .raised .timeout io') :
    readStr Line.comm fuel io = .raised .timeout io' := by
  obtain ⟨loops, rfl⟩ : ∃ n, fuel = n + 1 := ⟨fuel - 1, by omega⟩
  have htry : tryReadStr Line.comm (loops + 1) io = .raised .timeout io' :=
    tryReadStr_stopped hfuel (o := some (.timeout, io')) (by simp [hunread]) h
  rw [readStr, readStrLoop, Prog.tryExcept_uncaught htry rfl]

/-- A timeout in bytes that are skipped: the call loses those bytes. -/
theorem readStr_timeout {w : Bytes} {items : List Item} (hw : NoGap ChunkComm.token w)
    (hstream : io.line.stream = Line.bytes w ++ .timeout :: items)
    (hunread : io.sharedio.unread = []) (hfuel : io.line.stream.length < fuel) :
    readStr Line.comm fuel io =
      .raised .timeout ⟨{ io.line with stream := items }, io.sharedio⟩ := by
  refine readStr_raises_timeout (by omega) hunread ?_
  exact readChunk_stops (Line.comm_timeout io.line items fuel) (fun _ _ h => h.1.length_lt) hw
    ⟨⟨hstream, hfuel⟩, rfl, rfl⟩

/-- A timeout in the trailing token of the first frame: the call loses the
frame, but its payload is in the shared buffer. -/
theorem readStr_timeout_trailing {w x : Bytes} {items : List Item}
    (hw : NoGap ChunkComm.token w) (hx : NoGap ChunkComm.token x) (c : Chunk)
    (hstream : io.line.stream = Line.bytes (w ++ (c.opened ++ x)) ++ .timeout :: items)
    (hunread : io.sharedio.unread = []) (hfuel : io.line.stream.length < fuel) :
    readStr Line.comm fuel io = .raised .timeout
      ⟨{ io.line with stream := items }, io.sharedio.write c.payload⟩ := by
  refine readStr_raises_timeout (by omega) hunread ?_
  exact readChunk_stops_trailing (Line.comm_timeout io.line items fuel)
    (fun _ _ h => h.1.length_lt) hw hx c ⟨⟨hstream, hfuel⟩, rfl, rfl⟩

/-- The frames of a string, of which the shared buffer may have the first
payloads already. -/
theorem readStr_frames (io : ChunkIo Line) {w : Bytes} {cs : List Chunk} {m : Bytes}
    {items : List Item}
    (hw : NoGap ChunkComm.token w) (hwcs : cs = [] → w = []) (hm : m.length < 10 ^ StrComm.lenWidth)
    (hstream : io.line.stream = Line.bytes (w ++ wire cs) ++ items)
    (hpayloads : io.sharedio.unread ++ payloads cs = encode m)
    (hfuel : io.sharedio.unread.length + io.line.stream.length < fuel) :
    ∃ io', readStr Line.comm fuel io = .ret m io' ∧ io'.line.stream = items ∧
      io'.sharedio.unread = [] := by
  have hqueue : Queue (Line.Next items fuel) fuel ([] ++ (encode m ++ [])) io := by
    refine ⟨w, cs, hw, hwcs, ⟨hstream, by omega⟩, ?_, ?_⟩
    · rw [hstream, List.length_append, Line.length_bytes] at hfuel
      omega
    · rw [List.nil_append, List.append_nil, hpayloads]
  obtain ⟨io', hrun, hio'⟩ := readStr_encode (Line.comm_serves items fuel)
    (fun _ _ h => h.length_lt) le_rfl StrComm.noGap_nil hm hqueue
  obtain ⟨hunread', hnext⟩ := hio'.nil
  exact ⟨io', hrun, hnext.1, hunread'⟩

/-! ## Runs with harmless timeouts -/

theorem retryStr_ret {loops : Nat} {io' : ChunkIo Line} {m : Bytes}
    (h : readStr Line.comm fuel io = .ret m io') :
    retryStr Line.comm fuel (loops + 1) io = .ret m io' := by
  rw [retryStr, Prog.tryExcept_ret h]

theorem retryStr_again {loops : Nat} {io' : ChunkIo Line}
    (h : readStr Line.comm fuel io = .raised .timeout io') :
    retryStr Line.comm fuel (loops + 1) io = retryStr Line.comm fuel loops io' := by
  rw [retryStr, Prog.tryExcept_caught h rfl]

/-- A timeout in the trailing token of the first frame, and no other before the
string is read. -/
theorem retryStr_interrupted (loops : Nat) {w x w' : Bytes} {c : Chunk} {cs : List Chunk}
    {m : Bytes} {items : List Item} (hw : NoGap ChunkComm.token w) (hx : NoGap ChunkComm.token x)
    (hw' : NoGap ChunkComm.token w') (hwcs : cs = [] → w' = [])
    (hm : m.length < 10 ^ StrComm.lenWidth) (hpayloads : c.payload ++ payloads cs = encode m)
    (hstream : io.line.stream =
      Line.bytes (w ++ (c.opened ++ x)) ++ .timeout :: (Line.bytes (w' ++ wire cs) ++ items))
    (hunread : io.sharedio.unread = []) (hfuel : io.line.stream.length < fuel) :
    ∃ io', retryStr Line.comm fuel (loops + 2) io = .ret m io' ∧ io'.line.stream = items ∧
      io'.sharedio.unread = [] := by
  have hfirst := readStr_timeout_trailing hw hx c hstream hunread hfuel
  have hlen := congrArg List.length hstream
  simp only [List.length_append, Line.length_bytes, List.length_cons, c.length_opened] at hlen
  have hunread₁ : (io.sharedio.write c.payload).unread = c.payload := by
    rw [SharedBytesIo.unread_write, hunread, List.nil_append]
  have hfuel₁ : (io.sharedio.write c.payload).unread.length +
      (Line.bytes (w' ++ wire cs) ++ items).length < fuel := by
    simp only [hunread₁, List.length_append, Line.length_bytes]
    omega
  obtain ⟨io', hrun, hs', hu'⟩ := readStr_frames
    ⟨{ io.line with stream := Line.bytes (w' ++ wire cs) ++ items }, io.sharedio.write c.payload⟩
    hw' hwcs hm rfl (by rw [hunread₁, hpayloads]) hfuel₁
  exact ⟨io', by rw [retryStr_again hfirst, retryStr_ret hrun], hs', hu'⟩

/-- Between two strings: the shared buffer is used up, and what comes next are
the strings `ms`, after bytes that are skipped. -/
def Ready (ms : List Bytes) (fuel : Nat) (io : ChunkIo Line) : Prop :=
  ∃ w items, caret ∉ w ∧ Harmless ms items ∧ io.line.stream = Line.bytes w ++ items ∧
    io.sharedio.unread = [] ∧ io.line.stream.length < fuel

/-- The string whose first frame is interrupted is read, and the next ones follow. -/
theorem ready_of_interrupted {loops : Nat} {w x w' : Bytes} {c : Chunk} {cs : List Chunk}
    {m : Bytes} {ms : List Bytes} {items : List Item} (hms : Harmless ms items)
    (hw : NoGap ChunkComm.token w) (hx : NoGap ChunkComm.token x) (hw' : NoGap ChunkComm.token w')
    (hwcs : cs = [] → w' = []) (hm : m.length < 10 ^ StrComm.lenWidth)
    (hc : chunksOf (encode m) = c :: cs)
    (hstream : io.line.stream =
      Line.bytes (w ++ (c.opened ++ x)) ++ .timeout :: (Line.bytes (w' ++ wire cs) ++ items))
    (hunread : io.sharedio.unread = []) (hfuel : io.line.stream.length < fuel)
    (hloops : 2 ≤ loops) :
    ∃ io', retryStr Line.comm fuel loops io = .ret m io' ∧ Ready ms fuel io' := by
  obtain ⟨loops, rfl⟩ : ∃ n, loops = n + 2 := ⟨loops - 2, by omega⟩
  obtain ⟨io', hrun, hs', hu'⟩ := retryStr_interrupted loops hw hx hw' hwcs hm
    (by rw [← payloads_cons, ← hc, payloads_chunksOf]) hstream hunread hfuel
  have hlen := congrArg List.length hstream
  simp only [List.length_append, List.length_cons] at hlen
  exact ⟨io', hrun, [], items, List.not_mem_nil, hms, hs', hu', by rw [hs']; omega⟩

/-- **Step.**  The next string is the next one of `ms`. -/
theorem retryStr_harmless {l : List Bytes} {items : List Item} (h : Harmless l items) {m : Bytes}
    {ms : List Bytes} (hl : l = m :: ms) (hm : m.length < 10 ^ StrComm.lenWidth) (loops : Nat)
    (w : Bytes) (io : ChunkIo Line) (hw : caret ∉ w)
    (hstream : io.line.stream = Line.bytes w ++ items) (hunread : io.sharedio.unread = [])
    (hfuel : io.line.stream.length < fuel) (hloops : items.length < loops) :
    ∃ io', retryStr Line.comm fuel loops io = .ret m io' ∧ Ready ms fuel io' := by
  have hgap := ChunkComm.noGap_of_caret hw
  have hlen := congrArg List.length hstream
  induction h generalizing loops w io with
  | done => cases hl
  | @skipped ms' items b hb _ ih =>
    have hwb : caret ∉ w ++ [b] := by
      simp only [List.mem_append, List.mem_singleton, not_or]
      exact ⟨hw, fun h => hb h.symm⟩
    rw [List.length_cons] at hloops
    have hstream' : io.line.stream = Line.bytes (w ++ [b]) ++ items := by
      rw [hstream, Line.bytes_append, List.append_assoc]
      rfl
    exact ih hl loops (w ++ [b]) io hwb hstream' hunread hfuel (by omega)
      (ChunkComm.noGap_of_caret hwb) (congrArg List.length hstream')
  | @before ms' items _ ih =>
    obtain ⟨loops, rfl⟩ : ∃ n, loops = n + 1 := ⟨loops - 1, by omega⟩
    rw [retryStr_again (readStr_timeout hgap hstream hunread hfuel)]
    rw [List.length_cons] at hloops
    simp only [List.length_append, Line.length_bytes, List.length_cons] at hlen
    exact ih hl loops [] _ List.not_mem_nil rfl hunread (by simp only; omega) (by omega)
      ChunkComm.noGap_nil rfl
  | @none ms' items m' hms =>
    cases hl
    obtain ⟨loops, rfl⟩ : ∃ n, loops = n + 1 := ⟨loops - 1, by omega⟩
    rw [← List.append_assoc, ← Line.bytes_append] at hstream
    obtain ⟨io', hrun, hs', hu'⟩ := readStr_frames io hgap
      (fun h => absurd h (chunksOf_encode_ne_nil _)) hm hstream
      (by rw [hunread, payloads_chunksOf, List.nil_append]) (by rw [hunread]; simpa using hfuel)
    refine ⟨io', retryStr_ret hrun, [], items, List.not_mem_nil, hms, hs', hu', ?_⟩
    rw [hs']
    simp only [List.length_append, Line.length_bytes] at hlen
    omega
  | @single ms' items m' c j hc hj0 hj hms =>
    cases hl
    have hstream' : io.line.stream = Line.bytes (w ++ (c.opened ++ ChunkComm.token.take j)) ++
        .timeout :: (Line.bytes ([] ++ wire []) ++ items) := by
      rw [hstream, ← List.append_assoc, ← Line.bytes_append]
      rfl
    simp only [List.length_append, Line.length_bytes, List.length_cons, c.length_opened] at hloops
    exact ready_of_interrupted hms hgap (ChunkComm.noGap_take hj) ChunkComm.noGap_nil
      (fun _ => rfl) hm hc hstream' hunread hfuel (by omega)
  | @first ms' items m' c cs j hc hcs hj0 hj hms =>
    cases hl
    rw [← List.append_assoc, ← Line.bytes_append] at hstream
    simp only [List.length_append, Line.length_bytes, List.length_cons, c.length_opened] at hloops
    exact ready_of_interrupted hms hgap (ChunkComm.noGap_take hj) (ChunkComm.noGap_drop hj0)
      (fun h => absurd h hcs) hm hc hstream hunread hfuel (by omega)
  | @last items m' c hc =>
    cases hl
    have hstream' : io.line.stream = Line.bytes (w ++ (c.opened ++ [])) ++
        .timeout :: (Line.bytes ([] ++ wire []) ++ items) := by
      rw [hstream, ← List.append_assoc, ← Line.bytes_append, List.append_nil]
      rfl
    simp only [List.length_append, Line.length_bytes, List.length_cons, c.length_opened] at hloops
    exact ready_of_interrupted (.done items) hgap ChunkComm.noGap_nil ChunkComm.noGap_nil
      (fun _ => rfl) hm hc hstream' hunread hfuel (by omega)

/-- **Run.**  While every timeout is harmless, the strings come in order. -/
theorem receiveStrs_ready {ms : List Bytes} (hms : ∀ m ∈ ms, m.length < 10 ^ StrComm.lenWidth)
    (io : ChunkIo Line) (h : Ready ms fuel io) :
    ∃ io', receiveStrs Line.comm fuel ms.length io = .ret ms io' ∧ Ready [] fuel io' := by
  induction ms generalizing io with
  | nil => exact ⟨io, rfl, h⟩
  | cons m ms ih =>
    obtain ⟨w, items, hw, hitems, hstream, hunread, hfuel⟩ := h
    have hlen := congrArg List.length hstream
    simp only [List.length_append, Line.length_bytes] at hlen
    obtain ⟨io₁, hrun₁, h₁⟩ := retryStr_harmless hitems rfl (hms m (List.mem_cons_self ..)) fuel w
      io hw hstream hunread hfuel (by omega)
    obtain ⟨io₂, hrun₂, h₂⟩ := ih (fun x hx => hms x (List.mem_cons_of_mem _ hx)) io₁ h₁
    refine ⟨io₂, ?_, h₂⟩
    rw [List.length_cons, receiveStrs, Prog.bind_ret hrun₁, Prog.bind_ret hrun₂]
    rfl

end

/-- **Harmless timeouts cost nothing.**  When all timeouts are harmless, calling
`read_str` again after each of them returns exactly the strings written. -/
theorem readsBack_of_harmless (ms : List Bytes) (hms : ∀ m ∈ ms, m.length < 10 ^ 11)
    (p : Placement ms) (h : Harmless ms p.items) : ReadsBack ms p.items := by
  intro cut
  refine ⟨p.items.length + 1, fun fuel hfuel => ?_⟩
  obtain ⟨io, hrun, -⟩ := receiveStrs_ready hms (Line.reader p.items cut)
    ⟨[], p.items, List.not_mem_nil, h, rfl, rfl, hfuel⟩
  exact ⟨io, hrun⟩

/-- A timeout in the trailing token of the first of two strings. -/
theorem readsBack_after_trailing :
    ReadsBack [ascii "hi", ascii "ho"] (Placement.after [ascii "hi", ascii "ho"] 86).items := by
  refine readsBack_of_harmless _ (by decide) _ ?_
  have hhi := chunksOf_eq_singleton (encode_ne_nil (ascii "hi")) (by decide)
  have hho : Harmless [ascii "ho"] (Line.bytes (wire (chunksOf (encode (ascii "ho")))) ++ []) :=
    .none (.done [])
  have h := Harmless.single hhi (j := 5) (by decide) (by decide)
    (hho.skip (w := ChunkComm.token.drop 5) (by decide))
  have hitems : (Placement.after [ascii "hi", ascii "ho"] 86).items =
      Line.bytes (Chunk.opened ⟨0, encode (ascii "hi"), by decide, encode_ne_nil _, by decide⟩ ++
        ChunkComm.token.take 5) ++ .timeout :: (Line.bytes (ChunkComm.token.drop 5) ++
          (Line.bytes (wire (chunksOf (encode (ascii "ho")))) ++ [])) := by
    decide +kernel
  rw [hitems]
  exact h

/-- **A timeout in a frame loses its string.**  With a timeout in the leading
token of the first of two strings, the first string that the reader returns is
the second one. -/
theorem not_readsBack_after :
    ¬ ReadsBack [ascii "hi", ascii "ho"] (Placement.after [ascii "hi", ascii "ho"] 5).items := by
  intro h
  obtain ⟨enough, h⟩ := h fun _ => 99
  obtain ⟨io, hrun⟩ := h (max enough 300) (Nat.le_max_left ..)
  obtain ⟨s, io₁, hfirst, hrest⟩ := Prog.ret_of_bind hrun
  obtain ⟨ss, io₂, -, hret⟩ := Prog.ret_of_bind hrest
  have hvalue : (retryStr Line.comm 300 300 (Line.reader
      (Placement.after [ascii "hi", ascii "ho"] 5).items fun _ => 99)).value? =
        some (ascii "ho") := by
    decide +kernel
  obtain ⟨io₃, hho⟩ := Outcome.ret_of_value? hvalue
  have hmono := Prog.ret_of_le (retryStr_mono Line.comm (Nat.le_max_right enough 300)
    (Nat.le_max_right enough 300)) hho
  rw [hmono] at hfirst
  cases hfirst
  cases hret

end InteractiveSessions
