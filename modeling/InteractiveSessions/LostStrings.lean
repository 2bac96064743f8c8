import InteractiveSessions.LostFrames

/-!
# Strings after a timeout

What `read_str` does when it is called again after a timeout: it returns a
string that was written, or it raises the next timeout.  A reader that is called
again and again comes to the end of the stream.
-/

namespace InteractiveSessions.LostFrames

open ChunkComm StrComm GapToken TerminalComm

/-! ## The chunks of strings -/

/-- A string in which neither token begins, as long as the length field says. -/
structure Plain (m : Bytes) : Prop where
  caret : caret ∉ m
  dot : dot ∉ m
  length_lt : m.length < 10 ^ StrComm.lenWidth

section
variable {m : Bytes} {c : Chunk} {cs : List Chunk}

/-- The first chunk has the token and the length. -/
theorem length_head (hm : m.length < 10 ^ StrComm.lenWidth) (h : chunksOf (encode m) = c :: cs) :
    31 ≤ c.payload.length := by
  cases cs with
  | nil =>
    have hpayload := payloads_chunksOf (encode m)
    rw [h, payloads_cons, payloads_nil, List.append_nil] at hpayload
    rw [hpayload, length_encode hm]
    omega
  | cons c' cs => exact (chunksOf_head_full h).symm ▸ (by decide)

theorem dot_notMem_head (hm : dot ∉ m) (h : chunksOf (encode m) = c :: cs) :
    dot ∉ c.payload.tail := by
  refine fun hdot => dot_notMem_tail_encode hm ?_
  rw [← payloads_chunksOf (encode m), h, payloads_cons, List.tail_append_of_ne_nil c.payload_ne]
  exact List.mem_append_left _ hdot

theorem dot_notMem_payloads (hm : dot ∉ m) (h : chunksOf (encode m) = c :: cs) :
    dot ∉ payloads cs := by
  refine fun hdot => dot_notMem_tail_encode hm ?_
  rw [← payloads_chunksOf (encode m), h, payloads_cons, List.tail_append_of_ne_nil c.payload_ne]
  exact List.mem_append_right _ hdot

theorem payload_subset (hc : c ∈ cs) : c.payload ⊆ payloads cs :=
  fun _ hb => List.mem_flatMap.mpr ⟨c, hc, hb⟩

theorem tidy_chunksOf (hm : Plain m) : Tidy (chunksOf (encode m)) where
  caret c hc hcaret := by
    have h := payload_subset hc hcaret
    rw [payloads_chunksOf] at h
    exact caret_notMem_encode hm.caret h
  short := by
    refine (isChain_chunksOf _).imp fun c c' hfull hlt => ?_
    rw [hfull] at hlt
    exact absurd hlt (by decide)
  dot c hc := by
    obtain ⟨c₀, cs, h⟩ := List.exists_cons_of_ne_nil (chunksOf_encode_ne_nil m)
    rw [h] at hc
    rcases List.mem_cons.mp hc with rfl | hc
    · exact dot_notMem_head hm.dot h
    · exact fun hdot => dot_notMem_payloads hm.dot h (payload_subset hc (List.tail_subset _ hdot))
  long c hc hdot := by
    obtain ⟨c₀, cs, h⟩ := List.exists_cons_of_ne_nil (chunksOf_encode_ne_nil m)
    rw [h] at hc
    rcases List.mem_cons.mp hc with rfl | hc
    · exact length_head hm.length_lt h
    · exact absurd (payload_subset hc hdot) (dot_notMem_payloads hm.dot h)

end

section
variable {ms : List Bytes}

theorem chunksOfStrs_cons (m : Bytes) (ms : List Bytes) :
    chunksOfStrs (m :: ms) = chunksOf (encode m) ++ chunksOfStrs ms := rfl

/-- The first chunk of a string is not taken for a header. -/
theorem length_head_strs (hms : ∀ m ∈ ms, Plain m) {c : Chunk} (hc : c ∈ (chunksOfStrs ms).head?) :
    31 ≤ c.payload.length := by
  cases ms with
  | nil => cases hc
  | cons m ms =>
    obtain ⟨c₀, cs, h⟩ := List.exists_cons_of_ne_nil (chunksOf_encode_ne_nil m)
    rw [chunksOfStrs_cons, h, List.cons_append, List.head?_cons, Option.mem_some_iff] at hc
    exact hc ▸ length_head (hms m (List.mem_cons_self ..)).length_lt h

theorem tidy_chunksOfStrs (hms : ∀ m ∈ ms, Plain m) : Tidy (chunksOfStrs ms) := by
  induction ms with
  | nil => exact ⟨nofun, .nil, nofun, nofun⟩
  | cons m ms ih =>
    have hm := tidy_chunksOf (hms m (List.mem_cons_self ..))
    have hms' : ∀ m ∈ ms, Plain m := fun m hm => hms m (List.mem_cons_of_mem _ hm)
    have hrest := ih hms'
    rw [chunksOfStrs_cons]
    refine ⟨?_, ?_, ?_, ?_⟩
    · exact List.forall_mem_append.mpr ⟨hm.caret, hrest.caret⟩
    · rw [List.isChain_append]
      refine ⟨hm.short, hrest.short, fun c _ c' hc' _ => ?_⟩
      have := length_head_strs hms' hc'
      rw [show hdrLen = 8 from rfl]
      omega
    · exact List.forall_mem_append.mpr ⟨hm.dot, hrest.dot⟩
    · exact List.forall_mem_append.mpr ⟨hm.long, hrest.long⟩

/-- Behind the rest of a string there are whole strings. -/
theorem exists_strs (hms : ∀ m ∈ ms, Plain m) {cs : List Chunk} (hcs : cs <:+ chunksOfStrs ms) :
    ∃ j ms', ms' <:+ ms ∧ dot ∉ j ∧ payloads cs = j ++ ms'.flatMap encode := by
  induction ms with
  | nil =>
    obtain rfl := List.suffix_nil.mp hcs
    exact ⟨[], [], List.suffix_rfl, List.not_mem_nil, rfl⟩
  | cons m ms ih =>
    rw [chunksOfStrs_cons] at hcs
    rcases suffix_append_cases hcs with hcs | ⟨y, rfl, hy⟩
    · obtain ⟨j, ms', hms', hj, heq⟩ := ih (fun m hm => hms m (List.mem_cons_of_mem _ hm)) hcs
      exact ⟨j, ms', hms'.trans (List.suffix_cons ..), hj, heq⟩
    · obtain ⟨c, cs, h⟩ := List.exists_cons_of_ne_nil (chunksOf_encode_ne_nil m)
      rw [h] at hy
      rcases List.suffix_cons_iff.mp hy with rfl | hy
      · refine ⟨[], m :: ms, List.suffix_rfl, List.not_mem_nil, ?_⟩
        rw [← h, payloads_append, payloads_chunksOf, payloads_chunksOfStrs]
        rfl
      · refine ⟨payloads y, ms, List.suffix_cons .., fun hdot => ?_, ?_⟩
        · obtain ⟨z, rfl⟩ := hy
          refine dot_notMem_payloads (hms m (List.mem_cons_self ..)).dot h ?_
          rw [payloads_append]
          exact List.mem_append_right _ hdot
        · rw [payloads_append, payloads_chunksOfStrs]

end

/-! ## One try -/

/-- Where the reader is between two calls. -/
def Lost (cs : List Chunk) (io : ChunkIo TerminalComm) : Prop :=
  ∃ v e rest, dot ∉ v ∧ Behind cs v e rest io

section
variable {cs : List Chunk} {fuel : Nat} {io io₀ io' : ChunkIo TerminalComm} {xs : Bytes}

theorem Broken.lost {v : Bytes} {x : Exc} (h : Broken cs v io io' x) (hv : dot ∉ v) :
    Lost cs io' := by
  obtain ⟨kept, rest, hbehind⟩ := h.behind
  exact ⟨v, kept, rest, hv, hbehind⟩

theorem Ahead.lost (h : Ahead cs fuel io₀ xs io) : Lost cs io := by
  obtain ⟨v, e, rest, hv, hbehind, -⟩ := h
  exact ⟨v, e, rest, hv, hbehind⟩

theorem Ahead.took (h : Ahead cs fuel io₀ xs io) : Took io₀ io := by
  obtain ⟨v, e, rest, -, -, -, -, htook⟩ := h
  exact htook

theorem length_wire_le_of_position {rest : List Chunk} {y : Bytes} (h : Position cs rest y) :
    (wire rest).length ≤ y.length := by
  cases h <;> simp only [List.length_append] <;> omega

theorem length_erase_le (items : List Item) : (Line.erase items).length ≤ items.length := by
  induction items with
  | nil => exact Nat.le_refl _
  | cons item items ih =>
    cases item with
    | byte b => exact Nat.succ_le_succ ih
    | timeout => exact ih.trans (Nat.le_succ _)

/-- The bytes that come next are bytes of the shared buffer and the stream. -/
theorem Behind.length_le {v : Bytes} {e rest : List Chunk} (h : Behind cs v e rest io) :
    (v ++ payloads (e ++ rest)).length ≤ size io := by
  have hwire := length_wire_le_of_position h.position
  have hle := length_payloads_le rest
  have herase := length_erase_le io.line.line.stream
  rw [size, h.unread, payloads_append, ← List.append_assoc, List.length_append]
  omega

theorem takesFrom_ahead (hcs : Tidy cs) : TokenReader.TakesFrom
    (fun n => readUntilSize (comm fuel) fuel (n : Int)) (Ahead cs fuel io₀) := by
  intro n xs io h hn
  rcases readUntilSize_ahead hcs n h with ⟨-, io', hrun, h', -⟩ | ⟨x, io', u, hrun, -⟩
  · exact .inl ⟨io', hrun, h'⟩
  · exact .inr fun a s' hret => nomatch hret.symm.trans hrun

/-- The call raised an exception, and no string's token is broken. -/
def Fails {α : Type} (cs : List Chunk) (io : ChunkIo TerminalComm)
    (o : Outcome Exc (ChunkIo TerminalComm) α) : Prop :=
  ∃ x io' u, o = .raised x io' ∧ dot ∉ u ∧ Broken cs u io io' x

theorem Fails.bind {α β : Type} {m : Prog Exc (ChunkIo TerminalComm) α}
    {f : α → Prog Exc (ChunkIo TerminalComm) β} (h : Fails cs io₀ (m io)) :
    Fails cs io₀ ((m >>= f) io) := by
  obtain ⟨x, io', u, hrun, hu, hbroken⟩ := h
  exact ⟨x, io', u, Prog.bind_raised hrun, hu, hbroken⟩

/-- A short read that does not return. -/
theorem readUntilSize_fails (hcs : Tidy cs) {n : Nat} (hn : n ≤ 31) (h : Ahead cs fuel io₀ xs io)
    (hno : ∀ a s', readUntilSize (comm fuel) fuel n io ≠ .ret a s') :
    Fails cs io₀ (readUntilSize (comm fuel) fuel n io) := by
  rcases readUntilSize_ahead hcs n h with ⟨-, io', hrun, -⟩ | ⟨x, io', u, hrun, -, -, hu, hbroken⟩
  · exact absurd hrun (hno _ _)
  · exact ⟨x, io', u, hrun, hu hn, hbroken⟩

/-- Without a token to come, the token reader does not return. -/
theorem readUntilToken_dry (hcs : Tidy cs) (hxs : dot ∉ xs) (hfuel : xs.length < fuel)
    (h : Ahead cs fuel io₀ xs io) : Fails cs io₀ (readUntilToken (comm fuel) fuel io) := by
  have hstop : ∀ n xs io, Ahead cs fuel io₀ xs io → xs.length < n →
      ∀ a s', readUntilSize (comm fuel) fuel (n : Int) io ≠ .ret a s' := by
    intro n xs io h hlt a s' hret
    rcases readUntilSize_ahead hcs n h with ⟨hle, -⟩ | ⟨x, io', u, hrun, -⟩
    · omega
    · exact nomatch hret.symm.trans hrun
  obtain ⟨n, y, io₁, hn, h₁, hno, hrun⟩ := TokenReader.readUntilToken_noGap StrComm.token_nodup
    StrComm.token_ne_nil (takesFrom_ahead hcs) hstop (noGap_of_dot hxs) hfuel h
  rw [readUntilToken, hrun]
  exact readUntilSize_fails hcs (hn.trans (by decide)) h₁ hno

theorem readUntilToken_ahead (hcs : Tidy cs) {j rest : Bytes} (hj : dot ∉ j)
    (hfuel : (j ++ StrComm.token).length < fuel)
    (h : Ahead cs fuel io₀ ((j ++ StrComm.token) ++ rest) io) :
    (∃ u io', readUntilToken (comm fuel) fuel io = .ret u io' ∧ Ahead cs fuel io₀ rest io') ∨
      Fails cs io₀ (readUntilToken (comm fuel) fuel io) := by
  have hshortest := shortest_append StrComm.token_nodup StrComm.token_ne_nil (noGap_of_dot hj)
  rcases TokenReader.readUntilToken_takes StrComm.token_nodup StrComm.token_ne_nil
      (takesFrom_ahead hcs) hshortest hfuel h with
    ⟨u, io', hrun, h', -⟩ | ⟨n, y, io₁, hn, -, h₁, hno, hrun⟩
  · exact .inl ⟨u, io', hrun, h'⟩
  · right
    rw [readUntilToken, hrun]
    exact readUntilSize_fails hcs (hn.trans (by decide)) h₁ hno

theorem getReadLen_ahead (hcs : Tidy cs) {n : Nat} (hn : n < 10 ^ StrComm.lenWidth) {rest : Bytes}
    (h : Ahead cs fuel io₀ (Decimal.format StrComm.lenWidth n ++ rest) io) :
    (∃ io', getReadLen (comm fuel) fuel io = .ret (n : Int) io' ∧ Ahead cs fuel io₀ rest io' ∧
        size io' < size io) ∨
      Fails cs io₀ (getReadLen (comm fuel) fuel io) := by
  have hlen : (Decimal.format StrComm.lenWidth n).length = StrComm.lenWidth :=
    Decimal.format_length hn
  rcases readUntilSize_ahead hcs StrComm.lenWidth h with
    ⟨-, io', hrun, h', hsize⟩ | ⟨x, io', u, hrun, -, -, hu, hbroken⟩
  · rw [List.take_left' hlen] at hrun
    rw [List.drop_left' hlen] at h'
    refine .inl ⟨io', ?_, h', ?_⟩
    · rw [getReadLen, Prog.bind_ret hrun, Decimal.parseInt_format (by decide) hn]
      rfl
    · rw [show StrComm.lenWidth = 11 from rfl] at hsize
      omega
  · exact .inr (Fails.bind ⟨x, io', u, hrun, hu (by decide), hbroken⟩)

/-- The body of a string. -/
theorem readUntilSize_body (hcs : Tidy cs) {m rest : Bytes} (hm : dot ∉ m)
    (h : Ahead cs fuel io₀ (m ++ rest) io) :
    (∃ io', readUntilSize (comm fuel) fuel m.length io = .ret m io' ∧ Ahead cs fuel io₀ rest io' ∧
        size io' ≤ size io) ∨
      Fails cs io₀ (readUntilSize (comm fuel) fuel m.length io) := by
  rcases readUntilSize_ahead hcs m.length h with
    ⟨-, io', hrun, h', hsize⟩ | ⟨x, io', u, hrun, hu, hlt, -, hbroken⟩
  · rw [List.take_left] at hrun
    rw [List.drop_left] at h'
    exact .inl ⟨io', hrun, h', by omega⟩
  · have hle : u <+: m := List.prefix_of_prefix_length_le hu (List.prefix_append ..) hlt.le
    exact .inr ⟨x, io', u, hrun, fun hdot => hm (hle.subset hdot), hbroken⟩

end

section
variable {ms : List Bytes} {fuel : Nat} {io : ChunkIo TerminalComm}

/-- **One try.**  It returns one of the strings, or it breaks off. -/
theorem tryReadStr_lost (hms : ∀ m ∈ ms, Plain m) (hfuel : size io < fuel)
    (h : Lost (chunksOfStrs ms) io) :
    (∃ m io', m ∈ ms ∧ tryReadStr (comm fuel) fuel io = .ret m io' ∧ Lost (chunksOfStrs ms) io' ∧
        Passed io io' ∧ size io' < size io) ∨
      Fails (chunksOfStrs ms) io (tryReadStr (comm fuel) fuel io) := by
  obtain ⟨v, e, rest, hv, hbehind⟩ := h
  have hcs := tidy_chunksOfStrs hms
  obtain ⟨j, ms', hms', hj, hstrs⟩ := exists_strs hms hbehind.suffix
  have hahead : Ahead (chunksOfStrs ms) fuel io (v ++ payloads (e ++ rest)) io :=
    ⟨v, e, rest, hv, hbehind, rfl, (Nat.le_add_left ..).trans_lt hfuel,
      ⟨rfl, rfl, rfl, rfl, List.suffix_rfl, Nat.le_refl _⟩, rfl⟩
  have hlength := hbehind.length_le
  have hvj : dot ∉ v ++ j := by
    rw [List.mem_append, not_or]
    exact ⟨hv, hj⟩
  rw [hstrs, ← List.append_assoc] at hahead hlength
  cases ms' with
  | nil =>
    rw [List.flatMap_nil, List.append_nil] at hahead hlength
    exact .inr (readUntilToken_dry hcs hvj (hlength.trans_lt hfuel) hahead).bind
  | cons m ms' =>
    have hm : m ∈ ms := hms'.subset (List.mem_cons_self ..)
    have hplain := hms m hm
    have hsplit : (v ++ j) ++ (m :: ms').flatMap encode = ((v ++ j) ++ StrComm.token) ++
        (Decimal.format StrComm.lenWidth m.length ++ (m ++ ms'.flatMap encode)) := by
      simp only [List.flatMap_cons, encode, List.append_assoc]
    rw [hsplit] at hahead hlength
    rw [List.length_append] at hlength
    rcases readUntilToken_ahead hcs hvj (by omega) hahead with ⟨u, io₁, hrun₁, h₁⟩ | hfails
    · rcases getReadLen_ahead hcs hplain.length_lt h₁ with ⟨io₂, hrun₂, h₂, hlt⟩ | hfails
      · rcases readUntilSize_body hcs hplain.dot h₂ with ⟨io₃, hrun₃, h₃, hle⟩ | hfails
        · refine .inl ⟨m, io₃, hm, ?_, h₃.lost, h₃.took.toPassed, ?_⟩
          · rw [tryReadStr, Prog.bind_ret hrun₁, Prog.bind_ret hrun₂, hrun₃]
          · have := h₁.took.size_le
            omega
        · right
          rw [tryReadStr, Prog.bind_ret hrun₁, Prog.bind_ret hrun₂]
          exact hfails
      · right
        rw [tryReadStr, Prog.bind_ret hrun₁]
        exact hfails.bind
    · exact .inr hfails.bind

/-- The call leaves the loop of `read_str` with a timeout. -/
def Expires (cs : List Chunk) (io : ChunkIo TerminalComm)
    (o : Outcome Exc (ChunkIo TerminalComm) Bytes) : Prop :=
  ∃ io', o = .raised .timeout io' ∧ Lost cs io' ∧ Passed io io' ∧ (Shorter io io' ∨ Waited io io')

/-- The loop of `read_str`: what starts it again shortens the stream. -/
theorem readStrLoop_lost (hms : ∀ m ∈ ms, Plain m) (hfuel : size io < fuel)
    (h : Lost (chunksOfStrs ms) io) (loops : Nat) (hloops : io.line.line.stream.length < loops) :
    (∃ m io', m ∈ ms ∧ readStrLoop (comm fuel) fuel loops io = .ret m io' ∧
        Lost (chunksOfStrs ms) io' ∧ Passed io io' ∧ size io' < size io) ∨
      Expires (chunksOfStrs ms) io (readStrLoop (comm fuel) fuel loops io) := by
  induction loops generalizing io with
  | zero => omega
  | succ loops ih =>
    rcases tryReadStr_lost hms hfuel h with
      ⟨m, io', hm, hrun, h', hpassed, hlt⟩ | ⟨x, io₁, u, hrun, hu, hbroken⟩
    · exact .inl ⟨m, io', hm, Prog.tryExcept_ret hrun, h', hpassed, hlt⟩
    · have hpassed := hbroken.passed
      rcases hbroken.cause with ⟨rfl, hcause⟩ | ⟨⟨buffer, rfl⟩, hshorter⟩
      · exact .inr ⟨io₁, Prog.tryExcept_uncaught hrun rfl, hbroken.lost hu, hpassed, hcause⟩
      · have hagain : readStrLoop (comm fuel) fuel (loops + 1) io =
            readStrLoop (comm fuel) fuel loops io₁ := Prog.tryExcept_caught hrun rfl
        have hle := hpassed.size_le
        have hlt₁ : io₁.line.line.stream.length < io.line.line.stream.length := hshorter
        rw [hagain]
        rcases ih (by omega) (hbroken.lost hu) (by omega) with
          ⟨m, io', hm, hret, h', hpassed', hlt⟩ | ⟨io', hraised, h', hpassed', -⟩
        · exact .inl ⟨m, io', hm, hret, h', hpassed.trans hpassed', by omega⟩
        · exact .inr ⟨io', hraised, h', hpassed.trans hpassed',
            .inl (hpassed'.suffix.length_le.trans_lt hlt₁)⟩

/-- **Strings after a timeout.**  `read_str` returns one of the strings, or it
raises a timeout, and comes closer to the end of the stream. -/
theorem readStr_lost (hms : ∀ m ∈ ms, Plain m) (hfuel : size io < fuel)
    (h : Lost (chunksOfStrs ms) io) :
    (∃ m io', m ∈ ms ∧ readStr (comm fuel) fuel io = .ret m io' ∧ Lost (chunksOfStrs ms) io' ∧
        Passed io io' ∧ size io' < size io) ∨
      Expires (chunksOfStrs ms) io (readStr (comm fuel) fuel io) :=
  readStrLoop_lost hms hfuel h fuel ((Nat.le_add_left ..).trans_lt hfuel)

end

end InteractiveSessions.LostFrames
