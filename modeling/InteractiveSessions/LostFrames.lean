import InteractiveSessions.TerminalComm

/-!
# Reading on after a timeout inside of a frame

The rest of a frame that a timeout cut in two is read as if a frame began with
its next token.  `Position` says where in the frames the reader is; from there
it reads the next frame whole, or it raises, and what it raises is a timeout or
a `ChunkReaderError`.  The strings that `read_str` returns are strings that were
written.
-/

namespace InteractiveSessions.LostFrames

open ChunkComm GapToken TerminalComm

/-! ## Where the reader is -/

theorem caret_notMem_of_suffix {z : Bytes} (hz : z <:+ token) (hne : z ≠ token) : caret ∉ z := by
  have htail : z <:+ token.tail := by
    rw [← List.drop_one]
    refine List.suffix_of_suffix_length_le hz (List.drop_suffix ..) ?_
    have hlt : z.length ≠ token.length := fun h => hne (hz.eq_of_length h)
    have hle := hz.length_le
    rw [List.length_drop]
    omega
  exact fun h => absurd (htail.subset h) (by decide)

/-- A rest of a text that begins with the token: the whole, a rest of `b`, or
skipped bytes and `b`. -/
theorem suffix_token_cases {g b z : Bytes} (hg : caret ∉ g) (hz : z <:+ token ++ (g ++ b)) :
    z = token ++ (g ++ b) ∨ z <:+ b ∨ ∃ w, caret ∉ w ∧ z = w ++ b := by
  rcases suffix_append_cases hz with hz | ⟨y, rfl, hy⟩
  · rcases suffix_append_cases hz with hz | ⟨y, rfl, hy⟩
    · exact .inr (.inl hz)
    · exact .inr (.inr ⟨y, fun h => hg (hy.subset h), rfl⟩)
  · by_cases heq : y = token
    · exact .inl (by rw [heq])
    · refine .inr (.inr ⟨y ++ g, ?_, by rw [List.append_assoc]⟩)
      rw [List.mem_append, not_or]
      exact ⟨caret_notMem_of_suffix hy heq, hg⟩

/-- What comes next, when the frames of `rest` come last: only skipped bytes
before them, or the trailing token of a frame, or its middle token.  A payload
of eight bytes could be taken for a header. -/
inductive Position (cs : List Chunk) : List Chunk → Bytes → Prop
  | skipped {rest w} : rest <:+ cs → caret ∉ w → Position cs rest (w ++ wire rest)
  | closing {rest w} : rest <:+ cs → caret ∉ w → Position cs rest (w ++ (token ++ wire rest))
  | payload {c rest w} : c :: rest <:+ cs → caret ∉ w → c.payload.length ≠ hdrLen →
      Position cs rest (w ++ (token ++ (c.payload ++ (token ++ wire rest))))

theorem Position.suffix {cs rest : List Chunk} {y : Bytes} (h : Position cs rest y) :
    rest <:+ cs := by
  cases h with
  | skipped hrest | closing hrest => exact hrest
  | payload hrest => exact (List.suffix_cons ..).trans hrest

theorem Position.mono {cs cs' rest : List Chunk} {y : Bytes} (h : Position cs rest y)
    (hcs : cs <:+ cs') : Position cs' rest y := by
  cases h with
  | skipped hrest hw => exact .skipped (hrest.trans hcs) hw
  | closing hrest hw => exact .closing (hrest.trans hcs) hw
  | payload hrest hw hne => exact .payload (hrest.trans hcs) hw hne

/-- Every rest of the frames is such a position. -/
theorem exists_position {cs : List Chunk} (hcs : ∀ c ∈ cs, caret ∉ c.payload) {y : Bytes}
    (hy : y <:+ wire cs)
    (hne : ∀ c rest w, c :: rest <:+ cs → caret ∉ w →
      y = w ++ (token ++ (c.payload ++ (token ++ wire rest))) → c.payload.length ≠ hdrLen) :
    ∃ rest, Position cs rest y := by
  induction cs with
  | nil =>
    obtain rfl := List.suffix_nil.mp hy
    exact ⟨[], .skipped (w := []) List.suffix_rfl List.not_mem_nil⟩
  | cons c cs ih =>
    have hall : c :: cs <:+ c :: cs := List.suffix_rfl
    have htail : cs <:+ c :: cs := List.suffix_cons ..
    have hframe : wire (c :: cs) = token ++ (hdr c.id c.payload.length ++
        (token ++ (c.payload ++ (token ++ ([] ++ wire cs))))) := by
      rw [wire_cons, c.frame_append]
      rfl
    have hpayload : ∀ w, caret ∉ w →
        y = w ++ (token ++ (c.payload ++ (token ++ wire cs))) → Position (c :: cs) cs y := by
      rintro w hw rfl
      exact .payload hall hw (hne c cs w hall hw rfl)
    have hclosing : ∀ w, caret ∉ w → Position (c :: cs) cs (w ++ (token ++ wire cs)) :=
      fun w hw => .closing htail hw
    rw [hframe] at hy
    rcases suffix_token_cases (caret_notMem_hdr _ _) hy with rfl | hy | ⟨w, hw, rfl⟩
    · rw [← hframe]
      exact ⟨c :: cs, .skipped (w := []) hall List.not_mem_nil⟩
    · rcases suffix_token_cases (hcs c (List.mem_cons_self ..)) hy with rfl | hy | ⟨w, hw, rfl⟩
      · exact ⟨cs, hpayload [] List.not_mem_nil rfl⟩
      · rcases suffix_token_cases List.not_mem_nil hy with rfl | hy | ⟨w, hw, rfl⟩
        · exact ⟨cs, hclosing [] List.not_mem_nil⟩
        · obtain ⟨rest, hrest⟩ := ih (fun c hc => hcs c (List.mem_cons_of_mem _ hc)) hy
            fun c' rest w hrest => hne c' rest w (hrest.trans htail)
          exact ⟨rest, hrest.mono htail⟩
        · exact ⟨cs, .skipped htail hw⟩
      · exact ⟨cs, hclosing w hw⟩
    · exact ⟨cs, hpayload w hw rfl⟩

/-! ## Where no frame begins -/

/-- What follows a token with which no frame begins: less than a header, or eight
bytes that the token does not follow.  Behind the next token there is `P`. -/
inductive NoFrame (P : Bytes → Prop) : Bytes → Prop
  | short {z} : z.length < hdrLen → NoFrame P z
  | silent {b d} : b.length = hdrLen → caret ∉ d → NoFrame P (b ++ d)
  | rejected {b d z} : b.length = hdrLen → caret ∉ d → d ≠ [] → P z →
      NoFrame P (b ++ (d ++ (token ++ z)))

/-- The read that comes to the end of `xs` raises the timeout after it. -/
def TimesOut (io io' : ChunkIo TerminalComm) : Prop :=
  ∃ xs tail, io.line.line.stream = Line.bytes xs ++ tail ∧ Line.leading tail = [] ∧
    io'.line = io.line.expired tail

section
variable {fuel : Nat} {io : ChunkIo TerminalComm} {xs : Bytes} {tail : List Item}

theorem next_self (hstream : io.line.line.stream = Line.bytes xs ++ tail)
    (hfuel : io.line.line.stream.length < fuel) : Next io.line tail fuel xs io.line := by
  rw [hstream] at hfuel
  refine ⟨?_, hfuel⟩
  rw [← hstream]
  rfl

theorem nextWritten_self (hstream : io.line.line.stream = Line.bytes xs ++ tail)
    (hfuel : io.line.line.stream.length < fuel) : NextWritten io.line tail fuel xs io.line :=
  ⟨io.line.line.written, next_self hstream hfuel⟩

/-- Where no frame begins, the reader raises. -/
theorem readChunk_noFrame {P : Bytes → Prop} {w z : Bytes} (hw : caret ∉ w) (hz : NoFrame P z)
    (hnext : Line.erase io.line.line.stream = w ++ (token ++ z))
    (hfuel : io.line.line.stream.length < fuel) :
    (∃ io', readChunk (comm fuel) fuel io = .raised .timeout io' ∧ TimesOut io io' ∧
        io'.sharedio = io.sharedio) ∨
      ∃ buffer items, readChunk (comm fuel) fuel io =
          .raised (.bufferError buffer) ⟨io.line.withStream items, io.sharedio⟩ ∧
        items <:+ io.line.line.stream ∧ items.length < io.line.line.stream.length ∧
          P (Line.erase items) := by
  obtain ⟨xs, tail, hstream, htail⟩ := Line.exists_leading io.line.line.stream
  have hstops := comm_timeout io.line htail fuel fuel
  have hR : ∀ xs t, Next io.line tail fuel xs t → xs.length < fuel := fun _ _ h => h.length_lt
  have hself := next_self hstream hfuel
  have hxs : xs <+: w ++ (token ++ z) := by
    rw [← hnext, hstream, Line.erase_append, Line.erase_bytes]
    exact List.prefix_append ..
  have htimeout : readChunk (comm fuel) fuel io =
      Prog.stopped (lift io.sharedio (some (.timeout, io.line.expired tail))) →
      ∃ io', readChunk (comm fuel) fuel io = .raised .timeout io' ∧ TimesOut io io' ∧
        io'.sharedio = io.sharedio := fun h =>
    ⟨_, h, ⟨xs, tail, hstream, htail, rfl⟩, rfl⟩
  have hgap : ∀ {d v : Bytes}, caret ∉ d → v <+: token → v ≠ token → NoGap token (d ++ v) :=
    fun hd hv hne => noGap_append_of_prefix token_nodup (noGap_of_caret hd) hv hne
  have hsecond : ∀ {b v : Bytes}, xs = w ++ (token ++ (b ++ v)) → b.length = hdrLen →
      NoGap token v → readChunk (comm fuel) fuel io =
        Prog.stopped (lift io.sharedio (some (.timeout, io.line.expired tail))) := by
    rintro b v rfl hb hv
    exact readChunk_stops_second hstops hR (noGap_of_caret hw) hb hv hself
  have hhdr : ∀ {u : Bytes}, xs = w ++ (token ++ u) → u.length < hdrLen →
      readChunk (comm fuel) fuel io =
        Prog.stopped (lift io.sharedio (some (.timeout, io.line.expired tail))) := by
    rintro u rfl hu
    exact readChunk_stops_hdr hstops hR (noGap_of_caret hw) hu hself
  rcases prefix_append_cases hxs with ⟨hx, -⟩ | ⟨y, hy, hyz⟩
  · have hcaret : caret ∉ xs := fun h => hw (hx.subset h)
    exact .inl (htimeout (readChunk_stops hstops hR (noGap_of_caret hcaret) hself))
  rcases prefix_append_cases hyz with ⟨hy', hne⟩ | ⟨u, rfl, hu⟩
  · subst hy
    exact .inl (htimeout (readChunk_stops hstops hR (hgap hw hy' hne) hself))
  cases hz with
  | short hlt => exact .inl (htimeout (hhdr hy (hu.length_le.trans_lt hlt)))
  | @silent b d hb hd =>
    rcases prefix_append_cases hu with ⟨hu, hne⟩ | ⟨v, rfl, hv⟩
    · refine .inl (htimeout (hhdr hy ?_))
      rw [← hb]
      exact lt_of_le_of_ne hu.length_le fun heq => hne (hu.eq_of_length heq)
    · exact .inl (htimeout (hsecond hy hb (noGap_of_caret fun h => hd (hv.subset h))))
  | @rejected b d z hb hd hdne hz =>
    rcases prefix_append_cases hu with ⟨hu, hne⟩ | ⟨v, rfl, hv⟩
    · refine .inl (htimeout (hhdr hy ?_))
      rw [← hb]
      exact lt_of_le_of_ne hu.length_le fun heq => hne (hu.eq_of_length heq)
    rcases prefix_append_cases hv with ⟨hv, -⟩ | ⟨v₁, rfl, hv₁⟩
    · exact .inl (htimeout (hsecond hy hb (noGap_of_caret fun h => hd (hv.subset h))))
    rcases prefix_append_cases hv₁ with ⟨hv₁, hne⟩ | ⟨v₂, rfl, -⟩
    · exact .inl (htimeout (hsecond hy hb (hgap hd hv₁ hne)))
    · subst hy
      obtain ⟨t, hrun, ht, -⟩ := readChunk_bad_hdr hstops.delivers hR (noGap_of_caret hw) hb
        (noGap_of_caret hd) hdne hself
      refine .inr ⟨_, Line.bytes v₂ ++ tail, by rw [hrun, ht], ?_, ?_, ?_⟩
      · rw [hstream]
        simp only [Line.bytes_append, List.append_assoc]
        exact ((List.suffix_append ..).trans (List.suffix_append ..)).trans
          (((List.suffix_append ..).trans (List.suffix_append ..)).trans (List.suffix_append ..))
      · rw [hstream]
        simp only [Line.bytes_append, List.length_append, Line.length_bytes, token_length]
        omega
      · rw [hstream, Line.erase_append, Line.erase_bytes] at hnext
        simp only [List.append_assoc, List.append_cancel_left_eq] at hnext
        rw [Line.erase_append, Line.erase_bytes, hnext]
        exact hz

end

/-! ## One chunk -/

/-- Chunks whose payloads a reader does not take for frames, nor for strings: the
token of a string begins with the chunk, and the string's length is in it, too. -/
structure Tidy (cs : List Chunk) : Prop where
  caret : ∀ c ∈ cs, caret ∉ c.payload
  short : cs.IsChain fun c c' => c.payload.length < hdrLen → c'.payload.length ≠ hdrLen
  dot : ∀ c ∈ cs, StrComm.dot ∉ c.payload.tail
  long : ∀ c ∈ cs, StrComm.dot ∈ c.payload → 31 ≤ c.payload.length

/-- After each timeout the reader is at a position. -/
def Clear (cs : List Chunk) (items : List Item) : Prop :=
  ∀ pre post, items = pre ++ .timeout :: post → ∃ rest, Position cs rest (Line.erase post)

theorem Clear.suffix {cs : List Chunk} {items items' : List Item} (h : Clear cs items)
    (hsuffix : items' <:+ items) : Clear cs items' := by
  obtain ⟨x, rfl⟩ := hsuffix
  intro pre post heq
  exact h (x ++ pre) post (by rw [heq, List.append_assoc])

/-- The shared buffer has `v` and the payloads of `e`, and the frames of `rest`
are still to come. -/
structure Behind (cs : List Chunk) (v : Bytes) (e rest : List Chunk) (io : ChunkIo TerminalComm) :
    Prop where
  suffix : e ++ rest <:+ cs
  unread : io.sharedio.unread = v ++ payloads e
  position : Position cs rest (Line.erase io.line.line.stream)
  clear : Clear cs io.line.line.stream

def size (io : ChunkIo TerminalComm) : Nat :=
  io.sharedio.unread.length + io.line.line.stream.length

/-- What a reader does to the terminal: it takes from the stream. -/
structure Passed (io io' : ChunkIo TerminalComm) : Prop where
  acks : io'.line.acks = io.line.acks
  clock : io'.line.clock = io.line.clock
  ticks : io'.line.ticks = io.line.ticks
  timeout : io'.line.timeout = io.line.timeout
  suffix : io'.line.line.stream <:+ io.line.line.stream
  size_le : size io' ≤ size io

theorem Passed.trans {io₁ io₂ io₃ : ChunkIo TerminalComm} (h : Passed io₁ io₂)
    (h' : Passed io₂ io₃) : Passed io₁ io₃ where
  acks := h'.acks.trans h.acks
  clock := h'.clock.trans h.clock
  ticks := h'.ticks.trans h.ticks
  timeout := h'.timeout.trans h.timeout
  suffix := h'.suffix.trans h.suffix
  size_le := h'.size_le.trans h.size_le

/-- What a reader that returns does: nor does it wait for a timeout. -/
structure Took (io io' : ChunkIo TerminalComm) : Prop extends Passed io io' where
  waited : io'.line.waited = io.line.waited

theorem Took.trans {io₁ io₂ io₃ : ChunkIo TerminalComm} (h : Took io₁ io₂) (h' : Took io₂ io₃) :
    Took io₁ io₃ where
  toPassed := h.toPassed.trans h'.toPassed
  waited := h'.waited.trans h.waited

/-- The stream got shorter. -/
def Shorter (io io' : ChunkIo TerminalComm) : Prop :=
  io'.line.line.stream.length < io.line.line.stream.length

/-- The stream was at its end, and a read waited for the timeout. -/
def Waited (io io' : ChunkIo TerminalComm) : Prop :=
  io.line.line.stream = [] ∧ io'.line.line.stream = [] ∧
    io'.line.waited = io.line.waited + io.line.timeout

/-- A read that raised `x`, and left `v` in the shared buffer. -/
structure Broken (cs : List Chunk) (v : Bytes) (io io' : ChunkIo TerminalComm) (x : Exc) :
    Prop where
  behind : ∃ kept rest, Behind cs v kept rest io'
  passed : Passed io io'
  cause : x = .timeout ∧ (Shorter io io' ∨ Waited io io') ∨
    (∃ buffer, x = .bufferError buffer) ∧ Shorter io io'

section
variable {cs : List Chunk} {v : Bytes} {e rest : List Chunk} {fuel : Nat}
  {io io' : ChunkIo TerminalComm}

/-- The same from an earlier state. -/
theorem Broken.of_took {io₀ : ChunkIo TerminalComm} {x : Exc} (h : Broken cs v io io' x)
    (htook : Took io₀ io) : Broken cs v io₀ io' x := by
  have hle := htook.suffix.length_le
  refine ⟨h.behind, htook.toPassed.trans h.passed, ?_⟩
  rcases h.cause with ⟨rfl, hlt | ⟨hstream, hstream', hwaited⟩⟩ | ⟨hx, hlt⟩
  · exact .inl ⟨rfl, .inl (Nat.lt_of_lt_of_le hlt hle)⟩
  · by_cases hnil : io₀.line.line.stream = []
    · refine .inl ⟨rfl, .inr ⟨hnil, hstream', ?_⟩⟩
      rw [hwaited, htook.waited, htook.timeout]
    · refine .inl ⟨rfl, .inl ?_⟩
      rw [Shorter, hstream']
      exact List.length_pos_iff.mpr hnil
  · exact .inr ⟨hx, Nat.lt_of_lt_of_le hlt hle⟩

theorem TimesOut.position (h : TimesOut io io') (hclear : Clear cs io.line.line.stream) :
    (∃ rest, Position cs rest (Line.erase io'.line.line.stream)) ∧
      io'.line.line.stream <:+ io.line.line.stream := by
  obtain ⟨xs, tail, hstream, htail, hline⟩ := h
  rw [hline]
  cases tail with
  | nil => exact ⟨⟨[], .skipped (w := []) List.nil_suffix List.not_mem_nil⟩, List.nil_suffix⟩
  | cons item tail =>
    cases item with
    | byte b => cases htail
    | timeout =>
      refine ⟨hclear _ _ hstream, ?_⟩
      rw [hstream]
      exact (List.suffix_cons ..).trans (List.suffix_append ..)

theorem TimesOut.progress (h : TimesOut io io') : Shorter io io' ∨ Waited io io' := by
  obtain ⟨xs, tail, hstream, htail, hline⟩ := h
  rw [Shorter, Waited, hline, hstream]
  cases tail with
  | nil =>
    cases xs with
    | nil => exact .inr ⟨rfl, rfl, by simp [expired]⟩
    | cons x xs => exact .inl (by simp [expired, withStream])
  | cons item tail =>
    left
    simp [expired, withStream]
    omega

theorem TimesOut.passed (h : TimesOut io io') (hclear : Clear cs io.line.line.stream)
    (hsize : size io' ≤ size io) : Passed io io' := by
  have hsuffix := (h.position hclear).2
  obtain ⟨xs, tail, hstream, htail, hline⟩ := h
  exact ⟨by rw [hline]; rfl, by rw [hline]; rfl, by rw [hline]; rfl, by rw [hline]; rfl, hsuffix,
    hsize⟩

theorem frame_append_wire (c : Chunk) (rest : List Chunk) :
    wire (c :: rest) = token ++ (hdr c.id c.payload.length ++
      (token ++ (c.payload ++ (token ++ wire rest)))) := by
  rw [wire_cons, c.frame_append]

theorem noFrame_closing (hcs : Tidy cs) (hrest : rest <:+ cs) :
    NoFrame (fun y => ∃ rest', Position cs rest' y) (wire rest) := by
  cases rest with
  | nil => exact .short (by decide)
  | cons c rest =>
    have hpayload := hcs.caret c (hrest.subset (List.mem_cons_self ..))
    have hd : caret ∉ token.drop hdrLen ++ hdr c.id c.payload.length := by
      rw [List.mem_append, not_or]
      exact ⟨by decide, caret_notMem_hdr _ _⟩
    have hb : (token.take hdrLen).length = hdrLen := by decide
    have hne : token.drop hdrLen ++ hdr c.id c.payload.length ≠ [] :=
      List.append_ne_nil_of_left_ne_nil (by decide) _
    have heq : wire (c :: rest) = token.take hdrLen ++
        ((token.drop hdrLen ++ hdr c.id c.payload.length) ++
          (token ++ (c.payload ++ (token ++ wire rest)))) := by
      rw [frame_append_wire, List.append_assoc, ← List.append_assoc (token.take hdrLen),
        List.take_append_drop]
    rw [heq]
    exact .rejected hb hd hne
      ⟨rest, .closing ((List.suffix_cons ..).trans hrest) hpayload⟩

theorem noFrame_payload (hcs : Tidy cs) {c : Chunk} (hrest : c :: rest <:+ cs)
    (hne : c.payload.length ≠ hdrLen) :
    NoFrame (fun y => ∃ rest', Position cs rest' y) (c.payload ++ (token ++ wire rest)) := by
  have hpayload := hcs.caret c (hrest.subset (List.mem_cons_self ..))
  rcases Nat.lt_or_gt_of_ne hne with hlt | hgt
  · -- the eight bytes reach into the trailing token
    let k := hdrLen - c.payload.length
    have hk : 0 < k ∧ k ≤ 8 := by
      simp only [k, show hdrLen = 8 from rfl] at hlt ⊢
      omega
    have hb : (c.payload ++ token.take k).length = hdrLen := by
      rw [List.length_append, List.length_take, token_length]
      omega
    have hd : caret ∉ token.drop k := by
      refine caret_notMem_of_suffix (List.drop_suffix ..) fun heq => ?_
      have := congrArg List.length heq
      rw [List.length_drop, token_length] at this
      omega
    have hdne : token.drop k ≠ [] := by
      rw [← List.length_pos_iff, List.length_drop, token_length]
      omega
    have heq : ∀ z, c.payload ++ (token ++ z) =
        (c.payload ++ token.take k) ++ (token.drop k ++ z) := by
      intro z
      rw [List.append_assoc, ← List.append_assoc (token.take k), List.take_append_drop]
    cases rest with
    | nil =>
      rw [heq, wire_nil, List.append_nil]
      exact .silent hb hd
    | cons c' rest =>
      obtain ⟨pre, hpre⟩ := hrest
      have hchain := (hpre ▸ hcs.short).right_of_append
      rw [List.isChain_cons_cons] at hchain
      have hrest' : c' :: rest <:+ cs := ⟨pre ++ [c], by rw [← hpre, List.append_assoc]; rfl⟩
      rw [heq, frame_append_wire]
      exact .rejected hb hd hdne
        ⟨rest, .payload hrest' (caret_notMem_hdr _ _) (hchain.1 hlt)⟩
  · have hb : (c.payload.take hdrLen).length = hdrLen := by
      rw [List.length_take]
      omega
    have hd : caret ∉ c.payload.drop hdrLen := fun h => hpayload (List.drop_subset _ _ h)
    have hdne : c.payload.drop hdrLen ≠ [] := by
      rw [← List.length_pos_iff, List.length_drop]
      omega
    have heq : c.payload ++ (token ++ wire rest) =
        c.payload.take hdrLen ++ (c.payload.drop hdrLen ++ (token ++ wire rest)) := by
      rw [← List.append_assoc (c.payload.take hdrLen), List.take_append_drop]
    rw [heq]
    exact .rejected hb hd hdne
      ⟨rest, .skipped (w := []) ((List.suffix_cons ..).trans hrest) List.not_mem_nil⟩

theorem size_le_of_suffix (hline : io'.line.line.stream <:+ io.line.line.stream)
    (hsharedio : io'.sharedio = io.sharedio) : size io' ≤ size io := by
  rw [size, size, hsharedio]
  exact Nat.add_le_add_left hline.length_le _

/-- A timeout after which the shared buffer is as before. -/
theorem TimesOut.broken (h : TimesOut io io') (hsharedio : io'.sharedio = io.sharedio)
    (hbehind : Behind cs v e rest io) : Broken cs (v ++ payloads e) io io' .timeout := by
  obtain ⟨⟨rest', hposition⟩, hsuffix⟩ := h.position hbehind.clear
  refine ⟨⟨[], rest', hposition.suffix, ?_, hposition, hbehind.clear.suffix hsuffix⟩,
    h.passed hbehind.clear (size_le_of_suffix hsuffix hsharedio), .inl ⟨rfl, h.progress⟩⟩
  rw [hsharedio, hbehind.unread, payloads_nil, List.append_nil]

/-- Where no frame begins. -/
theorem broken_of_noFrame {w z : Bytes} (hw : caret ∉ w)
    (hz : NoFrame (fun y => ∃ rest', Position cs rest' y) z)
    (hnext : Line.erase io.line.line.stream = w ++ (token ++ z))
    (hfuel : io.line.line.stream.length < fuel) (hbehind : Behind cs v e rest io) :
    ∃ x io', readChunk (comm fuel) fuel io = .raised x io' ∧
      Broken cs (v ++ payloads e) io io' x := by
  rcases readChunk_noFrame hw hz hnext hfuel with ⟨io', hrun, hout, hsharedio⟩ |
    ⟨buffer, items, hrun, hsuffix, hlt, rest', hposition⟩
  · exact ⟨_, io', hrun, hout.broken hsharedio hbehind⟩
  · refine ⟨_, _, hrun, ⟨[], rest', hposition.suffix, ?_, hposition,
      hbehind.clear.suffix hsuffix⟩, ?_, .inr ⟨⟨buffer, rfl⟩, hlt⟩⟩
    · rw [hbehind.unread, payloads_nil, List.append_nil]
    · exact ⟨rfl, rfl, rfl, rfl, hsuffix, size_le_of_suffix hsuffix rfl⟩

/-- A timeout in the trailing token of a frame. -/
theorem broken_kept {c : Chunk} {w x : Bytes} {tail : List Item}
    (hstream : io.line.line.stream = Line.bytes (w ++ (c.opened ++ x)) ++ tail)
    (htail : Line.leading tail = []) (hx : x <+: token) (hne : x ≠ token)
    (hnext : Line.erase io.line.line.stream = w ++ wire (c :: rest))
    (hbehind : Behind cs v e (c :: rest) io) :
    Broken cs (v ++ payloads e) io
      ⟨io.line.expired tail, io.sharedio.write c.payload⟩ .timeout := by
  have hout : TimesOut io ⟨io.line.expired tail, io.sharedio.write c.payload⟩ :=
    ⟨_, tail, hstream, htail, rfl⟩
  obtain ⟨-, hsuffix⟩ := hout.position hbehind.clear
  have hrest : c :: rest <:+ cs := (List.suffix_append ..).trans hbehind.suffix
  obtain ⟨y, hy⟩ := hx
  have herase : Line.erase tail = y ++ wire rest := by
    rw [hstream, Line.erase_append, Line.erase_bytes, frame_append_wire] at hnext
    simp only [c.opened_append, List.append_assoc, List.append_cancel_left_eq] at hnext
    rw [← hy] at hnext
    simpa only [List.append_assoc, List.append_cancel_left_eq] using hnext
  have hyne : y ≠ [] := by
    rintro rfl
    exact hne (by rw [← hy, List.append_nil])
  have hposition : Position cs rest (Line.erase tail.tail) := by
    have htail' : Line.erase tail.tail = y ++ wire rest := by
      cases tail with
      | nil =>
        rw [← herase]
        rfl
      | cons item tail =>
        cases item with
        | byte b => cases htail
        | timeout => exact herase
    rw [htail']
    by_cases heq : y = token
    · rw [heq]
      exact .closing (w := []) ((List.suffix_cons ..).trans hrest) List.not_mem_nil
    · exact .skipped ((List.suffix_cons ..).trans hrest)
        (caret_notMem_of_suffix ⟨x, hy⟩ heq)
  refine ⟨⟨[c], rest, hrest, ?_, hposition, hbehind.clear.suffix hsuffix⟩,
    hout.passed hbehind.clear ?_, .inl ⟨rfl, hout.progress⟩⟩
  · rw [SharedBytesIo.unread_write, hbehind.unread, payloads_cons, payloads_nil, List.append_nil]
  · have hlen := hout.progress
    simp only [size, SharedBytesIo.unread_write, List.length_append, expired, withStream, hstream,
      Line.length_bytes, c.length_opened, List.length_tail]
    omega

/-- After skipped bytes the reader takes the next frame whole, or a timeout
stops it. -/
theorem readChunk_skipped {w : Bytes} (hw : caret ∉ w)
    (hnext : Line.erase io.line.line.stream = w ++ wire rest)
    (hfuel : io.line.line.stream.length < fuel) (hbehind : Behind cs v e rest io) :
    (∃ c rest' io', rest = c :: rest' ∧ readChunk (comm fuel) fuel io = .ret () io' ∧
        Behind cs v (e ++ [c]) rest' io' ∧ Took io io' ∧ Shorter io io') ∨
      ∃ x io', readChunk (comm fuel) fuel io = .raised x io' ∧
        Broken cs (v ++ payloads e) io io' x := by
  obtain ⟨xs, tail, hstream, htail⟩ := Line.exists_leading io.line.line.stream
  have hstops := comm_timeout io.line htail fuel fuel
  have hR : ∀ xs t, Next io.line tail fuel xs t → xs.length < fuel := fun _ _ h => h.length_lt
  have hself := next_self hstream hfuel
  have hsplit : xs ++ Line.erase tail = w ++ wire rest := by
    rw [← hnext, hstream, Line.erase_append, Line.erase_bytes]
  have hsilent : caret ∉ xs → ∃ x io', readChunk (comm fuel) fuel io = .raised x io' ∧
      Broken cs (v ++ payloads e) io io' x := by
    intro hxs
    have hout : TimesOut io ⟨io.line.expired tail, io.sharedio⟩ := ⟨xs, tail, hstream, htail, rfl⟩
    exact ⟨_, _, readChunk_stops hstops hR (noGap_of_caret hxs) hself, hout.broken rfl hbehind⟩
  cases rest with
  | nil =>
    rw [wire_nil, List.append_nil] at hsplit
    exact .inr (hsilent fun h => hw (hsplit ▸ List.mem_append_left _ h))
  | cons c rest =>
    have hxs : xs <+: w ++ (c.frame ++ wire rest) := ⟨_, hsplit⟩
    rcases prefix_append_cases hxs with ⟨hx, -⟩ | ⟨z, rfl, hz⟩
    · exact .inr (hsilent fun h => hw (hx.subset h))
    rcases prefix_append_cases hz with ⟨hz, hne⟩ | ⟨y, rfl, -⟩
    · obtain ⟨sharedio, hrun, rfl | ⟨rfl, x, rfl, hx, hxne⟩⟩ :=
        readChunk_partial hstops hR (noGap_of_caret hw) c hz hne hself
      · have hout : TimesOut io ⟨io.line.expired tail, io.sharedio⟩ :=
          ⟨w ++ z, tail, hstream, htail, rfl⟩
        exact .inr ⟨_, _, hrun, hout.broken rfl hbehind⟩
      · exact .inr ⟨_, _, hrun, broken_kept hstream htail hx hxne hnext hbehind⟩
    · obtain ⟨t, hrun, written, rfl, -⟩ := readChunk_frame (comm_serves io.line tail fuel fuel)
        (fun _ _ h => h.length_lt) (noGap_of_caret hw) c (nextWritten_self hstream hfuel)
      have hrest : c :: rest <:+ cs := (List.suffix_append ..).trans hbehind.suffix
      have hafter : Line.bytes y ++ tail <:+ io.line.line.stream := by
        rw [hstream]
        simp only [Line.bytes_append, List.append_assoc]
        exact (List.suffix_append ..).trans (List.suffix_append ..)
      have herase : Line.erase (Line.bytes y ++ tail) = [] ++ wire rest := by
        rw [wire_cons] at hsplit
        simp only [List.append_assoc, List.append_cancel_left_eq] at hsplit
        rw [Line.erase_append, Line.erase_bytes, hsplit, List.nil_append]
      refine .inl ⟨c, rest, _, rfl, hrun, ⟨?_, ?_, ?_, hbehind.clear.suffix hafter⟩,
        ⟨⟨rfl, rfl, rfl, rfl, hafter, ?_⟩, rfl⟩, ?_⟩
      · rw [List.append_assoc]
        exact hbehind.suffix
      · rw [SharedBytesIo.unread_write, hbehind.unread, payloads_append, payloads_cons,
          payloads_nil, List.append_nil, List.append_assoc]
      · exact herase ▸ .skipped ((List.suffix_cons ..).trans hrest) List.not_mem_nil
      · have hlen := c.length_frame
        simp only [size, SharedBytesIo.unread_write, List.length_append, withStream, hstream,
          Line.length_bytes]
        omega
      · have hlen := c.length_frame
        simp only [Shorter, withStream, hstream, List.length_append, Line.length_bytes]
        omega

/-- **One chunk.**  Wherever the reader is, it takes the next frame whole, or it
raises a timeout or a `ChunkReaderError` and is somewhere else. -/
theorem readChunk_behind (hcs : Tidy cs) (hfuel : io.line.line.stream.length < fuel)
    (h : Behind cs v e rest io) :
    (∃ c rest' io', rest = c :: rest' ∧ readChunk (comm fuel) fuel io = .ret () io' ∧
        Behind cs v (e ++ [c]) rest' io' ∧ Took io io' ∧ Shorter io io') ∨
      ∃ x io', readChunk (comm fuel) fuel io = .raised x io' ∧
        Broken cs (v ++ payloads e) io io' x := by
  generalize hy : Line.erase io.line.line.stream = y
  have hposition := h.position
  rw [hy] at hposition
  cases hposition with
  | skipped _ hw => exact readChunk_skipped hw hy hfuel h
  | closing hrest hw => exact .inr (broken_of_noFrame hw (noFrame_closing hcs hrest) hy hfuel h)
  | payload hrest hw hne =>
    exact .inr (broken_of_noFrame hw (noFrame_payload hcs hrest hne) hy hfuel h)

/-! ## Bytes from the chunks -/

/-- What is left of the bytes after a read begins in a chunk, but not with it. -/
theorem drop_payloads {e : List Chunk} (he : ∀ c ∈ e, StrComm.dot ∉ c.payload.tail) {v : Bytes}
    (hv : StrComm.dot ∉ v) (k : Nat) :
    ∃ v' e', (v ++ payloads e).drop k = v' ++ payloads e' ∧ e' <:+ e ∧ StrComm.dot ∉ v' := by
  induction e generalizing v k with
  | nil =>
    refine ⟨v.drop k, [], ?_, List.suffix_rfl, fun h => hv (List.drop_subset _ _ h)⟩
    rw [payloads_nil, List.append_nil, List.append_nil]
  | cons c e ih =>
    rcases Nat.lt_or_ge v.length k with hlt | hge
    · obtain ⟨k, rfl⟩ : ∃ j, k = v.length + 1 + j := ⟨k - v.length - 1, by omega⟩
      obtain ⟨v', e', hdrop, he', hv'⟩ := ih (fun c hc => he c (List.mem_cons_of_mem _ hc))
        (he c (List.mem_cons_self ..)) k
      refine ⟨v', e', ?_, he'.trans (List.suffix_cons ..), hv'⟩
      obtain ⟨b, q, hq⟩ := List.exists_cons_of_ne_nil c.payload_ne
      rw [← hdrop, payloads_cons, hq, Nat.add_assoc, ← List.drop_drop, List.drop_left,
        Nat.add_comm, List.cons_append, List.drop_succ_cons, List.tail_cons]
    · exact ⟨v.drop k, c :: e, by rw [List.drop_append_of_le_length hge], List.suffix_rfl,
        fun h => hv (List.drop_subset _ _ h)⟩

/-- The bytes `xs` come next, if no read raises before. -/
def Ahead (cs : List Chunk) (fuel : Nat) (io₀ : ChunkIo TerminalComm) (xs : Bytes)
    (io : ChunkIo TerminalComm) : Prop :=
  ∃ v e rest, StrComm.dot ∉ v ∧ Behind cs v e rest io ∧ xs = v ++ payloads (e ++ rest) ∧
    io.line.line.stream.length < fuel ∧ Took io₀ io

/-- The loop of `read_until_size` reads `e₂` at the most, as many as it needs. -/
theorem readLoop_behind (hcs : Tidy cs) (hfuel : io.line.line.stream.length < fuel) (n loops : Nat)
    (hloops : io.line.line.stream.length < loops) (h : Behind cs v e rest io) :
    (∃ e₂ rest₂ io', e ++ rest = e₂ ++ rest₂ ∧ n ≤ (v ++ payloads e₂).length ∧
        readLoop (comm fuel) fuel loops n io = .ret ((v ++ payloads e₂).take n) io' ∧
        io'.sharedio.unread = (v ++ payloads e₂).drop n ∧
        Position cs rest₂ (Line.erase io'.line.line.stream) ∧ Took io io' ∧
        size io' + n ≤ size io) ∨
      ∃ x io' e₂, e₂ <+: e ++ rest ∧ (v ++ payloads e₂).length < n ∧
        readLoop (comm fuel) fuel loops n io = .raised x io' ∧
        Broken cs (v ++ payloads e₂) io io' x := by
  induction loops generalizing e rest io with
  | zero => omega
  | succ loops ih =>
    rcases Nat.lt_or_ge io.sharedio.unread.length n with hlt | hge
    · rw [readLoop_more hlt]
      rcases readChunk_behind hcs hfuel h with
        ⟨c, rest, io₁, rfl, hrun, h₁, htook, hshorter⟩ | ⟨x, io', hrun, hbroken⟩
      · rw [Prog.bind_ret hrun]
        have hlen : io₁.line.line.stream.length < io.line.line.stream.length := hshorter
        rcases ih (by omega) (by omega) h₁ with
          ⟨e₂, rest₂, io', heq, hn, hret, hunread, hposition, htook', hsize⟩ |
          ⟨x, io', e₂, heq, hn, hraised, hbroken⟩
        · refine .inl ⟨e₂, rest₂, io', ?_, hn, hret, hunread, hposition, htook.trans htook',
            hsize.trans htook.size_le⟩
          rw [← heq, List.append_assoc]
          rfl
        · refine .inr ⟨x, io', e₂, ?_, hn, hraised, hbroken.of_took htook⟩
          rw [List.append_assoc] at heq
          exact heq
      · refine .inr ⟨x, io', e, List.prefix_append .., ?_, Prog.bind_raised hrun, hbroken⟩
        rw [← h.unread]
        exact hlt
    · have hunread : (io.sharedio.read n).2.unread = (v ++ payloads e).drop n := by
        rw [SharedBytesIo.unread_read, if_neg (by omega), Int.toNat_natCast, h.unread]
      have hsize : size ⟨io.line, (io.sharedio.read n).2⟩ + n ≤ size io := by
        simp only [size, hunread, ← h.unread, List.length_drop]
        omega
      exact .inl ⟨e, rest, ⟨io.line, (io.sharedio.read n).2⟩, rfl, by rw [← h.unread]; exact hge,
        by rw [readLoop_enough hge, h.unread], hunread, h.position,
        ⟨⟨rfl, rfl, rfl, rfl, List.suffix_rfl, (Nat.le_add_right ..).trans hsize⟩, rfl⟩, hsize⟩

/-- **Bytes.**  `read_until_size` returns the next bytes, or it raises before
they are all there. -/
theorem readUntilSize_ahead (hcs : Tidy cs) {io₀ : ChunkIo TerminalComm} {xs : Bytes}
    (n : Nat) (h : Ahead cs fuel io₀ xs io) :
    (n ≤ xs.length ∧ ∃ io', readUntilSize (comm fuel) fuel n io = .ret (xs.take n) io' ∧
        Ahead cs fuel io₀ (xs.drop n) io' ∧ size io' + n ≤ size io) ∨
      ∃ x io' u, readUntilSize (comm fuel) fuel n io = .raised x io' ∧ u <+: xs ∧ u.length < n ∧
        (n ≤ 31 → StrComm.dot ∉ u) ∧ Broken cs u io₀ io' x := by
  obtain ⟨v, e, rest, hv, hbehind, rfl, hfuel, htook⟩ := h
  rcases readLoop_behind hcs hfuel n fuel hfuel hbehind with
    ⟨e₂, rest₂, io', heq, hn, hret, hunread, hposition, htook', hsize⟩ |
    ⟨x, io', e₂, heq, hn, hraised, hbroken⟩
  · have hsuffix : e₂ ++ rest₂ <:+ cs := heq ▸ hbehind.suffix
    obtain ⟨v', e', hdrop, he', hv'⟩ := drop_payloads (e := e₂) (v := v)
      (fun c hc => hcs.dot c (hsuffix.subset (List.mem_append_left _ hc))) hv n
    obtain ⟨p, rfl⟩ := he'
    rw [heq, payloads_append, ← List.append_assoc]
    refine .inl ⟨?_, io', ?_, ⟨v', e', rest₂, hv', ⟨?_, ?_, hposition, ?_⟩, ?_, ?_,
      htook.trans htook'⟩, hsize⟩
    · rw [List.length_append]
      omega
    · rw [List.take_append_of_le_length hn]
      exact hret
    · rw [List.append_assoc] at hsuffix
      exact (List.suffix_append ..).trans hsuffix
    · rw [hunread, hdrop]
    · exact hbehind.clear.suffix htook'.suffix
    · rw [List.drop_append_of_le_length hn, hdrop, payloads_append, List.append_assoc]
    · exact htook'.suffix.length_le.trans_lt hfuel
  · refine .inr ⟨x, io', v ++ payloads e₂, hraised, ?_, hn, fun hle hdot => ?_,
      hbroken.of_took htook⟩
    · obtain ⟨p, hp⟩ := heq
      rw [← hp, payloads_append, ← List.append_assoc]
      exact List.prefix_append ..
    · rcases List.mem_append.mp hdot with hdot | hdot
      · exact hv hdot
      · -- the chunk with the token is longer than the read
        obtain ⟨c, hc, hdot⟩ := List.mem_flatMap.mp hdot
        have hmem : c ∈ cs := hbehind.suffix.subset (heq.subset hc)
        have hlong := hcs.long c hmem hdot
        have hle' : c.payload.length ≤ (payloads e₂).length := by
          obtain ⟨p, q, rfl⟩ := List.append_of_mem hc
          rw [payloads_append, payloads_cons, List.length_append, List.length_append]
          omega
        rw [List.length_append] at hn
        omega

end

end InteractiveSessions.LostFrames
