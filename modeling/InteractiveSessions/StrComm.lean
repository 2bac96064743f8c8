import InteractiveSessions.ChunkErrors

/-!
# `StrComm`: strings with a token and a length over the chunk layer

`write_str` sends `token + '{:011}'.format(len(s)) + s` through the chunk
writer.  `read_str` searches the token in the bytes of the chunk reader and
starts again whenever a chunk or a length cannot be read.
-/

namespace InteractiveSessions.StrComm

open ChunkComm GapToken

def token : Bytes := ascii ".;-jJ(8[)OwQaKsF=&Pu"

def lenWidth : Nat := 11

/-- What `write_str(s)` passes to the chunk writer. -/
def encode (s : Bytes) : Bytes := token ++ Decimal.format lenWidth s.length ++ s

section
variable {τ : Type}

def writeStr (C : Comm τ) (s : Bytes) : Prog Exc (ChunkIo τ) Unit := onLine (write C (encode s))

/-- The token reader on top of `read_until_size`. -/
def readUntilToken (C : Comm τ) (fuel : Nat) : Prog Exc (ChunkIo τ) Bytes :=
  TokenReader.readUntilToken fuel token fun n => readUntilSize C fuel n

/-- `_get_read_len` -/
def getReadLen (C : Comm τ) (fuel : Nat) : Prog Exc (ChunkIo τ) Int := do
  let lenStr ← readUntilSize C fuel lenWidth
  match Decimal.parseInt lenStr with
  | some n => pure n
  | none => Prog.raise .strCommReadError

/-- The body of the loop of `read_str`. -/
def tryReadStr (C : Comm τ) (fuel : Nat) : Prog Exc (ChunkIo τ) Bytes := do
  let _ ← readUntilToken C fuel
  let n ← getReadLen C fuel
  readUntilSize C fuel n

/-- The loop of `read_str`: `StrCommReadError` and `ChunkReaderError` start it
again, other exceptions leave it. -/
def readStrLoop (C : Comm τ) (loops : Nat) : Nat → Prog Exc (ChunkIo τ) Bytes
  | 0 => Prog.hang
  | fuel + 1 => Prog.tryExcept (tryReadStr C loops) fun e =>
    if e = .strCommReadError || e.isChunkReaderError then some (readStrLoop C loops fuel) else none

def readStr (C : Comm τ) (fuel : Nat) : Prog Exc (ChunkIo τ) Bytes := readStrLoop C fuel fuel

/-- Successive calls of `write_str`. -/
def writeStrs (C : Comm τ) : List Bytes → Prog Exc (ChunkIo τ) Unit
  | [] => pure ()
  | s :: ss => do
    writeStr C s
    writeStrs C ss

/-- `k` successive calls of `read_str`. -/
def readStrs (C : Comm τ) (fuel : Nat) : Nat → Prog Exc (ChunkIo τ) (List Bytes)
  | 0 => pure []
  | k + 1 => do
    let s ← readStr C fuel
    let ss ← readStrs C fuel k
    pure (s :: ss)

/-- The strings that at most `k` calls of `read_str` return, one after the other
and also after a call that raised. -/
def returned (C : Comm τ) (fuel : Nat) : Nat → ChunkIo τ → List Bytes
  | 0, _ => []
  | k + 1, io =>
    match readStr C fuel io with
    | .ret s io' => s :: returned C fuel k io'
    | .raised _ io' => returned C fuel k io'
    | .hang => []

end

section
variable {τ : Type} {C : Comm τ} {fuel k : Nat} {io io' : ChunkIo τ}

theorem returned_ret {s : Bytes} (h : readStr C fuel io = .ret s io') :
    returned C fuel (k + 1) io = s :: returned C fuel k io' := by
  rw [returned, h]

theorem returned_hang (h : readStr C fuel io = .hang) : returned C fuel k io = [] := by
  cases k with
  | zero => rfl
  | succ k => rw [returned, h]

end

/-! ## More fuel changes no result -/

section
variable {τ : Type} (C : Comm τ) {fuel fuel' : Nat}

theorem tryReadStr_mono (hle : fuel ≤ fuel') : tryReadStr C fuel ≤ tryReadStr C fuel' := by
  refine Prog.bind_mono
    (TokenReader.readUntilToken_mono (fun n => readUntilSize_mono C hle n) hle) fun _ =>
    Prog.bind_mono ?_ fun n => readUntilSize_mono C hle n
  exact Prog.bind_mono (readUntilSize_mono C hle _) fun _ => Prog.le_refl _

theorem readStrLoop_mono (hle : fuel ≤ fuel') {loops loops' : Nat} (hloops : loops ≤ loops') :
    readStrLoop C fuel loops ≤ readStrLoop C fuel' loops' := by
  induction loops generalizing loops' with
  | zero => exact Prog.hang_le _
  | succ loops ih =>
    obtain ⟨loops', rfl⟩ : ∃ n, loops' = n + 1 := ⟨loops' - 1, by omega⟩
    refine Prog.tryExcept_mono (tryReadStr_mono C hle) fun e => ?_
    by_cases he : e = .strCommReadError || e.isChunkReaderError
    · simp only [he, ↓reduceIte]
      exact .inr ⟨_, _, rfl, rfl, ih (by omega)⟩
    · simp [he]

theorem readStr_mono (hle : fuel ≤ fuel') : readStr C fuel ≤ readStr C fuel' :=
  readStrLoop_mono C hle hle

end

/-! ## The string layer over a byte queue -/

theorem token_nodup : token.Nodup := by decide

theorem token_length : token.length = 20 := by decide

/-- The first byte of the token. -/
def dot : Byte := 46

theorem dot_mem_token : dot ∈ token := by decide

theorem token_ne_nil : token ≠ [] := by decide

/-- A text without the first byte of the token has no gap occurrence of it. -/
theorem noGap_of_dot {w : Bytes} (hw : dot ∉ w) : NoGap token w :=
  GapToken.noGap_of_notMem dot_mem_token hw

theorem noGap_nil : NoGap token [] := noGap_of_dot List.not_mem_nil

theorem encode_ne_nil (s : Bytes) : encode s ≠ [] := by
  rw [encode, List.append_assoc]
  exact List.append_ne_nil_of_left_ne_nil token_ne_nil _

theorem notMem_field {c : Byte} {w s : Bytes} (hw : c ∉ w) (hc : ¬ (48 ≤ c.toNat ∧ c.toNat ≤ 57))
    (hs : c ∉ s) (width n : Nat) : c ∉ w ++ Decimal.format width n ++ s := by
  simp only [List.mem_append, not_or]
  exact ⟨⟨hw, fun h => hc (Decimal.mem_format h)⟩, hs⟩

theorem caret_notMem_encode {s : Bytes} (hs : caret ∉ s) : caret ∉ encode s :=
  notMem_field (c := caret) (w := token) (by decide) (by decide) hs lenWidth s.length

/-- The token begins only where the string does. -/
theorem dot_notMem_tail_encode {s : Bytes} (hs : dot ∉ s) : dot ∉ (encode s).tail :=
  notMem_field (c := dot) (w := token.tail) (by decide) (by decide) hs lenWidth s.length

theorem chunksOf_encode_ne_nil (s : Bytes) : chunksOf (encode s) ≠ [] := by
  intro h
  have hp := payloads_chunksOf (encode s)
  rw [h, payloads_nil] at hp
  exact encode_ne_nil s hp.symm

theorem length_encode {s : Bytes} (h : s.length < 10 ^ lenWidth) :
    (encode s).length = s.length + 31 := by
  rw [encode, List.length_append, List.length_append, token_length, Decimal.format_length h,
    lenWidth]
  omega

/-- Bytes from which no string is read: they have no gap occurrence of the
token, or after it eleven bytes that are no length, and so on. -/
inductive Silent : Bytes → Prop
  | noToken {x} : NoGap token x → Silent x
  | badLen {p l x} : Shortest token p → l.length = lenWidth → Decimal.parseInt l = none →
      Silent x → Silent (p ++ (l ++ x))

section
variable {τ : Type} {C : Comm τ} {R : Bytes → τ → Prop} {fuel bound : Nat}
  (hC : C.Serves R) (hR : ∀ xs s, R xs s → xs.length < fuel) (hb : bound ≤ fuel)
include hC hR hb

theorem readUntilToken_skip {w rest : Bytes} (hw : NoGap token w) {io : ChunkIo τ}
    (h : Queue R bound (w ++ (token ++ rest)) io) :
    ∃ io', readUntilToken C fuel io = .ret w io' ∧ Queue R bound rest io' := by
  have hlen := h.length_lt
  simp only [List.length_append] at hlen
  exact TokenReader.readUntilToken_append token_nodup token_ne_nil (readUntilSize_queue hC hR hb)
    hw (by omega) h

theorem getReadLen_format {n : Nat} (hn : n < 10 ^ lenWidth) {rest : Bytes} {io : ChunkIo τ}
    (h : Queue R bound (Decimal.format lenWidth n ++ rest) io) :
    ∃ io', getReadLen C fuel io = .ret (n : Int) io' ∧ Queue R bound rest io' := by
  obtain ⟨io', hrun, hio'⟩ := readUntilSize_queue hC hR hb _ _ io h
  rw [Decimal.format_length hn] at hrun
  refine ⟨io', ?_, hio'⟩
  rw [getReadLen, Prog.bind_ret hrun, Decimal.parseInt_format (by decide) hn]
  rfl

theorem tryReadStr_encode {w s rest : Bytes} (hw : NoGap token w) (hs : s.length < 10 ^ lenWidth)
    {io : ChunkIo τ} (h : Queue R bound (w ++ (encode s ++ rest)) io) :
    ∃ io', tryReadStr C fuel io = .ret s io' ∧ Queue R bound rest io' := by
  rw [encode, List.append_assoc, List.append_assoc] at h
  obtain ⟨io₁, hrun₁, h₁⟩ := readUntilToken_skip hC hR hb hw h
  obtain ⟨io₂, hrun₂, h₂⟩ := getReadLen_format hC hR hb hs h₁
  obtain ⟨io₃, hrun₃, h₃⟩ := readUntilSize_queue hC hR hb _ _ io₂ h₂
  exact ⟨io₃, by rw [tryReadStr, Prog.bind_ret hrun₁, Prog.bind_ret hrun₂, hrun₃], h₃⟩

theorem tryReadStr_badLen {p l rest : Bytes} (hp : Shortest token p) (hl : l.length = lenWidth)
    (hnum : Decimal.parseInt l = none) {io : ChunkIo τ} (h : Queue R bound (p ++ (l ++ rest)) io) :
    ∃ io', tryReadStr C fuel io = .raised .strCommReadError io' ∧ Queue R bound rest io' := by
  have hlen := h.length_lt
  rw [List.length_append] at hlen
  have hread : ∃ u io₁, readUntilToken C fuel io = .ret u io₁ ∧ Queue R bound (l ++ rest) io₁ ∧
      TokenReader.Returned token p u :=
    TokenReader.readUntilToken_shortest token_nodup token_ne_nil (readUntilSize_queue hC hR hb) hp
      (by omega) h
  obtain ⟨u, io₁, hrun₁, h₁, -⟩ := hread
  obtain ⟨io₂, hrun₂, h₂⟩ := readUntilSize_queue hC hR hb _ _ io₁ h₁
  rw [hl] at hrun₂
  have hlenErr : getReadLen C fuel io₁ = .raised .strCommReadError io₂ := by
    rw [getReadLen, Prog.bind_ret hrun₂, hnum]
    rfl
  exact ⟨io₂, by rw [tryReadStr, Prog.bind_ret hrun₁, Prog.bind_raised hlenErr], h₂⟩

/-- After silent bytes `read_str` reads back what `write_str` encoded. -/
theorem readStrLoop_silent {x : Bytes} (hx : Silent x) {s rest : Bytes}
    (hs : s.length < 10 ^ lenWidth) (loops : Nat) (hloops : x.length < loops) {io : ChunkIo τ}
    (h : Queue R bound (x ++ (encode s ++ rest)) io) :
    ∃ io', readStrLoop C fuel loops io = .ret s io' ∧ Queue R bound rest io' := by
  induction hx generalizing loops io with
  | noToken hw =>
    obtain ⟨loops, rfl⟩ : ∃ n, loops = n + 1 := ⟨loops - 1, by omega⟩
    obtain ⟨io', hrun, hio'⟩ := tryReadStr_encode hC hR hb hw hs h
    exact ⟨io', by rw [readStrLoop, Prog.tryExcept_ret hrun], hio'⟩
  | badLen hp hl hnum _ ih =>
    obtain ⟨loops, rfl⟩ : ∃ n, loops = n + 1 := ⟨loops - 1, by omega⟩
    rw [List.append_assoc, List.append_assoc] at h
    obtain ⟨io₁, hrun, hio₁⟩ := tryReadStr_badLen hC hR hb hp hl hnum h
    simp only [List.length_append, hl, lenWidth] at hloops
    rw [readStrLoop, Prog.tryExcept_caught hrun rfl]
    exact ih loops (by omega) hio₁

/-- **`read_str` reads back what `write_str` encoded**, after bytes without
a gap occurrence of the token. -/
theorem readStr_encode {w s rest : Bytes} (hw : NoGap token w) (hs : s.length < 10 ^ lenWidth)
    {io : ChunkIo τ} (h : Queue R bound (w ++ (encode s ++ rest)) io) :
    ∃ io', readStr C fuel io = .ret s io' ∧ Queue R bound rest io' := by
  have hlen := h.length_lt
  rw [List.length_append] at hlen
  exact readStrLoop_silent hC hR hb (.noToken hw) hs fuel (by omega) h

theorem readStrs_encode {ss : List Bytes} (hss : ∀ s ∈ ss, s.length < 10 ^ lenWidth)
    {rest : Bytes} {io : ChunkIo τ} (h : Queue R bound (ss.flatMap encode ++ rest) io) :
    ∃ io', readStrs C fuel ss.length io = .ret ss io' ∧ Queue R bound rest io' := by
  induction ss generalizing io with
  | nil => exact ⟨io, rfl, by simpa using h⟩
  | cons s ss ih =>
    rw [List.flatMap_cons, List.append_assoc] at h
    obtain ⟨io₁, hrun₁, h₁⟩ := readStr_encode hC hR hb (w := []) noGap_nil
      (hss s (List.mem_cons_self ..)) h
    obtain ⟨io₂, hrun₂, h₂⟩ := ih (fun x hx => hss x (List.mem_cons_of_mem _ hx)) h₁
    refine ⟨io₂, ?_, h₂⟩
    rw [List.length_cons, readStrs, Prog.bind_ret hrun₁, Prog.bind_ret hrun₂]
    rfl

/-- A read of more than the queue holds waits. -/
theorem readUntilSize_hang
    (hend : ∀ io : ChunkIo τ, R [] io.line → readChunk C fuel io = .hang) {n : Nat}
    {xs : Bytes} {io : ChunkIo τ} (h : Queue R bound xs io) (hn : xs.length < n) :
    readUntilSize C fuel n io = .hang := by
  obtain ⟨io₁, hio₁, -, hrun⟩ := readUntilSize_queue_end hC hR hb hn h
  exact hrun none (hend io₁ hio₁)

/-- Silent bytes and nothing after them: `read_str` waits. -/
theorem readStrLoop_hang (hend : ∀ io : ChunkIo τ, R [] io.line → readChunk C fuel io = .hang)
    {x : Bytes} (hx : Silent x) (loops : Nat) (hloops : x.length < loops) {io : ChunkIo τ}
    (h : Queue R bound x io) : readStrLoop C fuel loops io = .hang := by
  have hstop : ∀ (n : Nat) xs io, Queue R bound xs io → xs.length < n →
      readUntilSize C fuel n io = .hang :=
    fun _ _ _ hq hn => readUntilSize_hang hC hR hb hend hq hn
  induction hx generalizing loops io with
  | noToken hw =>
    obtain ⟨loops, rfl⟩ : ∃ n, loops = n + 1 := ⟨loops - 1, by omega⟩
    have hlen := h.length_lt
    have hread : readUntilToken C fuel io = .hang :=
      TokenReader.readUntilToken_stops token_nodup token_ne_nil (readUntilSize_queue hC hR hb)
        (by simp) hstop hw (by omega) h
    have htry : tryReadStr C fuel io = .hang := Prog.bind_hang hread
    rw [readStrLoop, Prog.tryExcept_hang htry]
  | badLen hp hl hnum _ ih =>
    obtain ⟨loops, rfl⟩ : ∃ n, loops = n + 1 := ⟨loops - 1, by omega⟩
    obtain ⟨io₁, hrun, hio₁⟩ := tryReadStr_badLen hC hR hb hp hl hnum h
    simp only [List.length_append, hl, lenWidth] at hloops
    rw [readStrLoop, Prog.tryExcept_caught hrun rfl]
    exact ih loops (by omega) hio₁

/-- After silent bytes `read_str` returns the next of the encoded strings, or it
waits when there is none. -/
theorem readStrLoop_strs (hend : ∀ io : ChunkIo τ, R [] io.line → readChunk C fuel io = .hang)
    {x : Bytes} (hx : Silent x) {ss : List Bytes} (hss : ∀ s ∈ ss, s.length < 10 ^ lenWidth)
    (loops : Nat) (hloops : x.length < loops) {io : ChunkIo τ}
    (h : Queue R bound (x ++ ss.flatMap encode) io) :
    readStrLoop C fuel loops io = .hang ∨ ∃ s ss' io', ss = s :: ss' ∧
      readStrLoop C fuel loops io = .ret s io' ∧ Queue R bound (ss'.flatMap encode) io' := by
  cases ss with
  | nil =>
    rw [List.flatMap_nil, List.append_nil] at h
    exact .inl (readStrLoop_hang hC hR hb hend hx loops hloops h)
  | cons s ss =>
    rw [List.flatMap_cons] at h
    obtain ⟨io', hrun, hio'⟩ := readStrLoop_silent hC hR hb hx (hss s (List.mem_cons_self ..))
      loops hloops h
    exact .inr ⟨s, ss, io', rfl, hrun, hio'⟩

/-- Over encoded strings, only those strings are returned. -/
theorem returned_strs (hend : ∀ io : ChunkIo τ, R [] io.line → readChunk C fuel io = .hang)
    {ss : List Bytes} (hss : ∀ s ∈ ss, s.length < 10 ^ lenWidth) {io : ChunkIo τ}
    (h : Queue R bound (ss.flatMap encode) io) (k : Nat) :
    ∀ s ∈ returned C fuel k io, s ∈ ss := by
  induction k generalizing ss io with
  | zero => simp [returned]
  | succ k ih =>
    have hlen := h.length_lt
    rcases readStrLoop_strs hC hR hb hend (.noToken noGap_nil) hss fuel (by simp; omega) h with
      hrun | ⟨m, ss, io', rfl, hrun, hio'⟩
    · rw [returned_hang hrun]
      simp
    · rw [returned_ret hrun]
      intro s hs
      rcases List.mem_cons.mp hs with rfl | hs
      · exact List.mem_cons_self ..
      · exact List.mem_cons_of_mem _ (ih (fun s hs => hss s (List.mem_cons_of_mem _ hs)) hio' s hs)

/-! ### Whatever the queue holds -/

omit hC in
/-- A read of a negative size takes all of the shared buffer. -/
theorem readUntilSize_neg (hfuel : 0 < fuel) {n : Int} (hn : n < 0) {xs : Bytes} {io : ChunkIo τ}
    (h : Queue R bound xs io) :
    ∃ s ys io', readUntilSize C fuel n io = .ret s io' ∧ Queue R bound ys io' ∧
      s.length + ys.length = xs.length := by
  obtain ⟨loops, rfl⟩ : ∃ k, fuel = k + 1 := ⟨fuel - 1, by omega⟩
  obtain ⟨w, cs, hw, hwcs, hs, hlen, rfl⟩ := h
  refine ⟨io.sharedio.unread, payloads cs, ⟨io.line, (io.sharedio.read n).2⟩, ?_, ?_, ?_⟩
  · rw [readUntilSize, readLoop, Prog.bind_ret (Prog.gets_run ..), SharedBytesIo.readableSize_eq,
      if_neg (by omega), sharedRead, SharedBytesIo.read_fst, if_pos hn]
  · have hunread : (io.sharedio.read n).2.unread = [] := by
      rw [SharedBytesIo.unread_read, if_pos hn]
    refine ⟨w, cs, hw, hwcs, hs, ?_, ?_⟩
    · simp only [hunread, List.length_nil]
      omega
    · simp only [hunread, List.nil_append]
  · rw [List.length_append]

section
variable (hend : ∀ io : ChunkIo τ, R [] io.line → readChunk C fuel io = .hang)
include hC hR hb hend

theorem readUntilSize_takes {n : Int} {xs : Bytes} {io : ChunkIo τ} (h : Queue R bound xs io) :
    readUntilSize C fuel n io = .hang ∨ ∃ s ys io', readUntilSize C fuel n io = .ret s io' ∧
      Queue R bound ys io' ∧ s.length + ys.length = xs.length := by
  rcases Int.lt_or_le n 0 with hneg | hpos
  · exact .inr (readUntilSize_neg hR hb (by have := h.length_lt; omega) hneg h)
  · obtain ⟨n, rfl⟩ := Int.eq_ofNat_of_zero_le hpos
    rcases Nat.lt_or_ge xs.length n with hlt | hge
    · exact .inl (readUntilSize_hang hC hR hb hend h hlt)
    · obtain ⟨io', hrun, hio'⟩ := readUntilSize_queue hC hR hb (xs.take n) (xs.drop n) io
        (by rw [List.take_append_drop]; exact h)
      rw [List.length_take, Nat.min_eq_left hge] at hrun
      refine .inr ⟨_, _, io', hrun, hio', ?_⟩
      rw [List.length_take, List.length_drop]
      omega

/-- Whatever bytes come next, a string that `read_str` returns was taken from
them, with a token and a length; otherwise it waits. -/
theorem readStrLoop_takes (loops : Nat) {xs : Bytes} {io : ChunkIo τ} (h : Queue R bound xs io) :
    readStrLoop C fuel loops io = .hang ∨ ∃ s ys io', readStrLoop C fuel loops io = .ret s io' ∧
      Queue R bound ys io' ∧ s.length + 31 + ys.length ≤ xs.length := by
  induction loops generalizing xs io with
  | zero => exact .inl rfl
  | succ loops ih =>
    have hlen := h.length_lt
    by_cases hno : NoGap token xs
    · have hstop : ∀ (n : Nat) xs io, Queue R bound xs io → xs.length < n →
          readUntilSize C fuel n io = .hang :=
        fun _ _ _ hq hn => readUntilSize_hang hC hR hb hend hq hn
      have hread : readUntilToken C fuel io = .hang :=
        TokenReader.readUntilToken_stops token_nodup token_ne_nil (readUntilSize_queue hC hR hb)
          (by simp) hstop hno (by omega) h
      have htry : tryReadStr C fuel io = .hang := Prog.bind_hang hread
      exact .inl (by rw [readStrLoop, Prog.tryExcept_hang htry])
    · obtain ⟨q, hq, hm⟩ : ∃ q, q <+: xs ∧ GapMatch token q := by
        simpa [NoGap] using hno
      obtain ⟨p, hpq, hp⟩ := exists_shortest hm
      obtain ⟨rest, rfl⟩ := hpq.trans hq
      have hlen20 := gapMatch_length hp.1
      rw [token_length] at hlen20
      rw [List.length_append] at hlen ⊢
      have hread : ∃ u io₁, readUntilToken C fuel io = .ret u io₁ ∧ Queue R bound rest io₁ ∧
          TokenReader.Returned token p u :=
        TokenReader.readUntilToken_shortest token_nodup token_ne_nil
          (readUntilSize_queue hC hR hb) hp (by omega) h
      obtain ⟨u, io₁, hrun₁, h₁, -⟩ := hread
      rcases Nat.lt_or_ge rest.length lenWidth with hlt | hge
      · have hgetLen : getReadLen C fuel io₁ = .hang :=
          Prog.bind_hang (readUntilSize_hang hC hR hb hend h₁ hlt)
        have htry : tryReadStr C fuel io = .hang := by
          rw [tryReadStr, Prog.bind_ret hrun₁, Prog.bind_hang hgetLen]
        exact .inl (by rw [readStrLoop, Prog.tryExcept_hang htry])
      · obtain ⟨l, ys, rfl, hl⟩ : ∃ l ys, rest = l ++ ys ∧ l.length = lenWidth :=
          ⟨rest.take lenWidth, rest.drop lenWidth, (List.take_append_drop ..).symm,
            by rw [List.length_take, Nat.min_eq_left hge]⟩
        rw [List.length_append, hl, lenWidth]
        obtain ⟨io₂, hrun₂, h₂⟩ := readUntilSize_queue hC hR hb _ _ io₁ h₁
        rw [hl] at hrun₂
        cases hnum : Decimal.parseInt l with
        | none =>
          -- not a number: the loop goes on with what is left
          obtain ⟨io', hrun, hio'⟩ := tryReadStr_badLen hC hR hb hp hl hnum h
          rw [readStrLoop, Prog.tryExcept_caught hrun rfl]
          rcases ih hio' with hhang | ⟨s, zs, io₃, hret, hio₃, hle⟩
          · exact .inl hhang
          · exact .inr ⟨s, zs, io₃, hret, hio₃, by omega⟩
        | some n =>
          have hgetLen : getReadLen C fuel io₁ = .ret n io₂ := by
            rw [getReadLen, Prog.bind_ret hrun₂, hnum]
            rfl
          have htry : tryReadStr C fuel io = readUntilSize C fuel n io₂ := by
            rw [tryReadStr, Prog.bind_ret hrun₁, Prog.bind_ret hgetLen]
          rcases readUntilSize_takes hC hR hb hend h₂ with hhang | ⟨s, zs, io₃, hret, hio₃, hle⟩
          · exact .inl (by rw [readStrLoop, Prog.tryExcept_hang (htry.trans hhang)])
          · exact .inr ⟨s, zs, io₃, by rw [readStrLoop, Prog.tryExcept_ret (htry.trans hret)],
              hio₃, by omega⟩

/-- A string that is returned fits, with its token and its length, in the bytes
that come next. -/
theorem length_of_returned {xs : Bytes} {io : ChunkIo τ} (h : Queue R bound xs io) (k : Nat) :
    ∀ s ∈ returned C fuel k io, s.length + 31 ≤ xs.length := by
  induction k generalizing xs io with
  | zero => simp [returned]
  | succ k ih =>
    rcases readStrLoop_takes hC hR hb hend fuel h with hhang | ⟨s, ys, io', hret, hio', hle⟩
    · rw [returned_hang hhang]
      simp
    · rw [returned_ret hret]
      intro t ht
      rcases List.mem_cons.mp ht with rfl | ht
      · omega
      · have := ih hio' t ht
        omega

end

end

section
variable {τ : Type} {C : Comm τ} {fuel : Nat}

/-- When the first chunk of a string cannot be read, neither can the string. -/
theorem tryReadStr_stopped (hfuel : 0 < fuel) {io : ChunkIo τ} {o : Option (Exc × ChunkIo τ)}
    (hio : io.sharedio.unread.length < 20) (h : readChunk C fuel io = Prog.stopped o) :
    tryReadStr C fuel io = Prog.stopped o := by
  have hread : readUntilSize C fuel token.length io = Prog.stopped o :=
    readUntilSize_stopped hfuel hio h
  exact Prog.bind_stopped (TokenReader.readUntilToken_first token_ne_nil hfuel hread)

/-- The chunks that `write_str` sends for each string. -/
def chunksOfStrs (ss : List Bytes) : List Chunk := ss.flatMap fun s => chunksOf (encode s)

theorem payloads_chunksOfStrs (ss : List Bytes) :
    payloads (chunksOfStrs ss) = ss.flatMap encode := by
  induction ss with
  | nil => rfl
  | cons s ss ih =>
    rw [chunksOfStrs, List.flatMap_cons, payloads_append, payloads_chunksOf, List.flatMap_cons]
    exact congrArg _ ih

theorem writeStrs_wire {W : Bytes → τ → Prop} (h : C.Records W) (ss : List Bytes) (xs : Bytes)
    (io : ChunkIo τ) (ht : W xs io.line) :
    ∃ io', writeStrs C ss io = .ret () io' ∧ W (xs ++ wire (chunksOfStrs ss)) io'.line := by
  induction ss generalizing xs io with
  | nil => exact ⟨io, rfl, by simpa [chunksOfStrs] using ht⟩
  | cons s ss ih =>
    obtain ⟨t₁, hrun₁, ht₁⟩ := write_wire h (encode s) ht
    obtain ⟨io₂, hrun₂, ht₂⟩ := ih _ ⟨t₁, io.sharedio⟩ ht₁
    refine ⟨io₂, ?_, ?_⟩
    · rw [writeStrs, writeStr, Prog.bind_ret (onLine_ret hrun₁), hrun₂]
    · rw [chunksOfStrs, List.flatMap_cons, wire_append, ← List.append_assoc]
      exact ht₂

end

end InteractiveSessions.StrComm
