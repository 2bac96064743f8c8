import InteractiveSessions.ChunkGrammar
import InteractiveSessions.Lib.Blocks

/-!
# The chunk reader on streams that stop and on damaged frames

A stream may stop: after its bytes the transport raises (a timeout) or waits
forever.  What the reader has taken from the stream by then is in local buffers
and gone with them, except for a payload, which is in the shared buffer as soon
as it is complete.

* `readChunk_stops`, `readChunk_stops_hdr`, `readChunk_stops_trailing`: the
  stream stops before the leading token, in the header, in the trailing token;
* `readChunk_partial`: the stream stops anywhere in a frame;
* `readChunk_mismatch`: the payload is not followed by the token;
* `readChunk_bad_hdr`: the header is not followed by the token.
-/

namespace InteractiveSessions.ChunkComm

open GapToken

variable {τ : Type} {C : Comm τ} {fuel : Nat}

/-- While bytes come next (`R xs`) a read delivers some of them; after the last
one it ends with `o`. -/
structure Stops (read : Nat → Prog Exc τ Bytes) (R : Bytes → τ → Prop)
    (o : Option (Exc × τ)) : Prop where
  deliver : ∀ n xs s, 0 < n → xs ≠ [] → R xs s → ∃ k s', 0 < k ∧ k ≤ n ∧ k ≤ xs.length ∧
    read n s = .ret (xs.take k) s' ∧ R (xs.drop k) s'
  stop : ∀ n s, 0 < n → R [] s → read n s = Prog.stopped o

theorem Stops.delivers {read : Nat → Prog Exc τ Bytes} {R : Bytes → τ → Prop}
    {o : Option (Exc × τ)} (h : Stops read R o) : Delivers read R := by
  intro n xs s hn hle hs
  obtain ⟨k, s', hk0, hkn, -, hrd, hs'⟩ := h.deliver n xs s hn (by
    rintro rfl
    simp only [List.length_nil] at hle
    omega) hs
  exact ⟨k, s', hk0, hkn, hrd, hs'⟩

theorem rawReadLoop_stops {read : Nat → Prog Exc τ Bytes} {R : Bytes → τ → Prop}
    {o : Option (Exc × τ)} (h : Stops read R o) (fuel : Nat) (xs : Bytes) (sio : SharedBytesIo)
    (n : Nat) (s : τ) (hfuel : xs.length < fuel) (hn : sio.unread.length + xs.length < n)
    (hs : R xs s) : rawReadLoop read fuel n sio s = Prog.stopped o := by
  induction fuel generalizing xs sio s with
  | zero => omega
  | succ fuel ih =>
    have harg : ((n : Int) - sio.unread.length).toNat = n - sio.unread.length := by omega
    rw [rawReadLoop, SharedBytesIo.readableSize_eq, if_pos (by omega), harg]
    by_cases hx : xs = []
    · subst hx
      exact Prog.bind_stopped (h.stop _ _ (by omega) hs)
    · obtain ⟨k, s', hk0, -, hkx, hrd, hs'⟩ := h.deliver (n - sio.unread.length) xs s
        (by omega) hx hs
      rw [Prog.bind_ret hrd]
      refine ih (xs.drop k) _ s' ?_ ?_ hs'
      · rw [List.length_drop]
        omega
      · simp only [SharedBytesIo.unread_write, List.length_append, List.length_take,
          List.length_drop]
        omega

/-- A token after bytes without a gap occurrence of it, and a header. -/
theorem opened_of_noGap {w b : Bytes} (hw : NoGap token w) (hb : b.length = hdrLen) :
    Opened (w ++ token ++ b) b := .intro (shortest_append token_nodup token_ne_nil hw) hb

theorem append_opened (w b rest : Bytes) :
    (w ++ token ++ b) ++ rest = w ++ (token ++ (b ++ rest)) := by
  simp only [List.append_assoc]

section
variable {R : Bytes → τ → Prop} {o : Option (Exc × τ)}

theorem rawReadUntilSize_stops (h : Stops C.read R o) (hR : ∀ xs s, R xs s → xs.length < fuel)
    {n : Nat} {xs : Bytes} {s : τ} (hs : R xs s) (hn : xs.length < n) :
    rawReadUntilSize C.read fuel n s = Prog.stopped o :=
  rawReadLoop_stops h fuel xs _ n s (hR _ _ hs) (by simpa using hn) hs

theorem Stops.ends (h : Stops C.read R o) (hR : ∀ xs s, R xs s → xs.length < fuel) :
    Ends C fuel R o := fun _ _ _ hs hn => rawReadUntilSize_stops h hR hs hn

theorem verifyReadToken_stops (h : Stops C.read R o) (hR : ∀ xs s, R xs s → xs.length < fuel)
    {w : Bytes} (hw : NoGap token w) {io : ChunkIo τ} (hs : R w io.line) :
    verifyReadToken C fuel io = Prog.stopped (lift io.sharedio o) :=
  verifyReadToken_ends h.delivers hR (h.ends hR) hw io hs

theorem readChunk_stops (h : Stops C.read R o) (hR : ∀ xs s, R xs s → xs.length < fuel)
    {w : Bytes} (hw : NoGap token w) {io : ChunkIo τ} (hs : R w io.line) :
    readChunk C fuel io = Prog.stopped (lift io.sharedio o) :=
  Prog.bind_stopped (onLine_stopped (readToken_ends h.delivers hR (h.ends hR) hw hs))

theorem readChunk_stops_hdr (h : Stops C.read R o) (hR : ∀ xs s, R xs s → xs.length < fuel)
    {w x : Bytes} (hw : NoGap token w) (hx : x.length < hdrLen) {io : ChunkIo τ}
    (hs : R (w ++ (token ++ x)) io.line) :
    readChunk C fuel io = Prog.stopped (lift io.sharedio o) := by
  obtain ⟨t, hrun, ht⟩ := readToken_skip h.delivers hR hw hs
  rw [readChunk, Prog.bind_ret (onLine_ret hrun)]
  exact Prog.bind_stopped (onLine_stopped (rawReadUntilSize_stops h hR ht hx))

/-- When the stream stops in the trailing token, the payload stays in the
shared buffer. -/
theorem readChunk_stops_trailing (h : Stops C.read R o)
    (hR : ∀ xs s, R xs s → xs.length < fuel) {w x : Bytes} (hw : NoGap token w)
    (hx : NoGap token x) (c : Chunk) {io : ChunkIo τ}
    (hs : R (w ++ (c.opened ++ x)) io.line) :
    readChunk C fuel io = Prog.stopped (lift (io.sharedio.write c.payload) o) := by
  rw [c.opened_append] at hs
  obtain ⟨t, ht, hrun⟩ := readChunk_opened h.delivers hR hw c.id_lt c.length_payload_lt hs
  rw [hrun]
  exact Prog.bind_stopped (verifyReadToken_stops h hR hx ht)

theorem readChunk_stops_second (h : Stops C.read R o) (hR : ∀ xs s, R xs s → xs.length < fuel)
    {w b x : Bytes} (hw : NoGap token w) (hb : b.length = hdrLen) (hx : NoGap token x)
    {io : ChunkIo τ} (hs : R (w ++ (token ++ (b ++ x))) io.line) :
    readChunk C fuel io = Prog.stopped (lift io.sharedio o) := by
  rw [← append_opened] at hs
  obtain ⟨t, ht, hrun⟩ := readChunk_of_opened h.delivers hR (opened_of_noGap hw hb) hs
  rw [hrun]
  exact Prog.bind_stopped (verifyReadToken_stops h hR hx ht)

theorem readChunk_stops_payload (h : Stops C.read R o) (hR : ∀ xs s, R xs s → xs.length < fuel)
    {w p : Bytes} (hw : NoGap token w) {chunkId chunkLen : Nat} (hid : chunkId < 10000)
    (hlen : chunkLen < 10000) (hp : p.length < chunkLen) {io : ChunkIo τ}
    (hs : R (w ++ (token ++ (hdr chunkId chunkLen ++ (token ++ p)))) io.line) :
    readChunk C fuel io = Prog.stopped (lift io.sharedio o) := by
  have hheaded : Headed (w ++ token ++ hdr chunkId chunkLen ++ token) (hdr chunkId chunkLen) :=
    .intro (opened_of_noGap hw (hdr_length hid hlen)) shortest_token returned_token
  have hsize : Decimal.parseInt ((hdr chunkId chunkLen).drop chunkIdWidth) =
      some (chunkLen : Int) := by
    rw [hdr_drop hid]
    exact Decimal.parseInt_format (by decide) hlen
  rw [← append_opened, ← List.append_assoc] at hs
  obtain ⟨t, ht, hrun⟩ := readChunk_of_headed h.delivers hR hheaded hs
  rw [hrun, readPayload, hsize]
  exact Prog.bind_stopped (onLine_stopped (rawReadUntilSize_stops h hR ht hp))

/-- Wherever the stream stops in a frame, the chunk is not read.  In the trailing
token its payload is kept. -/
theorem readChunk_partial (h : Stops C.read R o) (hR : ∀ xs s, R xs s → xs.length < fuel)
    {w : Bytes} (hw : NoGap token w) (c : Chunk) {z : Bytes} (hz : z <+: c.frame)
    (hne : z ≠ c.frame) {io : ChunkIo τ} (hs : R (w ++ z) io.line) :
    ∃ sharedio, readChunk C fuel io = Prog.stopped (lift sharedio o) ∧
      (sharedio = io.sharedio ∨ sharedio = io.sharedio.write c.payload ∧
        ∃ x, z = c.opened ++ x ∧ x <+: token ∧ x ≠ token) := by
  have htoken : ∀ {p t : Bytes}, NoGap token p → t <+: token → t ≠ token →
      NoGap token (p ++ t) := fun hp ht htne =>
    noGap_append_of_prefix token_nodup hp ht htne
  have hlen := c.length_payload_lt
  have hframe : c.frame = token ++ (hdr c.id c.payload.length ++
      (token ++ (c.payload ++ token))) := by
    simpa only [List.append_nil] using c.frame_append []
  rw [hframe] at hz hne
  rcases prefix_append_cases hz with ⟨hz₁, hne₁⟩ | ⟨z₁, rfl, hz₁⟩
  · exact ⟨_, readChunk_stops h hR (htoken hw hz₁ hne₁) hs, .inl rfl⟩
  rcases prefix_append_cases hz₁ with ⟨hz₂, hne₂⟩ | ⟨z₂, rfl, hz₂⟩
  · refine ⟨_, readChunk_stops_hdr h hR hw ?_ hs, .inl rfl⟩
    have hle := hz₂.length_le
    rw [hdr_length c.id_lt hlen] at hle
    refine lt_of_le_of_ne hle fun heq => hne₂ (hz₂.eq_of_length ?_)
    rw [heq, hdr_length c.id_lt hlen]
  rcases prefix_append_cases hz₂ with ⟨hz₃, hne₃⟩ | ⟨z₃, rfl, hz₃⟩
  · refine ⟨_, readChunk_stops_second h hR hw (hdr_length c.id_lt hlen) ?_ hs, .inl rfl⟩
    simpa only [List.nil_append] using htoken noGap_nil hz₃ hne₃
  rcases prefix_append_cases hz₃ with ⟨hz₄, hne₄⟩ | ⟨z₄, rfl, hz₄⟩
  · refine ⟨_, readChunk_stops_payload h hR hw c.id_lt hlen ?_ hs, .inl rfl⟩
    exact lt_of_le_of_ne hz₄.length_le fun heq => hne₄ (hz₄.eq_of_length heq)
  · have hz₄ne : z₄ ≠ token := by
      rintro rfl
      exact hne rfl
    have hgap := htoken noGap_nil hz₄ hz₄ne
    rw [List.nil_append] at hgap
    have hopened : c.opened ++ z₄ =
        token ++ (hdr c.id c.payload.length ++ (token ++ (c.payload ++ z₄))) := c.opened_append z₄
    rw [← hopened] at hs
    exact ⟨_, readChunk_stops_trailing h hR hw hgap c hs, .inr ⟨rfl, z₄, hopened.symm, hz₄, hz₄ne⟩⟩

end

theorem readUntilSize_stopped (hfuel : 0 < fuel) {n : Nat} {io : ChunkIo τ}
    {o : Option (Exc × ChunkIo τ)} (hn : io.sharedio.unread.length < n)
    (h : readChunk C fuel io = Prog.stopped o) :
    readUntilSize C fuel n io = Prog.stopped o := by
  obtain ⟨loops, rfl⟩ : ∃ n, fuel = n + 1 := ⟨fuel - 1, by omega⟩
  rw [readUntilSize, readLoop_more hn]
  exact Prog.bind_stopped h

section
variable {R : Bytes → τ → Prop}

theorem verifyReadToken_raises (hread : Delivers C.read R)
    (hR : ∀ xs s, R xs s → xs.length < fuel) {d rest : Bytes} (hd : NoGap token d) (hne : d ≠ [])
    (io : ChunkIo τ) (hs : R (d ++ (token ++ rest)) io.line) :
    ∃ t, verifyReadToken C fuel io = .raised (.bufferError io.sharedio.value) ⟨t, io.sharedio⟩ ∧
      R rest t := by
  obtain ⟨t, hrun, ht⟩ := readToken_skip hread hR hd hs
  refine ⟨t, ?_, ht⟩
  rw [verifyReadToken, Prog.bind_ret (onLine_ret hrun), if_pos hne]
  rfl

/-- A payload that the token does not follow is rejected, but it stays in the
shared buffer; the reader goes on after the next token. -/
theorem readChunk_mismatch (hread : Delivers C.read R) (hR : ∀ xs s, R xs s → xs.length < fuel)
    {w q d rest : Bytes} (hw : NoGap token w) {chunkId : Nat} (hid : chunkId < 10000)
    (hq : q.length < 10000) (hd : NoGap token d) (hne : d ≠ []) {io : ChunkIo τ}
    (hs : R (w ++ (token ++ (hdr chunkId q.length ++ (token ++ (q ++ (d ++ (token ++ rest)))))))
      io.line) :
    ∃ t, readChunk C fuel io = .raised (.bufferError (io.sharedio.write q).value)
      ⟨t, io.sharedio.write q⟩ ∧ R rest t := by
  obtain ⟨t₁, ht₁, hrun₁⟩ := readChunk_opened hread hR hw hid hq hs
  obtain ⟨t₂, hrun₂, ht₂⟩ := verifyReadToken_raises hread hR hd hne
    ⟨t₁, io.sharedio.write q⟩ ht₁
  exact ⟨t₂, by rw [hrun₁, Prog.bind_raised hrun₂], ht₂⟩

/-- Eight bytes that the token does not follow are no header; the reader goes on
after the next token. -/
theorem readChunk_bad_hdr (hread : Delivers C.read R) (hR : ∀ xs s, R xs s → xs.length < fuel)
    {w h d rest : Bytes} (hw : NoGap token w) (hh : h.length = hdrLen) (hd : NoGap token d)
    (hne : d ≠ []) {io : ChunkIo τ}
    (hs : R (w ++ (token ++ (h ++ (d ++ (token ++ rest))))) io.line) :
    ∃ t, readChunk C fuel io = .raised (.bufferError io.sharedio.value) ⟨t, io.sharedio⟩ ∧
      R rest t := by
  rw [← append_opened] at hs
  obtain ⟨t₁, ht₁, hrun₁⟩ := readChunk_of_opened hread hR (opened_of_noGap hw hh) hs
  obtain ⟨t₂, hrun₂, ht₂⟩ := verifyReadToken_raises hread hR hd hne ⟨t₁, io.sharedio⟩ ht₁
  exact ⟨t₂, by rw [hrun₁, Prog.bind_raised hrun₂], ht₂⟩

end

/-! ## The end of the intact frames -/

section
variable {R : Bytes → τ → Prop} {bound : Nat}

theorem readLoop_queue_end (hC : C.Serves R) (hR : ∀ xs s, R xs s → xs.length < fuel) {n : Nat}
    {xs : Bytes} (hn : xs.length < n) (loops : Nat) (w : Bytes) (cs : List Chunk) (io : ChunkIo τ)
    (hloops : cs.length < loops) (hw : NoGap token w) (hwcs : cs = [] → w = [])
    (hs : R (w ++ wire cs) io.line) (hxs : xs = io.sharedio.unread ++ payloads cs) :
    ∃ io₁, R [] io₁.line ∧ io₁.sharedio.unread = xs ∧
      ∀ o, readChunk C fuel io₁ = Prog.stopped o →
        readLoop C fuel loops n io = Prog.stopped o := by
  induction loops generalizing w cs io with
  | zero => omega
  | succ loops ih =>
    have hlt : io.sharedio.unread.length < n := by
      rw [hxs, List.length_append] at hn
      omega
    rw [readLoop_more hlt]
    cases cs with
    | nil =>
      obtain rfl := hwcs rfl
      refine ⟨io, hs, by rw [hxs, payloads_nil, List.append_nil], fun o ho => ?_⟩
      exact Prog.bind_stopped ho
    | cons c cs =>
      rw [List.length_cons] at hloops
      obtain ⟨t, hrun, ht⟩ := readChunk_frame hC hR hw c hs
      rw [Prog.bind_ret hrun]
      refine ih [] cs _ (by omega) noGap_nil (fun _ => rfl) ht ?_
      rw [hxs, SharedBytesIo.unread_write, List.append_assoc, payloads_cons]

/-- A read of more than the queue holds comes to the chunk after it. -/
theorem readUntilSize_queue_end (hC : C.Serves R) (hR : ∀ xs s, R xs s → xs.length < fuel)
    (hb : bound ≤ fuel) {n : Nat} {xs : Bytes} (hn : xs.length < n) {io : ChunkIo τ}
    (h : Queue R bound xs io) :
    ∃ io₁, R [] io₁.line ∧ io₁.sharedio.unread = xs ∧
      ∀ o, readChunk C fuel io₁ = Prog.stopped o →
        readUntilSize C fuel n io = Prog.stopped o := by
  obtain ⟨w, cs, hw, hwcs, hs, hlen, hxs⟩ := h
  have := length_le_wire cs
  rw [List.length_append] at hlen
  exact readLoop_queue_end hC hR hn fuel w cs io (by omega) hw hwcs hs hxs

end

end InteractiveSessions.ChunkComm
