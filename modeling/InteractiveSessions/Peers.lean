import InteractiveSessions.AckLinks

/-!
# Two peers that both write over two links

Acks and frames share a link.  A peer may start a write at any moment but while
it reads an ack, also in the middle of a frame that it reads, and any read may
be given up at a timeout.

* `proper_of_reaches`: if no chunk is written between a chunk of the other peer
  and its ack, a chunk with an ack only when nothing is left to read, and no read
  of an ack or a frame is given up half way, then only acks are read as acks and
  no write raises;
* `not_proper_lateReply`: a reply that comes after the first chunk of a request
  is read as an ack.
-/

namespace InteractiveSessions.Peers

open ChunkComm

/-- What a byte on a link belongs to. -/
inductive Source where
  | frame
  | ack
  deriving DecidableEq, Repr

abbrev Link := List (Source × Byte)

def tagged (source : Source) (xs : Bytes) : Link := xs.map (Prod.mk source)

def untagged (l : Link) : Bytes := l.map Prod.snd

/-- A call of `write` that has not returned. -/
structure Writing where
  /-- The number of the next chunk. -/
  i : Nat
  chunks : List Bytes
  pieces : ∀ p ∈ chunks, p ≠ [] ∧ p.length ≤ chunkSize
  /-- In `_read_and_verify_ack`: the chunk's id and what `_read_ack` has read. -/
  ack : Option (Nat × Link)

/-- The loop of `write`, which returns after the last chunk. -/
def Writing.next (i : Nat) : (chunks : List Bytes) →
    (∀ p ∈ chunks, p ≠ [] ∧ p.length ≤ chunkSize) → Option Writing
  | [], _ => none
  | chunk :: chunks, h => some ⟨i, chunk :: chunks, h, none⟩

structure Peer where
  /-- What is on the link to the peer. -/
  inbound : Link
  /-- The part of the next frame that the reader has already read. -/
  frame : Bytes
  writing : Option Writing
  /-- All that `_read_ack` has read. -/
  acksRead : Link
  /-- What a write has raised. -/
  raised : Option Exc

namespace Peer

def new : Peer := ⟨[], [], none, [], none⟩

/-- The ack that the peer waits for: the chunk's id and what has been read. -/
def awaited? (p : Peer) : Option (Nat × Link) := p.writing.bind Writing.ack

/-- The id of the chunk that the peer writes next. -/
def nextId? (p : Peer) : Option Nat :=
  match p.writing with
  | some ⟨i, _ :: _, _, none⟩ => some (i % 10000)
  | _ => none

/-- What `_read_ack` has read so far. -/
def ackSoFar (p : Peer) : Link :=
  match p.awaited? with
  | some (_, xs) => xs
  | none => []

theorem ackSoFar_none {p : Peer} (h : p.awaited? = none) : p.ackSoFar = [] := by
  rw [ackSoFar, h]

theorem ackSoFar_some {p : Peer} {chunkId : Nat} {xs : Link} (h : p.awaited? = some (chunkId, xs)) :
    p.ackSoFar = xs := by
  rw [ackSoFar, h]

def start (s : Bytes) (p : Peer) : Peer :=
  match p.writing with
  | none =>
    { p with writing := Writing.next 0 (pieces chunkSize s) (fits_pieces s) }
  | some _ => p

/-- The next turn of the loop of `write`, up to the ack. -/
def writeChunk (p q : Peer) : Peer × Peer :=
  match p.writing with
  | some ⟨i, chunk :: chunks, h, none⟩ =>
    let chunkId := i % 10000
    let h := fits_of_cons h
    ({ p with writing :=
        if chunkId = 0 then Writing.next (i + 1) chunks h
        else some ⟨i + 1, chunks, h, some (chunkId, [])⟩ },
      { q with inbound := q.inbound ++ tagged .frame (bytesForChunkWithToken chunk chunkId) })
  | _ => (p, q)

/-- What `_read_and_verify_ack` raises after the read of an ack. -/
def verifyAck (chunkId : Nat) (chunkIdStr : Bytes) : Option Exc :=
  match readAndVerifyAck (Pipe.comm (chunkIdStr.length + 1)) chunkId ⟨[chunkIdStr], []⟩ with
  | .raised e _ => some e
  | _ => none

/-- `_read(n)` of `_read_ack` delivers at most `k` bytes. -/
def readAck (k : Nat) (p : Peer) : Peer :=
  match p.writing with
  | some ⟨i, chunks, h, some (chunkId, xs)⟩ =>
    let n := min k (chunkIdWidth - xs.length)
    let xs := xs ++ p.inbound.take n
    let p := { p with inbound := p.inbound.drop n, acksRead := p.acksRead ++ p.inbound.take n }
    if xs.length < chunkIdWidth then { p with writing := some ⟨i, chunks, h, some (chunkId, xs)⟩ }
    else
      match verifyAck chunkId (untagged xs) with
      | none => { p with writing := Writing.next i chunks h }
      | some e => { p with writing := none, raised := some e }
  | _ => p

/-- `readChunk` on the bytes that have come so far. -/
def readerRun (bytes : Bytes) : Outcome Exc (ChunkIo Pipe) Unit :=
  readChunk (Pipe.comm (bytes.length + 1)) (bytes.length + 1) ⟨⟨[bytes], []⟩, SharedBytesIo.new⟩

/-- `k` more bytes come to the reader.  What it does not take of them stays on the
link; where it waits for more, `readerRun` stops with `timeout`. -/
def read (k : Nat) (p q : Peer) : Peer × Peer :=
  match p.writing with
  | some _ => (p, q)
  | none =>
    let arrived := untagged (p.inbound.take k)
    if arrived = [] then (p, q)
    else
      match readerRun (p.frame ++ arrived) with
      | .raised .timeout _ =>
        ({ p with frame := p.frame ++ arrived, inbound := p.inbound.drop k }, q)
      | .ret _ io | .raised _ io =>
        ({ p with
            frame := []
            inbound := p.inbound.drop (arrived.length - io.line.incoming.flatten.length) },
          { q with inbound := q.inbound ++ tagged .ack io.line.written })
      | .hang => (p, q)

/-- The read in progress, of an ack or of a frame, raises `TIMEOUT` out of all that
called it.  What it has read is lost, and what is still to come stays on the link. -/
def timeout (p : Peer) : Peer :=
  match p.writing with
  | some ⟨_, _, _, none⟩ => p
  | _ => { p with frame := [], writing := none }

/-- Only acks were read as acks, and no write has raised. -/
structure Proper (p : Peer) : Prop where
  acksRead : ∀ x ∈ p.acksRead, x.1 = .ack
  raised : p.raised = none

end Peer

inductive Move where
  | start (s : Bytes)
  | writeChunk
  | readAck (k : Nat)
  | read (k : Nat)
  | timeout
  deriving DecidableEq

def Move.run : Move → Peer → Peer → Peer × Peer
  | start s, p, q => (p.start s, q)
  | writeChunk, p, q => p.writeChunk q
  | readAck k, p, q => (p.readAck k, q)
  | read k, p, q => p.read k q
  | timeout, p, q => (p.timeout, q)

/-- The peer writes a chunk that needs an ack only when nothing is left to read,
and no chunk while the other one waits for an ack of which no byte was written.
It gives up no read of an ack and none that has read a part of a frame. -/
def Move.ok : Move → Peer → Peer → Bool
  | writeChunk, p, q =>
    match p.nextId? with
    | none => true
    | some chunkId => (chunkId = 0 || p.inbound = []) &&
        (q.awaited?.isNone || q.ackSoFar ++ q.inbound ≠ [])
  | timeout, p, _ => p.awaited?.isNone && p.frame = []
  | _, _, _ => true

inductive Side where
  | client
  | server
  deriving DecidableEq, Repr

structure Action where
  side : Side
  move : Move
  deriving DecidableEq

structure Pair where
  client : Peer
  server : Peer

def init : Pair := ⟨Peer.new, Peer.new⟩

def step (a : Action) (x : Pair) : Pair :=
  match a.side with
  | .client =>
    let r := a.move.run x.client x.server
    ⟨r.1, r.2⟩
  | .server =>
    let r := a.move.run x.server x.client
    ⟨r.2, r.1⟩

def Ok (a : Action) (x : Pair) : Prop :=
  match a.side with
  | .client => a.move.ok x.client x.server = true
  | .server => a.move.ok x.server x.client = true

instance : (a : Action) → (x : Pair) → Decidable (Ok a x)
  | ⟨.client, m⟩, x => inferInstanceAs (Decidable (m.ok x.client x.server = true))
  | ⟨.server, m⟩, x => inferInstanceAs (Decidable (m.ok x.server x.client = true))

def Proper (x : Pair) : Prop := x.client.Proper ∧ x.server.Proper

/-! ## The invariant -/

@[simp] theorem untagged_tagged (source : Source) (xs : Bytes) :
    untagged (tagged source xs) = xs := by
  simp [untagged, tagged, Function.comp_def]

@[simp] theorem tagged_append (source : Source) (xs ys : Bytes) :
    tagged source (xs ++ ys) = tagged source xs ++ tagged source ys := List.map_append

/-- What comes next on the link to `p`: the bytes `a` of an ack and the rest of
the frames of `cs`. -/
structure Holds (p : Peer) (a : Bytes) (cs : List Chunk) : Prop where
  link : ∃ d, p.ackSoFar ++ p.inbound = tagged .ack a ++ tagged .frame d ∧ p.frame ++ d = wire cs
  frame : ∀ c ∈ cs.head?, p.frame.length < c.frame.length

/-- No chunk of `cs` is acknowledged. -/
def NoAcks (cs : List Chunk) : Prop := ∀ c ∈ cs, c.id = 0

/-- The ack that `p` waits for is on the link to `p`, or its chunk is the last of
those that the other peer has to read. -/
def Awaits (p : Peer) (a : Bytes) (cs : List Chunk) : Prop :=
  match p.awaited? with
  | none => a = [] ∧ NoAcks cs
  | some (chunkId, xs) => ∃ c : Chunk, c.id = chunkId ∧ chunkId ≠ 0 ∧ xs.length < chunkIdWidth ∧
      (a = c.ack ∧ NoAcks cs ∨
        a = [] ∧ xs ++ p.inbound = [] ∧ ∃ ds, cs = ds ++ [c] ∧ NoAcks ds)

structure Inv (p q : Peer) (a b : Bytes) (cs ds : List Chunk) : Prop where
  fst : Holds p a cs
  snd : Holds q b ds
  awaits_fst : Awaits p a ds
  awaits_snd : Awaits q b cs
  proper_fst : p.Proper
  proper_snd : q.Proper

theorem Inv.swap {p q : Peer} {a b : Bytes} {cs ds : List Chunk} (h : Inv p q a b cs ds) :
    Inv q p b a ds cs :=
  ⟨h.snd, h.fst, h.awaits_snd, h.awaits_fst, h.proper_snd, h.proper_fst⟩

theorem NoAcks.append {cs ds : List Chunk} (h : NoAcks cs) (h' : NoAcks ds) :
    NoAcks (cs ++ ds) := List.forall_mem_append.mpr ⟨h, h'⟩

theorem Writing.next_ack {i : Nat} {chunks : List Bytes}
    {h : ∀ p ∈ chunks, p ≠ [] ∧ p.length ≤ chunkSize} :
    (Writing.next i chunks h).bind Writing.ack = none := by
  cases chunks <;> rfl

section
variable {p q : Peer} {a b : Bytes} {cs ds : List Chunk}

/-- A peer that waits for no ack has no ack on its link. -/
theorem Holds.of_not_awaiting (h : Holds p a cs) (hawaits : Awaits p a ds)
    (hnone : p.awaited? = none) :
    a = [] ∧ NoAcks ds ∧ ∃ d, p.inbound = tagged .frame d ∧ p.frame ++ d = wire cs := by
  obtain ⟨d, hlink, hframe⟩ := h.link
  rw [Awaits, hnone] at hawaits
  obtain ⟨rfl, hds⟩ := hawaits
  rw [Peer.ackSoFar_none hnone] at hlink
  exact ⟨rfl, hds, d, hlink, hframe⟩

theorem holds_of_frames {d : Bytes} (hnone : p.awaited? = none)
    (hlink : p.inbound = tagged .frame d) (hframe : p.frame ++ d = wire cs)
    (hhead : ∀ c ∈ cs.head?, p.frame.length < c.frame.length) : Holds p [] cs :=
  ⟨⟨d, by rw [Peer.ackSoFar_none hnone, hlink]; rfl, hframe⟩, hhead⟩

theorem awaits_of_none (hnone : p.awaited? = none) (hds : NoAcks ds) : Awaits p [] ds := by
  rw [Awaits, hnone]
  exact ⟨rfl, hds⟩

/-- The chunks still to write do not matter. -/
theorem Inv.setWriting (h : Inv p q a b cs ds) (hnone : p.awaited? = none) {w : Option Writing}
    (hw : w.bind Writing.ack = none) : Inv { p with writing := w } q a b cs ds := by
  have hnone' : ({ p with writing := w } : Peer).awaited? = none := hw
  obtain ⟨rfl, hds, d, hlink, hframe⟩ := h.fst.of_not_awaiting h.awaits_fst hnone
  exact ⟨holds_of_frames hnone' hlink hframe h.fst.frame, h.snd, awaits_of_none hnone' hds,
    h.awaits_snd, ⟨h.proper_fst.acksRead, h.proper_fst.raised⟩, h.proper_snd⟩

theorem Inv.start (h : Inv p q a b cs ds) (s : Bytes) : Inv (p.start s) q a b cs ds := by
  rw [Peer.start]
  split
  · next hnone =>
    refine h.setWriting ?_ Writing.next_ack
    rw [Peer.awaited?, hnone]
    rfl
  · exact h

/-- The frame that a peer writes comes last on the link to the other one. -/
theorem Holds.append (h : Holds q b ds) (c : Chunk) :
    Holds { q with inbound := q.inbound ++ tagged .frame c.frame } b (ds ++ [c]) := by
  obtain ⟨⟨d, hd, hframe⟩, hhead⟩ := h
  have hsame : ({ q with inbound := q.inbound ++ tagged .frame c.frame } : Peer).ackSoFar =
      q.ackSoFar := rfl
  refine ⟨⟨d ++ c.frame, ?_, ?_⟩, ?_⟩
  · rw [hsame, ← List.append_assoc, hd, tagged_append, List.append_assoc]
  · rw [← List.append_assoc, hframe, wire_append, wire_cons, wire_nil, List.append_nil]
  · cases ds with
    | nil =>
      rintro c' ⟨⟩
      have hnil : q.frame = [] := by
        rw [wire_nil, List.append_eq_nil_iff] at hframe
        exact hframe.1
      show q.frame.length < _
      rw [hnil, c.length_frame, List.length_nil]
      omega
    | cons c' ds => exact hhead

/-- A frame does not come before the ack that the peer waits for. -/
theorem Awaits.append (h : Awaits q b cs) (c : Chunk)
    (hack : q.awaited? = none ∨ q.ackSoFar ++ q.inbound ≠ []) :
    Awaits { q with inbound := q.inbound ++ tagged .frame c.frame } b cs := by
  have hsame : ({ q with inbound := q.inbound ++ tagged .frame c.frame } : Peer).awaited? =
      q.awaited? := rfl
  rw [Awaits] at h ⊢
  rw [hsame]
  cases hawaited : q.awaited? with
  | none =>
    rw [hawaited] at h
    exact h
  | some x =>
    obtain ⟨chunkId, xs⟩ := x
    rw [hawaited] at h
    obtain ⟨c', hid, hne, hlen, hacked | ⟨-, hnil, -⟩⟩ := h
    · exact ⟨c', hid, hne, hlen, .inl hacked⟩
    · rcases hack with hack | hack
      · rw [hawaited] at hack
        cases hack
      · rw [Peer.ackSoFar, hawaited] at hack
        exact absurd hnil hack

theorem Inv.writeChunk (h : Inv p q a b cs ds) (hok : Move.writeChunk.ok p q = true) :
    ∃ ds', Inv (p.writeChunk q).1 (p.writeChunk q).2 a b cs ds' := by
  rw [Peer.writeChunk]
  split
  · next i chunk chunks hpieces hwriting =>
    have hnone : p.awaited? = none := by
      rw [Peer.awaited?, hwriting]
      rfl
    have hnextId : p.nextId? = some (i % 10000) := by
      rw [Peer.nextId?, hwriting]
    have hchunk := hpieces chunk (List.mem_cons_self ..)
    let c : Chunk := ⟨i % 10000, chunk, Nat.mod_lt _ (by decide), hchunk.1, hchunk.2⟩
    rw [Move.ok, hnextId] at hok
    simp only [Bool.and_eq_true, Bool.or_eq_true, decide_eq_true_eq,
      Option.isNone_iff_eq_none] at hok
    obtain ⟨hempty, hack⟩ := hok
    refine ⟨ds ++ [c], ?_⟩
    obtain ⟨rfl, hds, d, hinbound, hframe⟩ := h.fst.of_not_awaiting h.awaits_fst hnone
    have hsnd := h.snd.append c
    have hawaits := h.awaits_snd.append c hack
    by_cases hid : i % 10000 = 0
    · have hacks : Awaits p [] (ds ++ [c]) :=
        awaits_of_none hnone (hds.append fun c' hc' => List.mem_singleton.mp hc' ▸ hid)
      have hinv : Inv p { q with inbound := q.inbound ++ tagged .frame c.frame } [] b cs
          (ds ++ [c]) :=
        ⟨h.fst, hsnd, hacks, hawaits, h.proper_fst, h.proper_snd.acksRead, h.proper_snd.raised⟩
      simp only [if_pos hid]
      exact hinv.setWriting hnone Writing.next_ack
    · simp only [if_neg hid]
      refine ⟨⟨⟨d, hinbound, hframe⟩, h.fst.frame⟩, hsnd, ?_, hawaits,
        ⟨h.proper_fst.acksRead, h.proper_fst.raised⟩, h.proper_snd.acksRead, h.proper_snd.raised⟩
      have hempty := hempty.resolve_left hid
      exact ⟨c, rfl, hid, by decide, .inr ⟨rfl, hempty, ds, rfl, hds⟩⟩
  · exact ⟨ds, h⟩

theorem verifyAck_ack (c : Chunk) (hid : c.id ≠ 0) : Peer.verifyAck c.id c.ack = none := by
  have hne : c.ack ≠ [] := fun h => hid (Chunk.ack_eq_nil.mp h)
  have harrived : Pipe.Arrived (c.ack.length + 1) [] (c.ack ++ []) ⟨[c.ack], []⟩ :=
    ⟨rfl, fun f hf => List.mem_singleton.mp hf ▸ hne, rfl, by rw [List.append_nil]; omega⟩
  obtain ⟨p', hrun, -⟩ := readAndVerifyAck_ack c harrived
  rw [Peer.verifyAck, hrun]

theorem length_ack {c : Chunk} (hid : c.id ≠ 0) : c.ack.length = chunkIdWidth := by
  rw [Chunk.ack, if_neg hid, Decimal.format_length c.id_lt]

/-- The bytes that come next for `_read_ack` are bytes of the ack. -/
theorem take_ack {c : Chunk} (hid : c.id ≠ 0) {xs inbound : Link} {d : Bytes} {n : Nat}
    (hlink : xs ++ inbound = tagged .ack c.ack ++ tagged .frame d)
    (hn : xs.length + n ≤ chunkIdWidth) : xs ++ inbound.take n <+: tagged .ack c.ack := by
  have hlen : (tagged .ack c.ack).length = chunkIdWidth := by
    rw [tagged, List.length_map, length_ack hid]
  have hleft : xs ++ inbound.take n <+: xs ++ inbound := by
    rw [List.prefix_append_right_inj]
    exact List.take_prefix ..
  have hright : tagged .ack c.ack <+: xs ++ inbound := by
    rw [hlink]
    exact List.prefix_append ..
  refine List.prefix_of_prefix_length_le hleft hright ?_
  rw [List.length_append, List.length_take, hlen]
  omega

theorem Inv.readAck (h : Inv p q a b cs ds) (k : Nat) : ∃ a', Inv (p.readAck k) q a' b cs ds := by
  rw [Peer.readAck]
  split
  · next i chunks hpieces chunkId xs hwriting =>
    have hawaited : p.awaited? = some (chunkId, xs) := by
      rw [Peer.awaited?, hwriting]
      rfl
    obtain ⟨⟨⟨d, hlink, hframe⟩, hhead⟩, hsnd, hawaits, hawaits', hproper, hproper'⟩ := h
    rw [Peer.ackSoFar_some hawaited] at hlink
    rw [Awaits, hawaited] at hawaits
    obtain ⟨c, rfl, hid, hlen, ⟨rfl, hds⟩ | ⟨rfl, hnil, hunacked⟩⟩ := hawaits
    · let n := min k (chunkIdWidth - xs.length)
      have hprefix : xs ++ p.inbound.take n <+: tagged .ack c.ack :=
        take_ack hid hlink (by omega)
      have hacksRead : ∀ x ∈ p.acksRead ++ p.inbound.take n, x.1 = .ack := by
        intro x hx
        rcases List.mem_append.mp hx with hx | hx
        · exact hproper.acksRead x hx
        · have hmem := hprefix.subset (List.mem_append_right _ hx)
          obtain ⟨b, -, rfl⟩ := List.mem_map.mp hmem
          rfl
      have hlink' : (xs ++ p.inbound.take n) ++ p.inbound.drop n =
          tagged .ack c.ack ++ tagged .frame d := by
        rw [List.append_assoc, List.take_append_drop, hlink]
      dsimp only
      split
      · next hlt =>
        exact ⟨c.ack, ⟨⟨d, hlink', hframe⟩, hhead⟩, hsnd, ⟨c, rfl, hid, hlt, .inl ⟨rfl, hds⟩⟩,
          hawaits', ⟨hacksRead, hproper.raised⟩, hproper'⟩
      · next hge =>
        have heq : xs ++ p.inbound.take n = tagged .ack c.ack := by
          refine hprefix.eq_of_length_le ?_
          rw [tagged, List.length_map, length_ack hid]
          exact Nat.le_of_not_lt hge
        have hdrop : p.inbound.drop n = tagged .frame d := by
          rw [heq] at hlink'
          exact List.append_cancel_left hlink'
        have heq : xs ++ p.inbound.take (min k (chunkIdWidth - xs.length)) = tagged .ack c.ack :=
          heq
        rw [heq, untagged_tagged, verifyAck_ack c hid]
        exact ⟨[], holds_of_frames Writing.next_ack hdrop hframe hhead, hsnd,
          awaits_of_none Writing.next_ack hds, hawaits', ⟨hacksRead, hproper.raised⟩, hproper'⟩
    · obtain ⟨rfl, hinbound⟩ := List.append_eq_nil_iff.mp hnil
      simp only [hinbound, List.take_nil, List.drop_nil, List.append_nil, List.length_nil]
      rw [hinbound] at hlink
      exact ⟨[], ⟨⟨d, hlink, hframe⟩, hhead⟩, hsnd,
        ⟨c, rfl, hid, by decide, .inr ⟨rfl, rfl, hunacked⟩⟩, hawaits',
        ⟨hproper.acksRead, hproper.raised⟩, hproper'⟩
  · exact ⟨a, h⟩

/-- The reader waits in an incomplete frame. -/
theorem readerRun_partial (c : Chunk) {z : Bytes} (hz : z <+: c.frame) (hne : z ≠ c.frame)
    (hnil : z ≠ []) : ∃ io, Peer.readerRun z = .raised .timeout io := by
  have harrived : Pipe.Arrived (z.length + 1) [] ([] ++ z)
      (⟨⟨[z], []⟩, SharedBytesIo.new⟩ : ChunkIo Pipe).line :=
    ⟨by simp, fun f hf => List.mem_singleton.mp hf ▸ hnil, rfl, by simp⟩
  obtain ⟨sharedio, hrun, -⟩ := readChunk_partial (Pipe.stops (z.length + 1) [])
    (fun _ _ h => h.length_lt) noGap_nil c hz hne harrived
  exact ⟨_, hrun⟩

/-- The reader takes a frame and no more, and acknowledges it. -/
theorem readerRun_frame (c : Chunk) (z : Bytes) :
    ∃ io, Peer.readerRun (c.frame ++ z) = .ret () io ∧ io.line.incoming.flatten = z ∧
      io.line.written = c.ack := by
  have hnil : c.frame ++ z ≠ [] := by
    rw [← List.length_pos_iff, List.length_append, c.length_frame]
    omega
  have harrived : Pipe.Arrived ((c.frame ++ z).length + 1) [] (c.frame ++ z)
      (⟨⟨[c.frame ++ z], []⟩, SharedBytesIo.new⟩ : ChunkIo Pipe).line :=
    ⟨by simp, fun f hf => List.mem_singleton.mp hf ▸ hnil, rfl, Nat.lt_succ_self _⟩
  obtain ⟨t, hrun, ht⟩ := readChunk_ack c harrived
  exact ⟨_, hrun, ht.flatten, ht.written⟩

/-- A frame without an ack is read. -/
theorem Awaits.tail {c : Chunk} (h : Awaits q b (c :: cs)) (hid : c.id = 0) : Awaits q b cs := by
  rw [Awaits] at h ⊢
  cases hawaited : q.awaited? with
  | none =>
    rw [hawaited] at h
    exact ⟨h.1, fun c' hc' => h.2 c' (List.mem_cons_of_mem _ hc')⟩
  | some x =>
    obtain ⟨chunkId, xs⟩ := x
    rw [hawaited] at h
    obtain ⟨c', rfl, hne, hlen, ⟨hb, hcs⟩ | ⟨hb, hnil, ds, hds, hnoAcks⟩⟩ := h
    · exact ⟨c', rfl, hne, hlen, .inl ⟨hb, fun c' hc' => hcs c' (List.mem_cons_of_mem _ hc')⟩⟩
    · cases ds with
      | nil =>
        obtain ⟨rfl, -⟩ := List.cons.inj hds
        exact absurd hid hne
      | cons c₁ ds =>
        obtain ⟨-, rfl⟩ := List.cons.inj hds
        exact ⟨c', rfl, hne, hlen, .inr ⟨hb, hnil, ds, rfl, fun c hc =>
          hnoAcks c (List.mem_cons_of_mem _ hc)⟩⟩

/-- A frame with an ack is the last one, and the other peer waits for its ack. -/
theorem Awaits.acked {c : Chunk} (h : Awaits q b (c :: cs)) (hid : c.id ≠ 0) :
    cs = [] ∧ q.ackSoFar ++ q.inbound = [] ∧
      Awaits { q with inbound := q.inbound ++ tagged .ack c.ack } c.ack [] := by
  have hsame : ({ q with inbound := q.inbound ++ tagged .ack c.ack } : Peer).awaited? =
      q.awaited? := rfl
  rw [Awaits] at h
  rw [Awaits, hsame]
  cases hawaited : q.awaited? with
  | none =>
    rw [hawaited] at h
    exact absurd (h.2 c (List.mem_cons_self ..)) hid
  | some x =>
    obtain ⟨chunkId, xs⟩ := x
    rw [hawaited] at h
    rw [Peer.ackSoFar_some hawaited]
    obtain ⟨c', rfl, hne, hlen, ⟨-, hcs⟩ | ⟨-, hnil, ds, hds, hnoAcks⟩⟩ := h
    · exact absurd (hcs c (List.mem_cons_self ..)) hid
    · cases ds with
      | nil =>
        obtain ⟨rfl, rfl⟩ := List.cons.inj hds
        exact ⟨rfl, hnil, c, rfl, hne, hlen, .inl ⟨rfl, nofun⟩⟩
      | cons c₁ ds =>
        obtain ⟨rfl, -⟩ := List.cons.inj hds
        exact absurd (hnoAcks c (List.mem_cons_self ..)) hid

/-- The ack comes after nothing. -/
theorem Holds.ack {c : Chunk} (h : Holds q b ds) (hnil : q.ackSoFar ++ q.inbound = []) :
    Holds { q with inbound := q.inbound ++ tagged .ack c.ack } c.ack ds := by
  obtain ⟨⟨d, hlink, hframe⟩, hhead⟩ := h
  have hsame : ({ q with inbound := q.inbound ++ tagged .ack c.ack } : Peer).ackSoFar =
      q.ackSoFar := rfl
  rw [hnil, eq_comm, List.append_eq_nil_iff] at hlink
  refine ⟨⟨d, ?_, hframe⟩, hhead⟩
  rw [hsame, ← List.append_assoc, hnil, List.nil_append, hlink.2, List.append_nil]

/-- The frames that are left when the first one has been read. -/
theorem holds_next {c : Chunk} {d : Bytes} (hnone : p.awaited? = none)
    (hinbound : p.inbound = tagged .frame d) (hframe : p.frame ++ d = c.frame ++ wire cs)
    (hlt : p.frame.length < c.frame.length) :
    Holds { p with
      frame := []
      inbound := p.inbound.drop (c.frame.length - p.frame.length) } [] cs := by
  have hdrop := congrArg (List.drop c.frame.length) hframe
  rw [List.drop_append, List.drop_of_length_le hlt.le, List.nil_append, List.drop_left] at hdrop
  have hinbound' : p.inbound.drop (c.frame.length - p.frame.length) = tagged .frame (wire cs) := by
    rw [hinbound, ← hdrop, tagged, ← List.map_drop]
    rfl
  refine holds_of_frames hnone hinbound' (List.nil_append _) fun c' _ => ?_
  rw [c'.length_frame, List.length_nil]
  omega

/-- The ack of the frame that has been read is written, if it needs one. -/
theorem Inv.writeAck {p' : Peer} {c : Chunk} (h : Inv p q a b (c :: cs) ds)
    (hnone : p'.awaited? = none) (hds : NoAcks ds) (hfst : Holds p' [] cs) (hproper : p'.Proper) :
    ∃ b' cs', Inv p' { q with inbound := q.inbound ++ tagged .ack c.ack } [] b' cs' ds := by
  by_cases hid : c.id = 0
  · have hq : ({ q with inbound := q.inbound ++ tagged .ack c.ack } : Peer) = q := by
      rw [Chunk.ack_eq_nil.mpr hid, tagged, List.map_nil, List.append_nil]
    rw [hq]
    exact ⟨b, cs, hfst, h.snd, awaits_of_none hnone hds, h.awaits_snd.tail hid, hproper,
      h.proper_snd⟩
  · obtain ⟨rfl, hnil, hawaits⟩ := h.awaits_snd.acked hid
    exact ⟨c.ack, [], hfst, h.snd.ack hnil, awaits_of_none hnone hds, hawaits, hproper,
      h.proper_snd.acksRead, h.proper_snd.raised⟩

theorem Inv.read (h : Inv p q a b cs ds) (k : Nat) :
    ∃ b' cs', Inv (p.read k q).1 (p.read k q).2 a b' cs' ds := by
  rw [Peer.read]
  split
  · exact ⟨b, cs, h⟩
  · next hwriting =>
    have hnone : p.awaited? = none := by
      rw [Peer.awaited?, hwriting]
      rfl
    obtain ⟨rfl, hds, d, hinbound, hframe⟩ := h.fst.of_not_awaiting h.awaits_fst hnone
    have harrived : untagged (p.inbound.take k) = d.take k := by
      rw [hinbound, tagged, ← List.map_take]
      exact untagged_tagged .frame _
    dsimp only
    rw [harrived]
    split
    · exact ⟨b, cs, h⟩
    · next hne =>
      have hprefix : p.frame ++ d.take k <+: wire cs := by
        rw [← hframe, List.prefix_append_right_inj]
        exact List.take_prefix ..
      have hhead := h.fst.frame
      cases cs with
      | nil =>
        rw [wire_nil, List.prefix_nil, List.append_eq_nil_iff] at hprefix
        exact absurd hprefix.2 hne
      | cons c cs =>
        have hlt : p.frame.length < c.frame.length := hhead c rfl
        rw [wire_cons] at hprefix hframe
        rcases prefix_append_cases hprefix with ⟨hz, hcut⟩ | ⟨z, heq, hz⟩
        · obtain ⟨io, hrun⟩ := readerRun_partial c hz hcut
            (List.append_ne_nil_of_right_ne_nil _ hne)
          rw [hrun]
          refine ⟨b, c :: cs, ⟨holds_of_frames (d := d.drop k) hnone ?_ ?_ ?_, h.snd,
            awaits_of_none hnone hds, h.awaits_snd,
            ⟨h.proper_fst.acksRead, h.proper_fst.raised⟩, h.proper_snd⟩⟩
          · rw [hinbound, tagged, ← List.map_drop]
            rfl
          · rw [List.append_assoc, List.take_append_drop, hframe, wire_cons]
          · rintro c' ⟨⟩
            exact lt_of_le_of_ne hz.length_le fun hlen => hcut (hz.eq_of_length hlen)
        · obtain ⟨io, hrun, hincoming, hwritten⟩ := readerRun_frame c z
          have hlen := congrArg List.length heq
          simp only [List.length_append] at hlen
          have hm : (d.take k).length - io.line.incoming.flatten.length =
              c.frame.length - p.frame.length := by
            rw [hincoming]
            omega
          rw [heq, hrun]
          dsimp only
          rw [hm, hwritten]
          exact h.writeAck hnone hds (holds_next hnone hinbound hframe hlt)
            ⟨h.proper_fst.acksRead, h.proper_fst.raised⟩

theorem Inv.timeout (h : Inv p q a b cs ds) (hok : Move.timeout.ok p q = true) :
    Inv p.timeout q a b cs ds := by
  obtain ⟨hnone, hframe⟩ : p.awaited? = none ∧ p.frame = [] := by
    simpa [Move.ok] using hok
  rw [Peer.timeout]
  split
  · exact h
  · have hinv := h.setWriting hnone (w := none) rfl
    rw [← hframe]
    exact hinv

/-- **Step.**  A move of either peer. -/
theorem Inv.run (h : Inv p q a b cs ds) {m : Move} (hok : m.ok p q = true) :
    ∃ a b cs ds, Inv (m.run p q).1 (m.run p q).2 a b cs ds := by
  cases m with
  | start s => exact ⟨a, b, cs, ds, h.start s⟩
  | writeChunk =>
    obtain ⟨ds', h'⟩ := h.writeChunk hok
    exact ⟨a, b, cs, ds', h'⟩
  | readAck k =>
    obtain ⟨a', h'⟩ := h.readAck k
    exact ⟨a', b, cs, ds, h'⟩
  | read k =>
    obtain ⟨b', cs', h'⟩ := h.read k
    exact ⟨a, b', cs', ds, h'⟩
  | timeout => exact ⟨a, b, cs, ds, h.timeout hok⟩

/-! ## Other steps -/

theorem acksRead_readAck {chunkId : Nat} {xs : Link} (hawaited : p.awaited? = some (chunkId, xs))
    (k : Nat) : (p.readAck k).acksRead =
      p.acksRead ++ p.inbound.take (min k (chunkIdWidth - xs.length)) := by
  obtain ⟨⟨i, chunks, hpieces, ack⟩, hwriting, hack⟩ := Option.bind_eq_some_iff.mp hawaited
  have hack : ack = some (chunkId, xs) := hack
  subst hack
  rw [Peer.readAck, hwriting]
  dsimp only
  split
  · rfl
  · split <;> rfl

/-- A byte of a frame is read as the first byte of an ack. -/
theorem not_proper_readAck {chunkId : Nat} (hawaited : p.awaited? = some (chunkId, []))
    {d : Bytes} (hinbound : p.inbound = tagged .frame d) (hd : d ≠ []) :
    ¬ (p.readAck 1).Proper := by
  intro h
  obtain ⟨b, d, rfl⟩ := List.exists_cons_of_ne_nil hd
  have hmem : (Source.frame, b) ∈ (p.readAck 1).acksRead := by
    rw [acksRead_readAck hawaited, hinbound]
    exact List.mem_append_right _ (List.mem_cons_self ..)
  exact nomatch h.acksRead _ hmem

/-- After a chunk that is written too early one of the peers may read a byte of a
frame as an ack. -/
theorem Inv.improper (h : Inv p q a b cs ds) (hok : Move.writeChunk.ok p q = false) :
    ¬ ((p.writeChunk q).1.readAck 1).Proper ∨ ¬ ((p.writeChunk q).2.readAck 1).Proper := by
  rw [Move.ok] at hok
  split at hok
  · cases hok
  · next chunkId hnextId =>
    rw [Peer.nextId?] at hnextId
    split at hnextId
    · next i chunk chunks hpieces hwriting =>
      obtain rfl := Option.some_inj.mp hnextId
      have hnone : p.awaited? = none := by
        rw [Peer.awaited?, hwriting]
        rfl
      obtain ⟨-, -, d, hinbound, -⟩ := h.fst.of_not_awaiting h.awaits_fst hnone
      rw [Peer.writeChunk, hwriting]
      rcases Bool.and_eq_false_iff.mp hok with hok | hok
      · simp only [Bool.or_eq_false_iff, decide_eq_false_iff_not] at hok
        obtain ⟨hid, hne⟩ := hok
        left
        simp only [if_neg hid]
        have hawaited : ∀ h, ({ p with writing := some ⟨i + 1, chunks, h, some (i % 10000, [])⟩ } :
            Peer).awaited? = some (i % 10000, []) := fun _ => rfl
        refine not_proper_readAck (hawaited _) hinbound ?_
        rintro rfl
        exact hne hinbound
      · simp only [Bool.or_eq_false_iff, decide_eq_false_iff_not, not_not,
          Option.isNone_eq_false_iff, Option.isSome_iff_exists] at hok
        obtain ⟨⟨⟨chunkId, xs⟩, hawaited⟩, hnil⟩ := hok
        right
        rw [Peer.ackSoFar_some hawaited, List.append_eq_nil_iff] at hnil
        obtain ⟨rfl, hnil⟩ := hnil
        have hlink : q.inbound ++ tagged .frame (bytesForChunkWithToken chunk (i % 10000)) =
            tagged .frame (bytesForChunkWithToken chunk (i % 10000)) := by
          rw [hnil, List.nil_append]
        have hawaited : ∀ inbound, ({ q with inbound } : Peer).awaited? = some (chunkId, []) :=
          fun _ => hawaited
        exact not_proper_readAck (hawaited _) hlink
          (by simp [bytesForChunkWithToken, token_ne_nil])
    · cases hnextId

end

theorem inv_new : Inv Peer.new Peer.new [] [] [] [] :=
  ⟨⟨⟨[], rfl, rfl⟩, nofun⟩, ⟨⟨[], rfl, rfl⟩, nofun⟩, ⟨rfl, nofun⟩, ⟨rfl, nofun⟩, ⟨nofun, rfl⟩,
    nofun, rfl⟩

theorem inv_step {x : Pair} (h : ∃ a b cs ds, Inv x.client x.server a b cs ds) {act : Action}
    (hok : Ok act x) :
    ∃ a b cs ds, Inv (step act x).client (step act x).server a b cs ds := by
  obtain ⟨a, b, cs, ds, h⟩ := h
  obtain ⟨side, m⟩ := act
  cases side with
  | client => exact h.run hok
  | server =>
    obtain ⟨a', b', cs', ds', h'⟩ := h.swap.run hok
    exact ⟨b', a', ds', cs', h'.swap⟩

/-- After a chunk that is not allowed a frame may be read as an ack. -/
theorem exists_not_proper {x : Pair} (h : ∃ a b cs ds, Inv x.client x.server a b cs ds)
    {side : Side} (hok : ¬ Ok ⟨side, .writeChunk⟩ x) :
    ∃ act, ¬ Proper (step act (step ⟨side, .writeChunk⟩ x)) := by
  obtain ⟨a, b, cs, ds, h⟩ := h
  cases side with
  | client =>
    rcases h.improper (Bool.eq_false_iff.mpr hok) with himproper | himproper
    · exact ⟨⟨.client, .readAck 1⟩, fun hproper => himproper hproper.1⟩
    · exact ⟨⟨.server, .readAck 1⟩, fun hproper => himproper hproper.2⟩
  | server =>
    rcases h.swap.improper (Bool.eq_false_iff.mpr hok) with himproper | himproper
    · exact ⟨⟨.server, .readAck 1⟩, fun hproper => himproper hproper.2⟩
    · exact ⟨⟨.client, .readAck 1⟩, fun hproper => himproper hproper.1⟩

/-- **Run.**  While no chunk is written too early and no read is given up half way,
only acks are read as acks and no write raises; after a chunk that is written too
early, the next step may read a frame as an ack. -/
theorem proper_of_reaches {x : Pair} (h : Reaches step Ok init x) :
    Proper x ∧ ∀ side, ¬ Ok ⟨side, .writeChunk⟩ x →
      ∃ act, ¬ Proper (step act (step ⟨side, .writeChunk⟩ x)) := by
  have hinv := h.invariant (I := fun x => ∃ a b cs ds, Inv x.client x.server a b cs ds)
    ⟨[], [], [], [], inv_new⟩ fun act x hx hok => inv_step hx hok
  refine ⟨?_, fun side hok => exists_not_proper hinv hok⟩
  obtain ⟨a, b, cs, ds, hinv⟩ := hinv
  exact ⟨hinv.proper_fst, hinv.proper_snd⟩

/-- A request of two chunks, to its end. -/
def requested : List Action :=
  [⟨.client, .start (List.replicate 2001 7)⟩, ⟨.client, .writeChunk⟩, ⟨.server, .read 5⟩,
    ⟨.client, .writeChunk⟩, ⟨.server, .read 3000⟩, ⟨.server, .read 100⟩, ⟨.client, .readAck 3⟩,
    ⟨.client, .readAck 3⟩, ⟨.server, .start [7]⟩, ⟨.server, .writeChunk⟩, ⟨.client, .read 100⟩]

theorem proper_requested :
    (requested.foldl (fun x a => step a x) init).client.acksRead = tagged .ack (ascii "0001") ∧
      Proper (requested.foldl (fun x a => step a x) init) :=
  ⟨by decide +kernel, (proper_of_reaches (reaches_of_along requested .refl (by decide +kernel))).1⟩

/-- A reply is sent again between the chunks of a request. -/
def lateReply : List Action :=
  [⟨.client, .start (List.replicate 2001 7)⟩, ⟨.client, .writeChunk⟩, ⟨.server, .start [7]⟩,
    ⟨.server, .writeChunk⟩, ⟨.client, .writeChunk⟩, ⟨.client, .readAck 4⟩]

/-- **A frame is read as an ack.** -/
theorem not_proper_lateReply :
    ¬ ∀ x, Reaches step (fun _ _ => True) init x → Proper x := by
  intro h
  have hrun := (h _ (reaches_of_along lateReply .refl (by decide +kernel))).1.raised
  exact absurd hrun (by decide +kernel)

/-- The client gives up reading the ack of its last chunk. -/
def givenUp : List Action :=
  [⟨.client, .start (List.replicate 4001 7)⟩, ⟨.client, .writeChunk⟩, ⟨.client, .writeChunk⟩,
    ⟨.server, .read 2068⟩, ⟨.server, .read 2068⟩, ⟨.client, .readAck 4⟩, ⟨.client, .writeChunk⟩]

/-- A later request of two chunks, whose steps are all allowed. -/
def nextRequest : List Action :=
  [⟨.client, .start (List.replicate 2001 7)⟩, ⟨.client, .writeChunk⟩, ⟨.client, .writeChunk⟩,
    ⟨.server, .read 69⟩, ⟨.client, .readAck 4⟩]

/-- After an ack that was not waited for, the next one is taken for another. -/
example :
    let x := givenUp.foldl (fun x a => step a x) init
    let y := step ⟨.client, .timeout⟩ x
    Along step Ok givenUp init ∧ Along step Ok nextRequest y ∧
      (nextRequest.foldl (fun x a => step a x) y).client.raised = some (.chunkIdError 1 2) := by
  decide +kernel

end InteractiveSessions.Peers
