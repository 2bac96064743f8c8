import InteractiveSessions.Lib.GapToken
import InteractiveSessions.Lib.Triple

/-!
# `tokenreader`: reading up to a token that may be broken by one gap

The matchers and the reader of `tokenreader.py`, over any type of symbols.
`TokenReader.read_until_token` asks for as many symbols as are missing to
complete the best match, so that it never reads past the token.

Proved here, for every token of distinct symbols:

* `find_tracks`: what the fields of a `FixedGapMatcher` say about the text it
  has been fed;
* `maxPass_find_le`: `n` symbols raise the matched length by at most `n`;
* `readUntilToken_shortest`: the reader consumes exactly the shortest prefix of
  the stream that ends a gap occurrence of the token and returns what stands
  before the occurrence with the latest gap;
* `readUntilToken_append`: after a text without a gap occurrence it consumes
  that text and the token and returns the text.
-/

namespace InteractiveSessions.TokenReader

open GapToken

variable {α : Type}

/-! ## `FixedGapMatcher` -/

/-- The state of a `FixedGapMatcher`; its token is a parameter below. -/
structure FixedGapMatcher where
  gapStart : Nat
  firstGroupIdx : Nat
  lastGroupIdx : Nat
  matchStart : Option Nat
  deriving DecidableEq, Repr

namespace FixedGapMatcher

/-- The state after `__init__` and after `reset`. -/
def new (gapStart : Nat) : FixedGapMatcher := ⟨gapStart, 0, gapStart, none⟩

def maxPass (m : FixedGapMatcher) : Nat := m.firstGroupIdx + m.lastGroupIdx - m.gapStart

def firstGroupFound (m : FixedGapMatcher) : Bool := m.gapStart ≤ m.firstGroupIdx

def fullMatch (token : List α) (m : FixedGapMatcher) : Bool :=
  m.firstGroupFound && token.length ≤ m.lastGroupIdx

section
variable [DecidableEq α] (token : List α)

def updateLast (c : α) (m : FixedGapMatcher) : FixedGapMatcher :=
  if m.firstGroupFound && !fullMatch token m then
    if token[m.lastGroupIdx]? = some c then
      { m with lastGroupIdx := m.lastGroupIdx + 1 }
    else
      { m with lastGroupIdx := m.gapStart + (if token[m.gapStart]? = some c then 1 else 0) }
  else m

/-- `_update_first` on the symbol `c` at the position `pos` of the text.  The
recursive call of the source starts from index `0` and does not recurse again,
so it is written out. -/
def updateFirst (c : α) (pos : Nat) (m : FixedGapMatcher) : FixedGapMatcher :=
  if m.firstGroupFound then m
  else if token[m.firstGroupIdx]? = some c then
    { m with
      firstGroupIdx := m.firstGroupIdx + 1
      matchStart := if m.matchStart = none then some pos else m.matchStart }
  else if m.firstGroupIdx ≠ 0 ∧ token[0]? = some c then
    { m with firstGroupIdx := 1, matchStart := some pos }
  else { m with firstGroupIdx := 0, matchStart := none }

def findIdx (c : α) (pos : Nat) (m : FixedGapMatcher) : FixedGapMatcher :=
  updateFirst token c pos (updateLast token c m)

/-- `find`: `alreadyHandled` symbols were handled since the last reset. -/
def find : List α → Nat → FixedGapMatcher → FixedGapMatcher
  | [], _, m => m
  | c :: s, alreadyHandled, m => find s (alreadyHandled + 1) (findIdx token c alreadyHandled m)

end

end FixedGapMatcher

/-! ## `SingleGapMatcher` -/

/-- The matchers of a `SingleGapMatcher`, one for each gap, in their order. -/
abbrev SingleGapMatcher := List FixedGapMatcher

namespace SingleGapMatcher

/-- `_create_matchers`; also the state after `reset`. -/
def new (token : List α) : SingleGapMatcher :=
  (List.range' 1 token.length).map FixedGapMatcher.new

def maxPass (ms : SingleGapMatcher) : Nat := (ms.map FixedGapMatcher.maxPass).foldl max 0

/-- `match_start` of the last matcher with a full match. -/
def matchStart (token : List α) (ms : SingleGapMatcher) : Option Nat :=
  (ms.reverse.find? (FixedGapMatcher.fullMatch token)).bind FixedGapMatcher.matchStart

/-- The loop of `_find`: it stops at the first full match. -/
def findUntilFull [DecidableEq α] (token s : List α) (alreadyHandled : Nat) :
    SingleGapMatcher → SingleGapMatcher
  | [] => []
  | m :: ms =>
    let m' := FixedGapMatcher.find token s alreadyHandled m
    if FixedGapMatcher.fullMatch token m' then m' :: ms
    else m' :: findUntilFull token s alreadyHandled ms

def find [DecidableEq α] (token s : List α) (alreadyHandled : Nat) (ms : SingleGapMatcher) :
    SingleGapMatcher :=
  (findUntilFull token s alreadyHandled ms.reverse).reverse

end SingleGapMatcher

/-! ## `TokenReader` -/

/-- The fields of a `TokenReader` that change: `_io`, `_remaining`, `_matcher`. -/
structure State (α : Type) where
  io : List α
  remaining : Nat
  matcher : SingleGapMatcher
  deriving DecidableEq, Repr

/-- `_reset` -/
def reset (token : List α) : State α := ⟨[], token.length, SingleGapMatcher.new token⟩

/-- The loop body of `read_until_token`, once `s` was read. -/
def feed [DecidableEq α] (token s : List α) (t : State α) : State α :=
  let matcher := SingleGapMatcher.find token s t.io.length t.matcher
  ⟨t.io ++ s, token.length - SingleGapMatcher.maxPass matcher, matcher⟩

/-- What `read_until_token` returns: `_io` up to the start of the match. -/
def result (token : List α) (t : State α) : List α :=
  match SingleGapMatcher.matchStart token t.matcher with
  | some n => t.io.take n
  | none => t.io

/-- `reset` of a matcher in any state. -/
def FixedGapMatcher.reset (m : FixedGapMatcher) : FixedGapMatcher :=
  ⟨m.gapStart, 0, m.gapStart, none⟩

def SingleGapMatcher.reset (ms : SingleGapMatcher) : SingleGapMatcher :=
  ms.map FixedGapMatcher.reset

/-- The states of the matcher that earlier reads leave, whether they return or
not.  (All readers for one token share the matchers.) -/
inductive Left [DecidableEq α] (token : List α) : SingleGapMatcher → Prop
  | new : Left token (SingleGapMatcher.new token)
  | find {ms} (s : List α) (alreadyHandled : Nat) :
      Left token ms → Left token (SingleGapMatcher.find token s alreadyHandled ms)
  | reset {ms} : Left token ms → Left token ms.reset

section
variable {ε σ : Type} [DecidableEq α]

/-- The loop of `read_until_token`, with the reader's `_read_until_size`. -/
def readLoop (token : List α) (readUntilSize : Nat → Prog ε σ (List α)) :
    Nat → State α → Prog ε σ (List α)
  | 0, _ => Prog.hang
  | fuel + 1, t =>
    if 0 < t.remaining then do
      let s ← readUntilSize t.remaining
      readLoop token readUntilSize fuel (feed token s t)
    else pure (result token t)

def readUntilToken (fuel : Nat) (token : List α)
    (readUntilSize : Nat → Prog ε σ (List α)) : Prog ε σ (List α) :=
  readLoop token readUntilSize fuel (reset token)

/-- `read_until_token` of a reader whose matcher is in the state `ms`. -/
def readUntilTokenFrom (ms : SingleGapMatcher) (fuel : Nat) (token : List α)
    (readUntilSize : Nat → Prog ε σ (List α)) : Prog ε σ (List α) :=
  readLoop token readUntilSize fuel ⟨[], token.length, ms.reset⟩

end

section
variable {ε σ : Type} [DecidableEq α] {token : List α} {read read' : Nat → Prog ε σ (List α)}

theorem readLoop_mono (h : ∀ n, read n ≤ read' n) {fuel fuel' : Nat} (hle : fuel ≤ fuel')
    (t : State α) : readLoop token read fuel t ≤ readLoop token read' fuel' t := by
  induction fuel generalizing fuel' t with
  | zero => exact Prog.hang_le _
  | succ fuel ih =>
    obtain ⟨fuel', rfl⟩ : ∃ n, fuel' = n + 1 := ⟨fuel' - 1, by omega⟩
    exact Prog.ite_mono (Prog.bind_mono (h _) fun _ => ih (by omega) _) (Prog.le_refl _)

theorem readUntilToken_mono (h : ∀ n, read n ≤ read' n) {fuel fuel' : Nat}
    (hle : fuel ≤ fuel') :
    readUntilToken fuel token read ≤ readUntilToken fuel' token read' :=
  readLoop_mono h hle _

end

section
variable {ε σ : Type} [DecidableEq α] {token : List α} {read : Nat → Prog ε σ (List α)}
  {P : σ → Prop} {E : ε → σ → Prop}

theorem triple_readLoop (h : ∀ n, Prog.Triple P (read n) (fun _ => P) E) (fuel : Nat)
    (t : State α) : Prog.Triple P (readLoop token read fuel t) (fun _ => P) E := by
  induction fuel generalizing t with
  | zero => exact Prog.triple_hang
  | succ fuel ih =>
    unfold readLoop
    apply Prog.Triple.ite
    · intro _
      exact (h _).bind fun _ => ih _
    · intro _ s hs
      exact hs

/-- What the first read does, and what the others keep. -/
theorem triple_readUntilToken {P₀ : σ → Prop} (hne : token ≠ [])
    (hfirst : Prog.Triple P₀ (read token.length) (fun _ => P) E)
    (h : ∀ n, Prog.Triple P (read n) (fun _ => P) E) (fuel : Nat) :
    Prog.Triple P₀ (readUntilToken fuel token read) (fun _ => P) E := by
  cases fuel with
  | zero => exact Prog.triple_hang
  | succ fuel =>
    have hpos : 0 < (reset token).remaining := List.length_pos_iff.mpr hne
    unfold readUntilToken readLoop
    rw [if_pos hpos]
    exact hfirst.bind fun _ => triple_readLoop h fuel _

section
variable {H : Prop} {P : Nat → σ → Prop} {bound : Nat} (hzero : ∀ s, ¬ P 0 s)
  (hmono : ∀ k s, P k s → P (k + 1) s)
  (h : ∀ k n, k < bound → 0 < n → Prog.Settles H (P (k + 1)) (read n) (fun _ => P k) E)
include hzero hmono h

/-- With fuel for every read that takes from the measure, the loop ends. -/
theorem settles_readLoop {fuel k : Nat} (hk : k ≤ fuel) (hle : k ≤ bound) (t : State α) :
    Prog.Settles H (P k) (readLoop token read fuel t) (fun _ => P k) E := by
  induction fuel generalizing k t with
  | zero =>
    obtain rfl : k = 0 := by omega
    exact Prog.settles_of_false hzero
  | succ fuel ih =>
    cases k with
    | zero => exact Prog.settles_of_false hzero
    | succ k =>
      unfold readLoop
      split
      · next hpos =>
        exact (h k _ (by omega) hpos).bind fun _ =>
          (ih (by omega) (by omega) _).mono (fun _ hs => hs) (fun _ => hmono k) fun _ _ he => he
      · exact fun s hs => hs

theorem settles_readUntilToken (hne : token ≠ []) {fuel k : Nat} (hk : k < fuel)
    (hlt : k < bound) :
    Prog.Settles H (P (k + 1)) (readUntilToken fuel token read) (fun _ => P k) E := by
  obtain ⟨fuel, rfl⟩ : ∃ n, fuel = n + 1 := ⟨fuel - 1, by omega⟩
  have hpos : 0 < (reset token).remaining := List.length_pos_iff.mpr hne
  unfold readUntilToken readLoop
  rw [if_pos hpos]
  exact (h k _ hlt hpos).bind fun _ =>
    settles_readLoop hzero hmono h (by omega) (by omega) _

end

end

/-! ## What a `FixedGapMatcher` knows about the text -/

namespace FixedGapMatcher

/-- The matcher with gap `g` after the text `p`: still looking for the head of
the token, past the head and looking for the rest, or done. -/
inductive Tracks (token : List α) (g : Nat) (p : List α) : FixedGapMatcher → Prop
  | searching (i : Nat) (hi : i < g) (hno : NoOcc (token.take g) p)
      (hb : Border (token.take g) p i) :
      Tracks token g p ⟨g, i, g, if i = 0 then none else some (p.length - i)⟩
  | inGap (a v : List α) (k : Nat) (hp : p = a ++ v) (hf : FirstOcc (token.take g) p a)
      (hno : NoOcc (token.drop g) v) (hb : Border (token.drop g) v k)
      (hk : k < token.length - g) :
      Tracks token g p ⟨g, g, g + k, some (a.length - g)⟩
  | full (a q : List α) (hf : FirstOcc (token.take g) p a) (hq : q <+: p)
      (ho : GapOcc token g q) :
      Tracks token g p ⟨g, g, token.length, some (a.length - g)⟩

theorem tracks_new (token : List α) {g : Nat} (hg : 1 ≤ g) (hgl : g ≤ token.length) :
    Tracks token g [] (new g) := by
  have hne : token.take g ≠ [] := by
    intro h
    have := congrArg List.length h
    simp only [List.length_take, List.length_nil] at this
    omega
  have h : Tracks token g [] _ := Tracks.searching 0 hg (noOcc_nil hne) (border_nil _ hne)
  simpa [new] using h

theorem tracks_maxPass_lt {token p : List α} {g : Nat} (hgl : g ≤ token.length)
    {m : FixedGapMatcher} (h : Tracks token g p m)
    (hno : ∀ q, q <+: p → ¬ GapOcc token g q) :
    m.maxPass < token.length ∧ fullMatch token m = false := by
  cases h with
  | searching i hi _ _ =>
    simp only [maxPass, fullMatch, firstGroupFound, Bool.and_eq_false_imp, decide_eq_true_eq]
    omega
  | inGap a v k _ _ _ _ hk =>
    simp only [maxPass, fullMatch, firstGroupFound, le_refl, decide_true, Bool.true_and,
      decide_eq_false_iff_not]
    omega
  | full a q _ hq ho => exact absurd ho (hno q hq)

theorem tracks_full {token p q : List α} {g : Nat} {m : FixedGapMatcher}
    (h : Tracks token g p m) (hq : q <+: p) (ho : GapOcc token g q) :
    m.maxPass = token.length ∧ fullMatch token m = true ∧
      ∃ a, FirstOcc (token.take g) p a ∧ m.matchStart = some (a.length - g) := by
  cases h with
  | searching i hi hno _ => exact absurd ho (hno.not_gapOcc hq)
  | inGap a v k hp hf hno _ _ =>
    subst hp
    obtain ⟨v', hv, -, hs⟩ := hf.gapOcc_prefix hq ho
    exact absurd hs (hno v' hv)
  | full a _ hf _ _ =>
    exact ⟨by simp [maxPass], by simp [fullMatch, firstGroupFound], a, hf, rfl⟩

theorem tracks_maxPass_le {token p : List α} {g : Nat} (hgl : g ≤ token.length)
    {m : FixedGapMatcher} (h : Tracks token g p m) : m.maxPass ≤ token.length := by
  cases h with
  | searching i hi _ _ =>
    simp only [maxPass]
    omega
  | inGap a v k _ _ _ _ hk =>
    simp only [maxPass]
    omega
  | full a q _ _ _ => simp [maxPass]

theorem tracks_gapStart_le {token p : List α} {g : Nat} (hgl : g ≤ token.length)
    {m : FixedGapMatcher} (h : Tracks token g p m) : m.gapStart ≤ m.lastGroupIdx := by
  cases h with
  | searching => exact le_rfl
  | inGap => exact Nat.le_add_right ..
  | full => exact hgl

variable [DecidableEq α]

theorem tracks_findIdx_searching {token p : List α} (hnd : token.Nodup) {g i : Nat}
    (hgl : g ≤ token.length) (hi : i < g) (hno : NoOcc (token.take g) p)
    (hb : Border (token.take g) p i) (c : α) :
    Tracks token g (p ++ [c]) (findIdx token c p.length
      ⟨g, i, g, if i = 0 then none else some (p.length - i)⟩) := by
  have hlen : (token.take g).length = g := by simp [hgl]
  have hip := hb.2.1.length_le
  simp only [List.length_take] at hip
  have hget : ∀ j < g, (token.take g)[j]? = token[j]? := fun j hj => by
    rw [List.getElem?_take, if_pos hj]
  have hb' := advance_border (hnd.sublist (List.take_sublist g token)) (by omega) hb c
  -- a border shorter than the head: go on searching
  have shorter : ∀ j < g, advance (token.take g) i c = j →
      Tracks token g (p ++ [c])
        ⟨g, j, g, if j = 0 then none else some ((p ++ [c]).length - j)⟩ := by
    intro j hj hadv
    rw [hadv] at hb'
    exact .searching j hj (noOcc_concat.mpr ⟨hno, hb'.not_suffix (by omega)⟩) hb'
  have hnf : ¬ g ≤ i := by omega
  simp only [findIdx, updateLast, updateFirst, firstGroupFound, hnf, decide_false,
    Bool.false_and, Bool.false_eq_true, ↓reduceIte]
  unfold advance at hb' shorter
  rw [hget i hi, hget 0 (by omega)] at hb' shorter
  by_cases hc : token[i]? = some c
  · simp only [hc, ↓reduceIte] at hb' shorter ⊢
    have hstart : (if (if i = 0 then none else some (p.length - i)) = none then some p.length
        else (if i = 0 then none else some (p.length - i))) = some (p.length - i) := by
      by_cases h0 : i = 0 <;> simp [h0]
    rw [hstart]
    by_cases hg : i + 1 < g
    · have h := shorter (i + 1) hg rfl
      simpa using h
    · -- the head of the token is complete
      obtain rfl : g = i + 1 := by omega
      have hs : token.take (i + 1) <:+ p ++ [c] := by
        have h := hb'.2.1
        rwa [List.take_of_length_le (by omega)] at h
      have hf := hno.firstOcc_concat hs
      have hstart' : some (p.length - i) = some ((p ++ [c]).length - (i + 1)) := by
        simp
      rw [hstart']
      by_cases hfull : i + 1 = token.length
      · have ho : GapOcc token (i + 1) (p ++ [c]) :=
          ⟨p ++ [c], [], by simp, hs, by simp [hfull]⟩
        have h := Tracks.full (p ++ [c]) (p ++ [c]) hf List.prefix_rfl ho
        rwa [← hfull] at h
      · have hd : token.drop (i + 1) ≠ [] := by
          simp only [ne_eq, List.drop_eq_nil_iff]
          omega
        exact .inGap (p ++ [c]) [] 0 (by simp) hf (noOcc_nil hd) (border_nil _ hd) (by omega)
  · simp only [hc, ↓reduceIte] at hb' shorter ⊢
    by_cases h0 : token[0]? = some c
    · have hi0 : i ≠ 0 := by
        rintro rfl
        exact hc h0
      simp only [h0, hi0, ne_eq, not_false_eq_true, and_self, ↓reduceIte] at shorter ⊢
      have h := shorter 1 (by omega) rfl
      simpa using h
    · simp only [h0, and_false, ↓reduceIte] at shorter ⊢
      have h := shorter 0 (by omega) rfl
      simpa using h

theorem tracks_findIdx_inGap {token a v : List α} (hnd : token.Nodup) {g k : Nat}
    (hf : FirstOcc (token.take g) (a ++ v) a) (hno : NoOcc (token.drop g) v)
    (hb : Border (token.drop g) v k) (hk : k < token.length - g) (c : α) (pos : Nat) :
    Tracks token g (a ++ v ++ [c]) (findIdx token c pos ⟨g, g, g + k, some (a.length - g)⟩) := by
  have hlen : (token.drop g).length = token.length - g := List.length_drop
  have hb' := advance_border (hnd.sublist (List.drop_sublist g token)) (by omega) hb c
  have hle := hb'.1
  have hstep : findIdx token c pos ⟨g, g, g + k, some (a.length - g)⟩ =
      ⟨g, g, g + advance (token.drop g) k c, some (a.length - g)⟩ := by
    have hnfull : ¬ token.length ≤ g + k := by omega
    simp only [findIdx, updateLast, updateFirst, firstGroupFound, fullMatch, advance,
      List.getElem?_drop, hnfull, le_refl, decide_true, decide_false, Bool.and_false,
      Bool.not_false, Bool.and_self, ↓reduceIte, Nat.add_zero]
    by_cases hc : token[g + k]? = some c
    · simp [hc, Nat.add_assoc]
    · simp [hc]
  rw [hstep]
  rcases Nat.lt_or_ge (advance (token.drop g) k c) (token.length - g) with hlt | hge
  · exact .inGap a (v ++ [c]) _ (by simp) (hf.concat c)
      (noOcc_concat.mpr ⟨hno, hb'.not_suffix (by omega)⟩) hb' hlt
  · have hadv : advance (token.drop g) k c = (token.drop g).length := by omega
    rw [hadv] at hb' ⊢
    have hs := hb'.suffix
    have ho : GapOcc token g (a ++ v ++ [c]) :=
      ⟨a, v ++ [c], by simp, hf.2.1, hs⟩
    have h := Tracks.full a (a ++ v ++ [c]) (hf.concat c) List.prefix_rfl ho
    rwa [show token.length = g + (token.drop g).length by omega] at h

theorem findIdx_full {token : List α} {g n : Nat} (c : α) (pos : Nat) (start : Option Nat)
    (hn : token.length ≤ n) : findIdx token c pos ⟨g, g, n, start⟩ = ⟨g, g, n, start⟩ := by
  simp [findIdx, updateLast, updateFirst, firstGroupFound, fullMatch, hn]

/-- **Matcher step.**  One symbol keeps the matcher in step with the text. -/
theorem tracks_findIdx {token p : List α} (hnd : token.Nodup) {g : Nat} (hgl : g ≤ token.length)
    {m : FixedGapMatcher} (h : Tracks token g p m) (c : α) :
    Tracks token g (p ++ [c]) (findIdx token c p.length m) := by
  cases h with
  | searching i hi hno hb => exact tracks_findIdx_searching hnd hgl hi hno hb c
  | inGap a v k hp hf hno hb hk =>
    subst hp
    exact tracks_findIdx_inGap hnd hf hno hb hk c _
  | full a q hf hq ho =>
    rw [findIdx_full c _ _ le_rfl]
    exact .full a q (hf.concat c) (hq.trans (List.prefix_append ..)) ho

theorem find_tracks {token p : List α} (hnd : token.Nodup) {g : Nat} (hgl : g ≤ token.length)
    {m : FixedGapMatcher} (h : Tracks token g p m) (s : List α) :
    Tracks token g (p ++ s) (find token s p.length m) := by
  induction s generalizing p m with
  | nil => simpa [find] using h
  | cons c s ih =>
    have := ih (tracks_findIdx hnd hgl h c)
    simpa [find] using this

theorem find_append (token s t : List α) (n : Nat) (m : FixedGapMatcher) :
    find token (s ++ t) n m = find token t (n + s.length) (find token s n m) := by
  induction s generalizing n m with
  | nil => rfl
  | cons c s ih =>
    simp only [List.cons_append, find, ih, List.length_cons]
    congr 1
    omega

theorem findIdx_maxPass_le (token : List α) (c : α) (pos : Nat) {m : FixedGapMatcher}
    (h : m.gapStart ≤ m.lastGroupIdx) :
    (findIdx token c pos m).maxPass ≤ m.maxPass + 1 ∧
      (findIdx token c pos m).gapStart ≤ (findIdx token c pos m).lastGroupIdx := by
  unfold findIdx updateLast
  by_cases hf : m.firstGroupFound
  · -- only the last group moves
    have hf' : ∀ n, ({ m with lastGroupIdx := n } : FixedGapMatcher).firstGroupFound = true :=
      fun _ => hf
    simp only [hf, Bool.true_and]
    split
    · split <;> simp only [updateFirst, hf', ↓reduceIte, maxPass]
      · omega
      · split <;> omega
    · simp only [updateFirst, hf, ↓reduceIte]
      omega
  · -- only the first group moves
    simp only [hf, Bool.false_and, Bool.false_eq_true, ↓reduceIte, updateFirst]
    split
    · simp only [maxPass]
      omega
    · split <;> simp only [maxPass] <;> omega

/-- **No over-reading.**  `n` symbols raise the matched length by at most `n`. -/
theorem maxPass_find_le (token s : List α) (pos : Nat) {m : FixedGapMatcher}
    (h : m.gapStart ≤ m.lastGroupIdx) :
    (find token s pos m).maxPass ≤ m.maxPass + s.length := by
  induction s generalizing pos m with
  | nil => simp [find]
  | cons c s ih =>
    obtain ⟨h1, h2⟩ := findIdx_maxPass_le token c pos h
    have := ih (pos + 1) h2
    simp only [find, List.length_cons]
    omega

end FixedGapMatcher

/-! ## The matchers together -/

namespace SingleGapMatcher

theorem foldl_max_le {l : List Nat} {b n : Nat} (hb : b ≤ n) (h : ∀ x ∈ l, x ≤ n) :
    l.foldl max b ≤ n := by
  induction l generalizing b with
  | nil => exact hb
  | cons x l ih =>
    exact ih (max_le hb (h x (List.mem_cons_self ..)))
      (fun y hy => h y (List.mem_cons_of_mem _ hy))

theorem le_foldl_max {l : List Nat} {b : Nat} : b ≤ l.foldl max b ∧ ∀ x ∈ l, x ≤ l.foldl max b := by
  induction l generalizing b with
  | nil => simp
  | cons x l ih =>
    obtain ⟨h1, h2⟩ := ih (b := max b x)
    refine ⟨(le_max_left b x).trans h1, ?_⟩
    rintro y hy
    rcases List.mem_cons.mp hy with rfl | hy
    · exact (le_max_right b y).trans h1
    · exact h2 y hy

theorem maxPass_le {ms : SingleGapMatcher} {n : Nat} (h : ∀ m ∈ ms, m.maxPass ≤ n) :
    maxPass ms ≤ n := by
  refine foldl_max_le (Nat.zero_le _) ?_
  intro x hx
  obtain ⟨m, hm, rfl⟩ := List.mem_map.mp hx
  exact h m hm

theorem le_maxPass {ms : SingleGapMatcher} {m : FixedGapMatcher} (h : m ∈ ms) :
    m.maxPass ≤ maxPass ms :=
  le_foldl_max.2 _ (List.mem_map_of_mem h)

theorem mem_range_gap {token : List α} {g : Nat} :
    g ∈ List.range' 1 token.length ↔ 1 ≤ g ∧ g ≤ token.length := by
  rw [List.mem_range'_1]
  omega

variable [DecidableEq α]

/-- The matchers after the text `p`. -/
def after (token p : List α) : SingleGapMatcher :=
  (List.range' 1 token.length).map fun g =>
    FixedGapMatcher.find token p 0 (FixedGapMatcher.new g)

theorem after_nil (token : List α) : after token [] = new token := rfl

theorem after_tracks {token : List α} (hnd : token.Nodup) (p : List α) {g : Nat}
    (hg : 1 ≤ g) (hgl : g ≤ token.length) :
    FixedGapMatcher.Tracks token g p (FixedGapMatcher.find token p 0 (FixedGapMatcher.new g)) := by
  simpa using FixedGapMatcher.find_tracks hnd hgl (FixedGapMatcher.tracks_new token hg hgl) p

theorem find_after_map (token p s : List α) :
    (after token p).map (FixedGapMatcher.find token s p.length) = after token (p ++ s) := by
  simp only [after, List.map_map]
  apply List.map_congr_left
  intro g _
  simp [FixedGapMatcher.find_append]

/-- No full match: every matcher is fed. -/
theorem findUntilFull_map {token s : List α} {n : Nat} {ms : SingleGapMatcher}
    (h : ∀ m ∈ ms, FixedGapMatcher.fullMatch token (FixedGapMatcher.find token s n m) = false) :
    findUntilFull token s n ms = ms.map (FixedGapMatcher.find token s n) := by
  induction ms with
  | nil => rfl
  | cons m ms ih =>
    have hm := h m (List.mem_cons_self ..)
    simp only [findUntilFull, hm, Bool.false_eq_true, ↓reduceIte, List.map_cons,
      ih (fun m' hm' => h m' (List.mem_cons_of_mem _ hm'))]

/-- The first full match is found whether or not the matchers after it are fed. -/
theorem findUntilFull_find? (token s : List α) (n : Nat) (ms : SingleGapMatcher)
    (h : ∃ m ∈ ms, FixedGapMatcher.fullMatch token (FixedGapMatcher.find token s n m) = true) :
    (findUntilFull token s n ms).find? (FixedGapMatcher.fullMatch token) =
      (ms.map (FixedGapMatcher.find token s n)).find? (FixedGapMatcher.fullMatch token) := by
  induction ms with
  | nil => simp at h
  | cons m ms ih =>
    cases hm : FixedGapMatcher.fullMatch token (FixedGapMatcher.find token s n m)
    · have h' : ∃ m ∈ ms,
          FixedGapMatcher.fullMatch token (FixedGapMatcher.find token s n m) = true := by
        obtain ⟨m', hm', hf⟩ := h
        rcases List.mem_cons.mp hm' with rfl | hm'
        · rw [hm] at hf
          exact absurd hf Bool.false_ne_true
        · exact ⟨m', hm', hf⟩
      simp only [findUntilFull, hm, Bool.false_eq_true, ↓reduceIte, List.map_cons,
        not_false_eq_true, List.find?_cons_of_neg, ih h']
    · simp only [findUntilFull, hm, ↓reduceIte, List.map_cons, List.find?_cons_of_pos]

theorem mem_findUntilFull {token s : List α} {n : Nat} {ms : SingleGapMatcher}
    {m' : FixedGapMatcher} (h : m' ∈ findUntilFull token s n ms) :
    m' ∈ ms ∨ m' ∈ ms.map (FixedGapMatcher.find token s n) := by
  induction ms with
  | nil => simp [findUntilFull] at h
  | cons m ms ih =>
    simp only [findUntilFull] at h
    split at h
    · rcases List.mem_cons.mp h with rfl | h
      · exact .inr (List.mem_cons_self ..)
      · exact .inl (List.mem_cons_of_mem _ h)
    · rcases List.mem_cons.mp h with rfl | h
      · exact .inr (List.mem_cons_self ..)
      · rcases ih h with h | h
        · exact .inl (List.mem_cons_of_mem _ h)
        · exact .inr (List.mem_cons_of_mem _ h)

theorem maxPass_after_lt {token : List α} (hnd : token.Nodup) (hne : token ≠ []) {p : List α}
    (hno : NoGap token p) : maxPass (after token p) < token.length := by
  have hlen : 0 < token.length := List.length_pos_iff.mpr hne
  suffices maxPass (after token p) ≤ token.length - 1 by omega
  refine maxPass_le fun m hm => ?_
  obtain ⟨g, hg, rfl⟩ := List.mem_map.mp hm
  obtain ⟨hg1, hg2⟩ := mem_range_gap.mp hg
  have := (FixedGapMatcher.tracks_maxPass_lt hg2 (after_tracks hnd p hg1 hg2)
    (fun q hq ho => hno q hq ⟨g, hg1, hg2, ho⟩)).1
  omega

/-- The matched length cannot grow faster than the text. -/
theorem length_add_sub_maxPass_le {token : List α} (hnd : token.Nodup) {p P : List α}
    (hp : p <+: P) (hP : GapMatch token P) :
    p.length + (token.length - maxPass (after token p)) ≤ P.length := by
  obtain ⟨s, rfl⟩ := hp
  obtain ⟨g, hg1, hg2, ho⟩ := hP
  have hfull := (FixedGapMatcher.tracks_full (after_tracks hnd (p ++ s) hg1 hg2)
    List.prefix_rfl ho).1
  have ht := after_tracks hnd p hg1 hg2
  have hgrow := FixedGapMatcher.maxPass_find_le token s p.length
    (FixedGapMatcher.tracks_gapStart_le hg2 ht)
  have happ := FixedGapMatcher.find_append token p s 0 (FixedGapMatcher.new g)
  rw [Nat.zero_add] at happ
  rw [happ] at hfull
  have hle : (FixedGapMatcher.find token p 0 (FixedGapMatcher.new g)).maxPass ≤
      maxPass (after token p) :=
    le_maxPass (List.mem_map_of_mem (mem_range_gap.mpr ⟨hg1, hg2⟩))
  simp only [List.length_append]
  omega

theorem find_after {token : List α} (hnd : token.Nodup) {p s : List α}
    (hno : NoGap token (p ++ s)) :
    find token s p.length (after token p) = after token (p ++ s) := by
  have h : ∀ m ∈ (after token p).reverse,
      FixedGapMatcher.fullMatch token (FixedGapMatcher.find token s p.length m) = false := by
    intro m hm
    obtain ⟨g, hg, rfl⟩ := List.mem_map.mp (List.mem_reverse.mp hm)
    obtain ⟨hg1, hg2⟩ := mem_range_gap.mp hg
    exact (FixedGapMatcher.tracks_maxPass_lt hg2
      (FixedGapMatcher.find_tracks hnd hg2 (after_tracks hnd p hg1 hg2) s)
      (fun q hq ho => hno q hq ⟨g, hg1, hg2, ho⟩)).2
  rw [find, findUntilFull_map h, List.map_reverse, List.reverse_reverse, find_after_map]

/-- Among the matchers after `P`, tried from the latest gap on, the first full
one is the one with the latest gap. -/
theorem find?_after {token : List α} (hnd : token.Nodup) {P : List α} {g : Nat} (hg1 : 1 ≤ g)
    (hg2 : g ≤ token.length) (ho : GapOcc token g P)
    (hlast : ∀ g', g < g' → g' ≤ token.length → ¬ GapOcc token g' P)
    (hmin : ∀ q, q <+: P → GapMatch token q → q = P) :
    (after token P).reverse.find? (FixedGapMatcher.fullMatch token) =
      some (FixedGapMatcher.find token P 0 (FixedGapMatcher.new g)) := by
  have hsplit : List.range' 1 token.length =
      List.range' 1 (g - 1) ++ g :: List.range' (g + 1) (token.length - g) := by
    have h1 : token.length = (g - 1) + (1 + (token.length - g)) := by omega
    conv_lhs => rw [h1, ← List.range'_append_1, ← List.range'_append_1]
    rw [show 1 + (g - 1) = g by omega]
    rfl
  have hnone : ∀ m ∈ ((List.range' (g + 1) (token.length - g)).reverse.map fun g' =>
      FixedGapMatcher.find token P 0 (FixedGapMatcher.new g')),
      ¬ FixedGapMatcher.fullMatch token m = true := by
    intro m hm
    obtain ⟨g', hg', rfl⟩ := List.mem_map.mp hm
    rw [List.mem_reverse, List.mem_range'_1] at hg'
    have h := (FixedGapMatcher.tracks_maxPass_lt (by omega)
      (after_tracks hnd P (g := g') (by omega) (by omega)) (fun q hq hoq => by
        obtain rfl := hmin q hq ⟨g', by omega, by omega, hoq⟩
        exact hlast g' (by omega) (by omega) hoq)).2
    rw [h]
    exact Bool.false_ne_true
  have hfull := (FixedGapMatcher.tracks_full (after_tracks hnd P hg1 hg2) List.prefix_rfl ho).2.1
  rw [after, ← List.map_reverse, hsplit, List.reverse_append, List.reverse_cons, List.map_append,
    List.map_append, List.append_assoc, List.find?_append,
    List.find?_eq_none.mpr hnone, Option.none_or]
  simp only [List.map_cons, List.map_nil, List.singleton_append]
  rw [List.find?_cons_of_pos hfull]

/-- At the end of the first gap occurrence the match is complete, and its
start is that of the occurrence with the latest gap. -/
theorem find_after_full {token : List α} (hnd : token.Nodup) {p s : List α}
    (hP : Shortest token (p ++ s)) :
    maxPass (find token s p.length (after token p)) = token.length ∧
      ∃ g, 1 ≤ g ∧ g ≤ token.length ∧ GapOcc token g (p ++ s) ∧
        (∀ g', g < g' → g' ≤ token.length → ¬ GapOcc token g' (p ++ s)) ∧
        ∃ a, FirstOcc (token.take g) (p ++ s) a ∧
          matchStart token (find token s p.length (after token p)) = some (a.length - g) := by
  obtain ⟨g, hg1, hg2, ho, hlast⟩ := exists_latest_gap hP.1
  have ht := after_tracks hnd (p ++ s) hg1 hg2
  obtain ⟨hmax, hfull, a, hfa, hstart⟩ := FixedGapMatcher.tracks_full ht List.prefix_rfl ho
  have hmap : (after token p).reverse.map (FixedGapMatcher.find token s p.length) =
      (after token (p ++ s)).reverse := by
    rw [List.map_reverse, find_after_map]
  have hfound : (find token s p.length (after token p)).reverse.find?
      (FixedGapMatcher.fullMatch token) =
        some (FixedGapMatcher.find token (p ++ s) 0 (FixedGapMatcher.new g)) := by
    rw [find, List.reverse_reverse, findUntilFull_find?, hmap,
      find?_after hnd hg1 hg2 ho hlast hP.2]
    refine ⟨FixedGapMatcher.find token p 0 (FixedGapMatcher.new g),
      List.mem_reverse.mpr (List.mem_map_of_mem (mem_range_gap.mpr ⟨hg1, hg2⟩)), ?_⟩
    have happ := FixedGapMatcher.find_append token p s 0 (FixedGapMatcher.new g)
    rw [Nat.zero_add] at happ
    rw [← happ]
    exact hfull
  refine ⟨le_antisymm (maxPass_le fun m hm => ?_) ?_, g, hg1, hg2, ho, hlast, a, hfa, ?_⟩
  · rcases mem_findUntilFull (List.mem_reverse.mp hm) with h | h
    · obtain ⟨g', hg', rfl⟩ := List.mem_map.mp (List.mem_reverse.mp h)
      obtain ⟨h1, h2⟩ := mem_range_gap.mp hg'
      exact FixedGapMatcher.tracks_maxPass_le h2 (after_tracks hnd p h1 h2)
    · rw [hmap] at h
      obtain ⟨g', hg', rfl⟩ := List.mem_map.mp (List.mem_reverse.mp h)
      obtain ⟨h1, h2⟩ := mem_range_gap.mp hg'
      exact FixedGapMatcher.tracks_maxPass_le h2 (after_tracks hnd (p ++ s) h1 h2)
  · rw [← hmax]
    exact le_maxPass (List.mem_reverse.mp (List.mem_of_find?_eq_some hfound))
  · rw [matchStart, hfound, Option.bind_some, hstart]

end SingleGapMatcher

/-! ## The reader -/

variable [DecidableEq α]

/-- The reader after the text `p`. -/
def stateAfter (token p : List α) : State α :=
  ⟨p, token.length - SingleGapMatcher.maxPass (SingleGapMatcher.after token p),
    SingleGapMatcher.after token p⟩

theorem reset_eq (token : List α) : reset token = stateAfter token [] := by
  have h : SingleGapMatcher.maxPass (SingleGapMatcher.new token) = 0 := by
    refine Nat.le_zero.mp (SingleGapMatcher.maxPass_le fun m hm => ?_)
    obtain ⟨g, -, rfl⟩ := List.mem_map.mp hm
    simp [FixedGapMatcher.maxPass, FixedGapMatcher.new]
  simp [reset, stateAfter, SingleGapMatcher.after_nil, h]

theorem feed_stateAfter {token p s : List α} (hnd : token.Nodup) (hno : NoGap token (p ++ s)) :
    feed token s (stateAfter token p) = stateAfter token (p ++ s) := by
  simp only [feed, stateAfter, SingleGapMatcher.find_after hnd hno]

/-- What `read_until_token` returns once the text `P` has been consumed: the
text before the head of the occurrence with the latest gap. -/
def Returned (token P u : List α) : Prop :=
  ∃ g, 1 ≤ g ∧ g ≤ token.length ∧ GapOcc token g P ∧
    (∀ g', g < g' → g' ≤ token.length → ¬ GapOcc token g' P) ∧
    FirstOcc (token.take g) P (u ++ token.take g)

theorem feed_shortest {token p s : List α} (hnd : token.Nodup) (hP : Shortest token (p ++ s)) :
    (feed token s (stateAfter token p)).remaining = 0 ∧
      Returned token (p ++ s) (result token (feed token s (stateAfter token p))) := by
  obtain ⟨hmax, g, hg1, hg2, ho, hlast, a, hfa, hstart⟩ :=
    SingleGapMatcher.find_after_full hnd hP
  refine ⟨by simp only [feed, stateAfter, hmax, Nat.sub_self], g, hg1, hg2, ho, hlast, ?_⟩
  obtain ⟨u, rfl⟩ := hfa.2.1
  obtain ⟨v, hv⟩ := hfa.1
  have hlen : (u ++ token.take g).length - g = u.length := by
    rw [List.length_append, List.length_take, Nat.min_eq_left hg2, Nat.add_sub_cancel]
  have hres : result token (feed token s (stateAfter token p)) = u := by
    simp only [result, feed, stateAfter, hstart, hlen, ← hv, List.append_assoc,
      List.take_left']
  rw [hres]
  exact hfa

section
variable {ε σ : Type} {token : List α} {read : Nat → Prog ε σ (List α)}
  {R : List α → σ → Prop}

omit [DecidableEq α] in
/-- While the text `xs` comes next (`R xs`), a read of at most that much takes it
from there, or it does not return. -/
def TakesFrom (read : Nat → Prog ε σ (List α)) (R : List α → σ → Prop) : Prop :=
  ∀ n xs s, R xs s → n ≤ xs.length →
    (∃ s', read n s = .ret (xs.take n) s' ∧ R (xs.drop n) s') ∨ ∀ a s', read n s ≠ .ret a s'

/-- The loop of the reader, from the text `p` on, when the stream goes on with
the rest of the first gap occurrence.  It ends with a read that does not return. -/
theorem readLoop_shortest (hnd : token.Nodup) (hne : token ≠ []) (hread : TakesFrom read R)
    {rest : List α} (fuel : Nat) (p x : List α) (s : σ) (hP : Shortest token (p ++ x))
    (hx : x ≠ []) (hfuel : x.length < fuel) (hs : R (x ++ rest) s) :
    (∃ u s', readLoop token read fuel (stateAfter token p) s = .ret u s' ∧ R rest s' ∧
        Returned token (p ++ x) u) ∨
      ∃ n y s₁, n ≤ token.length ∧ n ≤ y.length ∧ R y s₁ ∧ (∀ a s', read n s₁ ≠ .ret a s') ∧
        readLoop token read fuel (stateAfter token p) s = read n s₁ := by
  induction fuel generalizing p x s with
  | zero => omega
  | succ fuel ih =>
    have hno : NoGap token p := by
      intro q hq hm
      have hqe := hP.2 q (hq.trans (List.prefix_append ..)) hm
      have := hq.length_le
      rw [hqe, List.length_append] at this
      exact hx (List.length_eq_zero_iff.mp (by omega))
    have hlt := SingleGapMatcher.maxPass_after_lt hnd hne hno
    have hle := SingleGapMatcher.length_add_sub_maxPass_le hnd (List.prefix_append p x) hP.1
    let r := (stateAfter token p).remaining
    have hr : 0 < r ∧ r ≤ x.length := by
      simp only [r, stateAfter]
      rw [List.length_append] at hle
      omega
    have hrtoken : r ≤ token.length := Nat.sub_le ..
    have hrlen : r ≤ (x ++ rest).length := by
      rw [List.length_append]
      omega
    rw [readLoop, if_pos hr.1]
    rcases hread r (x ++ rest) s hs hrlen with ⟨s', hrd, hs'⟩ | hstop
    · rw [List.take_append_of_le_length hr.2] at hrd
      rw [List.drop_append_of_le_length hr.2] at hs'
      rw [Prog.bind_ret hrd]
      have hsplit : p ++ x.take r ++ x.drop r = p ++ x := by
        rw [List.append_assoc, List.take_append_drop]
      by_cases hend : x.drop r = []
      · -- the read ends with the occurrence
        have htake : x.take r = x := by
          have := List.take_append_drop r x
          rwa [hend, List.append_nil] at this
        rw [htake]
        rw [hend, List.nil_append] at hs'
        obtain ⟨hz, hret⟩ := feed_shortest hnd hP
        refine .inl ⟨_, s', ?_, hs', hret⟩
        cases fuel with
        | zero => omega
        | succ fuel => rw [readLoop, if_neg (by omega), Prog.pure_run]
      · have hno' : NoGap token (p ++ x.take r) := by
          intro q hq hm
          have hqp : q <+: p ++ x := hq.trans (hsplit ▸ List.prefix_append ..)
          have hqe := hP.2 q hqp hm
          have := hq.length_le
          rw [hqe, List.length_append, List.length_append, List.length_take] at this
          exact hend (List.drop_eq_nil_iff.mpr (by omega))
        rw [feed_stateAfter hnd hno']
        have h := ih (p ++ x.take r) (x.drop r) s' (by rw [hsplit]; exact hP) hend
          (by rw [List.length_drop]; omega) hs'
        rwa [hsplit] at h
    · exact .inr ⟨r, _, s, hrtoken, hrlen, hs, hstop, Prog.bind_of_ne_ret hstop⟩

/-- `read_until_token` consumes exactly the first gap occurrence, or it ends with
a read that does not return. -/
theorem readUntilToken_takes (hnd : token.Nodup) (hne : token ≠ []) (hread : TakesFrom read R)
    {P rest : List α} {s : σ} (hP : Shortest token P) {fuel : Nat} (hfuel : P.length < fuel)
    (hs : R (P ++ rest) s) :
    (∃ u s', readUntilToken fuel token read s = .ret u s' ∧ R rest s' ∧ Returned token P u) ∨
      ∃ n y s₁, n ≤ token.length ∧ n ≤ y.length ∧ R y s₁ ∧ (∀ a s', read n s₁ ≠ .ret a s') ∧
        readUntilToken fuel token read s = read n s₁ := by
  have hP0 : P ≠ [] := by
    rintro rfl
    have := gapMatch_length hP.1
    exact hne (List.length_eq_zero_iff.mp (by simpa using this))
  rw [readUntilToken, reset_eq]
  exact readLoop_shortest hnd hne hread fuel [] P s hP hP0 hfuel hs

omit [DecidableEq α] in
theorem takesFrom_of_ret
    (hread : ∀ xs ys s, R (xs ++ ys) s → ∃ s', read xs.length s = .ret xs s' ∧ R ys s') {n : Nat}
    {xs : List α} {s : σ} (hs : R xs s) (hn : n ≤ xs.length) :
    ∃ s', read n s = .ret (xs.take n) s' ∧ R (xs.drop n) s' := by
  obtain ⟨s', hrd, hs'⟩ := hread (xs.take n) (xs.drop n) s (by rw [List.take_append_drop]; exact hs)
  rw [List.length_take, Nat.min_eq_left hn] at hrd
  exact ⟨s', hrd, hs'⟩

/-- **`read_until_token` consumes exactly the first gap occurrence.** -/
theorem readUntilToken_shortest (hnd : token.Nodup) (hne : token ≠ [])
    (hread : ∀ xs ys s, R (xs ++ ys) s → ∃ s', read xs.length s = .ret xs s' ∧ R ys s')
    {P rest : List α} {s : σ} (hP : Shortest token P) {fuel : Nat} (hfuel : P.length < fuel)
    (hs : R (P ++ rest) s) :
    ∃ u s', readUntilToken fuel token read s = .ret u s' ∧ R rest s' ∧ Returned token P u := by
  have htakes : TakesFrom read R := fun n xs s hs hn => .inl (takesFrom_of_ret hread hs hn)
  rcases readUntilToken_takes hnd hne htakes hP hfuel hs with h | ⟨n, y, s₁, -, hn, hy, hno, -⟩
  · exact h
  · obtain ⟨s', hrd, -⟩ := takesFrom_of_ret hread hy hn
    exact absurd hrd (hno _ _)

omit [DecidableEq α] in
/-- Before the whole token, nothing but the text before it is returned. -/
theorem Returned.eq_of_append {w u : List α} (hP : Shortest token (w ++ token))
    (h : Returned token (w ++ token) u) : u = w := by
  obtain ⟨g, hg1, hg2, -, hlast, hf⟩ := h
  have hfull : ∀ v, token <:+ v → GapOcc token token.length v := fun v hv =>
    ⟨v, [], by simp, by simpa using hv, by simp⟩
  obtain rfl : g = token.length := by
    by_contra hne
    exact hlast token.length (by omega) le_rfl (hfull _ (List.suffix_append ..))
  rw [List.take_length] at hf
  have := hP.2 _ hf.1 ⟨token.length, hg1, le_rfl, hfull _ (List.suffix_append ..)⟩
  exact List.append_cancel_right this

omit [DecidableEq α] in
/-- What is returned ends before the only occurrence of the first symbol. -/
theorem Returned.eq_of_head {x : α} {w u v : List α} (hx : token.head? = some x) (hw : x ∉ w)
    (hv : x ∉ v) (h : Returned token (w ++ x :: v) u) : u = w := by
  obtain ⟨g, hg, -, -, -, ⟨t, ht⟩, -⟩ := h
  obtain ⟨k, rfl⟩ : ∃ k, g = k + 1 := ⟨g - 1, by omega⟩
  obtain ⟨ys, rfl⟩ : ∃ ys, token = x :: ys := by
    cases token with
    | nil => cases hx
    | cons y ys =>
      cases hx
      exact ⟨ys, rfl⟩
  rw [List.take_succ_cons, List.append_assoc, List.cons_append] at ht
  exact ((List.append_cons_inj_of_notMem hw hv).mp ht.symm).1.symm

/-- The reader skips a text without a gap occurrence and the token after it. -/
theorem readUntilToken_append (hnd : token.Nodup) (hne : token ≠ [])
    (hread : ∀ xs ys s, R (xs ++ ys) s → ∃ s', read xs.length s = .ret xs s' ∧ R ys s')
    {w rest : List α} {s : σ} (hw : NoGap token w) {fuel : Nat}
    (hfuel : w.length + token.length < fuel) (hs : R (w ++ (token ++ rest)) s) :
    ∃ s', readUntilToken fuel token read s = .ret w s' ∧ R rest s' := by
  have hP := shortest_append hnd hne hw
  rw [← List.length_append] at hfuel
  rw [← List.append_assoc] at hs
  obtain ⟨u, s', hrun, hR, hret⟩ := readUntilToken_shortest hnd hne hread hP hfuel hs
  obtain rfl := hret.eq_of_append hP
  exact ⟨s', hrun, hR⟩

/-- When the first read does not return, neither does the reader. -/
theorem readUntilToken_first (hne : token ≠ []) {fuel : Nat} (hfuel : 0 < fuel) {s : σ}
    {o : Option (ε × σ)} (h : read token.length s = Prog.stopped o) :
    readUntilToken fuel token read s = Prog.stopped o := by
  obtain ⟨fuel, rfl⟩ : ∃ n, fuel = n + 1 := ⟨fuel - 1, by omega⟩
  have hpos : 0 < (reset token).remaining := List.length_pos_iff.mpr hne
  rw [readUntilToken, readLoop, if_pos hpos]
  exact Prog.bind_stopped h

/-- The loop of the reader when the stream stops before the occurrence ends. -/
theorem readLoop_stops (hnd : token.Nodup) (hne : token ≠ []) (hread : TakesFrom read R)
    (hstop : ∀ n xs s, R xs s → xs.length < n → ∀ a s', read n s ≠ .ret a s')
    (fuel : Nat) (p x : List α) (s : σ) (hno : NoGap token (p ++ x)) (hfuel : x.length < fuel)
    (hs : R x s) :
    ∃ n y s₁, n ≤ token.length ∧ R y s₁ ∧ (∀ a s', read n s₁ ≠ .ret a s') ∧
      readLoop token read fuel (stateAfter token p) s = read n s₁ := by
  induction fuel generalizing p x s with
  | zero => omega
  | succ fuel ih =>
    have hlt := SingleGapMatcher.maxPass_after_lt hnd hne
      (hno.of_prefix (List.prefix_append ..))
    let r := (stateAfter token p).remaining
    have hr : 0 < r := by
      simp only [r, stateAfter]
      omega
    have hrtoken : r ≤ token.length := Nat.sub_le ..
    rw [readLoop, if_pos hr]
    rcases Nat.lt_or_ge x.length r with hlt | hge
    · have h := hstop r x s hs hlt
      exact ⟨r, x, s, hrtoken, hs, h, Prog.bind_of_ne_ret h⟩
    · rcases hread r x s hs hge with ⟨s', hrd, hs'⟩ | h
      · have hsplit : p ++ x.take r ++ x.drop r = p ++ x := by
          rw [List.append_assoc, List.take_append_drop]
        rw [Prog.bind_ret hrd, feed_stateAfter hnd
          (hno.of_prefix (hsplit ▸ List.prefix_append ..))]
        exact ih _ _ s' (hsplit ▸ hno) (by rw [List.length_drop]; omega) hs'
      · exact ⟨r, x, s, hrtoken, hs, h, Prog.bind_of_ne_ret h⟩

/-- On a text without an occurrence the reader ends with a read that does not
return. -/
theorem readUntilToken_noGap (hnd : token.Nodup) (hne : token ≠ []) (hread : TakesFrom read R)
    (hstop : ∀ n xs s, R xs s → xs.length < n → ∀ a s', read n s ≠ .ret a s')
    {x : List α} {s : σ} (hno : NoGap token x) {fuel : Nat} (hfuel : x.length < fuel)
    (hs : R x s) :
    ∃ n y s₁, n ≤ token.length ∧ R y s₁ ∧ (∀ a s', read n s₁ ≠ .ret a s') ∧
      readUntilToken fuel token read s = read n s₁ := by
  rw [readUntilToken, reset_eq]
  exact readLoop_stops hnd hne hread hstop fuel [] x s hno hfuel hs

/-- When the stream stops inside an incomplete token, so does the reader, and
what it has read is gone. -/
theorem readUntilToken_stops (hnd : token.Nodup) (hne : token ≠ [])
    (hread : ∀ xs ys s, R (xs ++ ys) s → ∃ s', read xs.length s = .ret xs s' ∧ R ys s')
    {o : Outcome ε σ (List α)} (ho : ∀ a s', o ≠ .ret a s')
    (hstop : ∀ n xs s, R xs s → xs.length < n → read n s = o)
    {x : List α} {s : σ} (hno : NoGap token x) {fuel : Nat} (hfuel : x.length < fuel)
    (hs : R x s) : readUntilToken fuel token read s = o := by
  have htakes : TakesFrom read R := fun n xs s hs hn => .inl (takesFrom_of_ret hread hs hn)
  have hstop' : ∀ n xs s, R xs s → xs.length < n → ∀ a s', read n s ≠ .ret a s' := by
    intro n xs s hs hn
    rw [hstop n xs s hs hn]
    exact ho
  obtain ⟨n, y, s₁, -, hy, hnot, hrun⟩ :=
    readUntilToken_noGap hnd hne htakes hstop' hno hfuel hs
  rcases Nat.lt_or_ge y.length n with hlt | hge
  · rw [hrun, hstop n y s₁ hy hlt]
  · obtain ⟨s', hrd, -⟩ := takesFrom_of_ret hread hy hge
    exact absurd hrd (hnot _ _)

/-- What a search that is in the state `t` leaves of the text `x` when it has to
wait for more: less than is missing to complete its best match. -/
def unsearched (token : List α) (t : State α) (x : List α) : List α :=
  if _h : 0 < t.remaining ∧ t.remaining ≤ x.length then
    unsearched token (feed token (x.take t.remaining) t) (x.drop t.remaining)
  else x
termination_by x.length
decreasing_by
  rw [List.length_drop]
  omega

theorem length_unsearched_le (token : List α) (t : State α) (x : List α) :
    (unsearched token t x).length ≤ x.length := by
  fun_induction unsearched token t x with
  | case1 t x h ih =>
    rw [List.length_drop] at ih
    omega
  | case2 => exact le_rfl

theorem readLoop_unsearched (hnd : token.Nodup) (hne : token ≠ [])
    (hread : ∀ xs ys s, R (xs ++ ys) s → ∃ s', read xs.length s = .ret xs s' ∧ R ys s')
    (fuel : Nat) (p x : List α) (s : σ) (hno : NoGap token (p ++ x)) (hfuel : x.length < fuel)
    (hs : R x s) :
    ∃ n s₁ rest, (unsearched token (stateAfter token p) x).length < n ∧
      R (unsearched token (stateAfter token p) x) s₁ ∧
      readLoop token read fuel (stateAfter token p) s = (read n >>= rest) s₁ := by
  induction fuel generalizing p x s with
  | zero => omega
  | succ fuel ih =>
    have hlt := SingleGapMatcher.maxPass_after_lt hnd hne
      (hno.of_prefix (List.prefix_append ..))
    let r := (stateAfter token p).remaining
    have hr : 0 < r := by
      simp only [r, stateAfter]
      omega
    rw [readLoop, if_pos hr]
    rcases Nat.lt_or_ge x.length r with hlt | hge
    · rw [unsearched, dif_neg (by omega)]
      exact ⟨r, s, _, hlt, hs, rfl⟩
    · have hsplit : p ++ x.take r ++ x.drop r = p ++ x := by
        rw [List.append_assoc, List.take_append_drop]
      have hfeed := feed_stateAfter hnd (hno.of_prefix (hsplit ▸ List.prefix_append ..))
      obtain ⟨s', hrd, hs'⟩ := takesFrom_of_ret hread hs hge
      rw [unsearched, dif_pos ⟨hr, hge⟩, Prog.bind_ret hrd, hfeed]
      exact ih _ _ s' (hsplit ▸ hno) (by rw [List.length_drop]; omega) hs'

/-- On a text without an occurrence the reader comes to a read of more than is
left of it. -/
theorem readUntilToken_unsearched (hnd : token.Nodup) (hne : token ≠ [])
    (hread : ∀ xs ys s, R (xs ++ ys) s → ∃ s', read xs.length s = .ret xs s' ∧ R ys s')
    {x : List α} {s : σ} (hno : NoGap token x) {fuel : Nat} (hfuel : x.length < fuel)
    (hs : R x s) :
    ∃ n s₁ rest, (unsearched token (reset token) x).length < n ∧
      R (unsearched token (reset token) x) s₁ ∧
      readUntilToken fuel token read s = (read n >>= rest) s₁ := by
  rw [readUntilToken, reset_eq]
  exact readLoop_unsearched hnd hne hread fuel [] x s hno hfuel hs

/-- A reader that is given texts without an occurrence goes on reading. -/
theorem readLoop_ne_ret (hnd : token.Nodup) (hne : token ≠ [])
    (hread : ∀ n p s a s', R p s → read n s = .ret a s' → NoGap token (p ++ a) ∧ R (p ++ a) s')
    (fuel : Nat) (p : List α) (s : σ) (hno : NoGap token p) (hs : R p s) (u : List α) (s' : σ) :
    readLoop token read fuel (stateAfter token p) s ≠ .ret u s' := by
  induction fuel generalizing p s with
  | zero => nofun
  | succ fuel ih =>
    have hlt := SingleGapMatcher.maxPass_after_lt hnd hne hno
    have hr : 0 < (stateAfter token p).remaining := by
      simp only [stateAfter]
      omega
    rw [readLoop, if_pos hr]
    intro hret
    obtain ⟨a, s₁, hrd, hrest⟩ := Prog.ret_of_bind hret
    obtain ⟨hno', hs'⟩ := hread _ p s a s₁ hs hrd
    rw [feed_stateAfter hnd hno'] at hrest
    exact ih _ s₁ hno' hs' hrest

end

/-! ## Any state, any stream -/

theorem FixedGapMatcher.gapStart_find (token s : List α) (k : Nat) (m : FixedGapMatcher) :
    (FixedGapMatcher.find token s k m).gapStart = m.gapStart := by
  induction s generalizing k m with
  | nil => rfl
  | cons c s ih =>
    rw [FixedGapMatcher.find, ih, findIdx, updateFirst, updateLast]
    repeat' split
    all_goals rfl

theorem SingleGapMatcher.gapStarts_find (token s : List α) (k : Nat) (ms : SingleGapMatcher) :
    (SingleGapMatcher.find token s k ms).map FixedGapMatcher.gapStart =
      ms.map FixedGapMatcher.gapStart := by
  have h : ∀ ms : SingleGapMatcher, (findUntilFull token s k ms).map FixedGapMatcher.gapStart =
      ms.map FixedGapMatcher.gapStart := by
    intro ms
    induction ms with
    | nil => rfl
    | cons m ms ih =>
      rw [findUntilFull]
      split
      · rw [List.map_cons, List.map_cons, FixedGapMatcher.gapStart_find]
      · rw [List.map_cons, List.map_cons, FixedGapMatcher.gapStart_find, ih]
  rw [SingleGapMatcher.find, List.map_reverse, h, List.map_reverse, List.reverse_reverse]

/-- `reset` leads back to the start. -/
theorem Left.reset_eq {token : List α} {ms : SingleGapMatcher} (h : Left token ms) :
    ms.reset = SingleGapMatcher.new token := by
  have hmap : ∀ ms : SingleGapMatcher,
      ms.reset = (ms.map FixedGapMatcher.gapStart).map FixedGapMatcher.new := by
    intro ms
    rw [SingleGapMatcher.reset, List.map_map]
    rfl
  have hstarts : ms.map FixedGapMatcher.gapStart = List.range' 1 token.length := by
    induction h with
    | new =>
      rw [SingleGapMatcher.new, List.map_map]
      exact List.map_id _
    | find s k _ ih => rw [SingleGapMatcher.gapStarts_find, ih]
    | reset _ ih =>
      rw [SingleGapMatcher.reset, List.map_map]
      exact ih
  rw [hmap, hstarts]
  rfl

/-- The text `p` stands at the front of the stream, which may end. -/
def Front (stream : Nat → Option α) (p : List α) : Prop := ∀ i, i < p.length → stream i = p[i]?

/-- `read_until_size` takes the next symbols from the stream.  `At p` says that
`p` was taken. -/
structure ReadsStream {ε σ : Type} (stream : Nat → Option α) (At : List α → σ → Prop)
    (read : Nat → Prog ε σ (List α)) : Prop where
  ret : ∀ p x s, At p s → Front stream (p ++ x) →
    ∃ s', read x.length s = .ret x s' ∧ At (p ++ x) s'
  front : ∀ n p s a s', At p s → read n s = .ret a s' → Front stream (p ++ a) ∧ At (p ++ a) s'

section
variable {stream : Nat → Option α}

omit [DecidableEq α] in
theorem Front.of_prefix {p q : List α} (h : Front stream q) (hp : p <+: q) : Front stream p := by
  obtain ⟨x, rfl⟩ := hp
  intro i hi
  rw [h i (by rw [List.length_append]; omega), List.getElem?_append_left hi]

/-- **Single gaps.**  From any state, `read_until_token` takes exactly the
shortest text with a gap occurrence from the stream, and returns what stands
before the head of the one with the latest gap.  Without an occurrence it does
not return. -/
theorem readUntilTokenFrom_stream {ε σ : Type} {token : List α} (hnd : token.Nodup)
    (hne : token ≠ []) {ms : SingleGapMatcher} (hleft : Left token ms)
    {At : List α → σ → Prop} {read : Nat → Prog ε σ (List α)} (hread : ReadsStream stream At read)
    {s : σ} (hs : At [] s) :
    (∀ Q, Front stream Q → GapMatch token Q → ∃ P, P <+: Q ∧ Shortest token P ∧
        ∃ enough, ∀ fuel, enough ≤ fuel → ∃ u s',
          readUntilTokenFrom ms fuel token read s = .ret u s' ∧ At P s' ∧ Returned token P u) ∧
      ((∀ Q, Front stream Q → ¬ GapMatch token Q) →
        ∀ fuel u s', readUntilTokenFrom ms fuel token read s ≠ .ret u s') := by
  have hreset : (⟨[], token.length, ms.reset⟩ : State α) = stateAfter token [] := by
    rw [hleft.reset_eq, ← TokenReader.reset_eq]
    rfl
  refine ⟨fun Q hQ hmatch => ?_, fun hno fuel u s' => ?_⟩
  · obtain ⟨P, hPQ, hP⟩ := exists_shortest hmatch
    have hlaw : ∀ xs ys s, (∃ p, p ++ (xs ++ ys) = P ∧ At p s) →
        ∃ s', read xs.length s = .ret xs s' ∧ ∃ p, p ++ ys = P ∧ At p s' := by
      rintro xs ys s ⟨p, hp, hat⟩
      have hfront : Front stream (p ++ xs) := by
        refine hQ.of_prefix (List.IsPrefix.trans ⟨ys, ?_⟩ hPQ)
        rw [List.append_assoc, hp]
      obtain ⟨s', hrun, hat'⟩ := hread.ret p xs s hat hfront
      exact ⟨s', hrun, p ++ xs, by rw [List.append_assoc, hp], hat'⟩
    refine ⟨P, hPQ, hP, P.length + 1, fun fuel hfuel => ?_⟩
    have hstart : ∃ p, p ++ (P ++ []) = P ∧ At p s := ⟨[], List.append_nil P, hs⟩
    obtain ⟨u, s', hrun, ⟨p, hp, hat⟩, hret⟩ := readUntilToken_shortest
      (R := fun xs s => ∃ p, p ++ xs = P ∧ At p s) hnd hne hlaw hP hfuel hstart
    rw [List.append_nil] at hp
    refine ⟨u, s', ?_, hp ▸ hat, hret⟩
    rw [readUntilTokenFrom, hreset, ← hrun, readUntilToken, TokenReader.reset_eq]
  · have hnoGap : ∀ p, Front stream p → NoGap token p := fun p hp q hq =>
      hno q (hp.of_prefix hq)
    rw [readUntilTokenFrom, hreset]
    refine readLoop_ne_ret hnd hne (R := At) ?_ fuel [] s (hnoGap [] nofun) hs u s'
    intro n p s a s' hat hrun
    obtain ⟨hfront, hat'⟩ := hread.front n p s a s' hat hrun
    exact ⟨hnoGap _ hfront, hat'⟩

/-- A reader of the list `xs`, of which so many symbols were taken. -/
def listRead {ε : Type} (xs : List α) (n : Nat) : Prog ε Nat (List α) := fun k =>
  if k + n ≤ xs.length then .ret ((xs.drop k).take n) (k + n) else .hang

omit [DecidableEq α] in
theorem front_list {xs p : List α} : Front (fun i => xs[i]?) p ↔ p <+: xs := by
  rw [List.prefix_iff_getElem?]
  refine forall_congr' fun i => forall_congr' fun hi => ?_
  rw [List.getElem?_eq_getElem hi]

omit [DecidableEq α] in
theorem readsStream_listRead {ε : Type} (xs : List α) :
    ReadsStream (fun i => xs[i]?) (fun p k => p = xs.take k ∧ k ≤ xs.length)
      (listRead xs : Nat → Prog ε Nat (List α)) where
  ret p x k := by
    rintro ⟨rfl, hk⟩ hfront
    have hpre := front_list.mp hfront
    have hlen := hpre.length_le
    rw [List.length_append, List.length_take, Nat.min_eq_left hk] at hlen
    have htake : xs.take k ++ x = xs.take (k + x.length) := by
      rw [List.prefix_iff_eq_take.mp hpre, List.length_append, List.length_take,
        Nat.min_eq_left hk]
    have hx : (xs.drop k).take x.length = x := by
      rw [List.take_add] at htake
      exact (List.append_cancel_left htake).symm
    refine ⟨k + x.length, ?_, htake, hlen⟩
    rw [listRead, if_pos hlen, hx]
  front n p k a k' := by
    rintro ⟨rfl, hk⟩ hret
    unfold listRead at hret
    split at hret
    · next hle =>
      cases hret
      rw [← List.take_add]
      exact ⟨front_list.mpr (List.take_prefix ..), rfl, hle⟩
    · cases hret

theorem readUntilTokenFrom_stream_gap :
    ∃ P, P <+: [9, 1, 7, 2, 3] ∧ Shortest [1, 2, 3] P ∧ ∃ enough, ∀ fuel, enough ≤ fuel → ∃ u k,
      readUntilTokenFrom (SingleGapMatcher.find [1, 2, 3] [1, 2] 0 (SingleGapMatcher.new [1, 2, 3]))
        fuel [1, 2, 3] (listRead [9, 1, 7, 2, 3, 8] : Nat → Prog Unit Nat (List Nat)) 0 =
          .ret u k ∧ (P = [9, 1, 7, 2, 3, 8].take k ∧ k ≤ 6) ∧ Returned [1, 2, 3] P u :=
  (readUntilTokenFrom_stream (by decide) (by decide) (.find [1, 2] 0 .new)
    (readsStream_listRead [9, 1, 7, 2, 3, 8]) ⟨rfl, by decide⟩).1 [9, 1, 7, 2, 3]
    (front_list.mpr (by decide))
    ⟨1, by decide, by decide, [9, 1], [7, 2, 3], rfl, ⟨[9], rfl⟩, ⟨[7], rfl⟩⟩

end

end InteractiveSessions.TokenReader
