import Mathlib.Data.List.Infix
import Mathlib.Tactic

/-!
# Finding a word, and a word with one gap, in a growing text

General facts about searching a text that arrives symbol by symbol, for words
whose symbols are pairwise distinct.

* `Border w p i`: `w.take i` is the longest prefix of `w` that ends the text
  `p`; `advance_border`: one comparison with `w[i]` and one with `w[0]` keep it
  up to date, because the symbols of `w` are distinct.
* `NoOcc w p`: `w` ends no prefix of `p`, i.e. `w` does not occur in `p`.
* `GapOcc w g p`: `p` splits in two, the first part ends with `w.take g` and
  the second with `w.drop g`: an occurrence of `w` with one gap before its
  symbol number `g`.
* `Shortest w p`: `p` ends the first gap occurrence of `w`, with any gap.
-/

namespace InteractiveSessions.GapToken

variable {α : Type}

/-! ## The longest prefix of a word that ends the text -/

/-- The matched length after the symbol `c`, when `i` symbols were matched. -/
def advance [DecidableEq α] (w : List α) (i : Nat) (c : α) : Nat :=
  if w[i]? = some c then i + 1 else if w[0]? = some c then 1 else 0

/-- `w.take i` is the longest prefix of `w` that is a suffix of the text `p`. -/
def Border (w p : List α) (i : Nat) : Prop :=
  i ≤ w.length ∧ w.take i <:+ p ∧ ∀ j ≤ w.length, w.take j <:+ p → j ≤ i

/-- `w` ends no prefix of the text `p`. -/
def NoOcc (w p : List α) : Prop := ∀ q, q <+: p → ¬ w <:+ q

theorem border_nil (w : List α) (hw : w ≠ []) : Border w [] 0 := by
  refine ⟨Nat.zero_le _, by simp, ?_⟩
  intro j hj h
  have hlen := h.length_le
  have hpos : 0 < w.length := List.length_pos_iff.mpr hw
  simp only [List.length_take, List.length_nil] at hlen
  omega

/-- A nonempty prefix of `w` ends `p ++ [c]` exactly when the prefix without
its last symbol ends `p` and that last symbol is `c`. -/
theorem take_succ_suffix_concat (w p : List α) (c : α) (j : Nat) (hj : j < w.length) :
    w.take (j + 1) <:+ p ++ [c] ↔ w[j]? = some c ∧ w.take j <:+ p := by
  have hget : w[j]? = some w[j] := List.getElem?_eq_getElem hj
  rw [List.take_add_one, hget, Option.toList_some]
  constructor
  · intro h
    rcases List.suffix_concat_iff.mp h with h | ⟨t, ht, hs⟩
    · exact absurd h (List.append_ne_nil_of_right_ne_nil _ (List.cons_ne_nil _ _))
    · obtain ⟨h1, h2⟩ := List.append_inj' ht rfl
      simp only [List.cons.injEq, and_true] at h2
      exact ⟨by rw [h2], h1 ▸ hs⟩
  · rintro ⟨hc, hs⟩
    obtain rfl : w[j] = c := by simpa using hc
    exact (List.suffix_append_self_iff).mpr hs

/-- Two nonempty prefixes of a word without repetitions cannot both end the
same text unless they have one length. -/
theorem take_suffix_inj {w p : List α} (hw : w.Nodup) {i j : Nat} (hi : i < w.length)
    (hj : j < w.length) (hpi : w.take (i + 1) <:+ p) (hpj : w.take (j + 1) <:+ p) : i = j := by
  cases p using List.reverseRecOn with
  | nil =>
    have := hpi.length_le
    simp only [List.length_take, List.length_nil] at this
    omega
  | append_singleton p c =>
    have ei := ((take_succ_suffix_concat w p c i hi).mp hpi).1
    have ej := ((take_succ_suffix_concat w p c j hj).mp hpj).1
    exact (hw.getElem_inj_iff).mp (by
      rw [List.getElem?_eq_getElem hi] at ei
      rw [List.getElem?_eq_getElem hj] at ej
      simpa using ei.trans ej.symm)

/-- **Border step.**  For a word of distinct symbols, falling back to the first
symbol loses no shorter match. -/
theorem advance_border [DecidableEq α] {w p : List α} (hw : w.Nodup) {i : Nat} (hi : i < w.length)
    (h : Border w p i) (c : α) : Border w (p ++ [c]) (advance w i c) := by
  obtain ⟨-, hs, hmax⟩ := h
  -- what a match of length `j + 1` after `c` says about the text before `c`
  have back : ∀ j < w.length, w.take (j + 1) <:+ p ++ [c] →
      w[j]? = some c ∧ w.take j <:+ p ∧ j ≤ i := by
    intro j hj hsuf
    obtain ⟨hc, hp⟩ := (take_succ_suffix_concat w p c j hj).mp hsuf
    exact ⟨hc, hp, hmax j (by omega) hp⟩
  have inj : ∀ j < w.length, w[j]? = some c → ∀ k < w.length, w[k]? = some c → j = k := by
    intro j hj ej k hk ek
    rw [List.getElem?_eq_getElem hj] at ej
    rw [List.getElem?_eq_getElem hk] at ek
    exact (hw.getElem_inj_iff).mp (by simpa using ej.trans ek.symm)
  unfold advance
  split
  · rename_i hc
    refine ⟨hi, (take_succ_suffix_concat w p c i hi).mpr ⟨hc, hs⟩, ?_⟩
    rintro (_ | j) hj hsuf
    · omega
    · have := (back j (by omega) hsuf).2.2
      omega
  · rename_i hne
    split
    · rename_i hc
      refine ⟨by omega, (take_succ_suffix_concat w p c 0 (by omega)).mpr ⟨hc, by simp⟩, ?_⟩
      rintro (_ | j) hj hsuf
      · omega
      · have := inj j (by omega) (back j (by omega) hsuf).1 0 (by omega) hc
        omega
    · rename_i hne0
      refine ⟨by omega, by simp, ?_⟩
      rintro (_ | j) hj hsuf
      · omega
      · exfalso
        obtain ⟨hc, hp, hji⟩ := back j (by omega) hsuf
        -- `j` is neither `0` nor `i`, so two prefixes of `w` end `p`
        cases j with
        | zero => exact hne0 hc
        | succ j =>
          cases i with
          | zero => omega
          | succ i =>
            obtain rfl := take_suffix_inj hw (by omega) (by omega) hp hs
            exact hne hc

/-! ## Occurrences -/

theorem NoOcc.of_prefix {w p q : List α} (h : NoOcc w p) (hq : q <+: p) : NoOcc w q :=
  fun r hr => h r (hr.trans hq)

theorem noOcc_nil {w : List α} (hw : w ≠ []) : NoOcc w [] := by
  intro q hq hs
  obtain rfl := List.prefix_nil.mp hq
  exact hw (List.suffix_nil.mp hs)

theorem noOcc_concat {w p : List α} {c : α} :
    NoOcc w (p ++ [c]) ↔ NoOcc w p ∧ ¬ w <:+ p ++ [c] := by
  constructor
  · intro h
    exact ⟨h.of_prefix (List.prefix_append ..), h _ List.prefix_rfl⟩
  · rintro ⟨hp, hc⟩ q hq
    rcases List.prefix_concat_iff.mp hq with rfl | hq
    · exact hc
    · exact hp q hq

/-- A matched length below `w.length` means that `w` does not end the text. -/
theorem Border.not_suffix {w p : List α} {i : Nat} (h : Border w p i) (hi : i < w.length) :
    ¬ w <:+ p := by
  intro hs
  have := h.2.2 w.length le_rfl (by rwa [List.take_length])
  omega

theorem Border.suffix {w p : List α} (h : Border w p w.length) : w <:+ p := by
  simpa using h.2.1

/-! ## Occurrences with one gap -/

/-- An occurrence of `w` that ends `p`, with one gap before symbol number `g`. -/
def GapOcc (w : List α) (g : Nat) (p : List α) : Prop :=
  ∃ a b, p = a ++ b ∧ w.take g <:+ a ∧ w.drop g <:+ b

/-- `p` ends an occurrence of `w` with one gap at any place (or none). -/
def GapMatch (w p : List α) : Prop := ∃ g, 1 ≤ g ∧ g ≤ w.length ∧ GapOcc w g p

/-- `p` is the shortest of its prefixes that ends a gap occurrence of `w`. -/
def Shortest (w p : List α) : Prop :=
  GapMatch w p ∧ ∀ q, q <+: p → GapMatch w q → q = p

/-- No prefix of `p` ends a gap occurrence of `w`. -/
def NoGap (w p : List α) : Prop := ∀ q, q <+: p → ¬ GapMatch w q

theorem NoGap.of_prefix {w p q : List α} (h : NoGap w p) (hq : q <+: p) : NoGap w q :=
  fun r hr => h r (hr.trans hq)

theorem gapMatch_length {w p : List α} (h : GapMatch w p) : w.length ≤ p.length := by
  obtain ⟨g, -, -, a, b, rfl, ha, hb⟩ := h
  have h1 := ha.length_le
  have h2 := hb.length_le
  simp only [List.length_take, List.length_drop, List.length_append] at *
  omega

/-- `a` is the shortest prefix of `p` that ends with `h`. -/
def FirstOcc (h p a : List α) : Prop :=
  a <+: p ∧ h <:+ a ∧ ∀ q, q <+: p → h <:+ q → a.length ≤ q.length

theorem FirstOcc.concat {h p a : List α} (hf : FirstOcc h p a) (c : α) :
    FirstOcc h (p ++ [c]) a := by
  refine ⟨hf.1.trans (List.prefix_append ..), hf.2.1, ?_⟩
  intro q hq hs
  rcases List.prefix_concat_iff.mp hq with rfl | hq
  · have := hf.1.length_le
    simp only [List.length_append, List.length_singleton]
    omega
  · exact hf.2.2 q hq hs

theorem NoOcc.firstOcc_concat {h p : List α} (hn : NoOcc h p) {c : α} (hs : h <:+ p ++ [c]) :
    FirstOcc h (p ++ [c]) (p ++ [c]) := by
  refine ⟨List.prefix_rfl, hs, ?_⟩
  intro q hq hqs
  rcases List.prefix_concat_iff.mp hq with rfl | hq
  · exact le_rfl
  · exact absurd hqs (hn q hq)

/-- Without the head of the word there is no occurrence with that gap. -/
theorem NoOcc.not_gapOcc {w p q : List α} {g : Nat} (hn : NoOcc (w.take g) p) (hq : q <+: p) :
    ¬ GapOcc w g q := by
  rintro ⟨a, b, rfl, ha, -⟩
  exact hn a ((List.prefix_append ..).trans hq) ha

/-- After the first occurrence of the head, what is left has to contain the
rest of the word. -/
theorem FirstOcc.gapOcc_prefix {w a v q : List α} {g : Nat}
    (hf : FirstOcc (w.take g) (a ++ v) a) (hq : q <+: a ++ v) (h : GapOcc w g q) :
    ∃ v', v' <+: v ∧ q = a ++ v' ∧ w.drop g <:+ v' := by
  obtain ⟨a', b', rfl, ha', hb'⟩ := h
  have hp : a' <+: a ++ v := (List.prefix_append ..).trans hq
  have hle := hf.2.2 a' hp ha'
  obtain ⟨x, rfl⟩ : a <+: a' := List.prefix_of_prefix_length_le (List.prefix_append ..) hp hle
  rw [List.append_assoc] at hq
  exact ⟨x ++ b', (List.prefix_append_right_inj a).mp hq, List.append_assoc ..,
    List.suffix_append_of_suffix hb'⟩

/-- Every symbol of the word occurs in a text that ends a gap occurrence. -/
theorem gapMatch_subset {w p : List α} (h : GapMatch w p) : w ⊆ p := by
  obtain ⟨g, -, -, a, b, rfl, ha, hb⟩ := h
  intro x hx
  rw [← List.take_append_drop g w] at hx
  rcases List.mem_append.mp hx with hx | hx
  · exact List.mem_append_left _ (ha.subset hx)
  · exact List.mem_append_right _ (hb.subset hx)

/-- A shortest gap occurrence ends with the last symbol of the word. -/
theorem Shortest.getLast? {w p : List α} (h : Shortest w p) : p.getLast? = w.getLast? := by
  obtain ⟨⟨g, hg1, hg2, a, b, rfl, ha, hb⟩, hmin⟩ := h
  by_cases hg : g = w.length
  · subst hg
    rw [List.take_length] at ha
    have hm : GapMatch w a :=
      ⟨w.length, hg1, le_rfl, a, [], by simp, by simpa using ha, by simp⟩
    have hb0 : b = [] := by
      have := hmin a (List.prefix_append ..) hm
      simpa using this
    subst hb0
    have hw : w ≠ [] := by
      rintro rfl
      simp at hg1
    have := ha.getLast hw
    rw [List.append_nil, List.getLast?_eq_some_getLast (ha.ne_nil hw),
      List.getLast?_eq_some_getLast hw, this]
  · have hd : w.drop g ≠ [] := by
      simp only [ne_eq, List.drop_eq_nil_iff, not_le]
      omega
    have hbn : b ≠ [] := hb.ne_nil hd
    have hw : w ≠ [] := by
      rintro rfl
      simp at hd
    have h1 := hb.getLast hd
    rw [List.getLast?_eq_some_getLast (by simp [hbn]), List.getLast?_eq_some_getLast hw,
      List.getLast_append_of_ne_nil _ hbn, ← List.getLast_drop hd, h1]

/-- The gap occurrence with the latest gap. -/
theorem exists_latest_gap {w p : List α} (hm : GapMatch w p) :
    ∃ g, 1 ≤ g ∧ g ≤ w.length ∧ GapOcc w g p ∧
      ∀ g', g < g' → g' ≤ w.length → ¬ GapOcc w g' p := by
  classical
  obtain ⟨g₀, h1, h2, ho⟩ := hm
  let Q : Nat → Prop := fun g => 1 ≤ g ∧ GapOcc w g p
  have hspec : Q (Nat.findGreatest Q w.length) := Nat.findGreatest_spec h2 ⟨h1, ho⟩
  refine ⟨Nat.findGreatest Q w.length, hspec.1, Nat.findGreatest_le _, hspec.2, ?_⟩
  intro g' hlt hle ho'
  exact Nat.findGreatest_is_greatest hlt hle ⟨by omega, ho'⟩

theorem exists_shortest {w p : List α} (h : GapMatch w p) : ∃ q, q <+: p ∧ Shortest w q := by
  induction hn : p.length using Nat.strong_induction_on generalizing p with
  | _ n ih =>
    by_cases hmin : ∀ q, q <+: p → GapMatch w q → q = p
    · exact ⟨p, List.prefix_rfl, h, hmin⟩
    · push Not at hmin
      obtain ⟨q, hq, hm, hne⟩ := hmin
      have hlt : q.length < n := by
        rcases Nat.lt_or_ge q.length p.length with h' | h'
        · omega
        · exact absurd (hq.eq_of_length_le h') hne
      obtain ⟨r, hr, hs⟩ := ih q.length hlt hm rfl
      exact ⟨r, hr.trans hq, hs⟩

theorem noGap_of_notMem {w p : List α} {x : α} (hx : x ∈ w) (hp : x ∉ p) : NoGap w p :=
  fun _ hq hm => hp (hq.subset (gapMatch_subset hm hx))

/-- The whole word, after a text without a gap occurrence, ends the first one:
a shorter one would end with the last symbol of the word. -/
theorem shortest_append {w p : List α} (hnd : w.Nodup) (hw : w ≠ []) (hp : NoGap w p) :
    Shortest w (p ++ w) := by
  refine ⟨⟨w.length, List.length_pos_iff.mpr hw, le_rfl, p ++ w, [], by simp, by simp,
    by simp⟩, ?_⟩
  intro q hq hm
  obtain ⟨r, hr, hs⟩ := exists_shortest hm
  have hrp : r <+: p ++ w := hr.trans hq
  have hnp : ¬ r <+: p := fun h => hp r h hs.1
  obtain ⟨t, rfl⟩ : ∃ t, r = p ++ t := by
    rcases List.prefix_or_prefix_of_prefix hrp (List.prefix_append p w) with h | ⟨t, rfl⟩
    · exact absurd h hnp
    · exact ⟨t, rfl⟩
  have ht : t <+: w := (List.prefix_append_right_inj p).mp hrp
  have htn : t ≠ [] := by
    rintro rfl
    exact hnp (by simp)
  -- the last symbol of `w` stands at the end of `w` only
  have hlast : t.getLast? = w.getLast? := by
    rw [← hs.getLast?, List.getLast?_append_of_ne_nil p htn]
  have htw : t = w := by
    obtain ⟨u, rfl⟩ := ht
    by_cases hu : u = []
    · simp [hu]
    · exfalso
      rw [List.getLast?_append_of_ne_nil t hu, List.getLast?_eq_some_getLast htn,
        List.getLast?_eq_some_getLast hu, Option.some.injEq] at hlast
      exact (List.disjoint_of_nodup_append hnd) (List.getLast_mem htn)
        (hlast ▸ List.getLast_mem hu)
  subst htw
  exact hq.eq_of_length_le (hr.length_le)

/-- A gap occurrence that ends with the only occurrence of some symbol of the
word is the first one. -/
theorem shortest_concat {w p : List α} {z : α} (hz : z ∈ w) (hp : z ∉ p)
    (hm : GapMatch w (p ++ [z])) : Shortest w (p ++ [z]) := by
  refine ⟨hm, ?_⟩
  intro q hq hmq
  rcases List.prefix_concat_iff.mp hq with rfl | hq
  · rfl
  · exact absurd hmq (noGap_of_notMem hz hp q hq)

/-- The word with one gap, when its symbols occur neither in the gap nor before. -/
theorem shortest_gap {w u v : List α} {g : Nat} (hnd : w.Nodup) (hpos : 1 ≤ g) (hlt : g < w.length)
    (hu : ∀ x ∈ u, x ∉ w) (hv : ∀ x ∈ v, x ∉ w) :
    Shortest w (u ++ (w.take g ++ (v ++ w.drop g))) := by
  have hdrop : w.drop g ≠ [] := by
    rw [ne_eq, List.drop_eq_nil_iff]
    omega
  obtain ⟨d, z, hd⟩ := (List.eq_nil_or_concat' (w.drop g)).resolve_left hdrop
  have hz : z ∈ w := List.mem_of_mem_drop (by rw [hd]; simp)
  have hnodup : (w.take g ++ (d ++ [z])).Nodup := by rwa [← hd, List.take_append_drop]
  have hm : GapMatch w (u ++ (w.take g ++ (v ++ w.drop g))) :=
    ⟨g, hpos, hlt.le, u ++ w.take g, v ++ w.drop g, by simp only [List.append_assoc],
      List.suffix_append .., List.suffix_append ..⟩
  have hlast : u ++ (w.take g ++ (v ++ w.drop g)) = u ++ (w.take g ++ (v ++ d)) ++ [z] := by
    rw [hd]
    simp only [List.append_assoc]
  rw [hlast] at hm ⊢
  refine shortest_concat hz ?_ hm
  rw [← List.append_assoc] at hnodup
  have hbefore : z ∉ w.take g ++ d := fun h =>
    List.disjoint_of_nodup_append hnodup h (List.mem_singleton_self z)
  simp only [List.mem_append, not_or] at hbefore ⊢
  exact ⟨fun h => hu z h hz, hbefore.1, fun h => hv z h hz, hbefore.2⟩

/-- A text before the word keeps the word from matching early. -/
theorem noGap_append_of_prefix {w p t : List α} (hnd : w.Nodup) (hp : NoGap w p)
    (ht : t <+: w) (hne : t ≠ w) : NoGap w (p ++ t) := by
  intro q hq hm
  by_cases hw : w = []
  · subst hw
    exact hne (List.prefix_nil.mp ht)
  · have hqw : q <+: p ++ w := hq.trans ((List.prefix_append_right_inj p).mpr ht)
    have hlen := hq.length_le
    rw [(shortest_append hnd hw hp).2 q hqw hm, List.length_append, List.length_append] at hlen
    exact hne (ht.eq_of_length_le (by omega))

end InteractiveSessions.GapToken
