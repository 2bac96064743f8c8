import InteractiveSessions.Lib.Dict

/-!
# Finite directory trees

A path is the list of its parts.  A `FileTree` lists its paths with what is there;
every path but the root stands in a directory of the tree, and there are no links.
`walk` is one step of `os.walk`.

* `Overlay`: a part of a tree was put over the entries below a directory.  Parts
  that are put one after the other make up their union (`Overlay.trans`).
-/

namespace InteractiveSessions

inductive Entry (β : Type) where
  | dir
  | file (content : β)
  deriving DecidableEq, Repr

/-! ## Prefixes of paths -/

section

variable {ν : Type}

theorem eq_of_prefix_child {a r r' x : List ν} {n n' : ν} (h : a ++ n :: r <+: x)
    (h' : a ++ n' :: r' <+: x) : n = n' := by
  obtain ⟨u, rfl⟩ := h
  obtain ⟨v, hv⟩ := h'
  rw [List.append_assoc, List.append_assoc] at hv
  exact (List.cons.inj (List.append_cancel_left hv)).1.symm

theorem not_prefix_of_child (a : List ν) (n : ν) (r : List ν) : ¬ a ++ n :: r <+: a := by
  intro h
  have := h.length_le
  rw [List.length_append, List.length_cons] at this
  omega

theorem prefix_concat_cases {q a : List ν} {n : ν} (h : q <+: a ++ [n]) :
    q = a ++ [n] ∨ q <+: a :=
  List.prefix_concat_iff.mp h

end

structure FileTree (ν β : Type) [DecidableEq ν] where
  items : Dict (List ν) (Entry β)
  root : items.get? [] = some .dir
  parent : ∀ q ∈ items.keys, q ≠ [] → items.get? q.dropLast = some .dir

namespace FileTree

variable {ν β : Type} [DecidableEq ν]

def get? (t : FileTree ν β) (p : List ν) : Option (Entry β) := t.items.get? p

/-- The name of `q` in the directory `p`. -/
def nameIn (p q : List ν) : Option ν := if q.dropLast = p then q.getLast? else none

theorem nameIn_eq_some {p q : List ν} {n : ν} : nameIn p q = some n ↔ q = p ++ [n] := by
  unfold nameIn
  constructor
  · intro h
    split at h
    · next hp => rw [← hp, List.dropLast_append_getLast? n h]
    · cases h
  · rintro rfl
    simp

/-- `os.scandir` -/
def names (t : FileTree ν β) (p : List ν) : List ν := t.items.keys.filterMap (nameIn p)

theorem mem_names {t : FileTree ν β} {p : List ν} {n : ν} :
    n ∈ t.names p ↔ t.get? (p ++ [n]) ≠ none := by
  unfold names get?
  rw [List.mem_filterMap, ne_eq, Dict.get?_eq_none, not_not]
  simp only [nameIn_eq_some, exists_eq_right]

theorem nodup_names (t : FileTree ν β) (p : List ν) : (t.names p).Nodup := by
  apply List.Nodup.filterMap _ t.items.nodup
  intro q q' n h h'
  rw [nameIn_eq_some.mp h, nameIn_eq_some.mp h']

section

variable [DecidableEq β]

def dirnames (t : FileTree ν β) (p : List ν) : List ν :=
  (t.names p).filter fun n => t.get? (p ++ [n]) = some .dir

def filenames (t : FileTree ν β) (p : List ν) : List ν :=
  (t.names p).filter fun n => t.get? (p ++ [n]) ≠ some .dir

/-- `next(os.walk(p))`, if it does not raise `StopIteration`. -/
def walk (t : FileTree ν β) (p : List ν) : Option (List ν × List ν) :=
  if t.get? p = some .dir then some (t.dirnames p, t.filenames p) else none

theorem walk_dir {t : FileTree ν β} {p : List ν} (h : t.get? p = some .dir) :
    t.walk p = some (t.dirnames p, t.filenames p) := if_pos h

theorem mem_dirnames {t : FileTree ν β} {p : List ν} {n : ν} :
    n ∈ t.dirnames p ↔ t.get? (p ++ [n]) = some .dir := by
  rw [dirnames, List.mem_filter, mem_names, decide_eq_true_eq]
  constructor
  · exact And.right
  · intro h
    exact ⟨by simp [h], h⟩

theorem mem_filenames {t : FileTree ν β} {p : List ν} {n : ν} :
    n ∈ t.filenames p ↔ ∃ content, t.get? (p ++ [n]) = some (.file content) := by
  rw [filenames, List.mem_filter, mem_names, decide_eq_true_eq]
  cases h : t.get? (p ++ [n]) with
  | none => simp
  | some e => cases e <;> simp

theorem nodup_dirnames (t : FileTree ν β) (p : List ν) : (t.dirnames p).Nodup :=
  (t.nodup_names p).filter _

theorem nodup_filenames (t : FileTree ν β) (p : List ν) : (t.filenames p).Nodup :=
  (t.nodup_names p).filter _

/-- Every entry below a directory is in one of its children. -/
theorem mem_walk_of_ne_none {t : FileTree ν β} {p : List ν} {n : ν} (h : t.get? (p ++ [n]) ≠ none) :
    n ∈ t.filenames p ∨ n ∈ t.dirnames p := by
  rw [mem_filenames, mem_dirnames]
  cases he : t.get? (p ++ [n]) with
  | none => exact absurd he h
  | some e => cases e <;> simp

end

/-- What stands above an entry is a directory. -/
theorem get?_above {t : FileTree ν β} {p rel : List ν} (hrel : rel ≠ [])
    (h : t.get? (p ++ rel) ≠ none) : t.get? p = some .dir := by
  induction rel using List.reverseRecOn with
  | nil => exact absurd rfl hrel
  | append_singleton rel n ih =>
    have hkey : p ++ (rel ++ [n]) ∈ t.items.keys := by
      by_contra hnone
      exact h (Dict.get?_eq_none.mpr hnone)
    have hdir := t.parent _ hkey (by simp)
    rw [← List.append_assoc, List.dropLast_concat] at hdir
    by_cases hnil : rel = []
    · rwa [hnil, List.append_nil] at hdir
    · exact ih hnil (by simp [get?, hdir])

/-- Nothing is below a file. -/
theorem get?_below_file {t : FileTree ν β} {p rel : List ν} {content : β}
    (h : t.get? p = some (.file content)) (hrel : rel ≠ []) : t.get? (p ++ rel) = none := by
  by_contra hne
  have hdir := get?_above hrel hne
  rw [h] at hdir
  cases hdir

/-- The children of a directory have all that is below it. -/
theorem get?_child {t : FileTree ν β} {p rel : List ν} {n : ν} (h : t.get? (p ++ n :: rel) ≠ none) :
    t.get? (p ++ [n]) ≠ none := by
  by_cases hrel : rel = []
  · rwa [hrel] at h
  · rw [List.append_cons] at h
    simp [get?_above hrel h]

/-- No path is longer. -/
def depth (t : FileTree ν β) : Nat := (t.items.keys.map List.length).foldr max 0

theorem length_le_depth {t : FileTree ν β} {p : List ν} (h : t.get? p ≠ none) :
    p.length ≤ t.depth := by
  have hmem : p ∈ t.items.keys := by
    by_contra hnone
    exact h (Dict.get?_eq_none.mpr hnone)
  unfold depth
  generalize t.items.keys = keys at hmem
  induction keys with
  | nil => cases hmem
  | cons q keys ih =>
    rw [List.map_cons, List.foldr_cons]
    rcases List.mem_cons.mp hmem with rfl | hmem
    · exact Nat.le_max_left ..
    · exact (ih hmem).trans (Nat.le_max_right ..)

/-! ## Parts of a tree put below a directory -/

/-- `new` is `old` with the tree's entries at the paths in `done` put below `dest`. -/
structure Overlay (t : FileTree ν β) (dest : List ν) (done : Set (List ν))
    (old new : List ν → Option (Entry β)) : Prop where
  on : ∀ rel ∈ done, new (dest ++ rel) = (t.get? rel).or (old (dest ++ rel))
  off : ∀ q, (∀ rel ∈ done, q ≠ dest ++ rel) → new q = old q

/-- No directory of the tree meets a file below `dest`, and no file a directory. -/
def Fits (t : FileTree ν β) (dest : List ν) (old : List ν → Option (Entry β)) : Prop :=
  ∀ rel content, (t.get? rel = some .dir → old (dest ++ rel) ≠ some (.file content)) ∧
    (t.get? rel = some (.file content) → old (dest ++ rel) ≠ some .dir)

section

variable {t : FileTree ν β} {dest : List ν} {done done' : Set (List ν)}
  {old mid new : List ν → Option (Entry β)}

theorem Overlay.of_notMem (h : t.Overlay dest done old new) {rel : List ν} (hrel : rel ∉ done) :
    new (dest ++ rel) = old (dest ++ rel) := by
  apply h.off
  intro r hr heq
  rw [List.append_cancel_left heq] at hrel
  exact hrel hr

theorem Overlay.refl (t : FileTree ν β) (dest : List ν) (old : List ν → Option (Entry β)) :
    t.Overlay dest ∅ old old :=
  ⟨fun _ h => h.elim, fun _ _ => rfl⟩

/-- One entry of the tree. -/
theorem Overlay.entry {rel : List ν}
    (h : ∀ q, new q = if q = dest ++ rel then t.get? rel else old q) (hrel : t.get? rel ≠ none) :
    t.Overlay dest {rel} old new where
  on r hr := by
    obtain rfl : r = rel := hr
    rw [h, if_pos rfl]
    cases he : t.get? r with
    | none => exact absurd he hrel
    | some e => rfl
  off q hq := by
    rw [h, if_neg (hq rel rfl)]

theorem Overlay.trans (h : t.Overlay dest done old mid) (h' : t.Overlay dest done' mid new) :
    t.Overlay dest (done ∪ done') old new where
  on rel hrel := by
    by_cases h1 : rel ∈ done
    · by_cases h2 : rel ∈ done'
      · rw [h'.on rel h2, h.on rel h1]
        cases t.get? rel <;> rfl
      · rw [h'.of_notMem h2, h.on rel h1]
    · rw [h'.on rel (hrel.resolve_left h1), h.of_notMem h1]
  off q hq := by
    rw [h'.off q fun rel hrel => hq rel (.inr hrel), h.off q fun rel hrel => hq rel (.inl hrel)]

/-- Where the tree has nothing, nothing is put. -/
theorem Overlay.extend (h : t.Overlay dest done old new) (hsub : done ⊆ done')
    (hnone : ∀ rel ∈ done', rel ∉ done → t.get? rel = none) : t.Overlay dest done' old new where
  on rel hrel := by
    by_cases hd : rel ∈ done
    · exact h.on rel hd
    · rw [hnone rel hrel hd, h.of_notMem hd]
      rfl
  off q hq := h.off q fun rel hrel => hq rel (hsub hrel)

theorem Fits.overlay (h : t.Fits dest old) (hover : t.Overlay dest done old new) :
    t.Fits dest new := by
  intro rel content
  by_cases hrel : rel ∈ done
  · rw [hover.on rel hrel]
    constructor
    · intro hdir
      simp [hdir]
    · intro hfile
      simp [hfile]
  · rw [hover.of_notMem hrel]
    exact h rel content

end

end FileTree

end InteractiveSessions
