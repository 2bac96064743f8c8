import InteractiveSessions.Lib.Decimal
import InteractiveSessions.Lib.FileTree
import InteractiveSessions.Lib.Prog

/-!
# `_filecopier`: a local directory is copied to the target

`_LocalDirCopier` walks the local directory one level at a time; a path below
`source_dir` and the parts of its copy grow together.  The calls of the target are
logged.

* `copiesTree`: afterwards the target has the tree below `target_dir`, and the calls
  for every directory are in order: `makedirs`, all work inside it, and last the
  `chmod` to the requested mode.
-/

namespace InteractiveSessions

abbrev Path := List String

inductive CopyExc where
  | eexist
  | enoent
  | enotdir
  | eisdir
  /-- `int(None, 8)` -/
  | typeError
  deriving DecidableEq, Repr

inductive RemoteCall where
  | makedirs (path : Path)
  | chmod (path : Path) (mode : Nat)
  /-- `open(path, 'wb')` -/
  | openWb (path : Path)
  | write (path : Path) (buf : Bytes)
  | close (path : Path)
  deriving DecidableEq, Repr

def RemoteCall.path : RemoteCall → Path
  | .makedirs path | .chmod path _ | .openWb path | .write path _ | .close path => path

/-- What is on the target, and the calls made there. -/
structure Remote where
  entries : Path → Option (Entry Bytes)
  log : List RemoteCall

namespace Remote

def call (x : RemoteCall) : Prog CopyExc Remote Unit :=
  Prog.modify fun s => { s with log := s.log ++ [x] }

def isFile : Option (Entry Bytes) → Bool
  | some (.file _) => true
  | _ => false

/-- `os.makedirs`, which makes the missing parents too -/
def makedirs (path : Path) : Prog CopyExc Remote Unit := do
  call (.makedirs path)
  let entries ← Prog.gets fun s : Remote => s.entries
  if (entries path).isSome then Prog.raise .eexist
  else if path.inits.any fun q => isFile (entries q) then Prog.raise .enotdir
  else
    Prog.modify fun s =>
      { s with entries := fun q => (entries q).or (if q <+: path then some .dir else none) }

def chmod (path : Path) (mode : Nat) : Prog CopyExc Remote Unit := do
  call (.chmod path mode)
  let entry ← Prog.gets fun s : Remote => s.entries path
  if entry = none then Prog.raise .enoent else pure ()

/-- `open(path, 'wb')` -/
def openWb (path : Path) : Prog CopyExc Remote Unit := do
  call (.openWb path)
  let entries ← Prog.gets fun s : Remote => s.entries
  if entries path = some .dir then Prog.raise .eisdir
  else
    match entries path.dropLast with
    | some .dir =>
      Prog.modify fun s => { s with entries := Function.update entries path (some (.file [])) }
    | some (.file _) => Prog.raise .enotdir
    | none => Prog.raise .enoent

/-- `write` of the open file -/
def write (path : Path) (buf : Bytes) : Prog CopyExc Remote Unit := do
  call (.write path buf)
  let entries ← Prog.gets fun s : Remote => s.entries
  match entries path with
  | some (.file content) =>
    Prog.modify fun s =>
      { s with entries := Function.update entries path (some (.file (content ++ buf))) }
  | _ => Prog.raise .enoent

def close (path : Path) : Prog CopyExc Remote Unit := call (.close path)

/-- `makedirs_if_needed(oct(0o777))` -/
def makedirsIfNeeded (path : Path) : Prog CopyExc Remote Unit :=
  Prog.tryExcept
    (do
      makedirs path
      chmod path 0o777)
    fun e => if e = .eexist then some (pure ()) else none

end Remote

/-! ## `_LocalDirCopier` -/

/-- `source` is what is below `source_dir`, `mode` the number that `mode` stands for. -/
structure LocalDirCopier where
  source : FileTree String Bytes
  targetDir : Path
  mode : Option Nat

namespace LocalDirCopier

def bufferSize : Nat := 4092

section

variable (c : LocalDirCopier)

/-- `filename` of a `_CopyDirRemoteFile` -/
def filename (parts : Path) : Path := c.targetDir ++ parts

/-- `_copy_file_from_readf_to_writef`, where `rest` is not yet read -/
def copyFileFromReadfToWritef (target : Path) : Nat → Bytes → Prog CopyExc Remote Unit
  | 0, _ => Prog.hang
  | fuel + 1, rest =>
    let buf := rest.take bufferSize
    if buf = [] then pure ()
    else do
      Remote.write target buf
      copyFileFromReadfToWritef target fuel (rest.drop bufferSize)

def copyFileNoDirCreate (sourcefile parts : Path) : Prog CopyExc Remote Unit :=
  match c.source.get? sourcefile with
  | some (.file content) => do
    Remote.openWb (c.filename parts)
    Prog.tryFinally (copyFileFromReadfToWritef (c.filename parts) (content.length + 1) content)
      (Remote.close (c.filename parts))
    match c.mode with
    | some mode => Remote.chmod (c.filename parts) mode
    | none => pure ()
  | some .dir => Prog.raise .eisdir
  | none => Prog.raise .enoent

/-- `target.chmod(self.mode)` -/
def chmodTarget (parts : Path) : Prog CopyExc Remote Unit :=
  match c.mode with
  | some mode => Remote.chmod (c.filename parts) mode
  | none => Prog.raise .typeError

/-- `_copy_directory` -/
def copyDirectory : Nat → Path → Path → Prog CopyExc Remote Unit
  | 0, _, _ => Prog.hang
  | fuel + 1, sourceDir, parts =>
    match c.source.walk sourceDir with
    | none => pure ()
    | some (dirnames, filenames) => do
      filenames.forM fun f => c.copyFileNoDirCreate (sourceDir ++ [f]) (parts ++ [f])
      dirnames.forM fun d => do
        Remote.makedirsIfNeeded (c.filename (parts ++ [d]))
        copyDirectory fuel (sourceDir ++ [d]) (parts ++ [d])
      c.chmodTarget parts

def copyDirectoryToTarget (fuel : Nat) : Prog CopyExc Remote Unit := do
  Remote.makedirsIfNeeded (c.filename [])
  c.copyDirectory fuel [] []

end

/-! ## What the calls of the target do -/

/-- No file stands on the way to the directory, and if it is there, so are its parents. -/
structure CanMake (path : Path) (s : Remote) : Prop where
  free : ∀ q, q <+: path → ∀ content, s.entries q ≠ some (.file content)
  above : s.entries path = some .dir → ∀ q, q <+: path → s.entries q = some .dir

theorem chmod_run {path : Path} (mode : Nat) {s : Remote} (h : s.entries path ≠ none) :
    Remote.chmod path mode s = .ret () { s with log := s.log ++ [.chmod path mode] } := by
  simp [Remote.chmod, Remote.call, Prog.bind_run, h]

theorem makedirs_run {path : Path} {s : Remote} (h : CanMake path s)
    (hnone : s.entries path = none) :
    Remote.makedirs path s = .ret ()
      ⟨fun q => (s.entries q).or (if q <+: path then some .dir else none),
        s.log ++ [.makedirs path]⟩ := by
  have hfree : (path.inits.any fun q => Remote.isFile (s.entries q)) = false := by
    rw [List.any_eq_false]
    intro q hq
    have := h.free q ((List.mem_inits ..).mp hq)
    cases he : s.entries q with
    | none => simp [Remote.isFile]
    | some e =>
      cases e with
      | dir => simp [Remote.isFile]
      | file content => exact absurd he (this content)
  simp [Remote.makedirs, Remote.call, Prog.bind_run, hnone, hfree]

theorem makedirs_exists {path : Path} {s : Remote} (h : s.entries path ≠ none) :
    Remote.makedirs path s = .raised .eexist { s with log := s.log ++ [.makedirs path] } := by
  have hsome : (s.entries path).isSome = true := Option.isSome_iff_ne_none.mpr h
  simp [Remote.makedirs, Remote.call, Prog.bind_run, hsome]

/-- The directory and its parents are there; a new one has the mode `0o777`. -/
theorem makedirsIfNeeded_run {path : Path} {s : Remote} (h : CanMake path s) :
    ∃ s' pre, Remote.makedirsIfNeeded path s = .ret () s' ∧
      (∀ q, s'.entries q = (s.entries q).or (if q <+: path then some .dir else none)) ∧
      s'.log = s.log ++ .makedirs path :: pre ∧ ∀ x ∈ pre, x = .chmod path 0o777 := by
  cases he : s.entries path with
  | none =>
    let made : Path → Option (Entry Bytes) := fun q =>
      (s.entries q).or (if q <+: path then some .dir else none)
    refine ⟨⟨made, s.log ++ [.makedirs path] ++ [.chmod path 0o777]⟩, [.chmod path 0o777],
      ?_, fun q => rfl, ?_, ?_⟩
    · apply Prog.tryExcept_ret
      rw [Prog.bind_ret (makedirs_run h he)]
      apply chmod_run
      simp [he]
    · simp
    · simp
  | some e =>
    have hdir : s.entries path = some .dir := by
      cases e with
      | dir => exact he
      | file content => exact absurd he (h.free path (List.prefix_refl _) content)
    refine ⟨{ s with log := s.log ++ [.makedirs path] }, [], ?_, ?_, rfl, nofun⟩
    · unfold Remote.makedirsIfNeeded
      rw [Prog.tryExcept_caught (Prog.bind_raised (makedirs_exists (by simp [he]))) (if_pos rfl)]
      rfl
    · intro q
      by_cases hq : q <+: path
      · simp [h.above hdir q hq]
      · simp [hq]

theorem openWb_run {path : Path} {s : Remote} (hpath : s.entries path ≠ some .dir)
    (hparent : s.entries path.dropLast = some .dir) :
    Remote.openWb path s = .ret ()
      ⟨Function.update s.entries path (some (.file [])), s.log ++ [.openWb path]⟩ := by
  simp [Remote.openWb, Remote.call, Prog.bind_run, hpath, hparent]

theorem write_run {path : Path} {content : Bytes} (buf : Bytes) {s : Remote}
    (h : s.entries path = some (.file content)) :
    Remote.write path buf s = .ret ()
      ⟨Function.update s.entries path (some (.file (content ++ buf))),
        s.log ++ [.write path buf]⟩ := by
  simp [Remote.write, Remote.call, Prog.bind_run, h]

/-- The loop appends what is left of the local file. -/
theorem copyFileFromReadfToWritef_run {path : Path} {fuel : Nat} {content rest : Bytes}
    {s : Remote} (h : s.entries path = some (.file content)) (hfuel : rest.length < fuel) :
    ∃ l, copyFileFromReadfToWritef path fuel rest s = .ret ()
        ⟨Function.update s.entries path (some (.file (content ++ rest))), s.log ++ l⟩ ∧
      ∀ x ∈ l, x.path = path := by
  induction fuel generalizing content rest s with
  | zero => omega
  | succ fuel ih =>
    unfold copyFileFromReadfToWritef
    dsimp only
    by_cases hrest : rest = []
    · subst hrest
      refine ⟨[], ?_, nofun⟩
      simp [← h]
    · have hpos : 0 < rest.length := List.length_pos_iff.mpr hrest
      have hbuf : rest.take bufferSize ≠ [] := by
        rw [← List.length_pos_iff, List.length_take, bufferSize]
        omega
      have hlen : (rest.drop bufferSize).length < fuel := by
        rw [List.length_drop, bufferSize]
        omega
      rw [if_neg hbuf, Prog.bind_ret (write_run _ h)]
      have hwritten : Function.update s.entries path
          (some (.file (content ++ rest.take bufferSize))) path =
          some (.file (content ++ rest.take bufferSize)) := Function.update_self ..
      obtain ⟨l, hrun, hl⟩ := ih
        (s := ⟨Function.update s.entries path (some (.file (content ++ rest.take bufferSize))),
          s.log ++ [.write path (rest.take bufferSize)]⟩) hwritten hlen
      refine ⟨.write path (rest.take bufferSize) :: l, ?_, ?_⟩
      · rw [hrun, Function.update_idem, List.append_assoc content, List.take_append_drop,
          List.append_assoc s.log, List.singleton_append]
      · rintro x (_ | ⟨_, hx⟩)
        · rfl
        · exact hl x hx

/-! ## The order of the calls -/

/-- The calls for a directory: `makedirs`, then all work inside it, during which its
mode is `0o777`, and last its `chmod` to the requested mode. -/
def Ordered (mode : Nat) (path : Path) (l : List RemoteCall) : Prop :=
  ∃ before inside after, l = before ++ .makedirs path :: (inside ++ .chmod path mode :: after) ∧
    (∀ x ∈ before, ¬ path <+: x.path) ∧
    (∀ x ∈ inside, x.path = path → x = .chmod path 0o777) ∧
    ∀ x ∈ after, ¬ path <+: x.path

theorem Ordered.append_left {mode : Nat} {path : Path} {l before : List RemoteCall}
    (h : Ordered mode path l) (hbefore : ∀ x ∈ before, ¬ path <+: x.path) :
    Ordered mode path (before ++ l) := by
  obtain ⟨a, b, d, rfl, ha, hb, hd⟩ := h
  refine ⟨before ++ a, b, d, (List.append_assoc ..).symm, ?_, hb, hd⟩
  intro x hx
  rcases List.mem_append.mp hx with hx | hx
  · exact hbefore x hx
  · exact ha x hx

theorem Ordered.append_right {mode : Nat} {path : Path} {l after : List RemoteCall}
    (h : Ordered mode path l) (hafter : ∀ x ∈ after, ¬ path <+: x.path) :
    Ordered mode path (l ++ after) := by
  obtain ⟨a, b, d, rfl, ha, hb, hd⟩ := h
  refine ⟨a, b, d ++ after, by simp, ha, hb, ?_⟩
  intro x hx
  rcases List.mem_append.mp hx with hx | hx
  · exact hd x hx
  · exact hafter x hx

section

variable {c : LocalDirCopier} {m : Nat} {p : Path} {ns ns' : List String} {s s' s'' : Remote}

/-- The calls `l` are work on the children `ns` of `p`, in order for every directory
there. -/
structure Work (c : LocalDirCopier) (m : Nat) (p : Path) (ns : List String)
    (l : List RemoteCall) : Prop where
  within : ∀ x ∈ l, ∃ n ∈ ns, c.filename (p ++ [n]) <+: x.path
  ordered : ∀ n ∈ ns, ∀ rel, c.source.get? (p ++ n :: rel) = some .dir →
    Ordered m (c.filename (p ++ n :: rel)) l

theorem Work.nil : Work c m p [] [] := ⟨nofun, nofun⟩

/-- Work on other children is not at or below this one. -/
theorem Work.not_below {l : List RemoteCall} (h : Work c m p ns l) {n : String} (hn : n ∉ ns)
    (rel : Path) : ∀ x ∈ l, ¬ c.filename (p ++ n :: rel) <+: x.path := by
  intro x hx hpre
  obtain ⟨n', hn', hpre'⟩ := h.within x hx
  unfold filename at hpre hpre'
  rw [← List.append_assoc] at hpre hpre'
  rw [eq_of_prefix_child hpre hpre'] at hn
  exact hn hn'

theorem Work.append {l l' : List RemoteCall} (h : Work c m p ns l) (h' : Work c m p ns' l')
    (hdisj : ∀ n ∈ ns, n ∉ ns') : Work c m p (ns ++ ns') (l ++ l') where
  within x hx := by
    rcases List.mem_append.mp hx with hx | hx
    · obtain ⟨n, hn, hpre⟩ := h.within x hx
      exact ⟨n, List.mem_append_left _ hn, hpre⟩
    · obtain ⟨n, hn, hpre⟩ := h'.within x hx
      exact ⟨n, List.mem_append_right _ hn, hpre⟩
  ordered n hn rel hdir := by
    rcases List.mem_append.mp hn with hn | hn
    · exact (h.ordered n hn rel hdir).append_right (h'.not_below (hdisj n hn) rel)
    · have hns : n ∉ ns := fun hmem => hdisj n hmem hn
      exact (h'.ordered n hn rel hdir).append_left (h.not_below hns rel)

/-! ## A directory and its children -/

/-- The children `ns` of `p` are copied. -/
structure Copied (c : LocalDirCopier) (m : Nat) (p : Path) (ns : List String)
    (s s' : Remote) : Prop where
  overlay : c.source.Overlay c.targetDir {q | ∃ n ∈ ns, p ++ [n] <+: q} s.entries s'.entries
  log : ∃ l, s'.log = s.log ++ l ∧ Work c m p ns l

theorem Copied.nil : Copied c m p [] s s where
  overlay := (FileTree.Overlay.refl ..).extend nofun nofun
  log := ⟨[], (List.append_nil _).symm, .nil⟩

theorem Copied.append (h : Copied c m p ns s s') (h' : Copied c m p ns' s' s'')
    (hdisj : ∀ n ∈ ns, n ∉ ns') : Copied c m p (ns ++ ns') s s'' where
  overlay := by
    have hunion : {q | ∃ n ∈ ns ++ ns', p ++ [n] <+: q} =
        {q | ∃ n ∈ ns, p ++ [n] <+: q} ∪ {q | ∃ n ∈ ns', p ++ [n] <+: q} := by
      ext q
      simp only [Set.mem_ofPred_eq, Set.mem_union, List.mem_append, or_and_right, exists_or]
    rw [hunion]
    exact h.overlay.trans h'.overlay
  log := by
    obtain ⟨l, hl, hwork⟩ := h.log
    obtain ⟨l', hl', hwork'⟩ := h'.log
    exact ⟨l ++ l', by rw [hl', hl, List.append_assoc], hwork.append hwork' hdisj⟩

/-- The directory of `p` is on the target, and nothing is in the way below it. -/
structure Ready (c : LocalDirCopier) (p : Path) (s : Remote) : Prop where
  fits : c.source.Fits c.targetDir s.entries
  above : ∀ q, q <+: c.filename p → s.entries q = some .dir

theorem Ready.dir (h : Ready c p s) : s.entries (c.filename p) = some .dir :=
  h.above _ (List.prefix_refl _)

theorem Ready.copied (h : Ready c p s) (hcopied : Copied c m p ns s s') : Ready c p s' where
  fits := h.fits.overlay hcopied.overlay
  above q hq := by
    rw [hcopied.overlay.off, h.above q hq]
    rintro rel ⟨n, -, hn⟩ rfl
    -- a path below a child is not above the directory
    have hpre : c.filename p ++ [n] <+: c.filename p := by
      refine List.IsPrefix.trans ?_ hq
      rw [filename, List.append_assoc]
      exact (List.prefix_append_right_inj _).mpr hn
    exact not_prefix_of_child _ n [] hpre

/-- One child after the other. -/
theorem forM_run {body : String → Prog CopyExc Remote Unit}
    (hbody : ∀ n ∈ ns, ∀ s, Ready c p s → ∃ s', body n s = .ret () s' ∧ Copied c m p [n] s s')
    (hnodup : ns.Nodup) (h : Ready c p s) :
    ∃ s', ns.forM body s = .ret () s' ∧ Copied c m p ns s s' := by
  induction ns generalizing s with
  | nil => exact ⟨s, rfl, .nil⟩
  | cons n ns ih =>
    obtain ⟨s₁, hrun, hcopied⟩ := hbody n List.mem_cons_self s h
    obtain ⟨s₂, hrun', hcopied'⟩ := ih (fun n' hn' => hbody n' (List.mem_cons_of_mem _ hn'))
      hnodup.of_cons (h.copied hcopied)
    refine ⟨s₂, ?_, ?_⟩
    · show (body n >>= fun _ => ns.forM body) s = .ret () s₂
      rw [Prog.bind_ret hrun, hrun']
    · apply hcopied.append hcopied'
      intro n' hn'
      rw [List.mem_singleton.mp hn']
      exact hnodup.notMem

/-! ## The copier -/

/-- Calls for one file, in its directory. -/
theorem copyFileNoDirCreate_run {content : Bytes} (hmode : c.mode = some m)
    (hfile : c.source.get? p = some (.file content))
    (hpath : s.entries (c.filename p) ≠ some .dir)
    (hparent : s.entries (c.filename p).dropLast = some .dir) :
    ∃ calls, c.copyFileNoDirCreate p p s = .ret ()
        ⟨Function.update s.entries (c.filename p) (some (.file content)), s.log ++ calls⟩ ∧
      ∀ x ∈ calls, x.path = c.filename p := by
  have hopened : Function.update s.entries (c.filename p) (some (.file [])) (c.filename p) =
      some (.file []) := Function.update_self ..
  obtain ⟨l, hloop, hl⟩ := copyFileFromReadfToWritef_run
    (s := ⟨Function.update s.entries (c.filename p) (some (.file [])),
      s.log ++ [.openWb (c.filename p)]⟩) hopened (Nat.lt_succ_self content.length)
  rw [Function.update_idem, List.nil_append] at hloop
  refine ⟨[.openWb (c.filename p)] ++ l ++ [.close (c.filename p)] ++ [.chmod (c.filename p) m],
    ?_, ?_⟩
  · have hclosed := Prog.tryFinally_ret hloop
      (show Remote.close (c.filename p) _ = .ret () ⟨_, _ ++ [.close (c.filename p)]⟩ from rfl)
    unfold copyFileNoDirCreate
    simp only [hfile, hmode]
    rw [Prog.bind_ret (openWb_run hpath hparent), Prog.bind_ret hclosed, chmod_run]
    · simp only [List.append_assoc]
    · simp
  · intro x hx
    simp only [List.mem_append, List.mem_singleton] at hx
    rcases hx with ((rfl | hx) | rfl) | rfl
    · rfl
    · exact hl x hx
    · rfl
    · rfl

theorem Copied.file {f : String} {content : Bytes} {calls : List RemoteCall}
    (hfile : c.source.get? (p ++ [f]) = some (.file content))
    (hcalls : ∀ x ∈ calls, x.path = c.filename (p ++ [f])) :
    Copied c m p [f] s ⟨Function.update s.entries (c.filename (p ++ [f])) (some (.file content)),
      s.log ++ calls⟩ where
  overlay := by
    have hentry : c.source.Overlay c.targetDir {p ++ [f]} s.entries
        (Function.update s.entries (c.filename (p ++ [f])) (some (.file content))) := by
      apply FileTree.Overlay.entry _ (by simp [hfile])
      intro q
      rw [hfile, Function.update_apply]
      rfl
    apply hentry.extend
    · rintro q rfl
      exact ⟨f, List.mem_singleton_self f, List.prefix_refl _⟩
    · rintro q ⟨n, hn, rel, rfl⟩ hq
      rw [List.mem_singleton.mp hn] at hq ⊢
      apply FileTree.get?_below_file hfile
      rintro rfl
      exact hq (List.append_nil _)
  log := by
    refine ⟨calls, rfl, ?_, ?_⟩
    · intro x hx
      exact ⟨f, List.mem_singleton_self f, hcalls x hx ▸ List.prefix_refl _⟩
    · intro n hn rel hdir
      rw [List.mem_singleton.mp hn, List.append_cons] at hdir
      by_cases hrel : rel = []
      · rw [hrel, List.append_nil, hfile] at hdir
        cases hdir
      · rw [FileTree.get?_below_file hfile hrel] at hdir
        cases hdir

/-- The calls for a directory and all that is in it. -/
def callsFor (c : LocalDirCopier) (m : Nat) (p : Path) (pre l : List RemoteCall) :
    List RemoteCall :=
  .makedirs (c.filename p) :: (pre ++ l ++ [.chmod (c.filename p) m])

/-- Every child of `p` is one of `ns`. -/
def Lists (c : LocalDirCopier) (p : Path) (ns : List String) : Prop :=
  ∀ n, c.source.get? (p ++ [n]) ≠ none → n ∈ ns

theorem lists_walk : Lists c p (c.source.filenames p ++ c.source.dirnames p) := by
  intro n hn
  exact List.mem_append.mpr (FileTree.mem_walk_of_ne_none hn)

/-- When the children are done in order, so is the directory. -/
theorem Work.callsFor {pre l : List RemoteCall} (h : Work c m p ns l) (hns : Lists c p ns)
    (hpre : ∀ x ∈ pre, x = .chmod (c.filename p) 0o777) {rel : Path}
    (hdir : c.source.get? (p ++ rel) = some .dir) :
    Ordered m (c.filename (p ++ rel)) (c.callsFor m p pre l) := by
  cases rel with
  | nil =>
    rw [List.append_nil]
    refine ⟨[], pre ++ l, [], rfl, nofun, ?_, nofun⟩
    intro x hx hpath
    rcases List.mem_append.mp hx with hx | hx
    · exact hpre x hx
    · obtain ⟨n, -, hn⟩ := h.within x hx
      rw [hpath, filename, filename, ← List.append_assoc] at hn
      exact absurd hn (not_prefix_of_child _ n [])
  | cons n rel =>
    have hn : n ∈ ns := hns n (FileTree.get?_child (by rw [hdir]; exact nofun))
    have habove : ¬ c.filename (p ++ n :: rel) <+: c.filename p := by
      rw [filename, filename, ← List.append_assoc]
      exact not_prefix_of_child _ n rel
    have hbefore : ∀ x ∈ .makedirs (c.filename p) :: pre,
        ¬ c.filename (p ++ n :: rel) <+: x.path := by
      rintro x (_ | ⟨_, hx⟩)
      · exact habove
      · rw [hpre x hx]
        exact habove
    have hafter : ∀ x ∈ [RemoteCall.chmod (c.filename p) m],
        ¬ c.filename (p ++ n :: rel) <+: x.path := by
      intro x hx
      rw [List.mem_singleton.mp hx]
      exact habove
    have := ((h.ordered n hn rel hdir).append_left hbefore).append_right hafter
    simpa [LocalDirCopier.callsFor] using this

/-- When the children are there, so is all that is below the directory. -/
theorem Copied.all {old : Path → Option (Entry Bytes)} (h : Copied c m p ns s s')
    (hns : Lists c p ns) (hold : c.source.Overlay c.targetDir {p} old s.entries) :
    c.source.Overlay c.targetDir {q | p <+: q} old s'.entries := by
  apply (hold.trans h.overlay).extend
  · rintro q (rfl | ⟨n, -, hn⟩)
    · exact List.prefix_refl _
    · exact (List.prefix_append p [n]).trans hn
  · rintro q ⟨rel, rfl⟩ hq
    cases rel with
    | nil => exact absurd (.inl (List.append_nil p)) hq
    | cons n rel =>
      by_contra hne
      apply hq
      right
      exact ⟨n, hns n (FileTree.get?_child hne), rel, by simp⟩

theorem prefix_child_cases {d : String} {q : Path} (h : q <+: c.filename (p ++ [d])) :
    q = c.filename (p ++ [d]) ∨ q <+: c.filename p := by
  unfold filename at h ⊢
  rw [← List.append_assoc] at h ⊢
  exact prefix_concat_cases h

theorem or_dir {e : Option (Entry Bytes)} (h : ∀ content, e ≠ some (.file content)) :
    e.or (some .dir) = some .dir := by
  match e with
  | none | some .dir => rfl
  | some (.file content) => exact absurd rfl (h content)

theorem Ready.canMake (h : Ready c p s) {d : String}
    (hdir : c.source.get? (p ++ [d]) = some .dir) : CanMake (c.filename (p ++ [d])) s where
  free q hq content := by
    rcases prefix_child_cases hq with rfl | hq
    · exact (h.fits _ content).1 hdir
    · simp [h.above q hq]
  above hthere q hq := by
    rcases prefix_child_cases hq with rfl | hq
    · exact hthere
    · exact h.above q hq

/-- `makedirs_if_needed` of a subdirectory. -/
theorem makeChild_run {d : String} (hdir : c.source.get? (p ++ [d]) = some .dir)
    (h : Ready c p s) :
    ∃ s' pre, Remote.makedirsIfNeeded (c.filename (p ++ [d])) s = .ret () s' ∧
      c.source.Overlay c.targetDir {p ++ [d]} s.entries s'.entries ∧ Ready c (p ++ [d]) s' ∧
      s'.log = s.log ++ .makedirs (c.filename (p ++ [d])) :: pre ∧
      ∀ x ∈ pre, x = .chmod (c.filename (p ++ [d])) 0o777 := by
  obtain ⟨s', pre, hmade, hentries, hlog, hpre⟩ := makedirsIfNeeded_run (h.canMake hdir)
  have hself : (s.entries (c.filename (p ++ [d]))).or (some .dir) = some .dir :=
    or_dir fun content => (h.fits _ content).1 hdir
  have habove : ∀ q, q <+: c.filename (p ++ [d]) → s'.entries q = some .dir := by
    intro q hq
    rw [hentries, if_pos hq]
    rcases prefix_child_cases hq with rfl | hq
    · exact hself
    · simp [h.above q hq]
  have hentry : c.source.Overlay c.targetDir {p ++ [d]} s.entries s'.entries := by
    apply FileTree.Overlay.entry _ (by simp [hdir])
    intro q
    show s'.entries q = if q = c.filename (p ++ [d]) then _ else _
    split
    · next hq => rw [habove q (hq ▸ List.prefix_refl _), hdir]
    · next hq =>
      by_cases hup : q <+: c.filename (p ++ [d])
      · rw [habove q hup, h.above q ((prefix_child_cases hup).resolve_left hq)]
      · rw [hentries, if_neg hup, Option.or_none]
  exact ⟨s', pre, hmade, hentry, ⟨h.fits.overlay hentry, habove⟩, hlog, hpre⟩

/-- All calls for a directory are at it or below. -/
theorem Work.callsFor_below {pre l : List RemoteCall} (h : Work c m p ns l)
    (hpre : ∀ x ∈ pre, x = .chmod (c.filename p) 0o777) :
    ∀ x ∈ c.callsFor m p pre l, c.filename p <+: x.path := by
  intro x hx
  simp only [LocalDirCopier.callsFor, List.mem_cons, List.mem_append, List.not_mem_nil,
    or_false] at hx
  rcases hx with rfl | (hx | hx) | rfl
  · exact List.prefix_refl _
  · rw [hpre x hx]
    exact List.prefix_refl _
  · obtain ⟨n, -, hn⟩ := h.within x hx
    rw [filename, ← List.append_assoc] at hn
    exact (List.prefix_append _ _).trans hn
  · exact List.prefix_refl _

/-- What a run of `_copy_directory` for `p` has to do. -/
def Copies (c : LocalDirCopier) (m : Nat) (p : Path) (copy : Prog CopyExc Remote Unit) : Prop :=
  ∀ s, Ready c p s → ∃ s' ns,
    copy s = .ret () ⟨s'.entries, s'.log ++ [.chmod (c.filename p) m]⟩ ∧
      Copied c m p ns s s' ∧ Lists c p ns

/-- A subdirectory is made and copied. -/
theorem subdirectory_run {d : String} {copy : Prog CopyExc Remote Unit}
    (hcopy : Copies c m (p ++ [d]) copy) (hdir : c.source.get? (p ++ [d]) = some .dir)
    (h : Ready c p s) :
    ∃ s', (do
        Remote.makedirsIfNeeded (c.filename (p ++ [d]))
        copy) s = .ret () s' ∧ Copied c m p [d] s s' := by
  obtain ⟨s₁, pre, hmade, hentry, hready, hlog, hpre⟩ := makeChild_run hdir h
  obtain ⟨s₂, ns, hrun, hcopied, hns⟩ := hcopy s₁ hready
  obtain ⟨l, hl, hwork⟩ := hcopied.log
  refine ⟨⟨s₂.entries, s₂.log ++ [.chmod (c.filename (p ++ [d])) m]⟩, ?_, ?_,
    c.callsFor m (p ++ [d]) pre l, ?_, ?_, ?_⟩
  · rw [Prog.bind_ret hmade, hrun]
  · have hset : {q | ∃ n ∈ [d], p ++ [n] <+: q} = {q | p ++ [d] <+: q} := by
      ext q
      simp
    rw [hset]
    exact hcopied.all hns hentry
  · simp [callsFor, hl, hlog]
  · intro x hx
    exact ⟨d, List.mem_singleton_self d, hwork.callsFor_below hpre x hx⟩
  · intro n hn rel hrel
    rw [List.mem_singleton.mp hn, List.append_cons] at hrel ⊢
    exact hwork.callsFor hns hpre hrel

theorem files_run (hmode : c.mode = some m) (h : Ready c p s) :
    ∃ s', (c.source.filenames p).forM
        (fun f => c.copyFileNoDirCreate (p ++ [f]) (p ++ [f])) s = .ret () s' ∧
      Copied c m p (c.source.filenames p) s s' := by
  apply forM_run _ (c.source.nodup_filenames p) h
  intro f hf s hs
  obtain ⟨content, hfile⟩ := FileTree.mem_filenames.mp hf
  have hparent : s.entries (c.filename (p ++ [f])).dropLast = some .dir := by
    rw [filename, ← List.append_assoc, List.dropLast_concat]
    exact hs.dir
  obtain ⟨calls, hrun, hcalls⟩ :=
    copyFileNoDirCreate_run hmode hfile ((hs.fits _ content).2 hfile) hparent
  exact ⟨_, hrun, .file hfile hcalls⟩

theorem subdirectories_run {copy : String → Prog CopyExc Remote Unit}
    (hcopy : ∀ d, c.source.get? (p ++ [d]) = some .dir → Copies c m (p ++ [d]) (copy d))
    (h : Ready c p s) :
    ∃ s', ((c.source.dirnames p).forM fun d => do
        Remote.makedirsIfNeeded (c.filename (p ++ [d]))
        copy d) s = .ret () s' ∧ Copied c m p (c.source.dirnames p) s s' := by
  apply forM_run _ (c.source.nodup_dirnames p) h
  intro d hd s hs
  have hdir := FileTree.mem_dirnames.mp hd
  exact subdirectory_run (hcopy d hdir) hdir hs

/-- **`_copy_directory`.**  By induction on the levels that are left below `p`. -/
theorem copyDirectory_run (hmode : c.mode = some m) {fuel : Nat}
    (hdir : c.source.get? p = some .dir) (hfuel : c.source.depth < fuel + p.length) :
    Copies c m p (c.copyDirectory fuel p p) := by
  induction fuel generalizing p with
  | zero =>
    have hne : c.source.get? p ≠ none := by simp [hdir]
    have := FileTree.length_le_depth hne
    omega
  | succ fuel ih =>
    intro s h
    have hsub : ∀ d, c.source.get? (p ++ [d]) = some .dir →
        Copies c m (p ++ [d]) (c.copyDirectory fuel (p ++ [d]) (p ++ [d])) := by
      intro d hd
      apply ih hd
      rw [List.length_append, List.length_singleton]
      omega
    obtain ⟨s₁, hfiles, hcopied⟩ := files_run hmode h
    have hready := h.copied hcopied
    obtain ⟨s₂, hdirs, hcopied'⟩ := subdirectories_run hsub hready
    refine ⟨s₂, _, ?_, hcopied.append hcopied' ?_, lists_walk⟩
    · have hthere : s₂.entries (c.filename p) ≠ none := by
        rw [(hready.copied hcopied').dir]
        exact nofun
      rw [copyDirectory, FileTree.walk_dir hdir]
      dsimp only
      rw [Prog.bind_ret hfiles, Prog.bind_ret hdirs, chmodTarget, hmode]
      exact chmod_run m hthere
    · intro n hn hn'
      obtain ⟨content, hfile⟩ := FileTree.mem_filenames.mp hn
      rw [FileTree.mem_dirnames.mp hn'] at hfile
      cases hfile

/-- Nothing on the target is in the way of the copy. -/
structure Suits (c : LocalDirCopier) (s : Remote) : Prop where
  canMake : CanMake (c.filename []) s
  fits : c.source.Fits c.targetDir s.entries

theorem filename_nil : c.filename [] = c.targetDir := List.append_nil _

/-- `makedirs_if_needed` of `target_dir`: it and its parents are there. -/
theorem makeTarget_run (h : Suits c s) :
    ∃ s' pre, Remote.makedirsIfNeeded (c.filename []) s = .ret () s' ∧ Ready c [] s' ∧
      (∀ q, s'.entries q = (s.entries q).or (if q <+: c.targetDir then some .dir else none)) ∧
      s'.log = s.log ++ .makedirs (c.filename []) :: pre ∧
      ∀ x ∈ pre, x = .chmod (c.filename []) 0o777 := by
  obtain ⟨s', pre, hmade, hentries, hlog, hpre⟩ := makedirsIfNeeded_run h.canMake
  have habove : ∀ q, q <+: c.filename [] → s'.entries q = some .dir := by
    intro q hq
    rw [hentries, if_pos hq]
    exact or_dir (h.canMake.free q hq)
  have hthere : s'.entries c.targetDir = some .dir := by
    rw [← filename_nil]
    exact habove _ (List.prefix_refl _)
  refine ⟨s', pre, hmade, ⟨?_, habove⟩, fun q => ?_, hlog, hpre⟩
  · intro rel content
    by_cases hrel : rel = []
    · have hdir : c.source.get? [] = some .dir := c.source.root
      subst hrel
      simp [hthere, hdir]
    · obtain ⟨n, rel, rfl⟩ := List.exists_cons_of_ne_nil hrel
      have hnot : ¬ c.targetDir ++ n :: rel <+: c.filename [] := by
        rw [filename_nil]
        exact not_prefix_of_child _ n rel
      rw [hentries, if_neg hnot, Option.or_none]
      exact h.fits (n :: rel) content
  · rw [hentries, filename_nil]

/-- **The whole copy.**  It returns.  Below `target_dir` there is then the tree, and
otherwise what was there; outside only the parents of `target_dir` may be new.  For
every directory of the tree the calls are in order. -/
theorem copiesTree (c : LocalDirCopier) (m : Nat) (hmode : c.mode = some m) (s : Remote)
    (h : Suits c s) :
    ∃ enough, ∀ fuel, enough ≤ fuel → ∃ s' l,
      c.copyDirectoryToTarget fuel s = .ret () s' ∧ s'.log = s.log ++ l ∧
        (∀ rel, s'.entries (c.targetDir ++ rel) =
          (c.source.get? rel).or (s.entries (c.targetDir ++ rel))) ∧
        (∀ q, ¬ c.targetDir <+: q → s'.entries q =
          (s.entries q).or (if q <+: c.targetDir then some .dir else none)) ∧
        ∀ rel, c.source.get? rel = some .dir → Ordered m (c.targetDir ++ rel) l := by
  refine ⟨c.source.depth + 1, fun fuel hfuel => ?_⟩
  have hroot : c.source.get? [] = some .dir := c.source.root
  obtain ⟨s₁, pre, hmade, hready, hentries, hlog, hpre⟩ := makeTarget_run h
  obtain ⟨s₂, ns, hrun, hcopied, hns⟩ := copyDirectory_run hmode hroot
    (Nat.lt_of_lt_of_le (Nat.lt_succ_self _) hfuel) s₁ hready
  obtain ⟨l, hl, hwork⟩ := hcopied.log
  have hself : c.source.Overlay c.targetDir {[]} s₁.entries s₁.entries := by
    apply FileTree.Overlay.entry _ (by simp [hroot])
    intro q
    split
    · next hq => rw [hq, hroot, ← hready.dir, filename]
    · rfl
  have hall := hcopied.all hns hself
  refine ⟨⟨s₂.entries, s₂.log ++ [.chmod (c.filename []) m]⟩, c.callsFor m [] pre l, ?_, ?_, ?_,
    ?_, ?_⟩
  · rw [copyDirectoryToTarget, Prog.bind_ret hmade, hrun]
  · simp [callsFor, hl, hlog]
  · intro rel
    rw [hall.on rel List.nil_prefix, hentries]
    cases rel with
    | nil => simp [hroot]
    | cons n rel => rw [if_neg (not_prefix_of_child _ n rel), Option.or_none]
  · intro q hq
    rw [hall.off q, hentries]
    rintro rel - rfl
    exact hq (List.prefix_append _ _)
  · intro rel hdir
    have hrel : c.source.get? ([] ++ rel) = some .dir := hdir
    exact hwork.callsFor hns hpre hrel

end

/-! ## A directory with a file and a subdirectory -/

def tree : FileTree String Bytes where
  items := ⟨[([], .dir), (["a"], .file [1, 2]), (["d"], .dir), (["d", "b"], .file [])], by decide⟩
  root := by decide
  parent := by decide

/-- A target on which there is nothing but the root. -/
def emptyTarget : Remote := ⟨fun q => if q = [] then some .dir else none, []⟩

theorem suits_emptyTarget : Suits ⟨tree, ["t"], some 0o555⟩ emptyTarget := by
  have hfile : ∀ q content, emptyTarget.entries q ≠ some (.file content) := by
    intro q content
    unfold emptyTarget
    dsimp only
    split <;> exact nofun
  constructor
  · exact ⟨fun q _ content => hfile q content, nofun⟩
  · exact fun rel content => ⟨fun _ => hfile _ content, fun _ => nofun⟩

theorem copiesTree_tree : ∃ enough, ∀ fuel, enough ≤ fuel → ∃ s' l,
    copyDirectoryToTarget ⟨tree, ["t"], some 0o555⟩ fuel emptyTarget = .ret () s' ∧
      s'.log = emptyTarget.log ++ l ∧
      (∀ rel, s'.entries (["t"] ++ rel) =
        (tree.get? rel).or (emptyTarget.entries (["t"] ++ rel))) ∧
      (∀ q, ¬ ["t"] <+: q → s'.entries q =
        (emptyTarget.entries q).or (if q <+: ["t"] then some .dir else none)) ∧
      ∀ rel, tree.get? rel = some .dir → Ordered 0o555 (["t"] ++ rel) l :=
  copiesTree ⟨tree, ["t"], some 0o555⟩ 0o555 rfl emptyTarget suits_emptyTarget

end LocalDirCopier

end InteractiveSessions
