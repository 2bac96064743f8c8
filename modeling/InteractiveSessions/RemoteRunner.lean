import InteractiveSessions.Accounts
import InteractiveSessions.SelfRepairingSession
import InteractiveSessions.Shell

/-!
# `RemoteRunner`: the keywords

Targets, the registry `_backgrounds` of executions and the terminals of the living
`PythonTerminal` objects, over the one `_TerminalPools`.  A keyword comes with what the
environment decides in it.  What is copied or created in a target is an outcome only.

* `accounted`: in every state that keywords lead to, the shared counter of each terminal in
  a pool is the number of executions that wait for it, and no terminal is given out twice;
* `closes_no_other`: in the same runs, no keyword closes the terminal of a `PythonTerminal`
  or of an execution without a result, other than `close` and a kill that fails.
-/

namespace InteractiveSessions

/-- The properties of a target that processes use.  `maxProcessesInTarget` is
`int(max_processes_in_target)` unless that fails. -/
structure TargetProperties where
  maxProcessesInTarget : Option Int
  terminationTimeout : ℚ
  deriving DecidableEq

/-- `defaultproperties` -/
def TargetProperties.defaultproperties : TargetProperties := ⟨some 100, 10⟩

/-- `_RunnerInTarget` -/
structure Target (σ : Type) where
  shelldicts : σ
  properties : TargetProperties

/-- `_TerminalPoolKey(shelldicts + [{'zone': zone}])`.  The zone is in the key. -/
structure PoolKeys (σ κ : Type) where
  key : σ → Option String → κ
  key_ne : ∀ s s', key s none ≠ key s' (some "background")

inductive RemoteRunnerExc (κ : Type) where
  | targetIsNotSet (name : String)
  | backgroundExecIdAlreadyInUse (execId : String)
  | keyError
  | valueError
  | process (e : ProcessExc κ)
  | terminalPools (e : TerminalPoolsExc κ)
  /-- An exception from the copying in a target. -/
  | copying
  deriving DecidableEq

/-- `terminals` are those of the `PythonTerminal` objects. -/
structure RemoteRunner (σ κ : Type) where
  targets : Dict String (Target σ)
  defaultproperties : TargetProperties
  pools : TerminalPools κ
  backgrounds : Dict String (BackgroundProcess κ)
  terminals : List (Terminal κ)

/-- `rstrip_runresult` -/
def rstripRunresult (r : RunResult) : CommandResult :=
  ⟨toString r.status, SelfRepairingSession.rstrip (Compatibility.toString r.stdout),
    SelfRepairingSession.rstrip (Compatibility.toString r.stderr)⟩

namespace RemoteRunner

variable {σ κ α : Type}

abbrev Program (σ κ α : Type) : Type := Prog (RemoteRunnerExc κ) (RemoteRunner σ κ) α

def init : RemoteRunner σ κ :=
  ⟨Dict.empty, .defaultproperties, TerminalPools.init, Dict.empty, []⟩

/-! ## Targets -/

/-- `set_target` -/
def setTarget (shelldicts : σ) (name : String) : Program σ κ Unit :=
  Prog.modify fun s => { s with targets := s.targets.set name ⟨shelldicts, s.defaultproperties⟩ }

/-- `_get_targethandle` -/
def getTargethandle (name : String) : Program σ κ (Target σ) := do
  let target ← Prog.gets fun s : RemoteRunner σ κ => s.targets.get? name
  match target with
  | none => Prog.raise (.targetIsNotSet name)
  | some target => pure target

/-- `set_target_property` of a property that processes use. -/
def setTargetProperty (name : String) (set : TargetProperties → TargetProperties) :
    Program σ κ Unit := do
  let target ← getTargethandle name
  Prog.modify fun s => { s with
    targets := s.targets.set name { target with properties := set target.properties } }

/-- `set_default_target_property` of a property that processes use. -/
def setDefaultTargetProperty (set : TargetProperties → TargetProperties) : Program σ κ Unit :=
  Prog.modify fun s => { s with defaultproperties := set s.defaultproperties }

/-- `set_terminalpools_maxsize`, where `maxsize` is `int(maxsize)` unless that fails. -/
def setTerminalpoolsMaxsize (maxsize : Option Int) : Program σ κ Unit :=
  match maxsize with
  | none => Prog.raise .valueError
  | some maxsize => Prog.modify fun s => { s with pools := s.pools.setMaxsize (some maxsize) }

/-! ## Commands -/

/-- `self.terminalpools` -/
def onPools (m : Prog (TerminalPoolsExc κ) (TerminalPools κ) α) : Program σ κ α := fun s =>
  match m s.pools with
  | .ret a pools => .ret a { s with pools }
  | .raised e pools => .raised (.terminalPools e) { s with pools }
  | .hang => .hang

/-- What the environment decides in a run: the choices of the pools, and the replies of
the remote steps. -/
structure RunChoice (κ : Type) where
  choice : Choice κ
  replies : Replies

section
variable [DecidableEq κ] (keys : PoolKeys σ κ)

/-- A process of a target.  No terminal is made non-persistent. -/
def runEnv (target : Target σ) (c : RunChoice κ) (timeout : ℚ) : RunEnv κ where
  key := keys.key target.shelldicts
  maxProcesses := target.properties.maxProcessesInTarget
  choice := c.choice
  isPersistent := true
  timeout
  replies := c.replies

/-- `run()` of a new process, with the process after it. -/
def run (cls : ProcessClass) (e : RunEnv κ) : Program σ κ (Returned × Process κ) := fun s =>
  match Process.run e cls ⟨s.pools, none⟩ with
  | .ret r p => .ret (r, p) { s with pools := p.pools }
  | .raised exc p => .raised (.process exc) { s with pools := p.pools }
  | .hang => .hang

/-- `execute_command_in_target` -/
def executeCommandInTarget (target : String) (timeout : ℚ) (progressLog : Bool)
    (c : RunChoice κ) : Program σ κ (Option CommandResult) := do
  let handle ← getTargethandle target
  let cls := if progressLog then .asyncProcessWithoutPty else .foregroundProcessWithoutPty
  let (returned, _) ← run cls (runEnv keys handle c timeout)
  match returned with
  | .result r => pure (some (rstripRunresult r))
  | .process | .pid _ => pure none

/-- `execute_background_command_in_target`, with the handle of the response. -/
def executeBackgroundCommandInTarget (target execId : String) (c : RunChoice κ) (handle : Nat) :
    Program σ κ Unit := do
  let ids ← Prog.gets fun s : RemoteRunner σ κ => s.backgrounds.keys
  if execId ∈ ids then Prog.raise (.backgroundExecIdAlreadyInUse execId)
  else do
    let target ← getTargethandle target
    let (_, process) ← run .backgroundProcessWithoutPty (runEnv keys target c 0)
    Prog.modify fun s => { s with
      backgrounds := s.backgrounds.set execId
        (.started process handle target.properties.terminationTimeout true) }

/-- `execute_nohup_background_in_target` -/
def executeNohupBackgroundInTarget (target : String) (c : RunChoice κ) :
    Program σ κ Returned := do
  let handle ← getTargethandle target
  let (returned, _) ← run .noCommBackgroudProcess (runEnv keys handle c 0)
  pure returned

/-- The runner after a call of an execution. -/
def setBackground (execId : String) (p : BackgroundProcess κ) (s : RemoteRunner σ κ) :
    RemoteRunner σ κ :=
  { s with pools := p.process.pools, backgrounds := s.backgrounds.set execId p }

/-- A call of the execution, which sees the pools as they are. -/
def onBackground (execId : String) (m : Prog (ProcessExc κ) (BackgroundProcess κ) α) :
    Program σ κ α := fun s =>
  match s.backgrounds.get? execId with
  | none => .raised .keyError s
  | some p =>
    match m { p with process := { p.process with pools := s.pools } } with
    | .ret a p => .ret a (s.setBackground execId p)
    | .raised e p => .raised (.process e) (s.setBackground execId p)
    | .hang => .hang

/-- `wait_background_execution` -/
def waitBackgroundExecution (execId : String) (timeout : ℚ)
    (response : Except RemoteExc (Bytes × Bytes)) (returncode : Except RemoteExc Int) :
    Program σ κ CommandResult := do
  let result ← onBackground execId
    (BackgroundProcess.waitBackgroundExecution timeout response returncode)
  Prog.modify fun s => { s with backgrounds := s.backgrounds.erase execId }
  pure (rstripRunresult result)

/-- `kill_background_execution` -/
def killBackgroundExecution (execId : String) (r : BackgroundProcess.KillRun) :
    Program σ κ CommandResult := do
  let result ← onBackground execId (BackgroundProcess.killBackgroundExecution r)
  pure (rstripRunresult result)

/-! ## Terminals -/

/-- `active_terminal` of each target around the next, and around what is done with them
all.  `copy_file_between_targets` has two, the other keywords that copy or create have
one. -/
def withTerminals (body : Except Unit Unit) : List (String × Choice κ) → Program σ κ Unit
  | [] =>
    match body with
    | .ok () => pure ()
    | .error () => Prog.raise .copying
  | (target, c) :: rest => do
    let handle ← getTargethandle target
    let t ← onPools (TerminalPools.get c (keys.key handle.shelldicts none)
      handle.properties.maxProcessesInTarget)
    Prog.tryFinally (withTerminals body rest) (onPools (TerminalPools.put t true))

/-- `get_terminal` -/
def getTerminal (target : String) (c : Choice κ) : Program σ κ Unit := do
  let handle ← getTargethandle target
  let t ← onPools (TerminalPools.get c (keys.key handle.shelldicts none)
    handle.properties.maxProcessesInTarget)
  Prog.modify fun s => { s with terminals := s.terminals ++ [t] }

/-- `PythonTerminal.__del__`, where every exception is ignored. -/
def delTerminal (i : Nat) : Program σ κ Unit := do
  let terminal ← Prog.gets fun s : RemoteRunner σ κ => s.terminals[i]?
  match terminal with
  | none => pure ()
  | some t => do
    Prog.modify fun s => { s with terminals := s.terminals.eraseIdx i }
    Prog.tryExcept (onPools (TerminalPools.put t true)) fun _ => some (pure ())

/-- `close` -/
def close (order : SetOrder (Terminal κ)) : Program σ κ Unit := do
  onPools (TerminalPools.close order)
  Prog.modify fun s => { s with targets := Dict.empty, backgrounds := Dict.empty }

end

/-! ## Keywords -/

inductive Keyword (σ κ : Type) where
  | setTarget (shelldicts : σ) (name : String)
  | setTargetProperty (name : String) (set : TargetProperties → TargetProperties)
  | setDefaultTargetProperty (set : TargetProperties → TargetProperties)
  | setTerminalpoolsMaxsize (maxsize : Option Int)
  | executeCommandInTarget (target : String) (timeout : ℚ) (progressLog : Bool)
      (c : RunChoice κ)
  | executeBackgroundCommandInTarget (target execId : String) (c : RunChoice κ) (handle : Nat)
  | executeNohupBackgroundInTarget (target : String) (c : RunChoice κ)
  | waitBackgroundExecution (execId : String) (timeout : ℚ)
      (response : Except RemoteExc (Bytes × Bytes)) (returncode : Except RemoteExc Int)
  | killBackgroundExecution (execId : String) (r : BackgroundProcess.KillRun)
  | copy (body : Except Unit Unit) (targets : List (String × Choice κ))
  | getTerminal (target : String) (c : Choice κ)
  | delTerminal (i : Nat)
  | close (order : SetOrder (Terminal κ))

variable [DecidableEq κ] (keys : PoolKeys σ κ)

def call (a : Keyword σ κ) : Program σ κ Unit :=
  match a with
  | .setTarget shelldicts name => setTarget shelldicts name
  | .setTargetProperty name set => setTargetProperty name set
  | .setDefaultTargetProperty set => setDefaultTargetProperty set
  | .setTerminalpoolsMaxsize maxsize => setTerminalpoolsMaxsize maxsize
  | .executeCommandInTarget target timeout progressLog c => do
    let _ ← executeCommandInTarget keys target timeout progressLog c
  | .executeBackgroundCommandInTarget target execId c handle =>
    executeBackgroundCommandInTarget keys target execId c handle
  | .executeNohupBackgroundInTarget target c => do
    let _ ← executeNohupBackgroundInTarget keys target c
  | .waitBackgroundExecution execId timeout response returncode => do
    let _ ← waitBackgroundExecution execId timeout response returncode
  | .killBackgroundExecution execId r => do
    let _ ← killBackgroundExecution execId r
  | .copy body targets => withTerminals keys body targets
  | .getTerminal target c => getTerminal keys target c
  | .delTerminal i => delTerminal i
  | .close order => close order

def step (a : Keyword σ κ) (s : RemoteRunner σ κ) : RemoteRunner σ κ := (call keys a s).state s

/-- The terminals to which the runner has a reference. -/
def referenced (s : RemoteRunner σ κ) : List (Terminal κ) :=
  s.terminals ++ s.backgrounds.items.filterMap fun x => x.2.process.terminal

/-- The choices of a keyword. -/
def Keyword.choices : Keyword σ κ → List (Choice κ)
  | .executeCommandInTarget _ _ _ c | .executeBackgroundCommandInTarget _ _ c _
  | .executeNohupBackgroundInTarget _ c => [c.choice]
  | .copy _ targets => targets.map Prod.snd
  | .getTerminal _ c => [c]
  | _ => []

/-- The execution that a keyword kills. -/
def Keyword.killed : Keyword σ κ → Option String
  | .killBackgroundExecution execId _ => some execId
  | _ => none

/-- The `id()` of a new terminal is not that of one which is still referenced, and no
execution is killed that has a result. -/
def Ok (a : Keyword σ κ) (s : RemoteRunner σ κ) : Prop :=
  (∀ c ∈ a.choices, ∀ t ∈ s.referenced, c.new ≠ some t.id) ∧
    ∀ execId ∈ a.killed, ∀ p ∈ s.backgrounds.get? execId, p.result = none

instance (a : Keyword σ κ) (s : RemoteRunner σ κ) : Decidable (Ok a s) :=
  inferInstanceAs (Decidable ((∀ c ∈ a.choices, ∀ t ∈ s.referenced, c.new ≠ some t.id) ∧
    ∀ execId ∈ a.killed, ∀ p ∈ s.backgrounds.get? execId, p.result = none))

/-! ## The accounts -/

/-- An execution without a result, on `t`. -/
def WaitsOn (t : Terminal κ) (p : BackgroundProcess κ) : Prop :=
  p.result = none ∧ p.process.terminal = some t

instance (t : Terminal κ) (p : BackgroundProcess κ) : Decidable (WaitsOn t p) :=
  inferInstanceAs (Decidable (_ ∧ _))

/-- How many executions wait for a result on `t`. -/
def waiting (t : Terminal κ) (s : RemoteRunner σ κ) : Nat := s.backgrounds.count (WaitsOn t)

/-- The shares that a terminal should have. -/
def shares (s : RemoteRunner σ κ) (t : Terminal κ) : Nat :=
  if t ∈ s.pools.closed then 0 else s.waiting t

structure Inv (s : RemoteRunner σ κ) : Prop where
  pools : ∃ held, (∀ t ∈ s.terminals, t ∉ s.pools.closed → t ∈ held) ∧
    TerminalPools.Inv held s.shares s.pools
  nodup : s.terminals.Nodup
  zone : ∀ t ∈ s.terminals, ∃ shelldicts, t.key = keys.key shelldicts none
  backgrounds : ∀ x ∈ s.backgrounds.items, x.2.isPersistent = true ∧
    ∃ t, x.2.process.terminal = some t ∧
      ∃ shelldicts, t.key = keys.key shelldicts (some "background")

theorem inv_init : Inv keys (init : RemoteRunner σ κ) := by
  refine ⟨⟨∅, by simp [init], ?_⟩, List.nodup_nil, by simp [init], by simp [init, Dict.empty]⟩
  have hshares : (init : RemoteRunner σ κ).shares = fun _ => 0 := by
    funext t
    simp [shares, waiting, init, TerminalPools.init, Dict.empty, Dict.count]
  rw [hshares]
  exact TerminalPools.inv_init

/-- A `PythonTerminal` has it, or an execution waits on it. -/
def Owned (t : Terminal κ) (s : RemoteRunner σ κ) : Prop := t ∈ s.terminals ∨ 0 < s.waiting t

/-- Terminals other than `lost` are not closed while they have an owner. -/
def Spared (lost : Option (Terminal κ)) (s s' : RemoteRunner σ κ) : Prop :=
  ∀ t, lost ≠ some t → s.Owned t → s'.Owned t → (t ∈ s'.pools.closed ↔ t ∈ s.pools.closed)

variable {keys} {s x : RemoteRunner σ κ} {held : Finset (Terminal κ)} {t : Terminal κ}

theorem waiting_pos : 0 < s.waiting t ↔ ∃ x ∈ s.backgrounds.items, WaitsOn t x.2 :=
  Dict.count_pos

theorem Owned.mem_referenced (h : s.Owned t) : t ∈ s.referenced := by
  rcases h with h | h
  · exact List.mem_append_left _ h
  · obtain ⟨x, hx, -, ht⟩ := waiting_pos.mp h
    exact List.mem_append_right _ (List.mem_filterMap.mpr ⟨x, hx, ht⟩)

theorem shares_of_open (ht : t ∉ s.pools.closed) : s.shares t = s.waiting t := if_neg ht

theorem shares_of_closed (ht : t ∈ s.pools.closed) : s.shares t = 0 := if_pos ht

/-- The closed terminals to which there is a reference. -/
def kept (s : RemoteRunner σ κ) : Finset (Terminal κ) :=
  s.pools.closed.filter fun t => t ∈ s.referenced

/-- Pools in which closed terminals are still closed. -/
structure Account (s : RemoteRunner σ κ) (held : Finset (Terminal κ))
    (shares : Terminal κ → Nat) (pools : TerminalPools κ) : Prop where
  inv : TerminalPools.Inv held shares pools
  kept : s.kept ⊆ pools.closed

section
variable {shares' : Terminal κ → Nat} {pools : TerminalPools κ}

theorem Account.closed_iff (h : Account s held shares' pools) (ht : s.Owned t)
    (hopen : t ∉ s.pools.closed → t ∈ held ∨ 0 < shares' t) :
    t ∈ pools.closed ↔ t ∈ s.pools.closed := by
  constructor
  · intro hclosed
    by_contra hnot
    exact h.inv.not_closed (hopen hnot) hclosed
  · exact fun hclosed => h.kept (Finset.mem_filter.mpr ⟨hclosed, ht.mem_referenced⟩)

/-- A terminal with the same shares, on which the same number of executions wait. -/
theorem Account.shares_eq (h : Account s held shares' x.pools) (hshares : shares' t = s.shares t)
    (hwaiting : x.waiting t = s.waiting t) : x.shares t = shares' t := by
  rcases Nat.eq_zero_or_pos (s.waiting t) with hzero | hpos
  · simp only [hshares, shares, hwaiting, hzero, ite_self]
  · have hiff := h.closed_iff (.inr hpos) fun hopen => .inr (by
      rw [hshares, shares_of_open hopen]
      exact hpos)
    simp only [hshares, shares, hwaiting, hiff]

end

/-- The pools have moved on, and the executions may have. -/
theorem Inv.of_account (h : Inv keys s) (hterminals : x.terminals = s.terminals)
    (hheld : ∀ t ∈ s.terminals, t ∉ s.pools.closed → t ∈ held)
    (haccount : Account s held x.shares x.pools)
    (hbackgrounds : ∀ y ∈ x.backgrounds.items, y.2.isPersistent = true ∧
      ∃ t, y.2.process.terminal = some t ∧
        ∃ shelldicts, t.key = keys.key shelldicts (some "background")) :
    Inv keys x := by
  refine ⟨⟨held, fun t ht hopen => ?_, haccount.inv⟩, ?_, ?_, hbackgrounds⟩
  · rw [hterminals] at ht
    refine hheld t ht fun hclosed => hopen (haccount.kept ?_)
    exact Finset.mem_filter.mpr ⟨hclosed, List.mem_append_left _ ht⟩
  · rw [hterminals]
    exact h.nodup
  · rw [hterminals]
    exact h.zone

/-- Who has a share in the end, or holds a terminal, has it open. -/
theorem Account.spared {lost : Option (Terminal κ)} (haccount : Account s held x.shares x.pools)
    (hheld : ∀ t ∈ s.terminals, t ∉ s.pools.closed → t ∈ held)
    (hterminals : ∀ t ∈ x.terminals, t ∈ s.terminals)
    (hlost : ∀ t, lost ≠ some t → s.Owned t → 0 < x.waiting t → t ∉ s.pools.closed →
      0 < x.shares t) : Spared lost s x := by
  intro t hne hs hx
  refine haccount.closed_iff hs fun hopen => ?_
  rcases hx with hx | hx
  · exact .inl (hheld t (hterminals t hx) hopen)
  · exact .inr (hlost t hne hs hx hopen)

/-- The same targets and executions, with pools that have these accounts. -/
def Within (s : RemoteRunner σ κ) (held : Finset (Terminal κ)) (x : RemoteRunner σ κ) : Prop :=
  ∃ pools, x = { s with pools } ∧ Account s held s.shares pools

/-- **The pools move on.** -/
theorem Within.spared (h : Within s held x) (hinv : Inv keys s)
    (hheld : ∀ t ∈ s.terminals, t ∉ s.pools.closed → t ∈ held) :
    Inv keys x ∧ Spared none s x := by
  obtain ⟨pools, rfl, haccount⟩ := h
  have hshares : ({ s with pools } : RemoteRunner σ κ).shares = s.shares := by
    funext t
    exact haccount.shares_eq (x := { s with pools }) rfl rfl
  rw [← hshares] at haccount
  refine ⟨hinv.of_account rfl hheld haccount hinv.backgrounds,
    haccount.spared (x := { s with pools }) hheld (fun _ => id) fun t _ _ hpos hopen => ?_⟩
  rw [hshares, shares_of_open hopen]
  exact hpos

/-! ## Steps in the pools -/

section
variable {c : Choice κ}

omit [DecidableEq κ] in
theorem triple_onPools {P : TerminalPools κ → Prop} {Q : α → TerminalPools κ → Prop}
    {E : TerminalPoolsExc κ → TerminalPools κ → Prop}
    {m : Prog (TerminalPoolsExc κ) (TerminalPools κ) α} (h : Prog.Triple P m Q E) :
    Prog.Triple (fun x => ∃ pools, x = { s with pools } ∧ P pools) (onPools m)
      (fun a x => ∃ pools, x = { s with pools } ∧ Q a pools)
      fun _ x => ∃ pools, x = { s with pools } ∧ ∃ e, E e pools := by
  rintro x ⟨pools, rfl, hpools⟩
  have hm := h pools hpools
  unfold onPools
  cases hrun : m pools with
  | ret a pools' =>
    rw [hrun] at hm
    exact ⟨pools', rfl, hm⟩
  | raised e pools' =>
    rw [hrun] at hm
    exact ⟨pools', rfl, e, hm⟩
  | hang => trivial

omit [DecidableEq κ] in
theorem keeps_getTargethandle (P : RemoteRunner σ κ → Prop) (name : String) :
    Prog.Keeps P (getTargethandle name) := by
  apply Prog.keeps_gets_bind
  intro target
  cases target with
  | none => exact Prog.keeps_raise
  | some target => exact Prog.keeps_pure

theorem triple_get (hfresh : ∀ u ∈ s.kept, c.new ≠ some u.id) {key : κ}
    {maxProcesses : Option Int} :
    Prog.Triple (Account s held s.shares) (TerminalPools.get c key maxProcesses)
      (fun t pools => (t ∉ held ∧ t ∉ s.kept ∧ t.key = key) ∧
        Account s (insert t held) s.shares pools)
      fun _ => Account s held s.shares := by
  intro pools hpools
  refine (TerminalPools.triple_get hpools.inv).mono (fun _ => id) ?_ ?_ pools rfl
  · rintro t pools' ⟨hspares, hgot⟩
    have hkept : ∀ u ∈ s.kept, t ≠ u ∧ u ∈ pools'.closed := fun u hu =>
      hgot.closed u (hpools.kept hu) (hfresh u hu)
    exact ⟨⟨hgot.notMem, fun hmem => (hkept t hmem).1 rfl, hgot.key⟩, hspares.inv,
      fun u hu => (hkept u hu).2⟩
  · exact fun _ pools' hs => ⟨hs.1.inv, hpools.kept.trans hs.2⟩

theorem triple_put (ht : t ∉ held) :
    Prog.Triple (Account s (insert t held) s.shares) (TerminalPools.put t true)
      (fun _ => Account s held s.shares) fun _ => Account s held s.shares := by
  intro pools hpools
  obtain ⟨pools', hrun, hinv⟩ := TerminalPools.put_held hpools.inv ht
  have hkept := TerminalPools.keeps_closed_putOp.of_ret hpools.kept hrun
  rw [hrun]
  exact ⟨hinv, hkept⟩

/-- **Terminals for a while.**  Whatever is done with them, all are given back. -/
theorem triple_withTerminals (body : Except Unit Unit) (targets : List (String × Choice κ))
    (hfresh : ∀ c ∈ targets.map Prod.snd, ∀ u ∈ s.kept, c.new ≠ some u.id) :
    Prog.Triple (Within s held) (withTerminals keys body targets) (fun _ => Within s held)
      fun _ => Within s held := by
  induction targets generalizing held with
  | nil =>
    cases body with
    | ok a => exact Prog.keeps_pure
    | error e => exact Prog.keeps_raise
  | cons x rest ih =>
    obtain ⟨target, c⟩ := x
    have hc := hfresh c List.mem_cons_self
    have hrest := fun c hc => hfresh c (List.mem_cons_of_mem _ hc)
    refine (keeps_getTargethandle _ _).bind fun handle => ?_
    refine Prog.Triple.bind ((triple_onPools (triple_get hc)).mono (fun _ => id) (fun _ _ => id)
      fun _ x hx => ?_) fun t => ?_
    · obtain ⟨pools, rfl, _, hpools⟩ := hx
      exact ⟨pools, rfl, hpools⟩
    · rintro x ⟨pools, rfl, ⟨ht, -, -⟩, hpools⟩
      have hput : Prog.Triple (Within s (insert t held)) (onPools (TerminalPools.put t true))
          (fun _ => Within s held) fun _ => Within s held :=
        (triple_onPools (triple_put ht)).mono (fun _ => id) (fun _ _ => id) fun _ x hx => by
          obtain ⟨pools, rfl, _, hpools⟩ := hx
          exact ⟨pools, rfl, hpools⟩
      exact Prog.Triple.tryFinally (ih hrest) (fun _ => hput) (fun _ => hput) _
        ⟨pools, rfl, hpools⟩

/-- A process of a target, from `get` to its end. -/
theorem triple_run (s : RemoteRunner σ κ) (held : Finset (Terminal κ)) {cls : ProcessClass}
    {e : RunEnv κ} {Q : Returned → Process κ → Prop} {E : Process κ → Prop}
    (h : ∀ pools, Account s held s.shares pools →
      Prog.Triple (fun p => p = ⟨pools, none⟩) (Process.run e cls) Q fun _ => E) :
    Prog.Triple (Within s held) (run cls e)
      (fun r x => x = { s with pools := r.2.pools } ∧ Q r.1 r.2)
      fun _ x => ∃ p : Process κ, x = { s with pools := p.pools } ∧ E p := by
  rintro x ⟨pools, rfl, hpools⟩
  have hp := h pools hpools ⟨pools, none⟩ rfl
  unfold run
  cases hrun : Process.run e cls ⟨pools, none⟩ with
  | ret r p =>
    rw [hrun] at hp
    exact ⟨rfl, hp⟩
  | raised exc p =>
    rw [hrun] at hp
    exact ⟨p, rfl, hp⟩
  | hang => trivial

end

/-! ## Steps of the keywords -/

/-- The state of a keyword that loses at most one terminal. -/
def Good (keys : PoolKeys σ κ) (lost : Option (Terminal κ)) (s x : RemoteRunner σ κ) : Prop :=
  Inv keys x ∧ Spared lost s x

/-- No execution waits on a terminal of the other zone. -/
theorem Inv.shares_zone (h : Inv keys s) {shelldicts : σ} (ht : t.key = keys.key shelldicts none) :
    s.shares t = 0 := by
  by_contra hne
  have hopen : t ∉ s.pools.closed := fun hclosed => hne (shares_of_closed hclosed)
  rw [shares_of_open hopen] at hne
  obtain ⟨y, hy, -, hterminal⟩ := waiting_pos.mp (Nat.pos_of_ne_zero hne)
  obtain ⟨-, u, hu, shelldicts', hkey⟩ := h.backgrounds y hy
  cases hterminal.symm.trans hu
  exact keys.key_ne _ _ (ht.symm.trans hkey)

theorem Inv.account (h : Inv keys s) : ∃ held, (∀ t ∈ s.terminals, t ∉ s.pools.closed → t ∈ held) ∧
    Account s held s.shares s.pools := by
  obtain ⟨held, hheld, hinv⟩ := h.pools
  exact ⟨held, hheld, hinv, Finset.filter_subset _ _⟩

section
variable (h : Inv keys s)
include h

/-- A keyword that only uses the pools. -/
theorem Inv.triple_within {m : Program σ κ α}
    (hm : ∀ held, Prog.Triple (Within s held) m
      (fun _ x => ∃ held', held ⊆ held' ∧ Within s held' x)
      fun _ x => ∃ held', held ⊆ held' ∧ Within s held' x) :
    Prog.Triple (fun x => x = s) m (fun _ => Good keys none s) fun _ => Good keys none s := by
  obtain ⟨held, hheld, haccount⟩ := h.account
  refine (hm held).mono ?_ ?_ ?_
  · rintro _ rfl
    exact ⟨_, rfl, haccount⟩
  · rintro _ x ⟨held', hsub, hx⟩
    exact hx.spared h fun t ht hopen => hsub (hheld t ht hopen)
  · rintro _ x ⟨held', hsub, hx⟩
    exact hx.spared h fun t ht hopen => hsub (hheld t ht hopen)

theorem Inv.triple_copy (body : Except Unit Unit) (targets : List (String × Choice κ))
    (hfresh : ∀ c ∈ targets.map Prod.snd, ∀ u ∈ s.kept, c.new ≠ some u.id) :
    Prog.Triple (fun x => x = s) (withTerminals keys body targets) (fun _ => Good keys none s)
      fun _ => Good keys none s :=
  h.triple_within fun held => (triple_withTerminals body targets hfresh).mono (fun _ => id)
    (fun _ _ hx => ⟨held, subset_rfl, hx⟩) fun _ _ hx => ⟨held, subset_rfl, hx⟩

omit h in
theorem within_of_ran {p : Process κ} (hp : Process.Ran held s.shares s.kept p) :
    ∃ held', held ⊆ held' ∧ Within s held' { s with pools := p.pools } := by
  obtain ⟨held', hsub, hbalanced⟩ := hp
  exact ⟨held', hsub, _, rfl, hbalanced.inv, hbalanced.closed⟩

theorem Inv.triple_executeCommand (target : String) (timeout : ℚ) (progressLog : Bool)
    (c : RunChoice κ) (hfresh : ∀ u ∈ s.kept, c.choice.new ≠ some u.id) :
    Prog.Triple (fun x => x = s) (executeCommandInTarget keys target timeout progressLog c)
      (fun _ => Good keys none s) fun _ => Good keys none s := by
  refine h.triple_within fun held => (keeps_getTargethandle _ _).mono (fun _ => id) (fun _ _ => id)
    (fun _ _ hx => ⟨held, subset_rfl, hx⟩) |>.bind fun handle => ?_
  have hcls : ∀ b : Bool, (if b then .asyncProcessWithoutPty else .foregroundProcessWithoutPty) =
      ProcessClass.foregroundProcessWithoutPty ∨
      (if b then .asyncProcessWithoutPty else .foregroundProcessWithoutPty) =
        ProcessClass.asyncProcessWithoutPty := by decide
  refine Prog.Triple.bind ((triple_run s held fun pools haccount =>
    Process.triple_runForeground (e := runEnv keys handle c timeout) haccount.inv rfl
      (fun u hu => ⟨haccount.kept hu, hfresh u hu⟩) (hcls progressLog)
      fun t ht => h.shares_zone ht).mono (fun _ => id) (fun _ _ => id) ?_) fun r => ?_
  · rintro _ x ⟨p, rfl, hp⟩
    exact within_of_ran hp
  · obtain ⟨returned, p⟩ := r
    rintro x ⟨rfl, hp⟩
    cases returned <;> exact within_of_ran hp

theorem Inv.triple_executeNohup (target : String) (c : RunChoice κ)
    (hfresh : ∀ u ∈ s.kept, c.choice.new ≠ some u.id) :
    Prog.Triple (fun x => x = s) (executeNohupBackgroundInTarget keys target c)
      (fun _ => Good keys none s) fun _ => Good keys none s := by
  refine h.triple_within fun held => (keeps_getTargethandle _ _).mono (fun _ => id) (fun _ _ => id)
    (fun _ _ hx => ⟨held, subset_rfl, hx⟩) |>.bind fun handle => ?_
  refine Prog.Triple.bind ((triple_run s held fun pools haccount =>
    Process.triple_runNoComm (e := runEnv keys handle c 0) haccount.inv rfl
      fun u hu => ⟨haccount.kept hu, hfresh u hu⟩).mono (fun _ => id) (fun _ _ => id) ?_)
    fun r => ?_
  · rintro _ x ⟨p, rfl, hp⟩
    exact within_of_ran hp.ran
  · rintro x ⟨rfl, hp⟩
    exact within_of_ran hp.ran

theorem Inv.good {lost : Option (Terminal κ)} (hterminals : x.terminals = s.terminals)
    (hheld : ∀ t ∈ s.terminals, t ∉ s.pools.closed → t ∈ held)
    (haccount : Account s held x.shares x.pools)
    (hbackgrounds : ∀ y ∈ x.backgrounds.items, y.2.isPersistent = true ∧
      ∃ t, y.2.process.terminal = some t ∧
        ∃ shelldicts, t.key = keys.key shelldicts (some "background"))
    (hlost : ∀ t, lost ≠ some t → s.Owned t → 0 < x.waiting t → t ∉ s.pools.closed →
      0 < x.shares t) : Good keys lost s x :=
  ⟨h.of_account hterminals hheld haccount hbackgrounds,
    haccount.spared hheld (fun _ ht => hterminals ▸ ht) hlost⟩

/-- A new execution, on a terminal that has one share more. -/
theorem Inv.addBackground {execId : String} (hid : execId ∉ s.backgrounds.keys)
    (hheld : ∀ t ∈ s.terminals, t ∉ s.pools.closed → t ∈ held) {target : Target σ}
    {c : RunChoice κ} {p : Process κ} (handle : Nat) (terminationTimeout : ℚ)
    (hp : Process.Shared (runEnv keys target c 0) held s.shares s.kept p) :
    Good keys none s { s with
      pools := p.pools
      backgrounds := s.backgrounds.set execId (.started p handle terminationTimeout true) } := by
  obtain ⟨t, hterminal, hkey, hkept, hbalanced⟩ := hp
  have hwaiting : ∀ u, (s.backgrounds.set execId
      (.started p handle terminationTimeout true)).count (WaitsOn u) =
        s.waiting u + if t = u then 1 else 0 := by
    intro u
    rw [Dict.count_set_of_notMem hid]
    simp [WaitsOn, BackgroundProcess.started, hterminal, waiting]
  have haccount : Account s held (Function.update s.shares t (s.shares t + 1)) p.pools :=
    ⟨hbalanced.inv, hbalanced.closed⟩
  have hopen : t ∉ p.pools.closed :=
    haccount.inv.not_closed (.inr (by rw [Function.update_self]; exact Nat.succ_pos _))
  have hshares : s.shares t = s.waiting t := by
    by_cases hclosed : t ∈ s.pools.closed
    · have hnone : ¬ 0 < s.waiting t := fun hpos =>
        hkept (Finset.mem_filter.mpr ⟨hclosed, Owned.mem_referenced (.inr hpos)⟩)
      rw [shares_of_closed hclosed, Nat.eq_zero_of_not_pos hnone]
    · exact shares_of_open hclosed
  have hx : RemoteRunner.shares { s with
      pools := p.pools
      backgrounds := s.backgrounds.set execId (.started p handle terminationTimeout true) } =
        Function.update s.shares t (s.shares t + 1) := by
    funext u
    by_cases hu : u = t
    · subst hu
      rw [shares_of_open hopen, Function.update_self, hshares]
      exact (hwaiting u).trans (by rw [if_pos rfl])
    · refine haccount.shares_eq ?_ ?_
      · rw [Function.update_of_ne hu]
      · exact (hwaiting u).trans (by rw [if_neg (Ne.symm hu), Nat.add_zero])
  refine h.good rfl hheld (hx ▸ haccount) ?_ ?_
  · intro y hy
    rcases Dict.mem_set.mp hy with rfl | ⟨-, hy⟩
    · exact ⟨rfl, t, hterminal, target.shelldicts, hkey⟩
    · exact h.backgrounds y hy
  · intro u _ _ hpos hopen'
    rw [hx]
    by_cases hu : u = t
    · rw [hu, Function.update_self]
      exact Nat.succ_pos _
    · rw [Function.update_of_ne hu, shares_of_open hopen']
      exact lt_of_lt_of_eq hpos ((hwaiting u).trans (by rw [if_neg (Ne.symm hu), Nat.add_zero]))

theorem Inv.triple_executeBackground (target execId : String) (c : RunChoice κ) (handle : Nat)
    (hfresh : ∀ u ∈ s.kept, c.choice.new ≠ some u.id) :
    Prog.Triple (fun x => x = s) (executeBackgroundCommandInTarget keys target execId c handle)
      (fun _ => Good keys none s) fun _ => Good keys none s := by
  obtain ⟨held, hheld, haccount⟩ := h.account
  have hsame : Within s held s := ⟨_, rfl, haccount⟩
  apply Prog.Triple.gets_bind
  intro ids
  refine Prog.Triple.ite (fun _ => ?_) fun hid => ?_
  · rintro x ⟨rfl, -⟩
    exact hsame.spared h hheld
  refine Prog.Triple.bind (Q := fun _ x => x = s ∧ s.backgrounds.keys = ids) ?_ fun target => ?_
  · refine (keeps_getTargethandle (fun x => x = s ∧ s.backgrounds.keys = ids) _).mono ?_
      (fun _ _ => id) ?_
    · rintro x ⟨rfl, hids⟩
      exact ⟨rfl, hids⟩
    · rintro _ x ⟨rfl, -⟩
      exact hsame.spared h hheld
  rintro x ⟨rfl, rfl⟩
  refine Prog.Triple.bind (Q := fun r y => y = { x with pools := r.2.pools } ∧
      Process.Shared (runEnv keys target c 0) held x.shares x.kept r.2)
    ((triple_run x held fun pools haccount =>
      Process.triple_runBackground (e := runEnv keys target c 0) haccount.inv rfl
        fun u hu => ⟨haccount.kept hu, hfresh u hu⟩).mono (fun _ => id) (fun _ _ => id) ?_)
    (fun r => ?_) x hsame
  · rintro _ y ⟨p, rfl, hp⟩
    obtain ⟨held', hsub, hy⟩ := within_of_ran hp
    exact hy.spared h fun t ht hopen => hsub (hheld t ht hopen)
  · rintro y ⟨rfl, hp⟩
    exact h.addBackground hid hheld handle _ hp

/-! ### An execution that gets its result, or does not -/

section
variable {execId : String} {p p' : BackgroundProcess κ}
  (hp : s.backgrounds.get? execId = some p) (hwaits : WaitsOn t p)
include hp hwaits

omit h in
theorem owned_of_waits : s.Owned t :=
  .inr (waiting_pos.mpr ⟨_, Dict.get?_eq_some.mp hp, hwaits⟩)

omit h in
theorem shared_of_waits : t ∈ s.kept ∨ 0 < s.shares t := by
  have howned := owned_of_waits hp hwaits
  by_cases hclosed : t ∈ s.pools.closed
  · exact .inl (Finset.mem_filter.mpr ⟨hclosed, howned.mem_referenced⟩)
  · right
    rw [shares_of_open hclosed]
    exact waiting_pos.mpr ⟨_, Dict.get?_eq_some.mp hp, hwaits⟩

omit h in
/-- `n`: the execution waits no more. -/
theorem waiting_set {n : Nat}
    (hn : ∀ u, (if WaitsOn u p' then 1 else 0) + (if t = u then n else 0) = if t = u then 1 else 0)
    (u : Terminal κ) :
    (s.setBackground execId p').waiting u + (if t = u then n else 0) = s.waiting u := by
  have hset := Dict.count_set_of_mem (p := WaitsOn u) (v := p') hp
  have hold : (if WaitsOn u p then 1 else 0) = if t = u then 1 else 0 := by
    simp [WaitsOn, hwaits.1, hwaits.2]
  have := hn u
  rw [hold] at hset
  simp only [waiting, setBackground]
  omega

/-- A call of an execution on `t`, after which the accounts of other terminals are the same. -/
theorem Inv.settle {lost : Option (Terminal κ)} {shares' : Terminal κ → Nat}
    (hterminals : x.terminals = s.terminals) (hpools : x.pools = p'.process.pools)
    (hbackgrounds : ∀ y ∈ x.backgrounds.items, y ∈ s.backgrounds.items ∨ y = (execId, p'))
    (hon : BackgroundProcess.On t held shares' s.kept p')
    (hheld : ∀ u ∈ s.terminals, u ∉ s.pools.closed → u ∈ held) {n : Nat}
    (hwaiting : ∀ u, x.waiting u + (if t = u then n else 0) = s.waiting u)
    (hshares : ∀ u, u ≠ t → shares' u = s.shares u) (ht : x.shares t = shares' t)
    (hlost : lost ≠ some t → 0 < x.waiting t → t ∉ s.pools.closed → 0 < x.shares t) :
    Good keys lost s x := by
  have haccount : Account s held shares' x.pools := by
    rw [hpools]
    exact ⟨hon.balanced.inv, hon.balanced.closed⟩
  have hother : ∀ u, u ≠ t → x.waiting u = s.waiting u := by
    intro u hu
    have := hwaiting u
    rwa [if_neg (Ne.symm hu), Nat.add_zero] at this
  have hx : x.shares = shares' := by
    funext u
    by_cases hu : u = t
    · rw [hu, ht]
    · exact haccount.shares_eq (hshares u hu) (hother u hu)
  refine h.good hterminals hheld (hx ▸ haccount) ?_ ?_
  · intro y hy
    rcases hbackgrounds y hy with hy | rfl
    · exact h.backgrounds y hy
    · obtain ⟨-, v, hv, hkey⟩ := h.backgrounds _ (Dict.get?_eq_some.mp hp)
      cases hwaits.2.symm.trans hv
      exact ⟨hon.isPersistent, t, hon.terminal, hkey⟩
  · intro u hne _ hpos hopen
    by_cases hu : u = t
    · subst hu
      exact hlost hne hpos hopen
    · rw [hx, hshares u hu, shares_of_open hopen, ← hother u hu]
      exact hpos

omit [DecidableEq κ] h hp hwaits in
theorem mem_setBackground {y : String × BackgroundProcess κ}
    (hy : y ∈ (s.setBackground execId p').backgrounds.items) :
    y ∈ s.backgrounds.items ∨ y = (execId, p') := by
  rcases Dict.mem_set.mp hy with rfl | ⟨-, hy⟩
  · exact .inr rfl
  · exact .inl hy

/-- It still waits. -/
theorem Inv.waits (hheld : ∀ u ∈ s.terminals, u ∉ s.pools.closed → u ∈ held)
    (hp' : BackgroundProcess.Waits t held s.shares s.kept p') :
    Good keys none s (s.setBackground execId p') := by
  obtain ⟨hresult, hon⟩ := hp'
  have hwaiting : ∀ u, (s.setBackground execId p').waiting u + (if t = u then 0 else 0) =
      s.waiting u := waiting_set hp hwaits fun u => by simp [WaitsOn, hresult, hon.terminal]
  have haccount : Account s held s.shares (s.setBackground execId p').pools :=
    ⟨hon.balanced.inv, hon.balanced.closed⟩
  have ht : (s.setBackground execId p').shares t = s.shares t :=
    haccount.shares_eq rfl (by simpa using hwaiting t)
  refine h.settle hp hwaits rfl rfl (fun _ => mem_setBackground) hon hheld hwaiting
    (fun _ _ => rfl) ht fun _ hpos hopen => ?_
  rw [ht, shares_of_open hopen]
  exact waiting_pos.mpr ⟨_, Dict.get?_eq_some.mp hp, hwaits⟩

/-- It has its result, and it may be deleted. -/
theorem Inv.done (hheld : ∀ u ∈ s.terminals, u ∉ s.pools.closed → u ∈ held)
    (hp' : BackgroundProcess.Done t held s.shares s.kept p')
    (hterminals : x.terminals = s.terminals) (hpools : x.pools = p'.process.pools)
    (hbackgrounds : ∀ y ∈ x.backgrounds.items, y ∈ s.backgrounds.items ∨ y = (execId, p'))
    (hwaiting : ∀ u, x.waiting u + (if t = u then 1 else 0) = s.waiting u) :
    Good keys none s x := by
  obtain ⟨-, hon⟩ := hp'
  have hsucc : x.waiting t + 1 = s.waiting t := by
    have := hwaiting t
    rwa [if_pos rfl] at this
  have ht : x.shares t = Function.update s.shares t (s.shares t - 1) t := by
    rw [Function.update_self]
    by_cases hclosed : t ∈ x.pools.closed
    · have hinv := hon.balanced.inv
      rw [← hpools] at hinv
      rw [shares_of_closed hclosed, ← hinv.shares_of_closed hclosed, Function.update_self]
    · have hopen : t ∉ s.pools.closed := fun hmem => hclosed (hpools ▸ hon.balanced.closed
        (Finset.mem_filter.mpr ⟨hmem, (owned_of_waits hp hwaits).mem_referenced⟩))
      rw [shares_of_open hclosed, shares_of_open hopen]
      omega
  refine h.settle hp hwaits hterminals hpools hbackgrounds hon hheld hwaiting
    (fun u hu => Function.update_of_ne hu ..) ht fun _ hpos hopen => ?_
  rw [ht, Function.update_self, shares_of_open hopen]
  omega

theorem Inv.done_set (hheld : ∀ u ∈ s.terminals, u ∉ s.pools.closed → u ∈ held)
    (hp' : BackgroundProcess.Done t held s.shares s.kept p') :
    Good keys none s (s.setBackground execId p') := by
  refine h.done hp hwaits hheld hp' rfl rfl (fun _ => mem_setBackground) (waiting_set hp hwaits ?_)
  intro u
  obtain ⟨r, hr⟩ := Option.isSome_iff_exists.mp hp'.1
  simp [WaitsOn, hr]

theorem Inv.done_erase (hheld : ∀ u ∈ s.terminals, u ∉ s.pools.closed → u ∈ held)
    (hp' : BackgroundProcess.Done t held s.shares s.kept p') :
    Good keys none s { s.setBackground execId p' with
      backgrounds := (s.setBackground execId p').backgrounds.erase execId } := by
  obtain ⟨r, hr⟩ := Option.isSome_iff_exists.mp hp'.1
  refine h.done hp hwaits hheld hp' rfl rfl
    (fun y hy => mem_setBackground (Dict.mem_erase.mp hy).2) fun u => ?_
  have hset : (s.setBackground execId p').waiting u + (if t = u then 1 else 0) = s.waiting u :=
    waiting_set hp hwaits (fun u => by simp [WaitsOn, hr]) u
  have herase := Dict.count_erase (d := s.backgrounds.set execId p') (p := WaitsOn u)
    (Dict.get?_set_self (k := execId))
  simp only [WaitsOn, hr, reduceCtorEq, false_and, if_false, Nat.add_zero] at herase
  rw [← hset]
  exact congrArg (· + _) herase

/-- Its terminal is lost. -/
theorem Inv.lost (hheld : ∀ u ∈ s.terminals, u ∉ s.pools.closed → u ∈ held)
    (hp' : BackgroundProcess.Lost t held s.shares s.kept p') :
    Good keys (some t) s (s.setBackground execId p') := by
  obtain ⟨hresult, hterminal, hpersistent, hinv, hclosed⟩ := hp'
  have hsub := Finset.insert_subset_iff.mp hclosed
  have hwaiting : ∀ u, (s.setBackground execId p').waiting u + (if t = u then 0 else 0) =
      s.waiting u := waiting_set hp hwaits fun u => by simp [WaitsOn, hresult, hterminal]
  have ht : (s.setBackground execId p').shares t = Function.update s.shares t 0 t := by
    rw [Function.update_self]
    exact shares_of_closed (s := s.setBackground execId p') hsub.1
  refine h.settle hp hwaits rfl rfl (fun _ => mem_setBackground)
    ⟨hterminal, hpersistent, hinv, hsub.2⟩ (fun u hu hopen => ?_) hwaiting
    (fun u hu => Function.update_of_ne hu ..) ht fun hne => absurd rfl hne
  refine Finset.mem_erase.mpr ⟨?_, hheld u hu hopen⟩
  rintro rfl
  obtain ⟨shelldicts, hkey⟩ := h.zone u hu
  obtain ⟨-, v, hv, shelldicts', hkey'⟩ := h.backgrounds _ (Dict.get?_eq_some.mp hp)
  cases hwaits.2.symm.trans hv
  exact keys.key_ne _ _ (hkey.symm.trans hkey')

end

omit [DecidableEq κ] h in
theorem onBackground_some {execId : String} {p : BackgroundProcess κ}
    {m : Prog (ProcessExc κ) (BackgroundProcess κ) α}
    {P : BackgroundProcess κ → Prop} {Q : α → BackgroundProcess κ → Prop}
    {E : ProcessExc κ → BackgroundProcess κ → Prop} (hp : s.backgrounds.get? execId = some p)
    (hm : Prog.Triple P m Q E) (hq : P { p with process := { p.process with pools := s.pools } }) :
    Prog.Triple (fun x => x = s) (onBackground execId m)
      (fun a x => ∃ p', x = s.setBackground execId p' ∧ Q a p')
      fun exc x => ∃ e p', exc = .process e ∧ x = s.setBackground execId p' ∧ E e p' := by
  rintro x rfl
  have hq := hm _ hq
  unfold onBackground
  simp only [hp]
  cases hrun : m { p with process := { p.process with pools := x.pools } } with
  | ret a p' =>
    rw [hrun] at hq
    exact ⟨p', rfl, hq⟩
  | raised e p' =>
    rw [hrun] at hq
    exact ⟨e, p', rfl, rfl, hq⟩
  | hang => trivial

theorem Inv.good_refl : Good keys none s s := ⟨h, fun _ _ _ _ => Iff.rfl⟩

/-- The terminal and the accounts of an execution that waits. -/
theorem Inv.waits_of_get {execId : String} {p : BackgroundProcess κ}
    (hp : s.backgrounds.get? execId = some p) (hresult : p.result = none) :
    ∃ t held, WaitsOn t p ∧ (∀ u ∈ s.terminals, u ∉ s.pools.closed → u ∈ held) ∧
      BackgroundProcess.Waits t held s.shares s.kept
        { p with process := { p.process with pools := s.pools } } := by
  obtain ⟨hpersistent, t, hterminal, -⟩ := h.backgrounds _ (Dict.get?_eq_some.mp hp)
  obtain ⟨held, hheld, haccount⟩ := h.account
  exact ⟨t, held, ⟨hresult, hterminal⟩, hheld, hresult, hterminal, hpersistent, haccount.inv,
    haccount.kept⟩

/-- An execution with a result is deleted. -/
theorem Inv.erase_result {execId : String} {p q : BackgroundProcess κ} {result : RunResult}
    (hp : s.backgrounds.get? execId = some p) (hresult : p.result = some result)
    (hq : q.result = some result) (hpools : q.process.pools = s.pools) :
    Good keys none s { s.setBackground execId q with
      backgrounds := (s.setBackground execId q).backgrounds.erase execId } := by
  obtain ⟨held, hheld, haccount⟩ := h.account
  have hwaiting : ∀ u, ((s.backgrounds.set execId q).erase execId).count (WaitsOn u) =
      s.waiting u := by
    intro u
    have hset := Dict.count_set_of_mem (p := WaitsOn u) (v := q) hp
    have herase := Dict.count_erase (p := WaitsOn u) (d := s.backgrounds.set execId q)
      (Dict.get?_set_self (k := execId))
    simp only [WaitsOn, hresult, hq, reduceCtorEq, false_and, if_false, Nat.add_zero] at hset herase
    exact herase.trans hset
  have hshares : RemoteRunner.shares { s.setBackground execId q with
      backgrounds := (s.setBackground execId q).backgrounds.erase execId } = s.shares := by
    funext u
    simp only [shares, waiting, setBackground, hpools]
    rw [hwaiting]
    rfl
  refine h.good rfl hheld ?_ ?_ fun u _ _ hpos hopen => ?_
  · have hsame : Account s held s.shares q.process.pools := hpools.symm ▸ haccount
    rw [hshares]
    exact hsame
  · intro y hy
    rcases mem_setBackground (Dict.mem_erase.mp hy).2 with hmem | rfl
    · exact h.backgrounds y hmem
    · exact absurd rfl (Dict.mem_erase.mp hy).1
  · rw [hshares, shares_of_open hopen, ← hwaiting u]
    exact hpos

theorem Inv.triple_wait (execId : String) (timeout : ℚ)
    (response : Except RemoteExc (Bytes × Bytes)) (returncode : Except RemoteExc Int) :
    Prog.Triple (fun x => x = s) (waitBackgroundExecution execId timeout response returncode)
      (fun _ => Good keys none s) fun _ => Good keys none s := by
  cases hp : s.backgrounds.get? execId with
  | none =>
    rintro x rfl
    simp only [waitBackgroundExecution, Prog.bind_run, onBackground, hp]
    exact h.good_refl
  | some p =>
    cases hresult : p.result with
    | none =>
      obtain ⟨t, held, hwaits, hheld, hq⟩ := h.waits_of_get hp hresult
      have hm : Prog.Triple (BackgroundProcess.Waits t held s.shares s.kept) _ _ _ :=
        BackgroundProcess.triple_waitBackgroundExecution (shared_of_waits hp hwaits) timeout
          response returncode
      refine Prog.Triple.bind ((onBackground_some hp hm hq).mono (fun _ => id) (fun _ _ => id) ?_)
        fun r => ?_
      · rintro _ x ⟨_, p', -, rfl, hp' | hp'⟩
        · exact h.waits hp hwaits hheld hp'
        · exact h.done_set hp hwaits hheld hp'
      · rintro x ⟨p', rfl, hp'⟩
        exact h.done_erase hp hwaits hheld hp'
    | some r =>
      have hm : Prog.Triple (fun q => q = { p with process := { p.process with pools := s.pools } })
          (BackgroundProcess.waitBackgroundExecution timeout response returncode)
          (fun _ q => q = { p with process := { p.process with pools := s.pools } })
          fun _ _ => False := by
        rintro _ rfl
        simp only [BackgroundProcess.waitBackgroundExecution, Prog.bind_run, Prog.gets_run, hresult,
          Prog.pure_run]
      refine Prog.Triple.bind ((onBackground_some hp hm rfl).mono (fun _ => id) (fun _ _ => id) ?_)
        fun r => ?_
      · rintro _ x ⟨_, _, -, -, hfalse⟩
        exact hfalse.elim
      · rintro x ⟨p', rfl, rfl⟩
        exact h.erase_result hp hresult hresult rfl

theorem Inv.triple_kill (execId : String) (r : BackgroundProcess.KillRun)
    (hnone : ∀ p ∈ s.backgrounds.get? execId, p.result = none) :
    Prog.Triple (fun x => x = s) (killBackgroundExecution execId r) (fun _ => Good keys none s)
      fun exc x => Good keys none s x ∨ ∃ p t pid handle, s.backgrounds.get? execId = some p ∧
        p.process.terminal = some t ∧ exc = .process (.failedToKillProcess pid handle) ∧
          Good keys (some t) s x := by
  cases hp : s.backgrounds.get? execId with
  | none =>
    rintro x rfl
    simp only [killBackgroundExecution, Prog.bind_run, onBackground, hp]
    exact .inl h.good_refl
  | some p =>
    have hresult : p.result = none := hnone p hp
    obtain ⟨t, held, hwaits, hheld, hq⟩ := h.waits_of_get hp hresult
    have hm : Prog.Triple (BackgroundProcess.Waits t held s.shares s.kept) _ _ _ :=
      BackgroundProcess.triple_killBackgroundExecution (shared_of_waits hp hwaits) r
    refine Prog.Triple.bind ((onBackground_some hp hm hq).mono (fun _ => id) (fun _ _ => id) ?_)
      fun r => ?_
    · rintro _ x ⟨e, p', rfl, rfl, (hp' | hp') | ⟨hp', pid, handle, rfl⟩⟩
      · exact .inl (h.waits hp hwaits hheld hp')
      · exact .inl (h.done_set hp hwaits hheld hp')
      · exact .inr ⟨p, t, pid, handle, rfl, hwaits.2, rfl, h.lost hp hwaits hheld hp'⟩
    · rintro x ⟨p', rfl, hp'⟩
      exact h.done_set hp hwaits hheld hp'

theorem Inv.triple_getTerminal (target : String) (c : Choice κ)
    (hfresh : ∀ u ∈ s.referenced, c.new ≠ some u.id) :
    Prog.Triple (fun x => x = s) (getTerminal keys target c) (fun _ => Good keys none s)
      fun _ => Good keys none s := by
  obtain ⟨held, hheld, haccount⟩ := h.account
  have hkept : ∀ u ∈ s.kept, c.new ≠ some u.id := fun u hu => hfresh u (Finset.mem_filter.mp hu).2
  have hsame : Within s held s := ⟨_, rfl, haccount⟩
  refine Prog.Triple.bind (Q := fun _ => Within s held) ?_ fun handle => ?_
  · refine (keeps_getTargethandle (Within s held) _).mono ?_ (fun _ _ => id) fun _ x hx =>
      hx.spared h hheld
    rintro _ rfl
    exact hsame
  refine Prog.Triple.bind ((triple_onPools (triple_get hkept)).mono (fun _ => id) (fun _ _ => id)
    fun _ x hx => ?_) fun t => ?_
  · obtain ⟨pools, rfl, _, hpools⟩ := hx
    exact Within.spared ⟨pools, rfl, hpools⟩ h hheld
  rintro _ ⟨pools, rfl, ⟨ht, hopen, hkey⟩, hpools⟩
  have hshares : RemoteRunner.shares { s with pools, terminals := s.terminals ++ [t] } =
      s.shares := by
    funext u
    exact hpools.shares_eq (x := { s with pools, terminals := s.terminals ++ [t] }) rfl rfl
  have hnew : t ∉ s.terminals := fun hmem => by
    by_cases hclosed : t ∈ s.pools.closed
    · exact hopen (Finset.mem_filter.mpr ⟨hclosed, List.mem_append_left _ hmem⟩)
    · exact ht (hheld t hmem hclosed)
  have howned : ∀ u ∈ s.terminals, u ∉ s.pools.closed → u ∈ insert t held :=
    fun u hu hu' => Finset.mem_insert_of_mem (hheld u hu hu')
  have hspared : ∀ u, s.Owned u → (u ∈ pools.closed ↔ u ∈ s.pools.closed) := by
    intro u hu
    refine hpools.closed_iff hu fun hu' => ?_
    rcases hu with hu | hu
    · exact .inl (howned u hu hu')
    · exact .inr (by rw [shares_of_open hu']; exact hu)
  refine ⟨⟨⟨insert t held, fun u hu hu' => ?_, ?_⟩, ?_, fun u hu => ?_, h.backgrounds⟩,
    fun u _ hu _ => hspared u hu⟩
  · rcases List.mem_append.mp hu with hu | hu
    · exact howned u hu fun hclosed => hu' ((hspared u (.inl hu)).mpr hclosed)
    · rw [List.mem_singleton.mp hu]
      exact Finset.mem_insert_self t held
  · exact hshares.symm ▸ hpools.inv
  · rw [List.nodup_append]
    refine ⟨h.nodup, List.nodup_singleton t, ?_⟩
    rintro u hu _ hlast rfl
    exact hnew (List.mem_singleton.mp hlast ▸ hu)
  · rcases List.mem_append.mp hu with hu | hu
    · exact h.zone u hu
    · rw [List.mem_singleton.mp hu]
      exact ⟨handle.shelldicts, hkey⟩

/-- The terminal is gone, if it was not closed before. -/
theorem Inv.triple_delTerminal (i : Nat) :
    Prog.Triple (fun x => x = s) (delTerminal i) (fun _ => Good keys none s)
      fun _ => Good keys none s := by
  apply Prog.Triple.gets_bind
  intro terminal
  cases terminal with
  | none =>
    rintro _ ⟨rfl, -⟩
    exact h.good_refl
  | some t =>
    rintro x ⟨rfl, hi⟩
    obtain ⟨held, hheld, haccount⟩ := h.account
    obtain ⟨hlt, hget⟩ := List.getElem?_eq_some_iff.mp hi
    have hmem : t ∈ x.terminals := hget ▸ List.getElem_mem hlt
    have hother : ∀ u ∈ x.terminals.eraseIdx i, u ∈ x.terminals ∧ u ≠ t := by
      intro u hu
      obtain ⟨j, hj, hne, rfl⟩ := List.mem_eraseIdx_iff_getElem.mp hu
      refine ⟨List.getElem_mem hj, fun heq => hne ?_⟩
      exact (h.nodup.getElem_inj_iff).mp (heq.trans hget.symm)
    have hfewer : Inv keys { x with terminals := x.terminals.eraseIdx i } :=
      ⟨⟨held, fun u hu hopen => hheld u (hother u hu).1 hopen, haccount.inv⟩,
        h.nodup.sublist (List.eraseIdx_sublist ..), fun u hu => h.zone u (hother u hu).1,
        h.backgrounds⟩
    have hput : (TerminalPools.put t true x.pools).EndsIn fun pools => ∃ held',
        (∀ u ∈ x.terminals.eraseIdx i, u ∉ x.pools.closed → u ∈ held') ∧
          Account { x with terminals := x.terminals.eraseIdx i } held' x.shares pools := by
      have hkeeps : Prog.Keeps
          (fun pools => kept { x with terminals := x.terminals.eraseIdx i } ⊆ pools.closed)
          (TerminalPools.put t true) := TerminalPools.keeps_closed_putOp
      have hkept := hkeeps.endsIn (Finset.filter_subset _ x.pools.closed)
      by_cases hclosed : t ∈ x.pools.closed
      · refine ((TerminalPools.endsIn_putOp_closed haccount.inv hclosed).and hkept).mono ?_
        exact fun pools hpools => ⟨held, fun u hu => hheld u (hother u hu).1, hpools.1, hpools.2⟩
      · have hinv := haccount.inv
        rw [← Finset.insert_erase (hheld t hmem hclosed)] at hinv
        obtain ⟨pools, hrun, hinv'⟩ := TerminalPools.put_held hinv (Finset.notMem_erase t held)
        have hafter : (TerminalPools.put t true x.pools).EndsIn
            (TerminalPools.Inv (held.erase t) x.shares) := by
          rw [hrun]
          exact hinv'
        refine (hafter.and hkept).mono fun pools hpools =>
          ⟨held.erase t, fun u hu hopen => ?_, hpools.1, hpools.2⟩
        exact Finset.mem_erase.mpr ⟨(hother u hu).2, hheld u (hother u hu).1 hopen⟩
    refine Prog.Triple.modify_bind
      (fun y => y = { x with terminals := x.terminals.eraseIdx i }) ?_ (by rintro _ rfl; rfl) x rfl
    have hpools := triple_onPools (s := { x with terminals := x.terminals.eraseIdx i })
      (Prog.triple_of_endsIn (P := fun pools => pools = x.pools) (by rintro _ rfl; exact hput))
    have hgood : ∀ pools, (∃ held', (∀ u ∈ x.terminals.eraseIdx i, u ∉ x.pools.closed → u ∈ held') ∧
        Account { x with terminals := x.terminals.eraseIdx i } held' x.shares pools) →
          Good keys none x { x with terminals := x.terminals.eraseIdx i, pools } := by
      rintro pools ⟨held', hheld', haccount'⟩
      obtain ⟨hinv, hspared⟩ := Within.spared ⟨pools, rfl, haccount'⟩ hfewer hheld'
      exact ⟨hinv, fun u hne _ hu => hspared u hne hu hu⟩
    refine Prog.Triple.tryExcept (E := fun _ => Good keys none x) (hpools.mono ?_ ?_ ?_) ?_ ?_
    · rintro y rfl
      exact ⟨_, rfl, rfl⟩
    · rintro _ y ⟨pools, rfl, hpools⟩
      exact hgood pools hpools
    · rintro _ y ⟨pools, rfl, _, hpools⟩
      exact hgood pools hpools
    · intro e p hp
      cases hp
      exact Prog.keeps_pure
    · exact fun _ _ _ hy => hy

theorem Inv.triple_close (order : SetOrder (Terminal κ)) :
    Prog.Triple (fun x => x = s) (close order) (fun _ => Inv keys) fun _ => Inv keys := by
  intro x hx
  rw [hx]
  obtain ⟨held, hheld, haccount⟩ := h.account
  obtain ⟨pools, hrun, hinv, hsub, hclosed⟩ := TerminalPools.close_run order haccount.inv
  have hall : ∀ t ∈ s.terminals, t ∈ pools.closed := by
    intro t ht
    by_cases hopen : t ∈ s.pools.closed
    · exact hsub hopen
    · obtain ⟨ref, hin⟩ := haccount.inv.held t (hheld t ht hopen)
      exact hclosed ref t (.inl hin)
  simp only [close, Prog.bind_run, onPools, hrun, Prog.modify_run]
  have hshares : ({ s with pools, targets := Dict.empty, backgrounds := Dict.empty } :
      RemoteRunner σ κ).shares = fun _ => 0 := by
    funext t
    simp [shares, waiting, Dict.count, Dict.empty]
  refine ⟨⟨∅, fun t ht hopen => absurd (hall t ht) hopen, ?_⟩, h.nodup, h.zone,
    by simp [Dict.empty]⟩
  rw [hshares]
  exact hinv

/-- Targets and properties are not part of the accounts. -/
theorem Inv.good_targets (targets : Dict String (Target σ)) (defaultproperties : TargetProperties) :
    Good keys none s { s with targets, defaultproperties } :=
  ⟨⟨h.pools, h.nodup, h.zone, h.backgrounds⟩, fun _ _ _ _ => Iff.rfl⟩

theorem Inv.triple_setTargetProperty (name : String)
    (set : TargetProperties → TargetProperties) :
    Prog.Triple (fun x => x = s) (setTargetProperty name set) (fun _ => Good keys none s)
      fun _ => Good keys none s := by
  refine Prog.Triple.bind (Q := fun _ x => x = s) ?_ fun target => ?_
  · refine (keeps_getTargethandle (fun x => x = s) name).mono (fun _ => id) (fun _ _ => id) ?_
    rintro _ x rfl
    exact h.good_refl
  · rintro x rfl
    exact h.good_targets _ _

theorem Inv.triple_setTerminalpoolsMaxsize (maxsize : Option Int) :
    Prog.Triple (fun x => x = s) (setTerminalpoolsMaxsize maxsize) (fun _ => Good keys none s)
      fun _ => Good keys none s := by
  rintro x rfl
  cases maxsize with
  | none => exact h.good_refl
  | some maxsize =>
    obtain ⟨held, hheld, hinv⟩ := h.pools
    refine ⟨⟨⟨held, hheld, hinv.ref_lt, hinv.ref_inj, fun ref => ?_, hinv.held, hinv.shared⟩,
      h.nodup, h.zone, h.backgrounds⟩, fun _ _ _ _ => Iff.rfl⟩
    exact ⟨(hinv.fits ref).registered, (hinv.fits ref).opened, (hinv.fits ref).counted,
      (hinv.fits ref).uncounted⟩

/-- A keyword whose choices are fresh, other than `close`, and other than a kill. -/
theorem Inv.triple_good (a : Keyword σ κ)
    (hfresh : ∀ c ∈ a.choices, ∀ t ∈ s.referenced, c.new ≠ some t.id)
    (hclose : ∀ order, a ≠ .close order)
    (hkill : ∀ execId r, a ≠ .killBackgroundExecution execId r) :
    Prog.Triple (fun x => x = s) (call keys a) (fun _ => Good keys none s)
      fun _ => Good keys none s := by
  have hkept : ∀ c ∈ a.choices, ∀ u ∈ s.kept, c.new ≠ some u.id :=
    fun c hc u hu => hfresh c hc u (Finset.mem_filter.mp hu).2
  cases a with
  | setTarget shelldicts name =>
    rintro x rfl
    exact h.good_targets _ _
  | setTargetProperty name set => exact h.triple_setTargetProperty name set
  | setDefaultTargetProperty set =>
    rintro x rfl
    exact h.good_targets _ _
  | setTerminalpoolsMaxsize maxsize => exact h.triple_setTerminalpoolsMaxsize maxsize
  | executeCommandInTarget target timeout progressLog c =>
    exact (h.triple_executeCommand target timeout progressLog c
      (hkept _ (List.mem_singleton_self _))).bind fun _ _ hx => hx
  | executeBackgroundCommandInTarget target execId c handle =>
    exact h.triple_executeBackground target execId c handle (hkept _ (List.mem_singleton_self _))
  | executeNohupBackgroundInTarget target c =>
    exact (h.triple_executeNohup target c (hkept _ (List.mem_singleton_self _))).bind
      fun _ _ hx => hx
  | waitBackgroundExecution execId timeout response returncode =>
    exact (h.triple_wait execId timeout response returncode).bind fun _ _ hx => hx
  | killBackgroundExecution execId r => exact absurd rfl (hkill execId r)
  | copy body targets => exact h.triple_copy body targets hkept
  | getTerminal target c =>
    exact h.triple_getTerminal target c (hfresh _ (List.mem_singleton_self _))
  | delTerminal i => exact h.triple_delTerminal i
  | close order => exact absurd rfl (hclose order)

end

variable (keys) in
/-- A kill of an execution on `t` whose process does not end. -/
def KillFails (a : Keyword σ κ) (s : RemoteRunner σ κ) (t : Terminal κ) : Prop :=
  ∃ execId r p pid handle, a = .killBackgroundExecution execId r ∧
    s.backgrounds.get? execId = some p ∧ p.process.terminal = some t ∧
      (call keys a s).exception? = some (.process (.failedToKillProcess pid handle))

/-- **Step.**  What a keyword leaves, and which terminal it may lose. -/
theorem inv_step (h : Inv keys s) (a : Keyword σ κ) (hok : Ok a s) :
    Inv keys (step keys a s) ∧ ((∀ order, a ≠ .close order) → Spared none s (step keys a s) ∨
      ∃ t, KillFails keys a s t ∧ Spared (some t) s (step keys a s)) := by
  by_cases hclose : ∃ order, a = .close order
  · obtain ⟨order, rfl⟩ := hclose
    exact ⟨((h.triple_close order).endsIn rfl).state h, fun hne => absurd rfl (hne order)⟩
  have hclose' : ∀ order, a ≠ .close order := fun order heq => hclose ⟨order, heq⟩
  by_cases hkill : ∃ execId r, a = .killBackgroundExecution execId r
  · obtain ⟨execId, r, rfl⟩ := hkill
    have hrun : Prog.Triple (fun x => x = s) (call keys (.killBackgroundExecution execId r))
        (fun _ => Good keys none s) _ :=
      (h.triple_kill execId r (hok.2 execId rfl)).bind fun _ _ hx => hx
    cases hcall : call keys (.killBackgroundExecution execId r) s with
    | ret a x =>
      have hx := hrun.of_ret rfl hcall
      simp only [step, hcall, Outcome.state]
      exact ⟨hx.1, fun _ => .inl hx.2⟩
    | raised exc x =>
      simp only [step, hcall, Outcome.state]
      rcases hrun.of_raised rfl hcall with hx | ⟨p, t, pid, handle, hp, ht, rfl, hx⟩
      · exact ⟨hx.1, fun _ => .inl hx.2⟩
      · refine ⟨hx.1, fun _ => .inr ⟨t, ⟨execId, r, p, pid, handle, rfl, hp, ht, ?_⟩, hx.2⟩⟩
        rw [hcall]
        rfl
    | hang =>
      simp only [step, hcall, Outcome.state]
      exact ⟨h, fun _ => .inl h.good_refl.2⟩
  · have hkill' : ∀ execId r, a ≠ .killBackgroundExecution execId r :=
      fun execId r heq => hkill ⟨execId, r, heq⟩
    have hgood := ((h.triple_good a hok.1 hclose' hkill').endsIn rfl).state h.good_refl
    exact ⟨hgood.1, fun _ => .inl hgood.2⟩

/-- The pools have what the runner needs. -/
structure Accounted (s : RemoteRunner σ κ) : Prop where
  opened : ∀ ref t, (s.pools.objs ref).Has t → t ∉ s.pools.closed
  counted : ∀ ref t, (s.pools.objs ref).Has t → (s.pools.objs ref).shared t = s.waiting t
  executions : ∀ t, 0 < s.waiting t → t ∉ s.pools.closed →
    ∃ ref, s.pools.pools.get? t.key = some ref ∧ (s.pools.objs ref).Has t
  nodup : s.terminals.Nodup
  terminals : ∀ t ∈ s.terminals, t ∉ s.pools.closed →
    ∃ ref, s.pools.pools.get? t.key = some ref ∧ t ∈ (s.pools.objs ref).inuse

theorem Inv.toAccounted (h : Inv keys s) : Accounted s := by
  obtain ⟨held, hheld, hinv⟩ := h.pools
  have hopen : ∀ ref t, (s.pools.objs ref).Has t → t ∉ s.pools.closed :=
    fun ref => (hinv.fits ref).opened
  refine ⟨hopen, fun ref t ht => ?_, fun t hpos ht => ?_, h.nodup, fun t ht ht' => ?_⟩
  · rw [← shares_of_open (hopen ref t ht)]
    exact (hinv.fits ref).counted t ht
  · rw [← shares_of_open ht] at hpos
    obtain ⟨ref, hhas⟩ := hinv.shared t hpos
    exact ⟨ref, hinv.get?_eq_some hhas, hhas⟩
  · obtain ⟨ref, hin⟩ := hinv.held t (hheld t ht ht')
    exact ⟨ref, hinv.get?_eq_some (.inl hin), hin⟩

variable (keys)

theorem inv_reachable (h : Reaches (step keys) Ok init s) : Inv keys s :=
  h.invariant (inv_init keys) fun a _ ht hok => (inv_step ht a hok).1

/-- **Accounts.**  In every state that keywords lead to. -/
theorem accounted (h : Reaches (step keys) Ok init s) : Accounted s :=
  (inv_reachable keys h).toAccounted

def zones : PoolKeys Unit Bool := ⟨fun _ zone => zone.isSome, by simp⟩

/-- Every remote step succeeds, apart from those that should end a process. -/
def replies : Replies :=
  let fails : KillReplies := ⟨.ok (), .error (.remoteTimeout 5), .ok 0⟩
  { environ := .ok (), popen := .ok (), communicateAttribute := .ok (), linesIterator := .ok (),
    pid := .ok 17, lines := [], linesEnd := .ok (), communicate := .ok ([], []),
    returncode := .ok 0, sigterm := fails, sigkill := fails, killedPid := .ok 17,
    communicateAsync := .ok (), daemonPopen := .ok 18 }

/-- Two executions on one terminal, and a terminal for the caller. -/
def together : List (Keyword Unit Bool) :=
  [.setTarget () "default",
    .executeBackgroundCommandInTarget "default" "a" ⟨Usage.choice 0, replies⟩ 1,
    .executeBackgroundCommandInTarget "default" "b" ⟨Usage.choice 1, replies⟩ 2,
    .getTerminal "default" (Usage.choice 3),
    .executeCommandInTarget "default" 1 false ⟨Usage.choice 4, replies⟩]

theorem accounted_together :
    (together.foldl (fun s a => step zones a s) init).waiting ⟨true, 0⟩ = 2 ∧
      (together.foldl (fun s a => step zones a s) init).terminals = [⟨false, 3⟩] ∧
        Accounted (together.foldl (fun s a => step zones a s) init) :=
  ⟨by decide +kernel, by decide +kernel,
    accounted zones (reaches_of_along together .refl (by decide +kernel))⟩

/-- **Nobody loses a terminal** to a keyword about something else. -/
theorem closes_no_other (h : Reaches (step keys) Ok init s) {a : Keyword σ κ} (hok : Ok a s)
    {t : Terminal κ} (hs : s.Owned t) (hopen : t ∉ s.pools.closed)
    (ht : (step keys a s).Owned t) (hclosed : t ∈ (step keys a s).pools.closed) :
    (∃ order, a = .close order) ∨ KillFails keys a s t := by
  obtain ⟨-, hstep⟩ := inv_step (inv_reachable keys h) a hok
  by_cases hclose : ∃ order, a = .close order
  · exact .inl hclose
  right
  have hspared := hstep fun order heq => hclose ⟨order, heq⟩
  rcases hspared with hspared | ⟨u, hfails, hspared⟩
  · exact absurd ((hspared t (by simp) hs ht).mp hclosed) hopen
  · by_cases hu : u = t
    · exact hu ▸ hfails
    · exact absurd ((hspared t (by simpa using hu) hs ht).mp hclosed) hopen

def killA : Keyword Unit Bool :=
  .killBackgroundExecution "a" ⟨replies.sigterm, replies.sigkill, replies.killedPid⟩

/-- The other execution loses its terminal, too. -/
theorem closes_no_other_killA :
    (∃ order, killA = .close order) ∨
      KillFails zones killA (together.foldl (fun s a => step zones a s) init) ⟨true, 0⟩ :=
  closes_no_other zones (reaches_of_along together .refl (by decide +kernel))
    (by decide +kernel) (.inr (by decide +kernel)) (by decide +kernel) (.inr (by decide +kernel))
    (by decide +kernel)

end RemoteRunner

end InteractiveSessions
