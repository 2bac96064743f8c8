import InteractiveSessions.Lib.Dag
import InteractiveSessions.Lib.Dict

/-!
# `modules`: commands that build modules in the remote end

`MainModule.cmds_gen` creates a module object, lets the `CHILD_MODULES` do the
same in its namespace, and executes its source there.  A child is a `ChildModule`
of its own, with its own `_module_vars`, so what one child has made is not known
to the next:

* `run_rawCmdsGen`: every module is created and executed once for every path to it;
* `built_iff`: each is made once, after its children and with their objects in its
  namespace, exactly if the graph is a tree in which siblings have different names.
-/

namespace InteractiveSessions

/-- Modules linked by `CHILD_MODULES`.  `name` is the last part of `__name__`,
`serialized` and `basename` are those of the source file. -/
structure ModuleGraph (μ : Type) extends Dag μ where
  name : μ → String
  serialized : μ → String
  basename : μ → String

/-- `module_var` of a main module and of a child module. -/
inductive ModuleVar where
  | main (name : String)
  | child (parent : ModuleVar) (name : String)
  deriving DecidableEq, Repr

def ModuleVar.text : ModuleVar → String
  | .main name => "__" ++ name
  | .child parent name => parent.text ++ ".__dict__['" ++ name ++ "']"

/-- A command names the module by which it was generated. -/
inductive ModuleCmd (μ : Type) where
  | importCmd
  | moduleCmd (var : ModuleVar) (m : μ)
  | assignExisting (var existing : ModuleVar)
  | execCmd (m : μ) (var : ModuleVar)
  deriving DecidableEq, Repr

namespace ModuleGraph

variable {μ : Type} (g : ModuleGraph μ)

def compileCmd (m : μ) : String :=
  "compile(" ++ g.serialized m ++ ", filename='" ++ g.basename m ++ "', mode='exec')"

def text : ModuleCmd μ → String
  | .importCmd => "import pickle, base64, types"
  | .moduleCmd var m => var.text ++ " = types.ModuleType('" ++ g.name m ++ "')"
  | .assignExisting var existing => var.text ++ " = " ++ existing.text
  | .execCmd m var => "exec(" ++ g.compileCmd m ++ ", " ++ var.text ++ ".__dict__)"

/-- `_import_cmd_gen`: only a main module has one. -/
def importCmdGen : ModuleVar → List (ModuleCmd μ)
  | .main _ => [.importCmd]
  | .child .. => []

/-- `raw_cmds_gen` with the `_module_vars` of the object, and these afterwards. -/
def rawCmdsGen (moduleVars : Dict String ModuleVar) (var : ModuleVar) (m : μ) :
    List (ModuleCmd μ) × Dict String ModuleVar :=
  match moduleVars.get? (g.name m) with
  | some existing => ([.assignExisting var existing], moduleVars)
  | none =>
    -- every child is a new `ChildModule`, whose `_module_vars` are empty
    (importCmdGen var ++ [.moduleCmd var m] ++
      ((g.children m).attach.flatMap fun c =>
        (rawCmdsGen Dict.empty (.child var (g.name c.1)) c.1).1) ++ [.execCmd m var],
      moduleVars.set (g.name m) var)
termination_by Dag.Node.mk (g := g.toDag) m
decreasing_by exact c.2

def groupedCmd (cmds : List (ModuleCmd μ)) : String := "; ".intercalate (cmds.map g.text)

/-- The loop of `_grouped_cmds_gen`, with the commands of `grouped_cmd`. -/
def groupedCmdsGen (grouped : List (ModuleCmd μ)) :
    List (ModuleCmd μ) → List (List (ModuleCmd μ))
  | [] => if grouped = [] then [] else [grouped]
  | c :: cmds =>
    if (g.groupedCmd (grouped ++ [c])).length > 5000 then
      (grouped ++ [c]) :: groupedCmdsGen [] cmds
    else groupedCmdsGen (grouped ++ [c]) cmds

/-- The groups are the commands in their order. -/
theorem flatten_groupedCmdsGen (grouped cmds : List (ModuleCmd μ)) :
    (g.groupedCmdsGen grouped cmds).flatten = grouped ++ cmds := by
  induction cmds generalizing grouped with
  | nil =>
    unfold groupedCmdsGen
    split
    · next h => rw [h]; rfl
    · simp
  | cons c cmds ih =>
    unfold groupedCmdsGen
    split
    · rw [List.flatten_cons, ih, List.nil_append, List.append_assoc, List.singleton_append]
    · rw [ih, List.append_assoc, List.singleton_append]

/-- `cmds_gen`: the groups that are sent one after the other. -/
def cmdsGen (m : μ) : List (List (ModuleCmd μ)) :=
  g.groupedCmdsGen [] (g.rawCmdsGen Dict.empty (.main (g.name m)) m).1

end ModuleGraph

/-- The remote interpreter, as far as the commands use it.  The `i`-th module object
was created for the module `created[i]`; `executed` are the objects in whose
namespace the source of a module was executed, with these modules. -/
structure Interpreter (μ : Type) where
  globals : String → Option Nat
  created : List μ
  dicts : Nat → String → Option Nat
  executed : List (Nat × μ)

namespace Interpreter

variable {μ : Type}

def init : Interpreter μ := ⟨fun _ => none, [], fun _ _ => none, []⟩

/-- The object to which a variable is bound. -/
def eval (s : Interpreter μ) : ModuleVar → Option Nat
  | .main name => s.globals name
  | .child parent name => (s.eval parent).bind fun o => s.dicts o name

/-- An assignment, which fails when the parent is not there. -/
def assign (s : Interpreter μ) (var : ModuleVar) (o : Nat) : Option (Interpreter μ) :=
  match var with
  | .main name => some { s with globals := Function.update s.globals name (some o) }
  | .child parent name => (s.eval parent).map fun p =>
    { s with dicts := Function.update s.dicts p (Function.update (s.dicts p) name (some o)) }

/-- A new module object with an empty namespace. -/
def create (s : Interpreter μ) (m : μ) : Interpreter μ :=
  { s with
    created := s.created ++ [m]
    dicts := Function.update s.dicts s.created.length fun _ => none }

/-- One command.  What the source of a module does with its namespace is not part of
the model. -/
def exec (s : Interpreter μ) : ModuleCmd μ → Option (Interpreter μ)
  | .importCmd => some s
  | .moduleCmd var m => (s.create m).assign var s.created.length
  | .assignExisting var existing => (s.eval existing).bind (s.assign var)
  | .execCmd m var => (s.eval var).map fun o => { s with executed := s.executed ++ [(o, m)] }

def run (cmds : List (ModuleCmd μ)) (s : Interpreter μ) : Option (Interpreter μ) :=
  cmds.foldlM exec s

theorem run_append (cmds cmds' : List (ModuleCmd μ)) (s : Interpreter μ) :
    run (cmds ++ cmds') s = (run cmds s).bind (run cmds') := List.foldlM_append ..

theorem run_cons (c : ModuleCmd μ) (cmds : List (ModuleCmd μ)) (s : Interpreter μ) :
    run (c :: cmds) s = (s.exec c).bind (run cmds) := rfl

/-! ## Which object a variable means -/

/-- `var` is bound to `o`, whatever becomes of the namespaces of `o` and of later
objects. -/
structure Resolves (s : Interpreter μ) (var : ModuleVar) (o : Nat) : Prop where
  lt : o < s.created.length
  eval : ∀ s' : Interpreter μ, s'.globals = s.globals → (∀ p < o, s'.dicts p = s.dicts p) →
    s'.eval var = some o

theorem resolves_main {s : Interpreter μ} {name : String} {o : Nat} (hlt : o < s.created.length)
    (ho : s.globals name = some o) : Resolves s (.main name) o := by
  refine ⟨hlt, fun s' hglobals _ => ?_⟩
  rw [Interpreter.eval, hglobals, ho]

theorem Resolves.child {s : Interpreter μ} {var : ModuleVar} {name : String} {p o : Nat}
    (h : Resolves s var p) (hp : p < o) (hlt : o < s.created.length)
    (ho : s.dicts p name = some o) : Resolves s (.child var name) o := by
  refine ⟨hlt, fun s' hglobals hdicts => ?_⟩
  rw [Interpreter.eval, h.eval s' hglobals fun q hq => hdicts q (by omega), Option.bind_some,
    hdicts p hp, ho]

/-! ## What the commands do -/

variable {g : ModuleGraph μ}

/-- The children of `m` have their objects in the namespace of `o`. -/
def Linked (g : ModuleGraph μ) (s : Interpreter μ) (o : Nat) (m : μ) : Prop :=
  ∀ c ∈ g.children m, ∃ o', s.dicts o (g.name c) = some o' ∧ s.created[o']? = some c

/-- Nowhere below `m` there are siblings of the same name. -/
def Named (g : ModuleGraph μ) (m : μ) : Prop :=
  ∀ b, g.Below m b → ((g.children b).map g.name).Nodup

/-- From `s` to `s'` the modules `cs` were made as children of the object `o`. -/
structure Ran (g : ModuleGraph μ) (s : Interpreter μ) (o : Nat) (cs : List μ)
    (s' : Interpreter μ) : Prop where
  globals : s'.globals = s.globals
  created : s'.created = s.created ++ cs.flatMap g.preorder
  dicts : ∀ p < s.created.length, p ≠ o → s'.dicts p = s.dicts p
  names : ∀ name ∉ cs.map g.name, s'.dicts o name = s.dicts o name
  executed : ∃ es, s'.executed = s.executed ++ es ∧ es.map Prod.snd = cs.flatMap g.postorder ∧
    ∀ e ∈ es, s'.created[e.1]? = some e.2
  bound : (cs.map g.name).Nodup → ∀ c ∈ cs,
    ∃ o', s'.dicts o (g.name c) = some o' ∧ s'.created[o']? = some c
  linked : (∀ c ∈ cs, Named g c) → ∀ p ≥ s.created.length, ∀ m,
    s'.created[p]? = some m → Linked g s' p m

theorem ran_nil (s : Interpreter μ) (o : Nat) : Ran g s o [] s := by
  refine ⟨rfl, (List.append_nil _).symm, fun _ _ _ => rfl, fun _ _ => rfl,
    ⟨[], (List.append_nil _).symm, rfl, nofun⟩, nofun, fun _ p hp m hm => ?_⟩
  rw [List.getElem?_eq_none hp] at hm
  cases hm

theorem Ran.created_of_some {s s' : Interpreter μ} {o : Nat} {cs : List μ} (h : Ran g s o cs s')
    {p : Nat} {m : μ} (hp : s.created[p]? = some m) : s'.created[p]? = some m := by
  obtain ⟨hlt, -⟩ := List.getElem?_eq_some_iff.mp hp
  rw [h.created, List.getElem?_append_left hlt, hp]

theorem Ran.length_le {s s' : Interpreter μ} {o : Nat} {cs : List μ} (h : Ran g s o cs s') :
    s.created.length ≤ s'.created.length := by
  rw [h.created, List.length_append]
  exact Nat.le_add_right _ _

/-- One child more. -/
theorem Ran.append {s s' s'' : Interpreter μ} {o : Nat} {cs ds : List μ} (ho : o < s.created.length)
    (h : Ran g s o cs s') (h' : Ran g s' o ds s'') : Ran g s o (cs ++ ds) s'' := by
  have hlen := h.length_le
  obtain ⟨es, hes, hmods, hobjs⟩ := h.executed
  obtain ⟨es', hes', hmods', hobjs'⟩ := h'.executed
  refine ⟨h'.globals.trans h.globals, ?_, fun p hp hne => ?_, fun name hname => ?_,
    ⟨es ++ es', ?_, ?_, fun e he => ?_⟩, fun hnodup c hc => ?_, fun hnamed p hp m hm => ?_⟩
  · rw [h'.created, h.created, List.flatMap_append, List.append_assoc]
  · rw [h'.dicts p (by omega) hne, h.dicts p hp hne]
  · rw [List.map_append, List.mem_append, not_or] at hname
    rw [h'.names name hname.2, h.names name hname.1]
  · rw [hes', hes, List.append_assoc]
  · rw [List.map_append, hmods, hmods', List.flatMap_append]
  · rcases List.mem_append.mp he with he | he
    · exact h'.created_of_some (hobjs e he)
    · exact hobjs' e he
  · rw [List.map_append, List.nodup_append] at hnodup
    obtain ⟨hcs, hds, hdisjoint⟩ := hnodup
    rcases List.mem_append.mp hc with hc | hc
    · obtain ⟨o', hname, hobj⟩ := h.bound hcs c hc
      refine ⟨o', ?_, h'.created_of_some hobj⟩
      rw [h'.names (g.name c) fun hmem => hdisjoint _ (List.mem_map_of_mem hc) _ hmem rfl, hname]
    · exact h'.bound hds c hc
  · by_cases hlt : p < s'.created.length
    · rw [h'.created, List.getElem?_append_left hlt] at hm
      intro c hc
      obtain ⟨o', hname, hobj⟩ :=
        h.linked (fun c hc => hnamed c (List.mem_append_left _ hc)) p hp m hm c hc
      refine ⟨o', ?_, h'.created_of_some hobj⟩
      rw [h'.dicts p hlt (by omega), hname]
    · exact h'.linked (fun c hc => hnamed c (List.mem_append_right _ hc)) p (by omega) m hm

theorem rawCmdsGen_empty (var : ModuleVar) (m : μ) :
    (g.rawCmdsGen Dict.empty var m).1 = ModuleGraph.importCmdGen var ++ [.moduleCmd var m] ++
      ((g.children m).flatMap fun c =>
        (g.rawCmdsGen Dict.empty (.child var (g.name c)) c).1) ++ [.execCmd m var] := by
  rw [ModuleGraph.rawCmdsGen]
  show _ ++ ((g.children m).attach.flatMap fun c =>
    (g.rawCmdsGen Dict.empty (.child var (g.name c.1)) c.1).1) ++ _ = _
  rw [Dag.flatMap_attach (g.children m) fun c =>
    (g.rawCmdsGen Dict.empty (.child var (g.name c)) c).1]

theorem Resolves.ran {s s' : Interpreter μ} {var : ModuleVar} {o : Nat} {cs : List μ}
    (h : Resolves s var o) (hran : Ran g s o cs s') : Resolves s' var o := by
  refine ⟨h.lt.trans_le hran.length_le, fun t hglobals hdicts =>
    h.eval t (hglobals.trans hran.globals) fun p hp => ?_⟩
  rw [hdicts p hp, hran.dicts p (hp.trans h.lt) hp.ne]

/-- What remains of a module after its object `o` was created. -/
structure Made (g : ModuleGraph μ) (s : Interpreter μ) (o : Nat) (m : μ) (s' : Interpreter μ) :
    Prop where
  globals : s'.globals = s.globals
  created : s'.created = s.created ++ (g.children m).flatMap g.preorder
  dicts : ∀ p < o, s'.dicts p = s.dicts p
  executed : ∃ es, s'.executed = s.executed ++ es ∧ es.map Prod.snd = g.postorder m ∧
    ∀ e ∈ es, s'.created[e.1]? = some e.2
  linked : Named g m → ∀ p ≥ o, ∀ b, s'.created[p]? = some b → Linked g s' p b

theorem made_of_ran {s s' : Interpreter μ} {var : ModuleVar} {m : μ} {o : Nat}
    (h : Resolves s var o) (hlast : o + 1 = s.created.length) (ho : s.created[o]? = some m)
    (hran : Ran g s o (g.children m) s') :
    ∃ s'', s'.exec (.execCmd m var) = some s'' ∧ Made g s o m s'' := by
  have heval : s'.eval var = some o := (h.ran hran).eval s' rfl fun _ _ => rfl
  obtain ⟨es, hes, hmods, hobjs⟩ := hran.executed
  refine ⟨{ s' with executed := s'.executed ++ [(o, m)] }, ?_, hran.globals, hran.created,
    fun p hp => hran.dicts p (hp.trans h.lt) hp.ne, ⟨es ++ [(o, m)], ?_, ?_, fun e he => ?_⟩,
    fun hnamed p hp b hb => ?_⟩
  · rw [exec, heval, Option.map_some]
  · rw [hes, List.append_assoc]
  · rw [List.map_append, hmods, Dag.postorder_eq, List.map_singleton]
  · rcases List.mem_append.mp he with he | he
    · exact hobjs e he
    · rw [List.mem_singleton.mp he]
      exact hran.created_of_some ho
  · by_cases hpo : p = o
    · subst hpo
      have hbm : b = m := Option.some.inj (hb.symm.trans (hran.created_of_some ho))
      subst hbm
      exact hran.bound (hnamed b .refl)
    · exact hran.linked (fun c hc d hd => hnamed d (Dag.Below.head hc hd)) p (by omega) b hb

/-- The module object of a child is created and bound. -/
theorem exec_moduleCmd_child {s : Interpreter μ} {var : ModuleVar} {p : Nat} (h : Resolves s var p)
    (m : μ) :
    ∃ s', s.exec (.moduleCmd (.child var (g.name m)) m) = some s' ∧ s'.globals = s.globals ∧
      s'.created = s.created ++ [m] ∧ s'.executed = s.executed ∧
      (∀ q < s.created.length, q ≠ p → s'.dicts q = s.dicts q) ∧
      (∀ name ≠ g.name m, s'.dicts p name = s.dicts p name) ∧
      s'.dicts p (g.name m) = some s.created.length := by
  have hne : ∀ q < s.created.length, (s.create m).dicts q = s.dicts q := fun q hq =>
    Function.update_of_ne hq.ne ..
  have heval : (s.create m).eval var = some p :=
    h.eval (s.create m) rfl fun q hq => hne q (hq.trans h.lt)
  refine ⟨{ s.create m with
    dicts := Function.update (s.create m).dicts p
      (Function.update ((s.create m).dicts p) (g.name m) (some s.created.length)) },
    ?_, rfl, rfl, rfl, fun q hq hqp => ?_, fun name hname => ?_, ?_⟩
  · rw [exec, assign, heval, Option.map_some]
  · exact (Function.update_of_ne hqp ..).trans (hne q hq)
  · show Function.update (s.create m).dicts p _ p name = _
    rw [Function.update_self, Function.update_of_ne hname, hne p h.lt]
  · show Function.update (s.create m).dicts p _ p (g.name m) = _
    rw [Function.update_self, Function.update_self]

/-- The commands of a child, when those of its children do what they should. -/
theorem ran_child {m : μ}
    (hchildren : ∀ (s : Interpreter μ) (var : ModuleVar) (o : Nat), Resolves s var o →
      ∃ s', run ((g.children m).flatMap fun c =>
        (g.rawCmdsGen Dict.empty (.child var (g.name c)) c).1) s = some s' ∧
        Ran g s o (g.children m) s')
    {s : Interpreter μ} {var : ModuleVar} {p : Nat} (h : Resolves s var p) :
    ∃ s', run (g.rawCmdsGen Dict.empty (.child var (g.name m)) m).1 s = some s' ∧
      Ran g s p [m] s' := by
  obtain ⟨s₁, hcreate, hglobals, hcreated, hexecuted, hdicts, hnames, hbound⟩ :=
    exec_moduleCmd_child (g := g) h m
  have hlast : s.created.length + 1 = s₁.created.length := by
    rw [hcreated, List.length_append, List.length_singleton]
  have ho : s₁.created[s.created.length]? = some m := by
    rw [hcreated, List.getElem?_concat_length]
  have hp := h.lt
  have hresolves : Resolves s₁ (.child var (g.name m)) s.created.length := by
    refine Resolves.child ⟨by omega, fun t ht htdicts => ?_⟩ hp (by omega) hbound
    refine h.eval t (ht.trans hglobals) fun q hq => ?_
    rw [htdicts q hq, hdicts q (hq.trans hp) hq.ne]
  obtain ⟨s₂, hrun, hran⟩ := hchildren s₁ _ _ hresolves
  obtain ⟨s₃, hexec, hmade⟩ := made_of_ran hresolves hlast ho hran
  refine ⟨s₃, ?_, ?_⟩
  · rw [rawCmdsGen_empty, ModuleGraph.importCmdGen, List.nil_append, List.append_assoc,
      List.singleton_append, run_cons, hcreate, Option.bind_some, run_append, hrun,
      Option.bind_some, run_cons, hexec]
    rfl
  · obtain ⟨es, hes, hmods, hobjs⟩ := hmade.executed
    have hobj : s₃.created[s.created.length]? = some m := by
      rw [hmade.created, List.getElem?_append_left (by omega), ho]
    refine ⟨hmade.globals.trans hglobals, ?_, fun q hq hne => ?_, fun name hname => ?_,
      ⟨es, ?_, ?_, hobjs⟩, fun _ c hc => ?_, fun hnamed q hq b hb => ?_⟩
    · rw [hmade.created, hcreated, List.flatMap_singleton, Dag.preorder_eq, List.append_assoc,
        List.singleton_append]
    · rw [hmade.dicts q hq, hdicts q hq hne]
    · rw [hmade.dicts p hp, hnames name fun heq => hname (heq ▸ List.mem_singleton_self _)]
    · rw [hes, hexecuted]
    · rw [hmods, List.flatMap_singleton]
    · rw [List.mem_singleton.mp hc, hmade.dicts p hp]
      exact ⟨_, hbound, hobj⟩
    · exact hmade.linked (hnamed m (List.mem_singleton_self m)) q hq b hb

theorem ran_list {cs : List μ}
    (hcs : ∀ c ∈ cs, ∀ (s : Interpreter μ) (var : ModuleVar) (p : Nat), Resolves s var p →
      ∃ s', run (g.rawCmdsGen Dict.empty (.child var (g.name c)) c).1 s = some s' ∧
        Ran g s p [c] s')
    {s : Interpreter μ} {var : ModuleVar} {o : Nat} (h : Resolves s var o) :
    ∃ s', run (cs.flatMap fun c => (g.rawCmdsGen Dict.empty (.child var (g.name c)) c).1) s =
      some s' ∧ Ran g s o cs s' := by
  induction cs generalizing s with
  | nil => exact ⟨s, rfl, ran_nil s o⟩
  | cons c cs ih =>
    obtain ⟨s₁, hrun, hran⟩ := hcs c (List.mem_cons_self ..) s var o h
    obtain ⟨s₂, hrun', hran'⟩ := ih (fun d hd => hcs d (List.mem_cons_of_mem _ hd)) (h.ran hran)
    refine ⟨s₂, ?_, hran.append h.lt hran'⟩
    rw [List.flatMap_cons, run_append, hrun, Option.bind_some, hrun']

/-- **Children.**  The commands of some children, in the namespace of their parent. -/
theorem ran_children (m : μ) (s : Interpreter μ) (var : ModuleVar) (o : Nat)
    (h : Resolves s var o) :
    ∃ s', run ((g.children m).flatMap fun c =>
      (g.rawCmdsGen Dict.empty (.child var (g.name c)) c).1) s = some s' ∧
      Ran g s o (g.children m) s' := by
  induction m using g.acyclic.induction generalizing s var o with
  | _ m ih => exact ran_list (fun c hc s var p hp => ran_child (ih c hc) hp) h

theorem exec_moduleCmd_main (g : ModuleGraph μ) (m : μ) :
    ∃ s, init.exec (.moduleCmd (.main (g.name m)) m) = some s ∧ s.created = [m] ∧
      s.executed = [] ∧ s.globals (g.name m) = some 0 :=
  ⟨_, rfl, rfl, rfl, Function.update_self ..⟩

/-- **Every path.**  The commands of a main module create and execute a module once
for every path to it. -/
theorem run_cmdsGen (g : ModuleGraph μ) (m : μ) :
    ∃ s, run (g.cmdsGen m).flatten init = some s ∧ s.created = g.preorder m ∧
      s.executed.map Prod.snd = g.postorder m ∧ (∀ e ∈ s.executed, s.created[e.1]? = some e.2) ∧
      (Named g m → ∀ p b, s.created[p]? = some b → Linked g s p b) := by
  obtain ⟨s₁, hcreate, hcreated, hexecuted, hglobal⟩ := exec_moduleCmd_main g m
  have hresolves : Resolves s₁ (.main (g.name m)) 0 :=
    resolves_main (by rw [hcreated]; exact Nat.zero_lt_one) hglobal
  obtain ⟨s₂, hrun, hran⟩ := ran_children (g := g) m s₁ _ _ hresolves
  obtain ⟨s₃, hexec, hmade⟩ :=
    made_of_ran hresolves (by rw [hcreated]; rfl) (by rw [hcreated]; rfl) hran
  obtain ⟨es, hes, hmods, hobjs⟩ := hmade.executed
  rw [hexecuted, List.nil_append] at hes
  refine ⟨s₃, ?_, ?_, hes ▸ hmods, hes ▸ hobjs,
    fun hnamed p => hmade.linked hnamed p (Nat.zero_le p)⟩
  · rw [ModuleGraph.cmdsGen, ModuleGraph.flatten_groupedCmdsGen, List.nil_append, rawCmdsGen_empty,
      ModuleGraph.importCmdGen, List.append_assoc, List.append_assoc, List.singleton_append,
      List.singleton_append, run_cons, exec, Option.bind_some, run_cons, hcreate, Option.bind_some,
      run_append, hrun, Option.bind_some, run_cons, hexec]
    rfl
  · rw [hmade.created, hcreated, Dag.preorder_eq, List.singleton_append]

variable [DecidableEq μ]

/-- Every module below `m` has been created and executed once, after its children, and
finds their objects in its namespace. -/
structure Built (g : ModuleGraph μ) (m : μ) (s : Interpreter μ) : Prop where
  below : ∀ b ∈ s.created, g.Below m b
  created : ∀ b, g.Below m b → s.created.count b = 1
  executed : ∀ b, g.Below m b → (s.executed.map Prod.snd).count b = 1
  inside : ∀ e ∈ s.executed, s.created[e.1]? = some e.2
  order : ∀ b c l r, c ∈ g.children b → s.executed.map Prod.snd = l ++ b :: r → c ∈ l
  bound : ∀ p b, s.created[p]? = some b → Linked g s p b

/-- A tree in which siblings have different names. -/
theorem built_of_tree {m : μ} {s : Interpreter μ} (htree : g.TreeFrom m) (hnamed : Named g m)
    (hrun : run (g.cmdsGen m).flatten init = some s) : Built g m s := by
  obtain ⟨s', hrun', hcreated, hmods, hobjs, hlinked⟩ := run_cmdsGen g m
  obtain rfl := Option.some.inj (hrun'.symm.trans hrun)
  have hnodup := Dag.nodup_preorder_iff.mpr htree
  refine ⟨fun b hb => ?_, fun b hb => ?_, fun b hb => ?_, hobjs, fun b c l r hc hsplit => ?_,
    hlinked hnamed⟩
  · rw [hcreated] at hb
    exact Dag.mem_preorder.mp hb
  · rw [hcreated]
    exact List.count_eq_one_of_mem hnodup (Dag.mem_preorder.mpr hb)
  · rw [hmods, (Dag.postorder_perm m).count_eq]
    exact List.count_eq_one_of_mem hnodup (Dag.mem_preorder.mpr hb)
  · rw [hmods] at hsplit
    exact Dag.postorder_split hsplit hc

theorem nodup_of_built {m : μ} {s : Interpreter μ} (h : Built g m s)
    (hcreated : s.created = g.preorder m) : (g.preorder m).Nodup := by
  rw [List.nodup_iff_count_le_one]
  intro b
  by_cases hb : b ∈ g.preorder m
  · rw [← hcreated, h.created b (Dag.mem_preorder.mp hb)]
  · rw [List.count_eq_zero_of_not_mem hb]
    exact Nat.zero_le 1

/-- Siblings of the same name would be the same object. -/
theorem named_of_built {m : μ} {s : Interpreter μ} (h : Built g m s)
    (hcreated : s.created = g.preorder m) : Named g m := by
  intro b hb
  have htree := Dag.nodup_preorder_iff.mp (nodup_of_built h hcreated)
  have hmem : b ∈ s.created := hcreated ▸ Dag.mem_preorder.mpr hb
  obtain ⟨p, hp⟩ := List.mem_iff_getElem?.mp hmem
  refine (htree.nodup b hb).map_on fun c hc c' hc' hname => ?_
  obtain ⟨o, ho, hobj⟩ := h.bound p b hp c hc
  obtain ⟨o', ho', hobj'⟩ := h.bound p b hp c' hc'
  rw [hname, ho', Option.some.injEq] at ho
  subst ho
  exact Option.some.inj (hobj.symm.trans hobj')

/-- **Once each.**  The commands build the modules below `m` as they should exactly if
these form a tree in which siblings have different names. -/
theorem built_iff (g : ModuleGraph μ) (m : μ) :
    (∃ s, run (g.cmdsGen m).flatten init = some s ∧ Built g m s) ↔
      g.TreeFrom m ∧ Named g m := by
  obtain ⟨s, hrun, hcreated, -⟩ := run_cmdsGen g m
  constructor
  · rintro ⟨s', hrun', hbuilt⟩
    obtain rfl := Option.some.inj (hrun.symm.trans hrun')
    exact ⟨Dag.nodup_preorder_iff.mp (nodup_of_built hbuilt hcreated),
      named_of_built hbuilt hcreated⟩
  · rintro ⟨htree, hnamed⟩
    exact ⟨s, hrun, built_of_tree htree hnamed hrun⟩

/-- The example modules of the tests. -/
inductive Example where
  | mainexample
  | childexample
  | grandchildexample
  deriving DecidableEq

namespace Example

/-- `grandchildexample` is a child of both others. -/
def childModules : Example → List Example
  | mainexample => [childexample, grandchildexample]
  | childexample => [grandchildexample]
  | grandchildexample => []

def height : Example → Nat
  | mainexample => 2
  | childexample => 1
  | grandchildexample => 0

theorem height_lt {c m : Example} (h : c ∈ childModules m) : height c < height m := by
  cases m <;> cases c <;> simp [childModules, height] at h ⊢

def name : Example → String
  | mainexample => "mainexample"
  | childexample => "childexample"
  | grandchildexample => "grandchildexample"

def graph : ModuleGraph Example where
  children := childModules
  acyclic := Subrelation.wf height_lt (InvImage.wf height Nat.lt_wfRel.wf)
  name := name
  serialized m := name m ++ "_serialized"
  basename m := name m ++ ".py"

end Example

/-- **Twice.**  It is created once in the namespace of each. -/
theorem not_built_example : ¬ ∃ s, run (Example.graph.cmdsGen .mainexample).flatten init = some s ∧
    Built Example.graph .mainexample s := by
  rintro ⟨s, hrun, hbuilt⟩
  obtain ⟨s', hrun', hcreated, -⟩ := run_cmdsGen Example.graph .mainexample
  obtain rfl := Option.some.inj (hrun'.symm.trans hrun)
  have hnodup := nodup_of_built hbuilt hcreated
  simp [Dag.preorder_eq, Example.graph, Example.childModules] at hnodup

end Interpreter

end InteractiveSessions
