import InteractiveSessions.Lib.Dict
import InteractiveSessions.Lib.Triple
import InteractiveSessions.Pool

/-!
# `_terminalpools`: one pool of terminals for each key

The pools are objects to which the dictionary and the local variables of `get`
refer, since `get` may delete a pool from the dictionary while it serves
another.  The key of `_TerminalPoolKey` is a parameter, and so is what the
environment decides: the ids of new terminals, the order of sets and the order
of `random.shuffle`.
-/

namespace InteractiveSessions

/-- A terminal: its key and its `id()`. -/
structure Terminal (κ : Type) where
  key : κ
  id : Nat
  deriving DecidableEq, Repr

inductive TerminalPoolsExc (κ : Type) where
  | terminalPoolsBusy
  | poolNotFoundError (key : κ)
  /-- An exception of a pool other than `TerminalPoolsBusy`. -/
  | pool (e : PoolExc)
  /-- A closed terminal is initialized. -/
  | attributeError
  deriving DecidableEq, Repr

/-- `TerminalPoolsBusy` is the exception given to the pools. -/
def TerminalPoolsExc.ofPool {κ : Type} : PoolExc → TerminalPoolsExc κ
  | .exception => .terminalPoolsBusy
  | e => .pool e

/-- `pools` is `_pools` with references to pool objects, `count` the number of
pool objects, `maxsize` is `int(_maxsize)` unless that fails, `closed` the
closed terminals, `closings` the calls of `close` so far. -/
structure TerminalPools (κ : Type) where
  pools : Dict κ Nat
  objs : Nat → Pool (Terminal κ)
  count : Nat
  maxsize : Option Int
  closed : Finset (Terminal κ)
  closings : List (Terminal κ)

/-- What the environment decides in a `get`: `free` is the order in which free
items are removed, `pop` the one in which they are taken, `new` the `id()` of a
new terminal, if the factory succeeds. -/
structure Choice (κ : Type) where
  free : SetOrder (Terminal κ)
  pop : SetOrder (Terminal κ)
  shuffle : List (κ × Nat) → List (κ × Nat)
  shuffle_perm : ∀ items, (shuffle items).Perm items
  new : Option Nat

namespace TerminalPools

variable {κ α : Type}

/-- `__init__` -/
def init : TerminalPools κ := ⟨Dict.empty, fun _ => Pool.empty, 0, some 256, ∅, []⟩

def setMaxsize (maxsize : Option Int) (s : TerminalPools κ) : TerminalPools κ := { s with maxsize }

def size (s : TerminalPools κ) : Nat := (s.pools.items.map fun x => (s.objs x.2).size).sum

/-- The state after a change of one pool, with calls of `close` of some items. -/
def change (ref : Nat) (p : Pool (Terminal κ)) (items : List (Terminal κ))
    (closed : Finset (Terminal κ)) (s : TerminalPools κ) : TerminalPools κ :=
  { s with
    objs := Function.update s.objs ref p
    closed
    closings := s.closings ++ items }

variable [DecidableEq κ]

/-- An operation of a pool, with the terminals that it closes. -/
def onPool (ref : Nat)
    (op : Pool (Terminal κ) → Except PoolExc (α × List (Terminal κ) × Pool (Terminal κ))) :
    Prog (TerminalPoolsExc κ) (TerminalPools κ) α := fun s =>
  match op (s.objs ref) with
  | .ok (a, items, p) => .ret a (s.change ref p items (s.closed ∪ items.toFinset))
  | .error e => .raised (.ofPool e) s

/-- `self._pools[key] = _Pool(…)` -/
def addPool (key : κ) (s : TerminalPools κ) : TerminalPools κ :=
  { s with
    pools := s.pools.set key s.count
    objs := Function.update s.objs s.count Pool.empty
    count := s.count + 1 }

/-- `_get_pool` for the key, with `properties.max_processes_in_target`. -/
def getPool (c : Choice κ) (key : κ) (maxProcesses : Option Int) :
    Prog (TerminalPoolsExc κ) (TerminalPools κ) Nat := do
  Prog.modify fun s : TerminalPools κ => if key ∈ s.pools.keys then s else s.addPool key
  let ref ← Prog.gets fun s : TerminalPools κ => s.pools.get? key
  match ref with
  | none => Prog.raise (.pool .keyError)
  | some ref => do
    onPool ref fun p => (p.setMaxsize c.free maxProcesses).map fun r => ((), r.1, r.2)
    pure ref

/-- `pool.remove_every_nth_free(n)` -/
def removeEveryNthFree (c : Choice κ) (ref : Nat) (n : Int) :
    Prog (TerminalPoolsExc κ) (TerminalPools κ) Nat :=
  onPool ref fun p => (p.removeEveryNthFree c.free n).map fun r => (r.1.length, r.1, r.2)

/-- The loop of `_clean_free`. -/
def cleanFree (c : Choice κ) : List (κ × Nat) → Prog (TerminalPoolsExc κ) (TerminalPools κ) Nat
  | [] => pure 0
  | (_, ref) :: items => do
    let removed ← removeEveryNthFree c ref 2
    let rest ← cleanFree c items
    pure (removed + rest)

/-- The loop of `_clean_free_in_random_order_or_raise`. -/
def cleanFreeInRandomOrderOrRaise (c : Choice κ) :
    List (κ × Nat) → Prog (TerminalPoolsExc κ) (TerminalPools κ) Unit
  | [] => Prog.raise .terminalPoolsBusy
  | (key, ref) :: items => do
    let removed ← removeEveryNthFree c ref 1
    if removed ≠ 0 then do
      let size ← Prog.gets fun s : TerminalPools κ => (s.objs ref).size
      if size = 0 then
        Prog.modify fun s : TerminalPools κ => { s with pools := s.pools.erase key }
      else pure ()
    else cleanFreeInRandomOrderOrRaise c items

def tryToClean (c : Choice κ) : Prog (TerminalPoolsExc κ) (TerminalPools κ) Unit := do
  let items ← Prog.gets fun s : TerminalPools κ => s.pools.items
  let removed ← cleanFree c items
  if removed = 0 then cleanFreeInRandomOrderOrRaise c (c.shuffle items) else pure ()

def cleanIfNeeded (c : Choice κ) (ref : Nat) :
    Prog (TerminalPoolsExc κ) (TerminalPools κ) Unit := do
  let s ← Prog.gets fun s : TerminalPools κ => s
  if (s.objs ref).free = ∅ then
    match s.maxsize with
    | none => Prog.raise (.pool .valueError)
    | some maxsize => if maxsize ≤ s.size then tryToClean c else pure ()
  else pure ()

/-- A new terminal: an object that lives in none of the pools. -/
def newTerminal (key : κ) (new : Option Nat) (s : TerminalPools κ) : Option (Terminal κ) :=
  (new.map (Terminal.mk key)).filter fun t =>
    (List.range s.count).all fun ref => t ∉ (s.objs ref).inuse ∧ t ∉ (s.objs ref).free

/-- `_get_terminal`: the terminal comes from the free set of the pool, or it is
new and not closed. -/
def getTerminal (c : Choice κ) (key : κ) (ref : Nat) :
    Prog (TerminalPoolsExc κ) (TerminalPools κ) (Terminal κ) := do
  let s ← Prog.gets fun s : TerminalPools κ => s
  let terminal ← onPool ref fun p =>
    (p.get c.pop (s.newTerminal key c.new)).map fun r => (r.1, [], r.2)
  if (s.objs ref).free = ∅ then
    Prog.modify fun s : TerminalPools κ => { s with closed := s.closed.erase terminal }
    pure terminal
  else if terminal ∈ s.closed then Prog.raise .attributeError
  else pure terminal

def get (c : Choice κ) (key : κ) (maxProcesses : Option Int) :
    Prog (TerminalPoolsExc κ) (TerminalPools κ) (Terminal κ) := do
  let ref ← getPool c key maxProcesses
  cleanIfNeeded c ref
  getTerminal c key ref

/-- `shall_be_stored`, given what `is_persistent` returns. -/
def shallBeStored (t : Terminal κ) (isPersistent : Bool) (s : TerminalPools κ) : Bool :=
  isPersistent && t ∉ s.closed

/-- `pool.remove(terminal)` -/
def removeFrom (t : Terminal κ) (ref : Nat) : Prog (TerminalPoolsExc κ) (TerminalPools κ) Unit :=
  onPool ref fun p => .ok ((), [t], p.remove t)

def putOp (op : Pool (Terminal κ) → Except PoolExc (Pool (Terminal κ))) (t : Terminal κ)
    (isPersistent : Bool) : Prog (TerminalPoolsExc κ) (TerminalPools κ) Unit := do
  let s ← Prog.gets fun s : TerminalPools κ => s
  match s.pools.get? t.key with
  | none => Prog.raise (.poolNotFoundError t.key)
  | some ref =>
    if s.shallBeStored t isPersistent then onPool ref fun p => (op p).map fun p' => ((), [], p')
    else removeFrom t ref

def put (t : Terminal κ) (isPersistent : Bool) :
    Prog (TerminalPoolsExc κ) (TerminalPools κ) Unit :=
  putOp (Pool.put t) t isPersistent

def putIncrShared (t : Terminal κ) (isPersistent : Bool) :
    Prog (TerminalPoolsExc κ) (TerminalPools κ) Unit :=
  putOp (Pool.putIncrShared t) t isPersistent

def decrShared (t : Terminal κ) (isPersistent : Bool) :
    Prog (TerminalPoolsExc κ) (TerminalPools κ) Unit :=
  putOp (fun p => .ok (p.decrShared t)) t isPersistent

def remove (t : Terminal κ) : Prog (TerminalPoolsExc κ) (TerminalPools κ) Unit := do
  let s ← Prog.gets fun s : TerminalPools κ => s
  match s.pools.get? t.key with
  | none => pure ()
  | some ref => removeFrom t ref

/-- The loop of `close`. -/
def closePools (order : SetOrder (Terminal κ)) :
    List (κ × Nat) → Prog (TerminalPoolsExc κ) (TerminalPools κ) Unit
  | [] => pure ()
  | (_, ref) :: items => do
    onPool ref fun p => .ok ((), order.list (p.inuse ∪ p.free), p.close)
    closePools order items

/-- `close`, with the order in which the terminals of a pool are closed. -/
def close (order : SetOrder (Terminal κ)) : Prog (TerminalPoolsExc κ) (TerminalPools κ) Unit := do
  let items ← Prog.gets fun s : TerminalPools κ => s.pools.items
  closePools order items
  Prog.modify fun s : TerminalPools κ => { s with pools := Dict.empty }

end TerminalPools

end InteractiveSessions
