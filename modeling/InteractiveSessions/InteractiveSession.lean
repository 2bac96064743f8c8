import InteractiveSessions.Lib.Triple

/-!
# `InteractiveSession`: the stack of shells

`pop_until` and `close_terminal` pop shells as long as the prompts that the terminal
shows allow it.

* `popsUntil_iff`: when `pop_until` ends with the shell on top or with
  `UnknownShellState`;
* `closes_iff`: when `close_terminal` closes the terminal.
-/

namespace InteractiveSessions

/-- What `get_prompt` returns. -/
inductive Prompt where
  | text (s : String)
  | texts (l : List String)
  deriving DecidableEq, Repr

/-- `is_terminal_prompt_matching` of a shell with that prompt -/
def Prompt.Matches (terminalPrompt : String) : Prompt → Prop
  | .text s => terminalPrompt = s
  | .texts l => terminalPrompt ∈ l

instance (terminalPrompt : String) (p : Prompt) : Decidable (p.Matches terminalPrompt) :=
  match p with
  | .text s => inferInstanceAs (Decidable (terminalPrompt = s))
  | .texts l => inferInstanceAs (Decidable (terminalPrompt ∈ l))

inductive SessionExc (ε : Type) where
  | unexpectedPrompt (received : String) (expected : Prompt)
  | unknownShellState
  | runnerTerminalSessionBroken
  /-- `pop` from an empty list. -/
  | indexError
  /-- An attribute of `None`. -/
  | attributeError
  /-- An exception of a shell. -/
  | shell (e : ε)
  deriving DecidableEq

def SessionExc.IsUnexpectedPrompt {ε : Type} : SessionExc ε → Prop
  | .unexpectedPrompt .. => True
  | _ => False

/-- What the shells do: `read n` is what reading the prompt returns or raises after `n`
prompts have been read, and `exit n` so for leaving a shell. -/
structure Behaviour (ε : Type) where
  read : Nat → Except (SessionExc ε) String
  exit : Nat → Except (SessionExc ε) Unit

/-- The last shell of `shells`, which is the first one here, is the current one.  `reads` is
how many prompts have been read, and `closed` has the terminals that were closed. -/
structure InteractiveSession (η : Type) where
  shells : List η
  terminal : Option Nat
  dumpReceived : Option String
  dumpOutgoing : Option String
  reads : Nat
  closed : List Nat
  deriving DecidableEq

namespace InteractiveSession

variable {η ε : Type}

def currentShell : Prog (SessionExc ε) (InteractiveSession η) η := fun s =>
  match s.shells with
  | shell :: _ => .ret shell s
  | [] => .raised .runnerTerminalSessionBroken s

section
variable (B : Behaviour ε) (getPrompt : η → Prompt)

def getPromptFromTerminal : Prog (SessionExc ε) (InteractiveSession η) String := fun s =>
  match B.read s.reads with
  | .ok prompt => .ret prompt { s with reads := s.reads + 1 }
  | .error e => .raised e { s with reads := s.reads + 1 }

/-- `self.current_shell().exit()` -/
def exitCurrent : Prog (SessionExc ε) (InteractiveSession η) Unit := do
  let _ ← currentShell
  let n ← Prog.gets fun s : InteractiveSession η => s.reads
  match B.exit n with
  | .ok _ => pure ()
  | .error e => Prog.raise e

/-- `_prompt_should_match` -/
def promptShouldMatch (shellToMatch : Option η) :
    Prog (SessionExc ε) (InteractiveSession η) Unit := do
  let shell ← match shellToMatch with
    | some shell => pure shell
    | none => currentShell
  let _ ← currentShell
  let prompt ← getPromptFromTerminal B
  if (getPrompt shell).Matches prompt then pure ()
  else do
    let current ← currentShell
    Prog.raise (.unexpectedPrompt prompt (getPrompt current))

/-- `self.shells.pop()` -/
def popShell : Prog (SessionExc ε) (InteractiveSession η) Unit := fun s =>
  match s.shells with
  | _ :: shells => .ret () { s with shells }
  | [] => .raised .indexError s

/-- `_pop`, which raises every exception again. -/
def pop : Prog (SessionExc ε) (InteractiveSession η) Unit :=
  Prog.tryFinally
    (do
      promptShouldMatch B getPrompt none
      exitCurrent B)
    popShell

/-- Whether the prompt matches the one of `shell`; if not, a shell is popped. -/
def matchOrPop (shell : η) : Prog (SessionExc ε) (InteractiveSession η) Bool :=
  Prog.tryExcept
    (do
      promptShouldMatch B getPrompt (some shell)
      pure true)
    fun
    | .unexpectedPrompt .. => some do
      pop B getPrompt
      pure false
    | _ => none

/-- The loop of `pop_until`. -/
def popUntilLoop [DecidableEq η] (shell : η) :
    Nat → Prog (SessionExc ε) (InteractiveSession η) Unit
  | 0 => Prog.hang
  | fuel + 1 => do
    let shells ← Prog.gets fun s : InteractiveSession η => s.shells
    if shell ∈ shells then do
      let matched ← matchOrPop B getPrompt shell
      if matched then pure () else popUntilLoop shell fuel
    else Prog.raise .unknownShellState

def popUntil [DecidableEq η] (shell : η) : Prog (SessionExc ε) (InteractiveSession η) Unit := do
  let shells ← Prog.gets fun s : InteractiveSession η => s.shells
  popUntilLoop B getPrompt shell (shells.length + 1)

/-- The body of the loop of `close_terminal`. -/
def tryPop : Prog (SessionExc ε) (InteractiveSession η) Unit :=
  Prog.tryExcept (pop B getPrompt) fun
    | .unexpectedPrompt .. => some (pure ())
    | _ => none

/-- The loop of `close_terminal`. -/
def popAll : Nat → Prog (SessionExc ε) (InteractiveSession η) Unit
  | 0 => Prog.hang
  | fuel + 1 => do
    let shells ← Prog.gets fun s : InteractiveSession η => s.shells
    if shells ≠ [] then do
      tryPop B getPrompt
      popAll fuel
    else pure ()

/-- `self.terminal.close(force=True)` -/
def closePseudoTerminal : Prog (SessionExc ε) (InteractiveSession η) Unit := fun s =>
  match s.terminal with
  | some terminal => .ret () { s with closed := terminal :: s.closed }
  | none => .raised .attributeError s

def closeTerminal : Prog (SessionExc ε) (InteractiveSession η) Unit := do
  let shells ← Prog.gets fun s : InteractiveSession η => s.shells
  popAll B getPrompt (shells.length + 1)
  closePseudoTerminal
  Prog.modify fun s => { s with
    shells := [], terminal := none, dumpReceived := none, dumpOutgoing := none }

end

/-! ## One pop -/

section
variable {B : Behaviour ε} {getPrompt : η → Prompt} {s : InteractiveSession η} {c shell : η}
  {cs : List η}

/-- The state after a prompt was read. -/
def read (s : InteractiveSession η) : InteractiveSession η := { s with reads := s.reads + 1 }

/-- The state after a pop. -/
def popped (s : InteractiveSession η) : InteractiveSession η :=
  { s with reads := s.reads + 1, shells := s.shells.tail }

theorem currentShell_cons (h : s.shells = c :: cs) :
    (currentShell s : Outcome (SessionExc ε) _ _) = .ret c s := by
  simp only [currentShell, h]

/-- How the comparison of a prompt with the one of `shell` ends, when `c` is on top. -/
def compared (B : Behaviour ε) (getPrompt : η → Prompt) (shell c : η) (n : Nat) :
    Except (SessionExc ε) Unit :=
  match B.read n with
  | .ok prompt =>
    if (getPrompt shell).Matches prompt then .ok ()
    else .error (.unexpectedPrompt prompt (getPrompt c))
  | .error e => .error e

theorem promptShouldMatch_some (h : s.shells = c :: cs) :
    promptShouldMatch B getPrompt (some shell) s =
      match compared B getPrompt shell c s.reads with
      | .ok _ => .ret () s.read
      | .error e => .raised e s.read := by
  have hfirst : promptShouldMatch B getPrompt (some shell) s = (currentShell >>= fun _ =>
      getPromptFromTerminal B >>= fun prompt =>
        if (getPrompt shell).Matches prompt then pure ()
        else currentShell >>= fun current =>
          Prog.raise (.unexpectedPrompt prompt (getPrompt current))) s := rfl
  rw [hfirst, Prog.bind_ret (currentShell_cons h), Prog.bind_run, getPromptFromTerminal, compared]
  cases B.read s.reads with
  | error e => rfl
  | ok prompt =>
    have hcurrent : (currentShell s.read : Outcome (SessionExc ε) _ _) = .ret c s.read :=
      currentShell_cons h
    by_cases hmatch : (getPrompt shell).Matches prompt
    · simp only [if_pos hmatch]
      rfl
    · simp only [if_neg hmatch]
      exact Prog.bind_ret hcurrent

theorem promptShouldMatch_none (h : s.shells = c :: cs) :
    promptShouldMatch B getPrompt none s = promptShouldMatch B getPrompt (some c) s := by
  rw [promptShouldMatch, promptShouldMatch, Prog.bind_ret (currentShell_cons h)]
  rfl

/-- How a pop ends, when `c` is on top. -/
def popReply (B : Behaviour ε) (getPrompt : η → Prompt) (c : η) (n : Nat) :
    Except (SessionExc ε) Unit :=
  match compared B getPrompt c c n with
  | .ok _ => B.exit (n + 1)
  | .error e => .error e

theorem exitCurrent_run (h : s.shells = c :: cs) :
    exitCurrent B s =
      match B.exit s.reads with
      | .ok _ => .ret () s
      | .error e => .raised e s := by
  rw [exitCurrent, Prog.bind_ret (currentShell_cons h), Prog.bind_ret (Prog.gets_run _ s)]
  cases B.exit s.reads <;> rfl

theorem pop_run (B : Behaviour ε) (getPrompt : η → Prompt) (h : s.shells = c :: cs) :
    pop B getPrompt s =
      match popReply B getPrompt c s.reads with
      | .ok _ => .ret () s.popped
      | .error e => .raised e s.popped := by
  have hbody : (promptShouldMatch B getPrompt none >>= fun _ => exitCurrent B) s =
      match popReply B getPrompt c s.reads with
      | .ok _ => .ret () s.read
      | .error e => .raised e s.read := by
    have hread : s.read.shells = c :: cs := h
    rw [Prog.bind_run, promptShouldMatch_none h, promptShouldMatch_some h, popReply]
    cases compared B getPrompt c c s.reads with
    | error e => rfl
    | ok _ => exact exitCurrent_run hread
  have hpop : (popShell s.read : Outcome (SessionExc ε) _ _) = .ret () s.popped := by
    simp only [popShell, read, popped, h, List.tail_cons]
  rw [pop, Prog.tryFinally, hbody]
  cases popReply B getPrompt c s.reads <;> simp only [hpop]

end

/-! ## `close_terminal` -/

section
variable {B : Behaviour ε} {getPrompt : η → Prompt} {s : InteractiveSession η} {c : η}
  {cs : List η}

/-- Nothing is raised, or `UnexpectedPrompt`. -/
def Tolerated (r : Except (SessionExc ε) Unit) : Prop :=
  ∀ e, r = .error e → e.IsUnexpectedPrompt

/-- After `n` prompts the prompt is read and the shell `c` is left: neither raises anything
but `UnexpectedPrompt`. -/
def Leaves (B : Behaviour ε) (getPrompt : η → Prompt) (c : η) (n : Nat) : Prop :=
  match B.read n with
  | .ok prompt => (getPrompt c).Matches prompt → Tolerated (B.exit (n + 1))
  | .error e => e.IsUnexpectedPrompt

theorem tolerated_popReply (c : η) (n : Nat) :
    Tolerated (popReply B getPrompt c n) ↔ Leaves B getPrompt c n := by
  unfold popReply compared Leaves
  cases B.read n with
  | error e => simp [Tolerated]
  | ok prompt =>
    by_cases hmatch : (getPrompt c).Matches prompt
    · simp [hmatch]
    · simp [hmatch, Tolerated, SessionExc.IsUnexpectedPrompt]

theorem tryPop_ok (h : s.shells = c :: cs) (hleaves : Leaves B getPrompt c s.reads) :
    tryPop B getPrompt s = .ret () s.popped := by
  have hpop := pop_run B getPrompt h
  rw [← tolerated_popReply] at hleaves
  cases hreply : popReply B getPrompt c s.reads with
  | ok _ =>
    rw [hreply] at hpop
    exact Prog.tryExcept_ret hpop
  | error e =>
    rw [hreply] at hpop
    have hunexpected := hleaves e hreply
    cases e with
    | unexpectedPrompt received expected => exact Prog.tryExcept_caught hpop rfl
    | _ => exact hunexpected.elim

theorem tryPop_raised (h : s.shells = c :: cs) (hleaves : ¬ Leaves B getPrompt c s.reads) :
    ∃ e, tryPop B getPrompt s = .raised e s.popped := by
  have hpop := pop_run B getPrompt h
  rw [← tolerated_popReply, Tolerated, not_forall] at hleaves
  obtain ⟨e, he⟩ := hleaves
  obtain ⟨hreply, hunexpected⟩ := Classical.not_imp.mp he
  rw [hreply] at hpop
  refine ⟨e, Prog.tryExcept_uncaught hpop ?_⟩
  cases e with
  | unexpectedPrompt received expected => exact absurd trivial hunexpected
  | _ => rfl

/-- The shells can be left: the one on top, and then the others. -/
theorem forall_leaves_cons {n : Nat} :
    (∀ k d, (c :: cs)[k]? = some d → Leaves B getPrompt d (n + k)) ↔
      Leaves B getPrompt c n ∧ ∀ k d, cs[k]? = some d → Leaves B getPrompt d (n + 1 + k) := by
  constructor
  · intro h
    constructor
    · exact h 0 c rfl
    · intro k d hd
      have hk := h (k + 1) d hd
      rwa [Nat.add_comm k, ← Nat.add_assoc] at hk
  · rintro ⟨hc, hcs⟩ k d hd
    cases k with
    | zero =>
      cases hd
      exact hc
    | succ k =>
      have hk := hcs k d hd
      rwa [Nat.add_assoc, Nat.add_comm 1] at hk

/-- Every shell is popped if each one can be left. -/
theorem popAll_run (B : Behaviour ε) (getPrompt : η → Prompt) {fuel : Nat}
    (hfuel : s.shells.length < fuel) :
    ((∀ k c, s.shells[k]? = some c → Leaves B getPrompt c (s.reads + k)) ∧
        ∃ s', popAll B getPrompt fuel s = .ret () s' ∧ s'.terminal = s.terminal) ∨
      ¬ (∀ k c, s.shells[k]? = some c → Leaves B getPrompt c (s.reads + k)) ∧
        ∃ e s', popAll B getPrompt fuel s = .raised e s' ∧ s'.terminal = s.terminal := by
  induction fuel generalizing s with
  | zero => omega
  | succ fuel ih =>
    rw [popAll, Prog.bind_ret (Prog.gets_run _ s)]
    cases hshells : s.shells with
    | nil =>
      refine .inl ⟨by simp, s, ?_, rfl⟩
      rw [if_neg (by simp)]
      rfl
    | cons c cs =>
      rw [if_pos (List.cons_ne_nil c cs)]
      rw [forall_leaves_cons]
      by_cases hleaves : Leaves B getPrompt c s.reads
      · have hrest := ih (s := s.popped) (by simp [popped, hshells] at hfuel ⊢; omega)
        rw [Prog.bind_ret (tryPop_ok hshells hleaves)]
        have hcs : s.popped.shells = cs := by rw [popped, hshells, List.tail_cons]
        rw [hcs] at hrest
        rcases hrest with ⟨hall, hrun⟩ | ⟨hnot, hrun⟩
        · exact .inl ⟨⟨hleaves, hall⟩, hrun⟩
        · exact .inr ⟨fun h => hnot h.2, hrun⟩
      · obtain ⟨e, hraised⟩ := tryPop_raised hshells hleaves
        exact .inr ⟨fun h => hleaves h.1, e, s.popped, Prog.bind_raised hraised, rfl⟩

/-- `close_terminal` ends with the terminal closed and forgotten, and without shells. -/
def Closes (B : Behaviour ε) (getPrompt : η → Prompt) (terminal : Nat)
    (s : InteractiveSession η) : Prop :=
  let s' := (closeTerminal B getPrompt s).state s
  terminal ∈ s'.closed ∧ s'.shells = [] ∧ s'.terminal = none

/-- **`close_terminal`.**  It closes the terminal of a spawned session if and only if the
shells, from the top on, raise nothing but `UnexpectedPrompt`. -/
theorem closes_iff (B : Behaviour ε) (getPrompt : η → Prompt) (terminal : Nat)
    (s : InteractiveSession η) :
    Closes B getPrompt terminal { s with terminal := some terminal } ↔
      ∀ k c, s.shells[k]? = some c → Leaves B getPrompt c (s.reads + k) := by
  have hall := popAll_run B getPrompt
    (s := { s with terminal := some terminal }) (Nat.lt_succ_self _)
  unfold Closes closeTerminal
  rw [Prog.bind_ret (Prog.gets_run _ _)]
  rcases hall with ⟨hleaves, s', hrun, hterminal⟩ | ⟨hnot, e, s', hrun, hterminal⟩
  · refine iff_of_true ?_ hleaves
    have hclose : (closePseudoTerminal s' : Outcome (SessionExc ε) _ _) =
        .ret () { s' with closed := terminal :: s'.closed } := by
      simp only [closePseudoTerminal, hterminal]
    rw [Prog.bind_ret hrun, Prog.bind_ret hclose]
    exact ⟨List.mem_cons_self .., rfl, rfl⟩
  · refine iff_of_false ?_ hnot
    rw [Prog.bind_raised hrun]
    rintro ⟨-, -, hnone⟩
    rw [Outcome.state, hterminal] at hnone
    cases hnone

/-- A shell whose prompt cannot be read. -/
def brokenRead : Behaviour String where
  read _ := .error (.shell "TIMEOUT")
  exit _ := .ok ()

/-- **`close_terminal`.**  It leaves the terminal open when a prompt cannot be read. -/
theorem not_closes_brokenRead :
    ¬ Closes brokenRead (fun _ : Unit => .text "$ ") 7 ⟨[()], some 7, none, none, 0, []⟩ := by
  rintro ⟨hclosed, -⟩
  have hopen : ((closeTerminal brokenRead (fun _ : Unit => .text "$ ")
      ⟨[()], some 7, none, none, 0, []⟩).state ⟨[()], some 7, none, none, 0, []⟩).closed = [] := rfl
  rw [hopen] at hclosed
  cases hclosed

/-! ## `pop_until` -/

/-- The shells raise nothing, and the terminal shows one prompt after the other. -/
def shows (prompts : Nat → String) : Behaviour Empty where
  read n := .ok (prompts n)
  exit _ := .ok ()

/-- `pop_until` ends with `shell` on top, or with `UnknownShellState`. -/
def PopsUntil [DecidableEq η] (prompts : Nat → String) (getPrompt : η → Prompt) (shell : η)
    (s : InteractiveSession η) : Prop :=
  Prog.Meets False (fun _ s' => s'.shells.head? = some shell)
    (fun e _ => e = .unknownShellState) (popUntil (shows prompts) getPrompt shell s)

/-- After `r` prompts.  Some shells from the top on are left, each one after a prompt that is
not the one of `shell` and a second one that is its own; then `shell` is not in the stack, or
it is on top and its prompt is shown. -/
def Unwinds (prompts : Nat → String) (getPrompt : η → Prompt) (shell : η) (shells : List η)
    (r : Nat) : Prop :=
  ∃ n, (∀ k < n, ∃ c, shells[k]? = some c ∧ ¬ (getPrompt shell).Matches (prompts (r + 2 * k)) ∧
      (getPrompt c).Matches (prompts (r + 2 * k + 1))) ∧
    (shell ∉ shells.drop n ∨
      shells[n]? = some shell ∧ (getPrompt shell).Matches (prompts (r + 2 * n)))

end

section
variable {prompts : Nat → String} {getPrompt : η → Prompt} {shell c : η} {cs : List η}
  {s : InteractiveSession η}

theorem unwinds_cons (r : Nat) :
    Unwinds prompts getPrompt shell (c :: cs) r ↔
      shell ∉ c :: cs ∨ (c = shell ∧ (getPrompt shell).Matches (prompts r)) ∨
        ¬ (getPrompt shell).Matches (prompts r) ∧ (getPrompt c).Matches (prompts (r + 1)) ∧
          Unwinds prompts getPrompt shell cs (r + 2) := by
  have hshift : ∀ k, r + 2 * (k + 1) = r + 2 + 2 * k := by omega
  constructor
  · rintro ⟨n, hleft, hend⟩
    cases n with
    | zero =>
      rcases hend with hnot | ⟨htop, hmatch⟩
      · exact .inl hnot
      · exact .inr (.inl ⟨Option.some.inj htop, hmatch⟩)
    | succ n =>
      obtain ⟨d, hd, hnot, hown⟩ := hleft 0 (Nat.succ_pos n)
      obtain rfl := Option.some.inj hd
      refine .inr (.inr ⟨hnot, hown, n, fun k hk => ?_, ?_⟩)
      · have hk := hleft (k + 1) (Nat.succ_lt_succ hk)
        rwa [hshift] at hk
      · rwa [hshift] at hend
  · rintro (hnot | ⟨rfl, hmatch⟩ | ⟨hnot, hown, n, hleft, hend⟩)
    · exact ⟨0, by simp, .inl hnot⟩
    · exact ⟨0, by simp, .inr ⟨rfl, hmatch⟩⟩
    · refine ⟨n + 1, fun k hk => ?_, ?_⟩
      · cases k with
        | zero => exact ⟨c, rfl, hnot, hown⟩
        | succ k =>
          rw [hshift]
          exact hleft k (Nat.lt_of_succ_lt_succ hk)
      · rw [hshift]
        exact hend

theorem matchOrPop_match (h : s.shells = c :: cs)
    (hmatch : (getPrompt shell).Matches (prompts s.reads)) :
    matchOrPop (shows prompts) getPrompt shell s = .ret true s.read := by
  have hcompared : promptShouldMatch (shows prompts) getPrompt (some shell) s = .ret () s.read := by
    rw [promptShouldMatch_some h]
    simp [compared, shows, hmatch]
  exact Prog.tryExcept_ret (Prog.bind_ret hcompared)

/-- The prompt is not the one of `shell`, and the next one is compared with the top. -/
theorem matchOrPop_pop (prompts : Nat → String) (h : s.shells = c :: cs)
    (hmatch : ¬ (getPrompt shell).Matches (prompts s.reads)) :
    matchOrPop (shows prompts) getPrompt shell s =
      if (getPrompt c).Matches (prompts (s.reads + 1)) then .ret false s.read.popped
      else .raised (.unexpectedPrompt (prompts (s.reads + 1)) (getPrompt c)) s.read.popped := by
  have hcompared : promptShouldMatch (shows prompts) getPrompt (some shell) s =
      .raised (.unexpectedPrompt (prompts s.reads) (getPrompt c)) s.read := by
    rw [promptShouldMatch_some h]
    simp [compared, shows, hmatch]
  have hread : s.read.shells = c :: cs := h
  rw [matchOrPop, Prog.tryExcept_caught (Prog.bind_raised hcompared) rfl, Prog.bind_run,
    pop_run _ _ hread]
  by_cases hown : (getPrompt c).Matches (prompts (s.reads + 1))
  · simp [popReply, compared, shows, read, hown]
  · simp [popReply, compared, shows, read, hown]

variable [DecidableEq η]

theorem popUntilLoop_iff {fuel : Nat} (hfuel : s.shells.length < fuel) :
    Prog.Meets False (fun _ s' => s'.shells.head? = some shell)
        (fun e _ => e = .unknownShellState) (popUntilLoop (shows prompts) getPrompt shell fuel s) ↔
      Unwinds prompts getPrompt shell s.shells s.reads := by
  induction fuel generalizing s with
  | zero => omega
  | succ fuel ih =>
    rw [popUntilLoop, Prog.bind_ret (Prog.gets_run _ s)]
    by_cases hmem : shell ∈ s.shells
    · obtain ⟨c, cs, hshells⟩ := List.exists_cons_of_ne_nil (List.ne_nil_of_mem hmem)
      rw [if_pos hmem, hshells, unwinds_cons]
      rw [hshells] at hmem
      by_cases hmatch : (getPrompt shell).Matches (prompts s.reads)
      · rw [Prog.bind_ret (matchOrPop_match hshells hmatch)]
        have htop : (s.read.shells.head? = some shell) ↔ c = shell := by
          rw [read, hshells, List.head?_cons, Option.some.injEq]
        simpa [Prog.Meets, hmem, hmatch] using htop
      · have hstep := matchOrPop_pop prompts hshells hmatch
        by_cases hown : (getPrompt c).Matches (prompts (s.reads + 1))
        · rw [if_pos hown] at hstep
          have hrest := ih (s := s.read.popped)
            (by simp [popped, read, hshells] at hfuel ⊢; omega)
          have hcs : s.read.popped.shells = cs := by simp [popped, read, hshells]
          have hreads : s.read.popped.reads = s.reads + 2 := rfl
          rw [hcs, hreads] at hrest
          rw [Prog.bind_ret hstep]
          simpa [hmem, hmatch, hown] using hrest
        · rw [if_neg hown] at hstep
          rw [Prog.bind_raised hstep]
          simp [Prog.Meets, hmem, hmatch, hown]
    · rw [if_neg hmem]
      exact iff_of_true rfl ⟨0, by simp, .inl hmem⟩

/-- **`pop_until`.**  For every stack and all prompts. -/
theorem popsUntil_iff (prompts : Nat → String) (getPrompt : η → Prompt) (shell : η)
    (s : InteractiveSession η) :
    PopsUntil prompts getPrompt shell s ↔ Unwinds prompts getPrompt shell s.shells s.reads :=
  popUntilLoop_iff (Nat.lt_succ_self s.shells.length)

end

/-- A shell on a node, and one on the host below it. -/
def nodeOnHost : InteractiveSession Bool := ⟨[true, false], some 7, none, none, 0, []⟩

def bashPrompts (shell : Bool) : Prompt := .text (if shell then "node$ " else "host$ ")

/-- **`pop_until`.**  It returns with another shell on top when the node is gone, and it
raises `UnexpectedPrompt` when something else is shown. -/
theorem not_popsUntil_host :
    ¬ PopsUntil (fun _ => "host$ ") bashPrompts false nodeOnHost ∧
      ¬ PopsUntil (fun _ => "login: ") bashPrompts false nodeOnHost := by
  have hgone : popUntil (shows fun _ => "host$ ") bashPrompts false nodeOnHost =
      .ret () nodeOnHost.read := by decide +kernel
  have hother : popUntil (shows fun _ => "login: ") bashPrompts false nodeOnHost =
      .raised (.unexpectedPrompt "login: " (.text "node$ ")) nodeOnHost.read.popped := by
    decide +kernel
  unfold PopsUntil
  rw [hgone, hother]
  constructor
  · intro htop
    cases htop
  · intro he
    cases he

end InteractiveSession

end InteractiveSessions
