import InteractiveSessions.Lib.PyLiteral
import InteractiveSessions.Lib.Triple

/-!
# Python expressions

Names, literals, attributes, items, calls and the minus sign: their texts, how Python
compiles a text, and what it evaluates.  The objects are a parameter.

* `compileEval_text`: an expression is compiled from its text;
* `compileSingle_assign`: an assignment is compiled from its text, and is no expression.

A text that is not of these forms is not compiled here.
-/

namespace InteractiveSessions.PyExpr

open PyLiteral

/-! ## Names and numbers -/

def keywords : List Text :=
  ["False", "None", "True", "and", "as", "assert", "async", "await", "break", "class",
    "continue", "def", "del", "elif", "else", "except", "finally", "for", "from", "global", "if",
    "import", "in", "is", "lambda", "nonlocal", "not", "or", "pass", "raise", "return", "try",
    "while", "with", "yield"].map String.toList

def isNameChar (c : Char) : Bool := c.isAlphanum || c = '_'

def isName (s : Text) : Bool :=
  s.all isNameChar && (s.head?.any fun c => !c.isDigit) && s ∉ keywords

/-- An identifier of ASCII characters. -/
structure Name where
  text : Text
  ok : isName text = true
  deriving DecidableEq

def name? (s : Text) : Option (Name × Text) :=
  if h : isName (s.takeWhile isNameChar) = true then
    some (⟨s.takeWhile isNameChar, h⟩, s.dropWhile isNameChar)
  else none

def isDigits (s : Text) : Bool := s.all Char.isDigit && s ≠ []

/-- A `float` without an exponent. -/
structure Number where
  whole : Text
  frac : Text
  ok : (isDigits whole && isDigits frac) = true
  deriving DecidableEq

def Number.text (x : Number) : Text := x.whole ++ '.' :: x.frac

def number? (s : Text) : Option (Number × Text) :=
  match s.dropWhile Char.isDigit with
  | '.' :: t =>
    if h : (isDigits (s.takeWhile Char.isDigit) && isDigits (t.takeWhile Char.isDigit)) = true then
      some (⟨s.takeWhile Char.isDigit, t.takeWhile Char.isDigit, h⟩, t.dropWhile Char.isDigit)
    else none
  | _ => none

/-- An `int` in decimal digits, and no `float`. -/
def int? (s : Text) : Option (Nat × Text) :=
  let n := Nat.ofDigitChars 10 (s.takeWhile Char.isDigit) 0
  if Nat.toDigits 10 n = s.takeWhile Char.isDigit ∧
      (s.dropWhile Char.isDigit).head? ≠ some '.' then
    some (n, s.dropWhile Char.isDigit)
  else none

/-! ## Syntax -/

mutual

inductive Primary where
  | name (n : Name)
  | str (s : Text)
  | bytes (b : Bytes)
  | num (x : Number)
  | attr (p : Primary) (n : Name)
  | item (p : Primary) (key : Expr)
  | call (p : Primary) (args : Args)

inductive Expr where
  | primary (p : Primary)
  | int (n : Nat)
  | neg (e : Expr)

/-- Arguments, those with a keyword at the end. -/
inductive Args where
  | nil
  | pos (e : Expr) (rest : Args)
  | kw (n : Name) (e : Expr) (rest : Args)

end

/-- What stands in front of an argument. -/
def separator (first : Bool) : Text := if first then [] else [',', ' ']

mutual

def Primary.text (printable : Char → Bool) : Primary → Text
  | .name n => n.text
  | .str s => PyLiteral.repr printable s
  | .bytes b => reprBytes b
  | .num x => x.text
  | .attr p n => p.text printable ++ '.' :: n.text
  | .item p key => p.text printable ++ '[' :: (key.text printable ++ [']'])
  | .call p args => p.text printable ++ '(' :: (args.text printable true ++ [')'])

def Expr.text (printable : Char → Bool) : Expr → Text
  | .primary p => p.text printable
  | .int n => Nat.toDigits 10 n
  | .neg e => '-' :: e.text printable

def Args.text (printable : Char → Bool) (first : Bool) : Args → Text
  | .nil => []
  | .pos e rest => separator first ++ (e.text printable ++ rest.text printable false)
  | .kw n e rest => separator first ++
    (n.text ++ '=' :: (e.text printable ++ rest.text printable false))

end

mutual

/-- No call has a keyword twice, or an argument without one behind it. -/
def Primary.WF : Primary → Prop
  | .name _ | .str _ | .bytes _ | .num _ => True
  | .attr p _ => p.WF
  | .item p key => p.WF ∧ key.WF
  | .call p args => p.WF ∧ args.WF []

def Expr.WF : Expr → Prop
  | .primary p => p.WF
  | .int _ => True
  | .neg e => e.WF

def Args.WF (seen : List Name) : Args → Prop
  | .nil => True
  | .pos e rest => seen = [] ∧ e.WF ∧ rest.WF seen
  | .kw n e rest => n ∉ seen ∧ e.WF ∧ rest.WF (n :: seen)

end

/-! ## The parser -/

def skip (s : Text) : Text := s.dropWhile (· = ' ')

def atom? : Text → Option (Primary × Text)
  | [] => none
  | c :: s =>
    if c = '\'' ∨ c = '"' then (str? (c :: s)).map (Prod.map .str id)
    else if c.isDigit then (number? (c :: s)).map (Prod.map .num id)
    else if c = 'b' ∧ s.head?.any (fun q => q = '\'' ∨ q = '"') then
      (bytes? (c :: s)).map (Prod.map .bytes id)
    else (name? (c :: s)).map (Prod.map .name id)

/-- The name of an argument and the `=` behind it. -/
def keyword? (s : Text) : Option (Name × Text) :=
  match name? s with
  | some (n, s') =>
    match skip s' with
    | '=' :: s'' => if s''.head? = some '=' then none else some (n, s'')
    | _ => none
  | none => none

mutual

def expr? : Nat → Text → Option (Expr × Text)
  | 0, _ => none
  | fuel + 1, s =>
    match skip s with
    | '-' :: s' => (expr? fuel s').map (Prod.map .neg id)
    | s' =>
      match int? s' with
      | some (n, s'') => some (.int n, s'')
      | none =>
        match atom? s' with
        | some (p, s'') => (trailers? fuel p s'').map (Prod.map .primary id)
        | none => none

def trailers? : Nat → Primary → Text → Option (Primary × Text)
  | 0, _, _ => none
  | fuel + 1, p, s =>
    match skip s with
    | '.' :: s' =>
      match name? (skip s') with
      | some (n, s'') => trailers? fuel (.attr p n) s''
      | none => none
    | '[' :: s' =>
      match expr? fuel s' with
      | some (key, s'') =>
        match skip s'' with
        | ']' :: t => trailers? fuel (.item p key) t
        | _ => none
      | none => none
    | '(' :: s' =>
      match args? fuel [] s' with
      | some (args, s'') => trailers? fuel (.call p args) s''
      | none => none
    | _ => some (p, s)

/-- The arguments and the parenthesis behind them.  `seen` are the keywords before them. -/
def args? : Nat → List Name → Text → Option (Args × Text)
  | 0, _, _ => none
  | fuel + 1, seen, s =>
    match skip s with
    | ')' :: s' => some (.nil, s')
    | s' =>
      match keyword? s' with
      | some (n, s'') =>
        if n ∈ seen then none
        else
          match expr? fuel s'' with
          | some (e, t) => (moreArgs? fuel (n :: seen) t).map (Prod.map (.kw n e) id)
          | none => none
      | none =>
        if seen = [] then
          match expr? fuel s' with
          | some (e, s'') => (moreArgs? fuel seen s'').map (Prod.map (.pos e) id)
          | none => none
        else none

def moreArgs? : Nat → List Name → Text → Option (Args × Text)
  | 0, _, _ => none
  | fuel + 1, seen, s =>
    match skip s with
    | ')' :: s' => some (.nil, s')
    | ',' :: s' => args? fuel seen s'
    | _ => none

end

/-- `compile(s, '', 'eval')` -/
def compileEval (s : Text) : Option Expr :=
  match expr? (s.length + 1) s with
  | some (e, rest) => if skip rest = [] then some e else none
  | none => none

inductive Stmt where
  | expr (e : Expr)
  | assign (target : Primary) (e : Expr)
  | del (targets : List Primary)

def Primary.IsTarget : Primary → Prop
  | .name _ | .attr .. | .item .. => True
  | .str _ | .bytes _ | .num _ | .call .. => False

instance (p : Primary) : Decidable p.IsTarget := by
  cases p <;> unfold Primary.IsTarget <;> infer_instance

/-- Targets with commas between them. -/
def targets? : Nat → Text → Option (List Primary)
  | 0, _ => none
  | fuel + 1, s =>
    match expr? (s.length + 1) s with
    | some (.primary p, rest) =>
      if p.IsTarget then
        match skip rest with
        | [] => some [p]
        | ',' :: rest' => (targets? fuel (skip rest')).map (p :: ·)
        | _ => none
      else none
    | _ => none

def del? : Text → Option Stmt
  | 'd' :: 'e' :: 'l' :: ' ' :: s => (targets? (s.length + 1) (skip s)).map .del
  | _ => none

/-- `compile(s, '', 'single')` -/
def compileSingle (s : Text) : Option Stmt :=
  match compileEval s with
  | some e => some (.expr e)
  | none =>
    if s.head? = some ' ' then none
    else
      match expr? (s.length + 1) s with
      | some (.primary p, rest) =>
        match skip rest with
        | '=' :: rest' => if p.IsTarget then (compileEval rest').map (.assign p) else none
        | _ => none
      | some (.int _, _) | some (.neg _, _) => none
      | none => del? s

/-! ## Tokens -/

/-- No name, number or literal goes on there. -/
def Stops (rest : Text) : Prop :=
  ∀ c t, rest = c :: t → isNameChar c = false ∧ c ≠ '\'' ∧ c ≠ '"'

/-- An expression ends there. -/
structure Closes (rest : Text) : Prop where
  stops : Stops rest
  trailer : ∀ c t, skip rest = c :: t → c ≠ '.' ∧ c ≠ '[' ∧ c ≠ '('

section
variable {printable : Char → Bool} {rest s : Text} {c : Char}

theorem stops_nil : Stops [] := fun _ _ h => by cases h

theorem stops_cons (h : isNameChar c = false) (h' : c ≠ '\'' ∧ c ≠ '"') : Stops (c :: s) := by
  rintro _ _ ⟨⟩
  exact ⟨h, h'⟩

theorem Stops.name (h : Stops rest) : ∀ c t, rest = c :: t → isNameChar c = false :=
  fun c t hc => (h c t hc).1

theorem Stops.ends (h : Stops rest) : Ends rest := fun q t hq => (h q t hq).2

theorem skip_cons (hc : c ≠ ' ') : skip (c :: s) = c :: s := by simp [skip, hc]

@[simp] theorem skip_nil : skip [] = [] := rfl

@[simp] theorem skip_space (s : Text) : skip (' ' :: s) = skip s := rfl

theorem closes_nil : Closes [] := ⟨stops_nil, fun _ _ h => by cases h⟩

theorem closes_cons (h : isNameChar c = false) (h' : c ≠ '\'' ∧ c ≠ '"') (hspace : c ≠ ' ')
    (ht : c ≠ '.' ∧ c ≠ '[' ∧ c ≠ '(') : Closes (c :: s) where
  stops := stops_cons h h'
  trailer := by
    rw [skip_cons hspace]
    rintro _ _ ⟨⟩
    exact ht

theorem takeWhile_append_stop {p : Char → Bool} {t : Text} (ht : t.all p = true)
    (hrest : ∀ c s, rest = c :: s → p c = false) : (t ++ rest).takeWhile p = t ∧
      (t ++ rest).dropWhile p = rest := by
  have hall : ∀ c ∈ t, p c = true := List.all_eq_true.mp ht
  rw [List.takeWhile_append_of_pos hall, List.dropWhile_append_of_pos hall]
  cases rest with
  | nil => simp
  | cons c s =>
    have hc := hrest c s rfl
    simp [hc]

theorem Name.all (n : Name) : n.text.all isNameChar = true := by
  have hok := n.ok
  simp only [isName, Bool.and_eq_true] at hok
  exact hok.1.1

theorem name?_text (n : Name) (h : ∀ c t, rest = c :: t → isNameChar c = false) :
    name? (n.text ++ rest) = some (n, rest) := by
  obtain ⟨htake, hdrop⟩ := takeWhile_append_stop n.all h
  simp only [name?, htake, hdrop, n.ok, dif_pos]

theorem isDigit_of_stops (h : Stops rest) : ∀ c s, rest = c :: s → c.isDigit = false := by
  intro c s hc
  have hname := (h c s hc).1
  simp only [isNameChar, Char.isAlphanum, Bool.or_eq_false_iff] at hname
  exact hname.1.2

theorem all_of_isDigits (h : isDigits s = true) : s.all Char.isDigit = true := by
  simp only [isDigits, Bool.and_eq_true] at h
  exact h.1

theorem number?_text (x : Number) (h : Stops rest) : number? (x.text ++ rest) = some (x, rest) := by
  have hok := x.ok
  obtain ⟨hwhole, hfrac⟩ := Bool.and_eq_true_iff.mp hok
  have hdot : ∀ c s, '.' :: (x.frac ++ rest) = c :: s → c.isDigit = false := by
    rintro _ _ ⟨⟩
    decide
  obtain ⟨htake, hdrop⟩ := takeWhile_append_stop (all_of_isDigits hwhole) hdot
  obtain ⟨htake', hdrop'⟩ := takeWhile_append_stop (all_of_isDigits hfrac) (isDigit_of_stops h)
  rw [Number.text, List.append_assoc, List.cons_append, number?, hdrop]
  simp only [htake, htake', hdrop', hok, dif_pos]

theorem all_toDigits (n : Nat) : (Nat.toDigits 10 n).all Char.isDigit = true :=
  List.all_eq_true.mpr fun _ hc => Nat.isDigit_of_mem_toDigits (by decide) (by decide) hc

theorem int?_text (n : Nat) (h : Stops rest) (hdot : rest.head? ≠ some '.') :
    int? (Nat.toDigits 10 n ++ rest) = some (n, rest) := by
  obtain ⟨htake, hdrop⟩ := takeWhile_append_stop (all_toDigits n) (isDigit_of_stops h)
  simp only [int?, htake, hdrop, Nat.ofDigitChars_ten_toDigits, ne_eq, hdot, not_false_eq_true,
    and_self, if_true]

theorem int?_of_not_isDigit (hc : c.isDigit = false) : int? (c :: s) = none := by
  simp [int?, hc]

/-- A `float` is no `int`. -/
theorem int?_num (x : Number) (rest : Text) : int? (x.text ++ rest) = none := by
  have hdot : ∀ c s, '.' :: (x.frac ++ rest) = c :: s → c.isDigit = false := by
    rintro _ _ ⟨⟩
    decide
  have hwhole := all_of_isDigits (Bool.and_eq_true_iff.mp x.ok).1
  obtain ⟨-, hdrop⟩ := takeWhile_append_stop hwhole hdot
  rw [Number.text, List.append_assoc, List.cons_append, int?, hdrop]
  exact if_neg fun h => h.2 rfl

end

/-! ## The beginning of a text -/

section
variable {printable : Char → Bool} {rest s t : Text} {c : Char}

/-- The first character begins neither an operator nor the end of a call. -/
def Begins (s : Text) : Prop := ∃ c t, s = c :: t ∧ c ≠ ' ' ∧ c ≠ ')' ∧ c ≠ '=' ∧ c ≠ '-'

theorem Begins.append (h : Begins s) (t : Text) : Begins (s ++ t) := by
  obtain ⟨c, u, rfl, hc⟩ := h
  exact ⟨c, u ++ t, rfl, hc⟩

theorem begins_name (n : Name) : Begins n.text := by
  have hok := n.ok
  obtain ⟨text, _⟩ := n
  cases text with
  | nil => cases hok
  | cons c t =>
    have hc : isNameChar c = true := by
      simp only [isName, List.all_cons, Bool.and_eq_true] at hok
      exact hok.1.1.1
    refine ⟨c, t, rfl, ?_, ?_, ?_, ?_⟩
    all_goals
      rintro rfl
      revert hc
      decide

theorem begins_num (x : Number) : Begins x.text := by
  have hok := (Bool.and_eq_true_iff.mp x.ok).1
  obtain ⟨whole, frac, _⟩ := x
  cases whole with
  | nil => cases hok
  | cons c t =>
    have hc : c.isDigit = true := by
      have hall := all_of_isDigits hok
      simp only [List.all_cons, Bool.and_eq_true] at hall
      exact hall.1
    refine ⟨c, t ++ '.' :: frac, rfl, ?_, ?_, ?_, ?_⟩
    all_goals
      rintro rfl
      revert hc
      decide

theorem begins_repr (printable : Char → Bool) (s : Text) : Begins (PyLiteral.repr printable s) := by
  refine ⟨quote s, _, rfl, ?_⟩
  rcases quote_or s with hq | hq <;> rw [hq] <;> decide

theorem begins_reprBytes (b : Bytes) : Begins (reprBytes b) := ⟨'b', _, rfl, by decide⟩

theorem begins_primary (printable : Char → Bool) : (p : Primary) → Begins (p.text printable)
  | .name n => begins_name n
  | .str s => begins_repr printable s
  | .bytes b => begins_reprBytes b
  | .num x => begins_num x
  | .attr p _ => (begins_primary printable p).append _
  | .item p _ => (begins_primary printable p).append _
  | .call p _ => (begins_primary printable p).append _

theorem begins_toDigits (n : Nat) : ∃ c t, Nat.toDigits 10 n = c :: t ∧ c.isDigit = true := by
  obtain ⟨c, t, hc⟩ := List.exists_cons_of_ne_nil (Nat.toDigits_ne_nil (n := n) (b := 10))
  refine ⟨c, t, hc, Nat.isDigit_of_mem_toDigits (b := 10) (n := n) (by decide) (by decide) ?_⟩
  rw [hc]
  exact List.mem_cons_self

theorem begins_expr (printable : Char → Bool) (e : Expr) :
    ∃ c t, e.text printable = c :: t ∧ c ≠ ' ' ∧ c ≠ ')' ∧ c ≠ '=' := by
  cases e with
  | primary p =>
    obtain ⟨c, t, hc, hspace, hparen, hequal, -⟩ := begins_primary printable p
    exact ⟨c, t, hc, hspace, hparen, hequal⟩
  | int n =>
    obtain ⟨c, t, hc, hdigit⟩ := begins_toDigits n
    refine ⟨c, t, hc, ?_, ?_, ?_⟩
    all_goals
      rintro rfl
      revert hdigit
      decide
  | neg e => exact ⟨'-', e.text printable, rfl, by decide⟩

/-! ### No argument is taken for one with a keyword -/

theorem name?_eq_none (h : isName (s.takeWhile isNameChar) = false) : name? s = none := by
  simp [name?, h]

theorem keyword?_of_name (n : Name) (h : ∀ c t, rest = c :: t → isNameChar c = false)
    (heq : ∀ t, skip rest ≠ '=' :: t) :
    keyword? (n.text ++ rest) = none := by
  rw [keyword?, name?_text n h]
  dsimp only
  split
  · next hskip => exact absurd hskip (heq _)
  · rfl

theorem skip_ne {d : Char} (hspace : c ≠ ' ') (hd : c ≠ d) : ∀ t, skip (c :: s) ≠ d :: t := by
  intro t ht
  rw [skip_cons hspace] at ht
  exact hd (List.cons.inj ht).1

theorem keyword?_repr (printable : Char → Bool) (s : Text) :
    keyword? (PyLiteral.repr printable s ++ t) = none := by
  have hname : name? (PyLiteral.repr printable s ++ t) = none := by
    apply name?_eq_none
    rw [PyLiteral.repr, List.cons_append]
    rcases quote_or s with hq | hq <;> rw [hq] <;> rfl
  rw [keyword?, hname]

/-- The name in front of a literal of bytes. -/
def bytesPrefix : Name := ⟨['b'], by decide⟩

theorem keyword?_reprBytes (b : Bytes) : keyword? (reprBytes b ++ t) = none := by
  obtain ⟨u, hu⟩ : ∃ u, reprBytes b ++ t = bytesPrefix.text ++ quote (latin1 b) :: u :=
    ⟨_, by rw [reprBytes, PyLiteral.repr]; rfl⟩
  rw [hu]
  have hq : isNameChar (quote (latin1 b)) = false ∧ quote (latin1 b) ≠ ' ' ∧
      quote (latin1 b) ≠ '=' := by
    rcases quote_or (latin1 b) with hq | hq <;> rw [hq] <;> decide
  apply keyword?_of_name
  · rintro _ _ ⟨⟩
    exact hq.1
  · exact skip_ne hq.2.1 hq.2.2

theorem keyword?_digit (hc : c.isDigit = true) : keyword? (c :: t) = none := by
  have hchar : isNameChar c = true := by simp [isNameChar, Char.isAlphanum, hc]
  have hname : name? (c :: t) = none := name?_eq_none (by simp [isName, hchar, hc])
  rw [keyword?, hname]

theorem keyword?_num (x : Number) : keyword? (x.text ++ t) = none := by
  have hwhole := (Bool.and_eq_true_iff.mp x.ok).1
  obtain ⟨whole, frac, _⟩ := x
  cases whole with
  | nil => cases hwhole
  | cons c u =>
    have hall := all_of_isDigits hwhole
    simp only [List.all_cons, Bool.and_eq_true] at hall
    exact keyword?_digit hall.1

theorem keyword?_primary (printable : Char → Bool) : (p : Primary) → (rest : Text) → Stops rest →
    (∀ t, skip rest ≠ '=' :: t) → keyword? (p.text printable ++ rest) = none
  | .name n, _, h, heq => keyword?_of_name n h.name heq
  | .str s, _, _, _ => keyword?_repr printable s
  | .bytes b, _, _, _ => keyword?_reprBytes b
  | .num x, _, _, _ => keyword?_num x
  | .attr p n, rest, _, _ => by
    rw [Primary.text, List.append_assoc]
    exact keyword?_primary printable p _ (stops_cons (by decide) (by decide))
      (skip_ne (by decide) (by decide))
  | .item p key, rest, _, _ => by
    rw [Primary.text, List.append_assoc]
    exact keyword?_primary printable p _ (stops_cons (by decide) (by decide))
      (skip_ne (by decide) (by decide))
  | .call p args, rest, _, _ => by
    rw [Primary.text, List.append_assoc]
    exact keyword?_primary printable p _ (stops_cons (by decide) (by decide))
      (skip_ne (by decide) (by decide))

theorem keyword?_expr (printable : Char → Bool) (e : Expr) (h : Stops rest)
    (heq : ∀ t, skip rest ≠ '=' :: t) : keyword? (e.text printable ++ rest) = none := by
  cases e with
  | primary p => exact keyword?_primary printable p rest h heq
  | int n =>
    obtain ⟨c, t, hc, hdigit⟩ := begins_toDigits n
    rw [Expr.text, hc]
    exact keyword?_digit hdigit
  | neg e =>
    have hname : name? ((Expr.neg e).text printable ++ rest) = none := name?_eq_none rfl
    rw [keyword?, hname]

end

/-! ## Reading a text back -/

/-- How many attributes, items and calls stand behind the atom. -/
def Primary.depth : Primary → Nat
  | .name _ | .str _ | .bytes _ | .num _ => 0
  | .attr p _ | .item p _ | .call p _ => p.depth + 1

section
variable (printable : Char → Bool)

/-- The parser reads the primary and goes on behind it. -/
def Primary.Reads (p : Primary) : Prop :=
  p.WF → ∀ (fuel : Nat) (rest : Text), (p.text printable).length ≤ fuel + p.depth → Stops rest →
    expr? (fuel + p.depth + 1) (p.text printable ++ rest) =
      (trailers? fuel p rest).map (Prod.map .primary id)

def Expr.Reads (e : Expr) : Prop :=
  e.WF → ∀ (fuel : Nat) (rest : Text), (e.text printable).length < fuel → Closes rest →
    expr? fuel (e.text printable ++ rest) = some (e, rest)

def Args.Reads (a : Args) : Prop :=
  ∀ {seen : List Name}, a.WF seen → ∀ (fuel : Nat) (rest : Text),
    (a.text printable true).length + 2 ≤ fuel →
      args? fuel seen (a.text printable true ++ ')' :: rest) = some (a, rest)

end

section
variable {printable : Char → Bool} {rest s t : Text} {c : Char}

theorem depth_lt (printable : Char → Bool) : (p : Primary) → p.depth < (p.text printable).length
  | .name n => by
    obtain ⟨c, t, hc, -⟩ := begins_primary printable (.name n)
    simp [hc, Primary.depth]
  | .str s => by
    obtain ⟨c, t, hc, -⟩ := begins_primary printable (.str s)
    simp [hc, Primary.depth]
  | .bytes b => by
    obtain ⟨c, t, hc, -⟩ := begins_primary printable (.bytes b)
    simp [hc, Primary.depth]
  | .num x => by
    obtain ⟨c, t, hc, -⟩ := begins_primary printable (.num x)
    simp [hc, Primary.depth]
  | .attr p n => by
    have ih := depth_lt printable p
    simp only [Primary.depth, Primary.text, List.length_append, List.length_cons]
    omega
  | .item p key => by
    have ih := depth_lt printable p
    simp only [Primary.depth, Primary.text, List.length_append, List.length_cons]
    omega
  | .call p args => by
    have ih := depth_lt printable p
    simp only [Primary.depth, Primary.text, List.length_append, List.length_cons]
    omega

/-- Behind an atom come its attributes, items and calls. -/
theorem expr?_atom {p : Primary} {fuel : Nat} (hs : Begins s) (hint : int? s = none)
    (hatom : atom? s = some (p, rest)) :
    expr? (fuel + 1) s = (trailers? fuel p rest).map (Prod.map .primary id) := by
  obtain ⟨c, t, rfl, hspace, -, -, hminus⟩ := hs
  rw [expr?, skip_cons hspace]
  split
  · next h => exact absurd (List.cons.inj h).1 hminus
  · rw [hint, hatom]

theorem int?_name (n : Name) (rest : Text) : int? (n.text ++ rest) = none := by
  have hok := n.ok
  obtain ⟨text, hn⟩ := n
  cases text with
  | nil => cases hok
  | cons c t =>
    simp only [isName, List.all_cons, List.head?_cons, Option.any_some, Bool.and_eq_true,
      Bool.not_eq_true'] at hok
    exact int?_of_not_isDigit hok.1.2

theorem int?_str (printable : Char → Bool) (s rest : Text) :
    int? (PyLiteral.repr printable s ++ rest) = none := by
  rw [PyLiteral.repr, List.cons_append]
  apply int?_of_not_isDigit
  rcases quote_or s with hq | hq <;> rw [hq] <;> decide

theorem int?_bytes (b : Bytes) (rest : Text) : int? (reprBytes b ++ rest) = none := by
  rw [reprBytes, List.cons_append]
  exact int?_of_not_isDigit (by decide)

theorem atom?_name (n : Name) (h : Stops rest) :
    atom? (n.text ++ rest) = some (.name n, rest) := by
  have hname := name?_text n h.name
  have hok := n.ok
  obtain ⟨text, hn⟩ := n
  cases text with
  | nil => cases hok
  | cons c t =>
    simp only [isName, List.all_cons, List.head?_cons, Option.any_some, Bool.and_eq_true] at hok
    obtain ⟨⟨⟨hc, ht⟩, hdigit⟩, -⟩ := hok
    have hquote : ¬ (c = '\'' ∨ c = '"') := by
      rintro (rfl | rfl) <;> revert hc <;> decide
    -- No quote follows the name.
    have hprefix : ¬ (c = 'b' ∧ (t ++ rest).head?.any (fun q => q = '\'' ∨ q = '"') = true) := by
      rintro ⟨-, hany⟩
      obtain ⟨q, hhead, hq⟩ := (Option.any_eq_true _ _).mp hany
      have hq' : q = '\'' ∨ q = '"' := of_decide_eq_true hq
      cases t with
      | nil =>
        obtain ⟨u, hu⟩ := List.head?_eq_some_iff.mp hhead
        obtain ⟨-, hone, htwo⟩ := h q u hu
        exact hq'.elim hone htwo
      | cons d t =>
        obtain rfl : d = q := by simpa using hhead
        simp only [List.all_cons, Bool.and_eq_true] at ht
        rcases hq' with rfl | rfl <;> exact absurd ht.1 (by decide)
    rw [List.cons_append] at hname ⊢
    rw [atom?, if_neg hquote, if_neg (by simpa using hdigit), if_neg hprefix, hname]
    rfl

theorem atom?_str (s : Text) (h : Stops rest) :
    atom? (PyLiteral.repr printable s ++ rest) = some (.str s, rest) := by
  have hread := str?_repr printable s h.ends
  rw [PyLiteral.repr, List.cons_append] at hread ⊢
  rw [atom?, if_pos (quote_or s), hread]
  rfl

theorem atom?_bytes (b : Bytes) (h : Stops rest) :
    atom? (reprBytes b ++ rest) = some (.bytes b, rest) := by
  have hread := bytes?_reprBytes b h.ends
  have hq := quote_or (latin1 b)
  rw [reprBytes, PyLiteral.repr, List.cons_append, List.cons_append] at hread ⊢
  rw [atom?, if_neg (by decide), if_neg (by decide), if_pos ⟨rfl, by simpa using hq⟩, hread]
  rfl

theorem atom?_num (x : Number) (h : Stops rest) :
    atom? (x.text ++ rest) = some (.num x, rest) := by
  have hread := number?_text x h
  have hwhole := (Bool.and_eq_true_iff.mp x.ok).1
  obtain ⟨whole, frac, hx⟩ := x
  cases whole with
  | nil => cases hwhole
  | cons c t =>
    have hc : c.isDigit = true := by
      have hall := all_of_isDigits hwhole
      simp only [List.all_cons, Bool.and_eq_true] at hall
      exact hall.1
    have hquote : ¬ (c = '\'' ∨ c = '"') := by
      rintro (rfl | rfl) <;> revert hc <;> decide
    rw [Number.text, List.cons_append, List.cons_append] at hread ⊢
    rw [atom?, if_neg hquote, if_pos hc, hread]
    rfl

theorem reads_attr {p : Primary} (hp : p.Reads printable) (n : Name) :
    (Primary.attr p n).Reads printable := by
  intro hwf fuel rest hfuel hrest
  have hlen : (p.text printable).length ≤ fuel + 1 + p.depth := by
    simp only [Primary.text, List.length_append, List.length_cons, Primary.depth] at hfuel
    omega
  have hdot : Stops ('.' :: (n.text ++ rest)) := stops_cons (by decide) (by decide)
  have hn : skip (n.text ++ rest) = n.text ++ rest := by
    obtain ⟨c, t, hc, hspace, -⟩ := begins_name n
    rw [hc, List.cons_append, skip_cons hspace]
  have htrailers : trailers? (fuel + 1) p ('.' :: (n.text ++ rest)) =
      trailers? fuel (.attr p n) rest := by
    rw [trailers?, skip_cons (by decide)]
    simp only [hn, name?_text n hrest.name]
  have hread := hp hwf (fuel + 1) _ hlen hdot
  rw [htrailers] at hread
  rw [Primary.text, Primary.depth, List.append_assoc, List.cons_append, ← hread]
  congr 1
  omega

theorem reads_item {p : Primary} (hp : p.Reads printable) {key : Expr}
    (hkey : key.Reads printable) :
    (Primary.item p key).Reads printable := by
  intro hwf fuel rest hfuel hrest
  have hdepth := depth_lt printable p
  simp only [Primary.text, List.length_append, List.length_cons, List.length_nil,
    Primary.depth] at hfuel
  have hbracket : Stops ('[' :: (key.text printable ++ ']' :: rest)) :=
    stops_cons (by decide) (by decide)
  have hcloses : Closes (']' :: rest) :=
    closes_cons (by decide) (by decide) (by decide) (by decide)
  have htrailers : trailers? (fuel + 1) p ('[' :: (key.text printable ++ ']' :: rest)) =
      trailers? fuel (.item p key) rest := by
    rw [trailers?, skip_cons (by decide)]
    simp only [hkey hwf.2 fuel _ (by omega) hcloses, skip_cons (c := ']') (by decide)]
  have hread := hp hwf.1 (fuel + 1) _ (by omega) hbracket
  rw [htrailers] at hread
  rw [Primary.text, Primary.depth, List.append_assoc, List.cons_append, List.append_assoc,
    List.singleton_append, ← hread]
  congr 1
  omega

theorem reads_call {p : Primary} (hp : p.Reads printable) {args : Args}
    (hargs : args.Reads printable) :
    (Primary.call p args).Reads printable := by
  intro hwf fuel rest hfuel hrest
  have hdepth := depth_lt printable p
  simp only [Primary.text, List.length_append, List.length_cons, List.length_nil,
    Primary.depth] at hfuel
  have hparen : Stops ('(' :: (args.text printable true ++ ')' :: rest)) :=
    stops_cons (by decide) (by decide)
  have htrailers : trailers? (fuel + 1) p ('(' :: (args.text printable true ++ ')' :: rest)) =
      trailers? fuel (.call p args) rest := by
    rw [trailers?, skip_cons (by decide)]
    simp only [hargs hwf.2 fuel rest (by omega)]
  have hread := hp hwf.1 (fuel + 1) _ (by omega) hparen
  rw [htrailers] at hread
  rw [Primary.text, Primary.depth, List.append_assoc, List.cons_append, List.append_assoc,
    List.singleton_append, ← hread]
  congr 1
  omega

theorem reads_atom {p : Primary} (hdepth : p.depth = 0)
    (hint : ∀ rest, int? (p.text printable ++ rest) = none)
    (hatom : ∀ {rest}, Stops rest → atom? (p.text printable ++ rest) = some (p, rest)) :
    p.Reads printable := by
  intro _ fuel rest _ hrest
  rw [hdepth]
  exact expr?_atom ((begins_primary printable p).append rest) (hint rest) (hatom hrest)

theorem trailers?_closes {p : Primary} {fuel : Nat} (h : Closes rest) (hfuel : 0 < fuel) :
    trailers? fuel p rest = some (p, rest) := by
  obtain ⟨fuel, rfl⟩ := Nat.exists_eq_add_of_le' hfuel
  rw [trailers?]
  split
  · next h' => exact absurd rfl (h.trailer _ _ h').1
  · next h' => exact absurd rfl (h.trailer _ _ h').2.1
  · next h' => exact absurd rfl (h.trailer _ _ h').2.2
  · rfl

theorem reads_primary {p : Primary} (hp : p.Reads printable) :
    (Expr.primary p).Reads printable := by
  intro hwf fuel rest hfuel hrest
  have hdepth := depth_lt printable p
  rw [Expr.text] at hfuel ⊢
  obtain ⟨f, rfl⟩ : ∃ f, fuel = f + p.depth + 1 := ⟨fuel - p.depth - 1, by omega⟩
  rw [hp hwf f rest (by omega) hrest.stops, trailers?_closes hrest (by omega)]
  rfl

theorem reads_int (n : Nat) : (Expr.int n).Reads printable := by
  intro _ fuel rest hfuel hrest
  obtain ⟨fuel, rfl⟩ := Nat.exists_eq_add_of_le' (Nat.zero_lt_of_lt hfuel)
  have hdot : rest.head? ≠ some '.' := by
    intro hhead
    obtain ⟨t, rfl⟩ := List.head?_eq_some_iff.mp hhead
    exact (hrest.trailer '.' t (skip_cons (by decide))).1 rfl
  have hread := int?_text n hrest.stops hdot
  obtain ⟨c, t, hc, hdigit⟩ := begins_toDigits n
  have hne : c ≠ ' ' ∧ c ≠ '-' := by
    constructor <;> rintro rfl <;> revert hdigit <;> decide
  rw [hc, List.cons_append] at hread
  rw [Expr.text, hc, List.cons_append, expr?, skip_cons hne.1]
  split
  · next h => exact absurd (List.cons.inj h).1 hne.2
  · rw [hread]

theorem reads_neg {e : Expr} (he : e.Reads printable) : (Expr.neg e).Reads printable := by
  intro hwf fuel rest hfuel hrest
  rw [Expr.text, List.length_cons] at hfuel
  obtain ⟨fuel, rfl⟩ := Nat.exists_eq_add_of_le' (Nat.zero_lt_of_lt hfuel)
  rw [Expr.text, List.cons_append, expr?, skip_cons (by decide)]
  simp only [he hwf fuel rest (by omega) hrest]
  rfl

theorem closes_paren (s : Text) : Closes (')' :: s) :=
  closes_cons (by decide) (by decide) (by decide) (by decide)

theorem closes_more (printable : Char → Bool) (a : Args) (rest : Text) :
    Closes (a.text printable false ++ ')' :: rest) ∧
      ∀ t, skip (a.text printable false ++ ')' :: rest) ≠ '=' :: t := by
  cases a with
  | nil => exact ⟨closes_paren rest, skip_ne (by decide) (by decide)⟩
  | pos e a | kw n e a =>
    exact ⟨closes_cons (by decide) (by decide) (by decide) (by decide),
      skip_ne (by decide) (by decide)⟩

/-- The other arguments stand behind a comma. -/
theorem moreArgs?_text {a : Args} (ha : a.Reads printable) {seen : List Name} (hwf : a.WF seen)
    (fuel : Nat) (rest : Text) (hfuel : (a.text printable false).length + 1 ≤ fuel) :
    moreArgs? fuel seen (a.text printable false ++ ')' :: rest) = some (a, rest) := by
  obtain ⟨fuel, rfl⟩ := Nat.exists_eq_add_of_le' (Nat.zero_lt_of_lt hfuel)
  have hspace : ∀ s, args? fuel seen (' ' :: s) = args? fuel seen s := by
    intro s
    cases fuel with
    | zero => rw [args?, args?]
    | succ fuel => rw [args?, args?, skip_space]
  cases a with
  | nil =>
    rw [Args.text, List.nil_append, moreArgs?, skip_cons (by decide)]
    rfl
  | pos e a | kw n e a =>
    have hargs := ha hwf fuel rest (by
      simp only [Args.text, separator, Bool.false_eq_true, if_false, if_true, List.length_append,
        List.length_cons, List.length_nil] at hfuel ⊢
      omega)
    simp only [Args.text, separator, Bool.false_eq_true, if_false, if_true, List.cons_append,
      List.nil_append] at hargs ⊢
    rw [moreArgs?, skip_cons (by decide)]
    exact (hspace _).trans hargs

theorem reads_nil : Args.nil.Reads printable := by
  intro seen _ fuel rest hfuel
  obtain ⟨fuel, rfl⟩ := Nat.exists_eq_add_of_le' (Nat.zero_lt_of_lt hfuel)
  rw [Args.text, List.nil_append, args?, skip_cons (by decide)]
  rfl

theorem reads_pos {e : Expr} (he : e.Reads printable) {a : Args} (ha : a.Reads printable) :
    (Args.pos e a).Reads printable := by
  intro seen hwf fuel rest hfuel
  obtain ⟨hseen, hwfe, hwfa⟩ := hwf
  obtain ⟨hcloses, hequal⟩ := closes_more printable a rest
  obtain ⟨c, t, hc, hspace, hparen, -⟩ := begins_expr printable e
  have hkeyword := keyword?_expr printable e hcloses.stops hequal
  have hpos : 0 < (e.text printable).length := by simp [hc]
  simp only [Args.text, separator, if_true, List.nil_append, List.length_append] at hfuel ⊢
  obtain ⟨fuel, rfl⟩ := Nat.exists_eq_add_of_le' (Nat.zero_lt_of_lt hfuel)
  have hread := he hwfe fuel _ (by omega) hcloses
  rw [List.append_assoc]
  rw [hc, List.cons_append] at hread hkeyword ⊢
  rw [args?, skip_cons hspace]
  split
  · next h => exact absurd (List.cons.inj h).1 hparen
  · rw [hkeyword]
    simp only [if_pos hseen, hread, moreArgs?_text ha hwfa fuel rest (by omega)]
    rfl

theorem reads_kw (n : Name) {e : Expr} (he : e.Reads printable) {a : Args}
    (ha : a.Reads printable) :
    (Args.kw n e a).Reads printable := by
  intro seen hwf fuel rest hfuel
  obtain ⟨hseen, hwfe, hwfa⟩ := hwf
  obtain ⟨hcloses, -⟩ := closes_more printable a rest
  obtain ⟨c, t, hc, -, -, hequal⟩ := begins_expr printable e
  obtain ⟨d, u, hd, hspace, hparen, -⟩ := begins_name n
  have hpos : 0 < (e.text printable).length := by simp [hc]
  simp only [Args.text, separator, if_true, List.nil_append, List.length_append,
    List.length_cons] at hfuel ⊢
  obtain ⟨fuel, rfl⟩ := Nat.exists_eq_add_of_le' (Nat.zero_lt_of_lt hfuel)
  have hread := he hwfe fuel _ (by omega) hcloses
  have hkeyword : keyword? (n.text ++ '=' :: (e.text printable ++
      (a.text printable false ++ ')' :: rest))) =
        some (n, e.text printable ++ (a.text printable false ++ ')' :: rest)) := by
    have hname : name? (n.text ++ '=' :: (e.text printable ++
        (a.text printable false ++ ')' :: rest))) = some (n, _) :=
      name?_text n (stops_cons (by decide) (by decide)).name
    rw [keyword?, hname]
    simp only [skip_cons (c := '=') (by decide), hc, List.cons_append, List.head?_cons,
      Option.some.injEq, if_neg hequal]
  rw [List.append_assoc, List.cons_append, List.append_assoc]
  rw [hd, List.cons_append] at hkeyword ⊢
  rw [args?, skip_cons hspace]
  split
  · next h => exact absurd (List.cons.inj h).1 hparen
  · rw [hkeyword]
    simp only [if_neg hseen, hread, moreArgs?_text ha hwfa fuel rest (by omega)]
    rfl

mutual

theorem Primary.reads (printable : Char → Bool) : (p : Primary) → p.Reads printable
  | .name n => reads_atom rfl (int?_name n) (atom?_name n)
  | .str s => reads_atom rfl (int?_str printable s) (atom?_str s)
  | .bytes b => reads_atom rfl (int?_bytes b) (atom?_bytes b)
  | .num x => reads_atom rfl (int?_num x) (atom?_num x)
  | .attr p n => reads_attr (Primary.reads printable p) n
  | .item p key => reads_item (Primary.reads printable p) (Expr.reads printable key)
  | .call p args => reads_call (Primary.reads printable p) (Args.reads printable args)

theorem Expr.reads (printable : Char → Bool) : (e : Expr) → e.Reads printable
  | .primary p => reads_primary (Primary.reads printable p)
  | .int n => reads_int n
  | .neg e => reads_neg (Expr.reads printable e)

theorem Args.reads (printable : Char → Bool) : (a : Args) → a.Reads printable
  | .nil => reads_nil
  | .pos e a => reads_pos (Expr.reads printable e) (Args.reads printable a)
  | .kw n e a => reads_kw n (Expr.reads printable e) (Args.reads printable a)

end

end

/-! ## Compiling -/

section
variable (printable : Char → Bool)

theorem compileEval_text {e : Expr} (he : e.WF) : compileEval (e.text printable) = some e := by
  have hread := e.reads printable he _ _ (Nat.lt_succ_self _) closes_nil
  rw [List.append_nil] at hread
  rw [compileEval, hread]
  rfl

def assignText (target : Primary) (e : Expr) : Text :=
  target.text printable ++ [' ', '=', ' '] ++ e.text printable

theorem expr?_space (fuel : Nat) (s : Text) : expr? fuel (' ' :: s) = expr? fuel s := by
  cases fuel with
  | zero => rw [expr?, expr?]
  | succ fuel => rw [expr?, expr?, skip_space]

theorem compileSingle_assign {target : Primary} {e : Expr} (htarget : target.IsTarget)
    (hwf : target.WF) (he : e.WF) :
    compileEval (assignText printable target e) = none ∧
      compileSingle (assignText printable target e) = some (.assign target e) := by
  have hrest : skip ([' ', '=', ' '] ++ e.text printable) = '=' :: ' ' :: e.text printable := rfl
  have hcloses : Closes ([' ', '=', ' '] ++ e.text printable) :=
    ⟨stops_cons (by decide) (by decide), by
      rw [hrest]
      rintro _ _ ⟨⟩
      decide⟩
  have hread : expr? ((assignText printable target e).length + 1) (assignText printable target e) =
      some (.primary target, [' ', '=', ' '] ++ e.text printable) := by
    rw [assignText, List.append_assoc]
    apply (Expr.primary target).reads printable hwf _ _ _ hcloses
    rw [Expr.text, List.length_append]
    omega
  have hspace : compileEval (' ' :: e.text printable) = some e := by
    have hread := e.reads printable he _ _ (Nat.lt_succ_of_lt (Nat.lt_succ_self _)) closes_nil
    rw [List.append_nil] at hread
    rw [compileEval, List.length_cons, expr?_space, hread]
    rfl
  have heval : compileEval (assignText printable target e) = none := by
    rw [compileEval, hread]
    rfl
  refine ⟨heval, ?_⟩
  have hhead : (assignText printable target e).head? ≠ some ' ' := by
    obtain ⟨c, t, hc, hspace, -⟩ := begins_primary printable target
    rw [assignText, hc]
    simpa using hspace
  rw [compileSingle, heval]
  dsimp only
  rw [if_neg hhead, hread]
  simp only [hrest, if_pos htarget, hspace]
  rfl

/-- Targets with commas between them. -/
def targetsText : List Primary → Text
  | [] => []
  | p :: ps => p.text printable ++ if ps = [] then [] else ',' :: ' ' :: targetsText ps

def delText (targets : List Primary) : Text :=
  'd' :: 'e' :: 'l' :: ' ' :: targetsText printable targets

theorem length_le_targetsText (targets : List Primary) :
    targets.length ≤ (targetsText printable targets).length := by
  induction targets with
  | nil => exact Nat.zero_le _
  | cons p ps ih =>
    have hdepth := depth_lt printable p
    rw [targetsText, List.length_append, List.length_cons]
    split
    · next h =>
      subst h
      simp only [List.length_nil]
      omega
    · simp only [List.length_cons]
      omega

theorem skip_targetsText {targets : List Primary} (hne : targets ≠ []) :
    skip (targetsText printable targets) = targetsText printable targets := by
  cases targets with
  | nil => exact absurd rfl hne
  | cons p ps =>
    obtain ⟨c, t, hc, hspace, -⟩ := begins_primary printable p
    rw [targetsText, hc, List.cons_append, skip_cons hspace]

theorem targets?_text {targets : List Primary} (hne : targets ≠ [])
    (htargets : ∀ p ∈ targets, p.IsTarget ∧ p.WF) (fuel : Nat) (hfuel : targets.length < fuel) :
    targets? fuel (targetsText printable targets) = some targets := by
  induction targets generalizing fuel with
  | nil => exact absurd rfl hne
  | cons p ps ih =>
    obtain ⟨fuel, rfl⟩ := Nat.exists_eq_add_of_le' (Nat.zero_lt_of_lt hfuel)
    obtain ⟨htarget, hwf⟩ := htargets p List.mem_cons_self
    have hread : ∀ rest, Closes rest → expr? ((p.text printable ++ rest).length + 1)
        (p.text printable ++ rest) = some (.primary p, rest) := by
      intro rest hrest
      apply (Expr.primary p).reads printable hwf _ _ _ hrest
      rw [Expr.text, List.length_append]
      omega
    rw [targetsText, targets?]
    split_ifs with hps
    · subst hps
      rw [hread [] closes_nil]
      dsimp only
      rw [if_pos htarget, skip_nil]
    · have hcomma : Closes (',' :: ' ' :: targetsText printable ps) :=
        closes_cons (by decide) (by decide) (by decide) (by decide)
      have hmore := ih hps (fun q hq => htargets q (List.mem_cons_of_mem _ hq)) fuel
        (by simpa using hfuel)
      rw [hread _ hcomma]
      simp only [if_pos htarget, skip_cons (c := ',') (by decide), skip_space,
        skip_targetsText printable hps, hmore]
      rfl

/-- `del` is no name. -/
theorem expr?_del (fuel : Nat) (t : Text) : expr? fuel ('d' :: 'e' :: 'l' :: ' ' :: t) = none := by
  cases fuel with
  | zero => rw [expr?]
  | succ fuel =>
    have hint : int? ('d' :: 'e' :: 'l' :: ' ' :: t) = none := int?_of_not_isDigit (by decide)
    rw [expr?, skip_cons (by decide)]
    split
    · next h => exact absurd (List.cons.inj h).1 (by decide)
    · rw [hint]
      rfl

theorem compileSingle_del {targets : List Primary} (hne : targets ≠ [])
    (htargets : ∀ p ∈ targets, p.IsTarget ∧ p.WF) :
    compileEval (delText printable targets) = none ∧
      compileSingle (delText printable targets) = some (.del targets) := by
  have heval : compileEval (delText printable targets) = none := by
    rw [compileEval, delText, expr?_del]
  refine ⟨heval, ?_⟩
  rw [compileSingle, heval]
  dsimp only
  rw [delText, if_neg (by simp), expr?_del]
  simp only [del?, skip_targetsText printable hne, targets?_text printable hne htargets _
    (Nat.lt_succ_of_le (length_le_targetsText printable targets))]
  rfl

end

/-! ## Evaluation -/

/-- What Python does with its objects. -/
structure Objects (ε σ ν : Type) where
  name : Name → Prog ε σ ν
  str : Text → ν
  bytes : Bytes → ν
  num : Number → ν
  int : Nat → ν
  neg : ν → Prog ε σ ν
  attr : ν → Name → Prog ε σ ν
  item : ν → ν → Prog ε σ ν
  call : ν → List ν → List (Name × ν) → Prog ε σ ν
  setName : Name → ν → Prog ε σ Unit
  setAttr : ν → Name → ν → Prog ε σ Unit
  setItem : ν → ν → ν → Prog ε σ Unit
  delName : Name → Prog ε σ Unit
  delAttr : ν → Name → Prog ε σ Unit
  delItem : ν → ν → Prog ε σ Unit
  typeError : ε

variable {ε σ ν : Type}

mutual

def Primary.eval (py : Objects ε σ ν) : Primary → Prog ε σ ν
  | .name n => py.name n
  | .str s => pure (py.str s)
  | .bytes b => pure (py.bytes b)
  | .num x => pure (py.num x)
  | .attr p n => do
    let v ← p.eval py
    py.attr v n
  | .item p key => do
    let v ← p.eval py
    let k ← key.eval py
    py.item v k
  | .call p args => do
    let v ← p.eval py
    let a ← args.eval py
    py.call v a.1 a.2

def Expr.eval (py : Objects ε σ ν) : Expr → Prog ε σ ν
  | .primary p => p.eval py
  | .int n => pure (py.int n)
  | .neg e => do
    let v ← e.eval py
    py.neg v

/-- The arguments from left to right. -/
def Args.eval (py : Objects ε σ ν) : Args → Prog ε σ (List ν × List (Name × ν))
  | .nil => pure ([], [])
  | .pos e rest => do
    let v ← e.eval py
    let a ← rest.eval py
    pure (v :: a.1, a.2)
  | .kw n e rest => do
    let v ← e.eval py
    let a ← rest.eval py
    pure (a.1, (n, v) :: a.2)

end

/-- `p = v` -/
def Primary.assign (py : Objects ε σ ν) (v : ν) : Primary → Prog ε σ Unit
  | .name n => py.setName n v
  | .attr p n => do
    let w ← p.eval py
    py.setAttr w n v
  | .item p key => do
    let w ← p.eval py
    let k ← key.eval py
    py.setItem w k v
  | .str _ | .bytes _ | .num _ | .call .. => Prog.raise py.typeError

/-- `del p` -/
def Primary.delete (py : Objects ε σ ν) : Primary → Prog ε σ Unit
  | .name n => py.delName n
  | .attr p n => do
    let w ← p.eval py
    py.delAttr w n
  | .item p key => do
    let w ← p.eval py
    let k ← key.eval py
    py.delItem w k
  | .str _ | .bytes _ | .num _ | .call .. => Prog.raise py.typeError

def deleteAll (py : Objects ε σ ν) : List Primary → Prog ε σ Unit
  | [] => pure ()
  | p :: ps => do
    p.delete py
    deleteAll py ps

/-! ### What evaluation keeps -/

/-- No evaluation of an expression changes `I`, if no operation does. -/
structure Objects.Keeps (py : Objects ε σ ν) (I : σ → Prop) : Prop where
  name : ∀ n, Prog.Keeps I (py.name n)
  neg : ∀ v, Prog.Keeps I (py.neg v)
  attr : ∀ v n, Prog.Keeps I (py.attr v n)
  item : ∀ v k, Prog.Keeps I (py.item v k)
  call : ∀ v args kwargs, Prog.Keeps I (py.call v args kwargs)

mutual

theorem Primary.eval_keeps {py : Objects ε σ ν} {I : σ → Prop} (h : py.Keeps I) :
    (p : Primary) → Prog.Keeps I (p.eval py)
  | .name n => h.name n
  | .str _ | .bytes _ | .num _ => Prog.keeps_pure
  | .attr p n => (Primary.eval_keeps h p).bind fun v => h.attr v n
  | .item p key => (Primary.eval_keeps h p).bind fun v => (Expr.eval_keeps h key).bind (h.item v)
  | .call p args =>
    (Primary.eval_keeps h p).bind fun v => (Args.eval_keeps h args).bind fun a => h.call v a.1 a.2

theorem Expr.eval_keeps {py : Objects ε σ ν} {I : σ → Prop} (h : py.Keeps I) :
    (e : Expr) → Prog.Keeps I (e.eval py)
  | .primary p => Primary.eval_keeps h p
  | .int _ => Prog.keeps_pure
  | .neg e => (Expr.eval_keeps h e).bind h.neg

theorem Args.eval_keeps {py : Objects ε σ ν} {I : σ → Prop} (h : py.Keeps I) :
    (a : Args) → Prog.Keeps I (a.eval py)
  | .nil => Prog.keeps_pure
  | .pos e rest =>
    (Expr.eval_keeps h e).bind fun _ => (Args.eval_keeps h rest).bind fun _ => Prog.keeps_pure
  | .kw _ e rest =>
    (Expr.eval_keeps h e).bind fun _ => (Args.eval_keeps h rest).bind fun _ => Prog.keeps_pure

end

end InteractiveSessions.PyExpr
