import JsonExpr.Engine

/-!
Sessions: an engine in the hands of a host, with the expressions that it has compiled. An engine
and its expressions share one grammar as long as they can. What is registered later changes the
grammar in place if no expression holds it any more, and a copy of it otherwise.

What is shared stands at an address, together with the number of its holders (`Shared`). A holder
changes a value in place when nobody else holds it, and otherwise gets a changed copy at an address
of its own, so the others keep what they have.

The host refers to compiled expressions by number. A source that does not compile takes a number
too, with nothing behind it.
-/

namespace JsonExpr

/-! ## Sharing -/

/-- Values at addresses, with their numbers of holders. From `next` on the addresses are free. -/
structure Shared (α : Type) where
  contents : Nat → α
  holders : Nat → Nat
  next : Nat

namespace Shared

variable {α β : Type}

/-- A single value with a single holder, at the address 0. -/
def new (value : α) : Shared α :=
  ⟨fun _ => value, fun address => if address = 0 then 1 else 0, 1⟩

/-- The function with another value at one address. -/
def assign (f : Nat → β) (address : Nat) (value : β) : Nat → β :=
  fun other => if other = address then value else f other

/-- One holder more. -/
def hold (s : Shared α) (address : Nat) : Shared α :=
  { s with holders := assign s.holders address (s.holders address + 1) }

/-- One holder less. -/
def release (s : Shared α) (address : Nat) : Shared α :=
  { s with holders := assign s.holders address (s.holders address - 1) }

/-- Puts a value at a free address, with a single holder. -/
def allocate (s : Shared α) (value : α) : Shared α :=
  ⟨assign s.contents s.next value, assign s.holders s.next 1, s.next + 1⟩

/-- Changes a value for one of its holders, who finds it at the returned address. -/
def modify (s : Shared α) (address : Nat) (change : α → α) : Shared α × Nat :=
  let value := change (s.contents address)
  if s.holders address = 1 then ({ s with contents := assign s.contents address value }, address)
  else ((s.release address).allocate value, s.next)

end Shared

/-! ## Sessions -/

/-- An expression that the host holds, with the address of its grammar. -/
structure Held where
  source : String
  tree : Tree
  grammar : Nat

/-- An engine whose grammar is shared, and the expressions that are held. -/
structure Session where
  grammars : Shared Grammar
  grammar : Nat
  options : ParseOptions
  cache : Option (Registry Tree)
  nextId : Nat
  held : List (Option Held)

namespace Session

/-- What a host can do. A registration or a removal is a change of the grammar. -/
inductive Step
  | enableCache
  | setOptions (options : ParseOptions)
  | change (change : Grammar → Grammar)
  | compile (source : String)
  | evaluate (source : String) (context : Value)
  /-- Evaluates a compiled expression. -/
  | run (number : Nat) (context : Value)
  /-- Holds a compiled expression once more. -/
  | copy (number : Nat)
  /-- Gives up a compiled expression. -/
  | drop (number : Nat)

/-- What a host gets for it. -/
inductive Answer
  | done
  | compiled (number : Nat) (tree : Expr)
  | copied (number : Nat)
  | ran (run : Run Value)
  | failed (error : Error)
  | noSuchExpression

/-- A session with the standard grammar, without a cache and without expressions. -/
def new (options : ParseOptions) : Session :=
  ⟨.new .standard, 0, options, none, 0, []⟩

/-- The engine of the session, with its present grammar. -/
def engine (s : Session) : Engine :=
  ⟨⟨s.grammars.contents s.grammar, s.options⟩, s.cache, s.nextId⟩

/-- The session with what the engine keeps after a compilation. -/
def keep (s : Session) (e : Engine) : Session :=
  { s with cache := e.cache, nextId := e.nextId }

/-- A held expression with its grammar. -/
def expression (s : Session) (held : Held) : Expression :=
  ⟨held.source, held.tree, s.grammars.contents held.grammar⟩

/-- What is held under a number. -/
def held? (s : Session) (number : Nat) : Option Held :=
  s.held[number]?.join

/-- The expression of that number. -/
def expression? (s : Session) (number : Nat) : Option Expression :=
  (s.held? number).map s.expression

/-- Holds one expression more, under the next number. -/
def add (s : Session) (held : Held) : Session :=
  { s with grammars := s.grammars.hold held.grammar, held := s.held ++ [some held] }

/-- Leaves the next number without an expression. -/
def skip (s : Session) : Session :=
  { s with held := s.held ++ [none] }

/-- What a step does and gives. -/
def step (s : Session) : Step → Session × Answer
  | .enableCache => ({ s with cache := s.engine.enableCache.cache }, .done)
  | .setOptions options =>
    ({ s with cache := (s.engine.setOptions options).cache, options := options }, .done)
  | .change change =>
    let changed := s.grammars.modify s.grammar change
    ({ s with
      cache := (s.engine.updateGrammar change).cache, grammars := changed.1, grammar := changed.2 },
      .done)
  | .compile source =>
    match s.engine.compile source with
    | (e, .ok expression) =>
      ((s.keep e).add ⟨source, expression.tree, s.grammar⟩,
        .compiled s.held.length expression.tree.expr)
    | (e, .error error) => ((s.keep e).skip, .failed error)
  | .evaluate source context =>
    match s.engine.evaluate source context with
    | (e, .ok run) => (s.keep e, .ran run)
    | (e, .error error) => (s.keep e, .failed error)
  | .run number context =>
    match s.expression? number with
    | some expression => (s, .ran (expression.evaluate context))
    | none => (s, .noSuchExpression)
  | .copy number =>
    match s.held? number with
    | some held => (s.add held, .copied s.held.length)
    | none => (s, .noSuchExpression)
  | .drop number =>
    match s.held? number with
    | some held =>
      ({ s with grammars := s.grammars.release held.grammar, held := s.held.set number none },
        .done)
    | none => (s, .noSuchExpression)

/-- The session after some steps. -/
def after (s : Session) (steps : List Step) : Session :=
  steps.foldl (fun s step => (s.step step).1) s

/-- The answers to some steps. -/
def answers (s : Session) : List Step → List Answer
  | [] => []
  | step :: rest => (s.step step).2 :: answers (s.step step).1 rest

end Session

end JsonExpr
