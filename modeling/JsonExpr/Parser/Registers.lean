import JsonExpr.Parser.Basic

/-!
The parser as a machine of registers. What a token does is looked up in the table of states, and all
else that a machine knows stands in registers, most of which are empty most of the time. While a
machine waits for a nested expression, another machine reads that one. It begins with the first
token there and ends with a token that it has no use for, if its owner has named that token as an
end.

A machine that needs what is in an empty register reports the end of the text, and a token that ends
a machine without an owner is reported as unexpected. `Parser` has neither case, since in each mode
it keeps what there is in that mode and nothing else.
-/

namespace JsonExpr

/-- What the next name is. -/
inductive Attachment
  /-- A name of the context. -/
  | plain
  /-- A property of the operand before the dot. -/
  | member
  /-- A name of the element of a filter. -/
  | relative
deriving DecidableEq, Repr, Inhabited

/-- The kind of a token that ends an expression, and the state of the owner behind it. -/
abbrev Stop := TokenKind × State

/-- What a machine keeps. -/
structure Registers where
  state : State
  /-- A token has been read. -/
  started : Bool
  spine : Spine
  /-- The operand for which the last operator waits. -/
  cursor : Option Expr
  /-- The test of a choice with its first branch. -/
  choice : Option (Expr × Option Expr)
  attachment : Attachment
  /-- The key of the entry whose value is read. -/
  key : Option String
  text : String
  /-- The tokens that end the expression. -/
  ends : List Stop
deriving Inhabited

namespace Registers

/-- The registers of a machine that has not yet taken a token. The text is that read by the
owners. -/
def fresh (text : String) (ends : List Stop) : Registers :=
  ⟨.operand, false, [], none, none, .plain, none, text, ends⟩

/-- What ends a nested expression. The second branch of a choice ends where the choice does. -/
def lent (r : Registers) : List Stop :=
  r.state.ends?.getD r.ends

/-! ## Operands -/

def place (r : Registers) (operand : Expr) : Registers :=
  { r with cursor := some operand }

def takeCursor (r : Registers) : Except ParseError (Expr × Registers) :=
  match r.cursor with
  | some operand => .ok (operand, { r with cursor := none })
  | none => .error (.unexpectedEnd r.text)

/-- Closes all operators around the operand. -/
def takeTree (r : Registers) : Except ParseError (Expr × Registers) := do
  let (operand, r) ← r.takeCursor
  .ok (r.spine.closeAll operand, { r with spine := [] })

/-! ## Tokens -/

def identifier (r : Registers) (name : String) : Except ParseError Registers :=
  match r.attachment with
  | .member => do
    let (subject, r) ← r.takeCursor
    .ok ({ r with attachment := .plain }.place (.member subject name false))
  | .relative => .ok ({ r with attachment := .plain }.place (.ident name true))
  | .plain => .ok (r.place (.ident name false))

def dot (r : Registers) : Registers :=
  { r with attachment := if r.cursor.isSome then .member else .relative }

def binary (d : Dialect) (r : Registers) (t : Token) : Except ParseError Registers :=
  match d.grammar.binary? t.text with
  | none => .error (.unknownOperator t.text r.text)
  | some op => do
    let (operand, r) ← r.takeCursor
    let (left, waiting) := r.spine.climb op.precedence operand
    .ok { r with spine := .binary t.text op.precedence left :: waiting }

def unary (d : Dialect) (r : Registers) (t : Token) : Except ParseError Registers :=
  match d.grammar.unary? t.text with
  | none => .error (.unknownOperator t.text r.text)
  | some _ => .ok { r with spine := .unary t.text :: r.spine }

def question (r : Registers) : Except ParseError Registers := do
  let (test, r) ← r.takeTree
  .ok { r with choice := some (test, none) }

def transform (r : Registers) (name : String) : Except ParseError Registers := do
  let (subject, r) ← r.takeCursor
  .ok (r.place (.call .transforms name [subject]))

/-- Adds a part to the dotted name of the transform. -/
def segment (r : Registers) (part : String) : Registers :=
  match r.cursor with
  | some (.call pool name args) => r.place (.call pool (name ++ "." ++ part) args)
  | _ => r

def call (d : Dialect) (r : Registers) : Except ParseError Registers := do
  let (callee, r) ← r.takeCursor
  match Level.calleeName? d.options callee with
  | some name => .ok (r.place (.call .functions name []))
  | none => .error (.invalidCall r.text)

/-- What a token does to the registers, apart from the state. -/
def act (d : Dialect) (r : Registers) (t : Token) : Except ParseError Registers :=
  match r.state, t.kind with
  | .operand, .literal => .ok (r.place (.literal t.value))
  | .operand, .openCurl => .ok (r.place (.object []))
  | .operand, .openBracket => .ok (r.place (.array []))
  | .operand, .identifier => r.identifier t.text
  | .property, .identifier => r.identifier t.text
  | .operand, .unaryOp => r.unary d t
  | _, .binaryOp => r.binary d t
  | _, .dot => .ok r.dot
  | .transform, .identifier => r.transform t.text
  | .segment, .identifier => .ok (r.segment t.text)
  | .named, .openParen => r.call d
  | .key, .identifier => .ok { r with key := some t.text }
  | .key, .literal =>
    match t.value with
    | .string key => .ok { r with key := some key }
    | _ => .error (Level.unexpected r.text t)
  | _, .question => r.question
  | _, _ => .ok r

/-- Takes a token that leads to the given state. A dot behind a transform may also lead on in its
name. -/
def handle (d : Dialect) (r : Registers) (t : Token) (next : State) :
    Except ParseError Registers :=
  if r.state = .piped ∧ t.kind = .dot ∧ d.options.namespacedTransforms = true then
    .ok { r with state := .segment }
  else (r.act d t).map fun r => { r with state := next }

/-- Takes a token where no nested machine reads. The stop is there if the token ends the
expression. -/
def take (d : Dialect) (r : Registers) (t : Token) :
    Except ParseError (Option Stop × Registers) :=
  match r.state.next? t.kind with
  | some next => (r.handle d t next).map fun r => (none, { r with started := true })
  | none =>
    match r.ends.find? fun stop => stop.1 == t.kind with
    | some stop =>
      if r.started && !r.state.isCompletable then .error (Level.unexpected r.text t)
      else .ok (some stop, r)
    | none => .error (Level.unexpected r.text t)

/-! ## Results of nested machines -/

/-- The result, which has to be there. The closer is the token behind it with its text; at the end
of the whole text there is none. -/
def require (r : Registers) (closer : Option (TokenKind × String)) (result : Option Expr) :
    Except ParseError Expr :=
  match result with
  | some tree => .ok tree
  | none =>
    let token := match closer with
      | some closer => closer.2
      | none => "end of input"
    .error (.emptySubExpression token r.text)

/-- A list may end here without an item. -/
def closesList (closer : Option (TokenKind × String)) : Bool :=
  match closer with
  | some closer => closer.1 == .closeParen || closer.1 == .closeBracket
  | none => false

/-- Takes the result of the nested machine. -/
def endSub (r : Registers) (result : Option Expr) (closer : Option (TokenKind × String)) :
    Except ParseError Registers :=
  match r.state with
  | .bracket => do
    let predicate ← r.require closer result
    let (subject, r) ← r.takeCursor
    .ok (r.place (.filter subject predicate predicate.hasRelative))
  | .group => do
    let tree ← r.require closer result
    .ok (r.place tree)
  | .argument =>
    match result, r.cursor with
    | some arg, some (.call pool name args) => .ok (r.place (.call pool name (args ++ [arg])))
    | none, some (.call pool _ args) =>
      let bare := if pool = .transforms then 1 else 0
      if closesList closer ∧ args.length = bare then .ok r
      else (r.require closer none).map fun _ => r
    | result, _ => (r.require closer result).map fun _ => r
  | .item =>
    match result, r.cursor with
    | some item, some (.array items) => .ok (r.place (.array (items ++ [item])))
    | none, some (.array items) =>
      if closesList closer ∧ items = [] then .ok r else (r.require closer none).map fun _ => r
    | result, _ => (r.require closer result).map fun _ => r
  | .entry => do
    let value ← r.require closer result
    let key := r.key.getD ""
    match r.cursor with
    | some (.object entries) =>
      .ok ({ r with key := none }.place (.object (entries ++ [(key, value)])))
    | _ => .ok { r with key := none }
  | .consequent => .ok { r with choice := r.choice.map fun choice => (choice.1, result) }
  | .alternate => do
    let alternate ← r.require closer result
    match r.choice with
    | some (test, consequent) =>
      .ok ({ r with choice := none }.place (Parser.choice test consequent alternate))
    | none => .error (.unexpectedEnd r.text)
  | _ => .ok r

/-- The tree at the end of the text. -/
def finish (r : Registers) : Except ParseError (Option Expr) × Registers :=
  match { r with state := .complete }.takeTree with
  | .ok (tree, r) => (.ok (some tree), r)
  | .error error => (.error error, { r with state := .complete })

end Registers

/-- A machine, with the machine that reads for it. -/
inductive Machine
  | leaf (registers : Registers)
  | nest (registers : Registers) (sub : Machine)
deriving Inhabited

namespace Machine

/-- A machine before its first token. -/
def start : Machine :=
  .leaf (.fresh "" [])

def registers : Machine → Registers
  | leaf r | nest r _ => r

/-- Completes a machine. If the nested machine fails, it is lost. -/
def complete : Machine → Except ParseError (Option Expr) × Machine
  | leaf r =>
    if r.started then
      if r.state.isCompletable && !r.state.delegates then r.finish.map id leaf
      else (.error (.unexpectedEnd r.text), leaf r)
    else (.ok none, leaf { r with state := .complete })
  | nest r sub =>
    if r.started then
      if r.state.isCompletable then
        if r.state.delegates then
          match sub.complete.1 with
          | .error error => (.error error, leaf r)
          | .ok result =>
            match r.endSub result none with
            | .error error => (.error error, leaf r)
            | .ok r => r.finish.map id leaf
        else r.finish.map id fun r => nest r sub
      else (.error (.unexpectedEnd r.text), nest r sub)
    else (.ok none, nest { r with state := .complete } sub)

/-- Goes on as the nested machine does, which has taken a token. -/
def goOn (r : Registers) (t : Token) :
    Option Stop × Machine → Except ParseError (Option Stop × Machine)
  | (none, sub) => .ok (none, nest { r with started := true } sub)
  | (some stop, sub) => do
    let result ← sub.complete.1
    let after ← r.endSub result (some (stop.1, t.lexeme))
    if r.state.ends?.isNone then .ok (some stop, leaf { after with state := .operator })
    else .ok (none, leaf { after with state := stop.2, started := true })

/-- Takes a token. The stop is there if the token ends the expression, which it can only do where
there is an owner. -/
def feed (d : Dialect) (m : Machine) (t : Token) : Except ParseError (Option Stop × Machine) :=
  if m.registers.state = .complete then .error (.alreadyComplete t.lexeme)
  else
    let r := { m.registers with text := m.registers.text ++ t.raw }
    match m with
    | leaf _ =>
      -- A machine before its first token waits for no other one.
      if r.state.delegates then do
        let (stop, sub) ← (Registers.fresh r.text r.lent).take d t
        goOn r t (stop, leaf sub)
      else (r.take d t).map fun taken => (taken.1, leaf taken.2)
    | nest _ sub =>
      if r.state.delegates then do
        let taken ← sub.feed d t
        goOn r t taken
      else (r.take d t).map fun taken => (taken.1, nest taken.2 sub)

/-- Takes tokens one after the other. -/
def feedAll (d : Dialect) (m : Machine) : List Token → Except ParseError Machine
  | [] => .ok m
  | t :: ts => do
    let (stop, m) ← m.feed d t
    match stop with
    | none => m.feedAll d ts
    | some stop => .error (.unexpectedToken stop.1.name stop.1 m.registers.text)

/-- The tree of a list of tokens. -/
def parse (d : Dialect) (tokens : List Token) : Except ParseError Expr := do
  let m ← start.feedAll d tokens
  match (← m.complete.1) with
  | some tree => .ok tree
  | none => .error .emptyExpression

end Machine

end JsonExpr
