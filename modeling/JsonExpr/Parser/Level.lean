import JsonExpr.Expr
import JsonExpr.Grammar
import JsonExpr.Parser.State

/-!
One level of an expression under construction. A level is what stands between an opening token and
the token that closes it, or the whole text. Along its open right edge wait the operators that
still lack their right operand, and its mode says what has to come next.

A token that a level accepts either changes the level or opens a nested one, whose owner remembers
what the result is for.
-/

namespace JsonExpr

/-- Rules for dotted names of callables. -/
structure ParseOptions where
  /-- A call of `a.b.c` is a call of the function registered under the dotted name; otherwise it
  is not allowed. -/
  namespacedFunctions : Bool := true
  /-- After a pipe `a.b.c` is the transform registered under the dotted name; otherwise the dot
  reads a property of the result. -/
  namespacedTransforms : Bool := true
deriving DecidableEq, Repr, Inhabited

/-- A grammar together with the rules for names. -/
structure Dialect where
  grammar : Grammar
  options : ParseOptions

/-- What can go wrong in building a tree. The causes quote the text read so far, the offending
token included. -/
inductive ParseError
  | unexpectedToken (token : String) (kind : TokenKind) (text : String)
  | unexpectedEnd (text : String)
  /-- A nested expression was closed before it began. -/
  | emptySubExpression (token : String) (text : String)
  | unknownOperator (symbol : String) (text : String)
  /-- Only a name, or a dotted chain of names, can be called. -/
  | invalidCall (text : String)
  | emptyExpression
  | alreadyComplete (token : String)
deriving DecidableEq, Repr

/-- The message for a cause. -/
def ParseError.message : ParseError → String
  | .unexpectedToken token kind text =>
    "Token " ++ token ++ " (" ++ kind.name ++ ") unexpected in expression: " ++ text
  | .unexpectedEnd text => "Unexpected end of expression: " ++ text
  | .emptySubExpression token text =>
    "Missing value before " ++ token ++ " in expression: " ++ text
  | .unknownOperator symbol text =>
    "Unknown operator '" ++ symbol ++ "' in expression: " ++ text
  | .invalidCall text => "Only named functions can be called in expression: " ++ text
  | .emptyExpression => "Empty expression"
  | .alreadyComplete token => "Cannot add token " ++ token ++ " to a completed parser"

/-! ## The open edge -/

/-- An operator that waits for its right operand. -/
inductive Open
  | binary (operator : String) (precedence : UInt32) (left : Expr)
  | unary (operator : String)
deriving Inhabited

namespace Open

def precedence : Open → UInt32
  | .binary _ precedence _ => precedence
  | .unary _ => unaryPrecedence

/-- The tree of the operator with its right operand. -/
def close (right : Expr) : Open → Expr
  | .binary operator _ left => .binary operator left right
  | .unary operator => .unary operator right

end Open

/-- The waiting operators, the innermost first. -/
abbrev Spine := List Open

namespace Spine

/-- Closes the operators that bind at least as tight as the given precedence, from the inside
out: the tree so far, and the operators that go on waiting. -/
def climb (precedence : UInt32) (tree : Expr) : Spine → Expr × Spine
  | [] => (tree, [])
  | op :: rest =>
    if precedence ≤ op.precedence then climb precedence (op.close tree) rest
    else (tree, op :: rest)

/-- Closes all operators. -/
def closeAll (tree : Expr) (spine : Spine) : Expr :=
  spine.foldl (fun tree op => op.close tree) tree

end Spine

/-! ## Levels -/

/-- An operand, with what its last token allows to follow. -/
inductive Operand
  /-- A literal, or something closed by a bracket of its own. -/
  | plain (tree : Expr)
  /-- A name or a bracket access: it may be called. -/
  | named (tree : Expr)
  /-- A transform without arguments: they may follow, and so may the rest of a dotted name. -/
  | piped (name : String) (subject : Expr)
  /-- A call with its arguments. -/
  | called (tree : Expr)
deriving Inhabited

/-- The tree of an operand. -/
def Operand.tree : Operand → Expr
  | .plain tree | .named tree | .called tree => tree
  | .piped name subject => .call .transforms name [subject]

/-- What a level reads next. -/
inductive Mode
  /-- An operand. -/
  | operand
  /-- A name of the element of a filter, after a leading dot. -/
  | relativeName
  /-- A property of the subject. -/
  | memberName (subject : Expr)
  /-- What may follow an operand. -/
  | after (operand : Operand)
  /-- The transform for the subject. -/
  | transformName (subject : Expr)
  /-- The next part of the name of a transform. -/
  | transformSegment (name : String) (subject : Expr)
  /-- The key of a further entry, or the end of the object. -/
  | key (entries : List (String × Expr))
  /-- The colon behind a key. -/
  | colon (entries : List (String × Expr)) (key : String)
deriving Inhabited

/-- What the result of a nested level is for. -/
inductive Slot
  /-- The inside of parentheses. -/
  | group
  /-- The bracket after the subject. -/
  | bracket (subject : Expr)
  /-- The next argument of a call. -/
  | argument (pool : Pool) (name : String) (args : List Expr)
  /-- The next item of an array. -/
  | item (items : List Expr)
  /-- The value of an entry. -/
  | entry (entries : List (String × Expr)) (key : String)
  /-- The branch for a true test, which may be left out. -/
  | consequent (test : Expr)
  /-- The branch for a false test. -/
  | alternate (test : Expr) (consequent : Option Expr)
deriving Inhabited

/-- A level under construction. -/
structure Level where
  spine : Spine
  mode : Mode
deriving Inhabited

/-- The level that waits for a nested one. -/
structure Owner where
  spine : Spine
  slot : Slot
deriving Inhabited

/-- What an accepted token does. -/
inductive Step
  /-- The level goes on. -/
  | stay (level : Level)
  /-- A nested level begins. -/
  | enter (owner : Owner)

namespace Mode

/-- The state of a level in this mode. -/
def state : Mode → State
  | .operand => .operand
  | .relativeName | .memberName _ => .property
  | .after (.plain _) => .operator
  | .after (.named _) => .named
  | .after (.piped _ _) => .piped
  | .after (.called _) => .called
  | .transformName _ => .transform
  | .transformSegment _ _ => .segment
  | .key _ => .key
  | .colon _ _ => .colon

end Mode

namespace Slot

/-- The state of a level that waits for this slot. -/
def state : Slot → State
  | .group => .group
  | .bracket _ => .bracket
  | .argument _ _ _ => .argument
  | .item _ => .item
  | .entry _ _ => .entry
  | .consequent _ => .consequent
  | .alternate _ _ => .alternate

/-- A token of this kind closes the nested level. The second branch of a choice has no such token
of its own. -/
def closedBy (slot : Slot) (kind : TokenKind) : Bool :=
  match slot.state.ends? with
  | some ends => ends.any fun stop => stop.1 == kind
  | none => false

end Slot

namespace Level

/-- A level before its first token. -/
def fresh : Level :=
  ⟨[], .operand⟩

/-- The names of a chain of properties that starts with a name of the context. -/
def chain? : Expr → Option (List String)
  | .ident name false => some [name]
  | .member subject name false => (chain? subject).map (· ++ [name])
  | _ => none

/-- The name of the function that a callee stands for. -/
def calleeName? (options : ParseOptions) (callee : Expr) : Option String :=
  match chain? callee with
  | some [name] => some name
  | some names =>
    if options.namespacedFunctions then some (".".intercalate names) else none
  | none => none

/-- Accepts a token where an operand is expected. -/
def acceptOperand? (d : Dialect) (text : String) (spine : Spine) (t : Token) :
    Option (Except ParseError Step) :=
  match t.kind with
  | .literal => some (.ok (.stay ⟨spine, .after (.plain (.literal t.value))⟩))
  | .identifier => some (.ok (.stay ⟨spine, .after (.named (.ident t.text false))⟩))
  | .unaryOp =>
    match d.grammar.unary? t.text with
    | some _ => some (.ok (.stay ⟨.unary t.text :: spine, .operand⟩))
    | none => some (.error (.unknownOperator t.text text))
  | .openParen => some (.ok (.enter ⟨spine, .group⟩))
  | .openCurl => some (.ok (.stay ⟨spine, .key []⟩))
  | .openBracket => some (.ok (.enter ⟨spine, .item []⟩))
  | .dot => some (.ok (.stay ⟨spine, .relativeName⟩))
  | _ => none

/-- Opens the arguments of a call, where the operand can be called. -/
def acceptCall? (d : Dialect) (text : String) (spine : Spine) (operand : Operand) :
    Option (Except ParseError Step) :=
  match operand with
  | .named tree =>
    match calleeName? d.options tree with
    | some name => some (.ok (.enter ⟨spine, .argument .functions name []⟩))
    | none => some (.error (.invalidCall text))
  | .piped name subject => some (.ok (.enter ⟨spine, .argument .transforms name [subject]⟩))
  | .plain _ | .called _ => none

/-- The mode after a dot behind an operand. -/
def afterDot (d : Dialect) (operand : Operand) : Mode :=
  match operand with
  | .piped name subject =>
    if d.options.namespacedTransforms then .transformSegment name subject
    else .memberName operand.tree
  | _ => .memberName operand.tree

/-- Accepts a token after an operand. -/
def acceptAfter? (d : Dialect) (text : String) (spine : Spine) (operand : Operand) (t : Token) :
    Option (Except ParseError Step) :=
  match t.kind with
  | .binaryOp =>
    match d.grammar.binary? t.text with
    | some op =>
      let (left, waiting) := spine.climb op.precedence operand.tree
      some (.ok (.stay ⟨.binary t.text op.precedence left :: waiting, .operand⟩))
    | none => some (.error (.unknownOperator t.text text))
  | .pipe => some (.ok (.stay ⟨spine, .transformName operand.tree⟩))
  | .dot => some (.ok (.stay ⟨spine, afterDot d operand⟩))
  | .openBracket => some (.ok (.enter ⟨spine, .bracket operand.tree⟩))
  | .question => some (.ok (.enter ⟨[], .consequent (spine.closeAll operand.tree)⟩))
  | .openParen => acceptCall? d text spine operand
  | _ => none

/-- The error for a token that has no place where it stands. -/
def unexpected (text : String) (t : Token) : ParseError :=
  .unexpectedToken t.lexeme t.kind text

/-- Accepts a token where the key of an entry is expected. -/
def acceptKey? (text : String) (spine : Spine) (entries : List (String × Expr)) (t : Token) :
    Option (Except ParseError Step) :=
  match t.kind with
  | .identifier => some (.ok (.stay ⟨spine, .colon entries t.text⟩))
  | .literal =>
    match t.value with
    | .string key => some (.ok (.stay ⟨spine, .colon entries key⟩))
    | _ => some (.error (unexpected text t))
  | .closeCurl => some (.ok (.stay ⟨spine, .after (.plain (.object entries))⟩))
  | _ => none

/-- Accepts a token, if it is one that the level itself can use. The text is that read so far,
the token included. -/
def accept? (d : Dialect) (text : String) (level : Level) (t : Token) :
    Option (Except ParseError Step) :=
  let stay (mode : Mode) : Option (Except ParseError Step) := some (.ok (.stay ⟨level.spine, mode⟩))
  match level.mode with
  | .operand => acceptOperand? d text level.spine t
  | .after operand => acceptAfter? d text level.spine operand t
  | .key entries => acceptKey? text level.spine entries t
  | .relativeName =>
    if t.kind = .identifier then stay (.after (.named (.ident t.text true))) else none
  | .memberName subject =>
    if t.kind = .identifier then stay (.after (.named (.member subject t.text false))) else none
  | .transformName subject =>
    if t.kind = .identifier then stay (.after (.piped t.text subject)) else none
  | .transformSegment name subject =>
    if t.kind = .identifier then stay (.after (.piped (name ++ "." ++ t.text) subject)) else none
  | .colon entries key =>
    if t.kind = .colon then some (.ok (.enter ⟨level.spine, .entry entries key⟩)) else none

/-- The result of a level that may end here: nothing if it has not begun, else its tree. -/
def result? (level : Level) : Option (Option Expr) :=
  match level.mode, level.spine with
  | .operand, [] => some none
  | .after operand, spine => some (some (spine.closeAll operand.tree))
  | _, _ => none

end Level

namespace Owner

/-- Gives the result of a nested level to its owner, at the token that closes it. -/
def close (text : String) (t : Token) (owner : Owner) (result : Option Expr) :
    Except ParseError Step :=
  let stay (mode : Mode) : Except ParseError Step := .ok (.stay ⟨owner.spine, mode⟩)
  let enter (slot : Slot) : Except ParseError Step := .ok (.enter ⟨owner.spine, slot⟩)
  let missing : Except ParseError Step := .error (.emptySubExpression t.lexeme text)
  match owner.slot, result with
  | .group, some tree => stay (.after (.plain tree))
  | .bracket subject, some predicate =>
    stay (.after (.named (.filter subject predicate predicate.hasRelative)))
  | .argument pool name args, some arg =>
    let args := args ++ [arg]
    if t.kind = .comma then enter (.argument pool name args)
    else stay (.after (.called (.call pool name args)))
  | .argument pool name args, none =>
    let bare := if pool = .transforms then 1 else 0
    if t.kind = .closeParen ∧ args.length = bare then
      stay (.after (.called (.call pool name args)))
    else missing
  | .item items, some item =>
    let items := items ++ [item]
    if t.kind = .comma then enter (.item items) else stay (.after (.plain (.array items)))
  | .item items, none =>
    if t.kind = .closeBracket ∧ items = [] then stay (.after (.plain (.array []))) else missing
  | .entry entries key, some value =>
    let entries := entries ++ [(key, value)]
    if t.kind = .comma then stay (.key entries) else stay (.after (.plain (.object entries)))
  | .consequent test, result => enter (.alternate test result)
  | _, _ => missing

end Owner

end JsonExpr
