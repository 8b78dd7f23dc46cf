import JsonExpr.Check
import JsonExpr.Value.Json

/-!
The command line as data: `Command.ofArgs` reads the arguments into a command or says what is wrong
with them, and `CheckResult.report` is the text that answers a check. Options may stand before or
after the expression, short ones may share a dash, and after a lone `--` there are none.
-/

namespace JsonExpr

/-- The options that stand alone. -/
inductive Switch
  | pretty
  | syntaxOnly
deriving DecidableEq, Repr

/-- The options that take a value. -/
inductive Setting
  | input
  | contextFile
deriving DecidableEq, Repr

/-- What an argument is. -/
inductive Argument
  | switch (option : Switch)
  | setting (option : Setting) (value : String)
  | word (text : String)
deriving DecidableEq, Repr

/-- What is wrong with the arguments. -/
inductive UsageError
  | missingCommand
  | unknownCommand (name : String)
  | unknownOption (text : String)
  | missingValue (option : String)
  | unwantedValue (option : String)
  | repeated (option : String)
  | twoContexts
  | missingArgument (name : String)
  | unexpectedArgument (text : String)
deriving DecidableEq, Repr

/-- A request to check an expression. -/
structure CheckRequest where
  expression : String
  /-- The text of the context, if it is given. -/
  input : Option String
  /-- The name of a file that holds the text of the context. -/
  contextFile : Option String
  pretty : Bool
  syntaxOnly : Bool
deriving DecidableEq, Repr

/-- What the arguments ask for. -/
inductive Command
  | check (request : CheckRequest)
  | docs
  | doc (category : String)
  | help
deriving DecidableEq, Repr

/-- The switch with that long name. -/
def Switch.ofName? : String → Option Switch
  | "pretty" => some .pretty
  | "syntax-only" => some .syntaxOnly
  | _ => none

/-- The switch with that letter. -/
def Switch.ofLetter? : Char → Option Switch
  | 'p' => some .pretty
  | _ => none

/-- The setting with that long name. -/
def Setting.ofName? : String → Option Setting
  | "input" => some .input
  | "context-file" => some .contextFile
  | _ => none

/-- The setting with that letter. -/
def Setting.ofLetter? : Char → Option Setting
  | 'i' => some .input
  | 'c' => some .contextFile
  | _ => none

/-- The option as it is written out. -/
def Switch.name : Switch → String
  | .pretty => "--pretty"
  | .syntaxOnly => "--syntax-only"

/-- The option as it is written out. -/
def Setting.name : Setting → String
  | .input => "--input"
  | .contextFile => "--context-file"

/-- The options that an argument spells, the last of which may still wait for its value. -/
structure Spelled where
  complete : List Argument
  waiting : Option Setting

/-- Reads a long option, without its dashes: a name, or a name and a value after an equals sign. -/
def Spelled.ofLong (body : List Char) : Except UsageError Spelled :=
  let name := String.ofList (body.takeWhile (· ≠ '='))
  match Switch.ofName? name, Setting.ofName? name, body.dropWhile (· ≠ '=') with
  | some option, _, [] => .ok ⟨[.switch option], none⟩
  | some option, _, _ :: _ => .error (.unwantedValue option.name)
  | none, some option, [] => .ok ⟨[], some option⟩
  | none, some option, _ :: value => .ok ⟨[.setting option (String.ofList value)], none⟩
  | none, none, _ => .error (.unknownOption ("--" ++ name))

/-- Reads short options, without their dash: switches, then perhaps a setting, whose value is what
follows its letter if anything does. -/
def Spelled.ofShort : List Char → Except UsageError Spelled
  | [] => .ok ⟨[], none⟩
  | c :: rest =>
    match Switch.ofLetter? c, Setting.ofLetter? c with
    | some option, _ => do
      let spelled ← Spelled.ofShort rest
      return { spelled with complete := .switch option :: spelled.complete }
    | none, some option =>
      match rest with
      | [] => .ok ⟨[], some option⟩
      | '=' :: value => .ok ⟨[.setting option (String.ofList value)], none⟩
      | value => .ok ⟨[.setting option (String.ofList value)], none⟩
    | none, none => .error (.unknownOption (String.ofList ['-', c]))

/-- Sorts arguments into switches, settings and words, given the setting that waits for a value. A
value that has an argument of its own does not start with a dash, unless it is nothing else. -/
def Argument.readAll : Option Setting → List String → Except UsageError (List Argument)
  | none, [] => .ok []
  | some option, [] => .error (.missingValue option.name)
  | waiting, text :: rest =>
    match waiting, text.toList with
    | none, ['-', '-'] => .ok (rest.map .word)
    | none, '-' :: '-' :: body => do
      let spelled ← Spelled.ofLong body
      return spelled.complete ++ (← readAll spelled.waiting rest)
    | none, '-' :: c :: body => do
      let spelled ← Spelled.ofShort (c :: body)
      return spelled.complete ++ (← readAll spelled.waiting rest)
    | none, _ => do return .word text :: (← readAll none rest)
    | some option, '-' :: _ :: _ => .error (.missingValue option.name)
    | some option, _ => do return .setting option text :: (← readAll none rest)

/-- The words among the arguments. -/
def Argument.words : List Argument → List String :=
  List.filterMap fun
    | .word text => some text
    | _ => none

/-- Whether a switch is among the arguments, which it may be once. -/
def Argument.switch? (option : Switch) (arguments : List Argument) : Except UsageError Bool :=
  match arguments.count (.switch option) with
  | 0 => .ok false
  | 1 => .ok true
  | _ => .error (.repeated option.name)

/-- The value of a setting, which may be given once. -/
def Argument.setting? (option : Setting) (arguments : List Argument) :
    Except UsageError (Option String) :=
  let values := arguments.filterMap fun
    | .setting other value => if other = option then some value else none
    | _ => none
  match values with
  | [] => .ok none
  | [value] => .ok (some value)
  | _ => .error (.repeated option.name)

/-- The one word that a command expects. -/
def Argument.word? (name : String) (arguments : List Argument) : Except UsageError String :=
  match Argument.words arguments with
  | [] => .error (.missingArgument name)
  | [only] => .ok only
  | _ :: extra :: _ => .error (.unexpectedArgument extra)

/-- The request that the arguments of `check` make. -/
def CheckRequest.ofArguments (arguments : List Argument) : Except UsageError CheckRequest := do
  let input ← Argument.setting? .input arguments
  let contextFile ← Argument.setting? .contextFile arguments
  let pretty ← Argument.switch? .pretty arguments
  let syntaxOnly ← Argument.switch? .syntaxOnly arguments
  if input.isSome ∧ contextFile.isSome then throw .twoContexts
  let expression ← Argument.word? "EXPRESSION" arguments
  return ⟨expression, input, contextFile, pretty, syntaxOnly⟩

/-- The option that an argument is, as it is written out. -/
def Argument.optionName? : Argument → Option String
  | .switch option => some option.name
  | .setting option _ => some option.name
  | .word _ => none

/-- The arguments of a command without options. -/
def Argument.plain (args : List String) : Except UsageError (List Argument) := do
  let arguments ← Argument.readAll none args
  match arguments.findSome? Argument.optionName? with
  | some name => throw (.unknownOption name)
  | none => return arguments

/-- The command that the arguments give. -/
def Command.ofArgs : List String → Except UsageError Command
  | [] => .error .missingCommand
  | "check" :: args => do
    return .check (← CheckRequest.ofArguments (← Argument.readAll none args))
  | "docs" :: args => do
    match Argument.words (← Argument.plain args) with
    | [] => return .docs
    | extra :: _ => throw (.unexpectedArgument extra)
  | "doc" :: args => do return .doc (← Argument.word? "CATEGORY" (← Argument.plain args))
  | "help" :: _ | "--help" :: _ | "-h" :: _ => .ok .help
  | name :: _ => .error (.unknownCommand name)

/-- How the program is used. -/
def Command.usage : String :=
  "Usage:\n" ++
  "  jexl check EXPRESSION [-i TEXT | -c FILE] [-p] [--syntax-only]\n" ++
  "  jexl docs\n" ++
  "  jexl doc CATEGORY\n"

/-- The message for a mistake in the arguments. -/
def UsageError.message : UsageError → String
  | .missingCommand => Command.usage
  | .unknownCommand name => "error: unrecognized subcommand '" ++ name ++ "'"
  | .unknownOption text => "error: unexpected argument '" ++ text ++ "' found"
  | .missingValue option => "error: a value is required for '" ++ option ++ "'"
  | .unwantedValue option => "error: no value is expected for '" ++ option ++ "'"
  | .repeated option => "error: the argument '" ++ option ++ "' cannot be used multiple times"
  | .twoContexts => "error: the argument '--input' cannot be used with '--context-file'"
  | .missingArgument name => "error: the argument <" ++ name ++ "> was not provided"
  | .unexpectedArgument text => "error: unexpected argument '" ++ text ++ "' found"

/-- The line that tells the result of a check: for a value its JSON text, compact or with a line for
each item, and a word for the absent value. -/
def CheckResult.report (pretty : Bool) : CheckResult → String
  | .syntaxValid => "Syntax is valid"
  | .success .undefined => "undefined"
  | .success value => if pretty then value.toJson.printPretty else value.toJson.print

end JsonExpr
