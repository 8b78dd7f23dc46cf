import JsonExpr.Command
import JsonExpr.Reference

/-!
The program: it checks one expression, or shows the reference.
-/

namespace JsonExpr

/-- The text of the context that a request names; the standard input if it names none and is not a
terminal. -/
def CheckRequest.context (request : CheckRequest) : IO (Option String) := do
  match request.input, request.contextFile with
  | some text, _ => return some text
  | none, some file => return some (← IO.FS.readFile file)
  | none, none =>
    let stdin ← IO.getStdin
    if request.syntaxOnly || (← stdin.isTty) then return none
    else
      let bytes ← stdin.readBinToEnd
      match String.fromUTF8? bytes with
      | some text => return some text
      | none => throw (IO.userError "stream did not contain valid UTF-8")

/-- Does what a command asks for; `false` if that fails, with the reason on the standard error. -/
def Command.run : Command → IO Bool
  | .help => do
    IO.print Command.usage
    return true
  | .docs => do
    IO.print Reference.overview
    return true
  | .doc name => do
    match Reference.Category.ofName? name with
    | some category =>
      IO.print category.page
      return true
    | none =>
      IO.eprintln (Reference.unknownCategory name)
      return false
  | .check request => do
    match JsonExpr.check (Engine.new {}) request.expression (← request.context)
        request.syntaxOnly with
    | .ok result =>
      IO.println (result.report request.pretty)
      return true
    | .error error =>
      IO.eprintln error.message
      return false

end JsonExpr

/-- Reads the arguments and does what they ask for. -/
def main (args : List String) : IO UInt32 := do
  match JsonExpr.Command.ofArgs args with
  | .error error =>
    IO.eprintln error.message
    return 2
  | .ok command =>
    try
      return if ← command.run then 0 else 1
    catch error =>
      IO.eprintln (toString error)
      return 1
