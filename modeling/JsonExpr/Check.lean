import JsonExpr.Engine
import JsonExpr.Json.Reader

/-!
Checking one expression: it is compiled, and unless only its syntax is asked for, evaluated in a
context that is given as a JSON text. A context of white space alone is an empty object.
-/

namespace JsonExpr

/-- The outcome of a check. -/
inductive CheckResult
  | syntaxValid
  | success (value : Value)

/-- What can go wrong in a check. -/
inductive CheckError
  | compile (error : Error)
  | eval (error : Error)
  /-- The context is not a JSON text. -/
  | json
deriving DecidableEq, Repr

/-- The message for a cause. -/
def CheckError.message : CheckError → String
  | .compile error => "Compile error: " ++ error.message
  | .eval error => "Evaluation error: " ++ error.message
  | .json => "Invalid JSON"

/-- The context for an input. -/
def contextOf? (input : Option String) : Option Value :=
  match input with
  | none => some (.object [])
  | some text =>
    if Text.trim text = "" then some (.object [])
    else (Json.read? text).map Value.ofJson

/-- Compiles an expression with the engine and evaluates it on the input. -/
def check (engine : Engine) (source : String) (input : Option String) (syntaxOnly : Bool) :
    Except CheckError CheckResult :=
  match (engine.compile source).2 with
  | .error error => .error (.compile error)
  | .ok expression =>
    if syntaxOnly then .ok .syntaxValid
    else
      match contextOf? input with
      | none => .error .json
      | some context =>
        match (expression.evaluate context).outcome with
        | .ok value => .ok (.success value)
        | .error error => .error (.eval (.eval error))

end JsonExpr
