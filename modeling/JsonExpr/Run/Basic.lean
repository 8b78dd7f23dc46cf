import JsonExpr.Value.Basic

/-!
Runs of evaluations, laid open: what an evaluation records on its way, where it suspends, and how
it ends. A run is a finite chain of these steps, so a computation that may suspend is plain data;
`bind` continues a run with another, and `attempt` looks at a failure.

`advance` resumes a run up to its next suspension. What can go wrong in an evaluation are the causes
`EvalError`, each with its message.
-/

namespace JsonExpr

/-! ## Failures -/

/-- The causes of a failed evaluation. -/
inductive EvalError
  /-- No function of that name is registered. -/
  | unknownFunction (name : String)
  /-- No transform of that name is registered. -/
  | unknownTransform (name : String)
  /-- The grammar has no such operator. -/
  | unknownOperator (symbol : String)
  /-- An operation does not apply to values of these kinds. -/
  | typeError (text : String)
  | divisionByZero
  /-- A registered callable failed. -/
  | callable (name : String) (source : EvalError)
  /-- A failure of the host's own. -/
  | custom (text : String)
deriving DecidableEq, Repr, Inhabited

namespace EvalError

/-- The message for a cause. -/
def message : EvalError → String
  | .unknownFunction name => "Unknown function: " ++ name
  | .unknownTransform name => "Unknown transform: " ++ name
  | .unknownOperator symbol => "Unknown operator: " ++ symbol
  | .typeError text => "Type error: " ++ text
  | .divisionByZero => "Division by zero"
  | .callable name source => "Error in '" ++ name ++ "': " ++ source.message
  | .custom text => text

end EvalError

/-! ## Runs -/

/-- An evaluation, step by step. -/
inductive Run (α : Type)
  /-- The end, with a value or a failure. -/
  | done (outcome : Except EvalError α)
  /-- An entry for the log. -/
  | record (entry : Value) (next : Run α)
  /-- A suspension. -/
  | pause (next : Run α)

namespace Run

variable {α β : Type}

/-- Ends with a value. -/
def ok (value : α) : Run α :=
  .done (.ok value)

/-- Ends with a failure. -/
def fail (error : EvalError) : Run α :=
  .done (.error error)

/-- Continues a run with what its value asks for. -/
def bind : Run α → (α → Run β) → Run β
  | .done (.ok value), next => next value
  | .done (.error error), _ => .fail error
  | .record entry rest, next => .record entry (rest.bind next)
  | .pause rest, next => .pause (rest.bind next)

instance : Monad Run where
  pure := ok
  bind := bind

/-- Applies a function to the value. -/
def map (f : α → β) : Run α → Run β
  | .done outcome => .done (outcome.map f)
  | .record entry rest => .record entry (rest.map f)
  | .pause rest => .pause (rest.map f)

/-- Applies a function to the failure. -/
def mapError (f : EvalError → EvalError) : Run α → Run α
  | .done outcome => .done (outcome.mapError f)
  | .record entry rest => .record entry (rest.mapError f)
  | .pause rest => .pause (rest.mapError f)

/-- Never fails: a failure becomes the value. -/
def attempt : Run α → Run (Except EvalError α)
  | .done outcome => .ok outcome
  | .record entry rest => .record entry rest.attempt
  | .pause rest => .pause rest.attempt

/-- Records entries before going on. -/
def recordAll (entries : List Value) (next : Run α) : Run α :=
  entries.foldr .record next

/-- Suspends a number of times before going on. -/
def pauseTimes : Nat → Run α → Run α
  | 0, next => next
  | count + 1, next => .pause (pauseTimes count next)

/-- How the run ends. -/
def outcome : Run α → Except EvalError α
  | .done outcome => outcome
  | .record _ rest => rest.outcome
  | .pause rest => rest.outcome

/-- Everything that the run records. -/
def log : Run α → List Value
  | .done _ => []
  | .record entry rest => entry :: rest.log
  | .pause rest => rest.log

/-- How often the run suspends. -/
def pauses : Run α → Nat
  | .done _ => 0
  | .record _ rest => rest.pauses
  | .pause rest => rest.pauses + 1

/-- Where a run stands after it was resumed. -/
inductive Status (α : Type)
  | finished (outcome : Except EvalError α)
  | suspended (rest : Run α)

/-- Resumes a run: what it records up to its next suspension, and where it stands then. -/
def advance : Run α → List Value × Status α
  | .done outcome => ([], .finished outcome)
  | .record entry rest => (entry :: rest.advance.1, rest.advance.2)
  | .pause rest => ([], .suspended rest)

/-- Resuming a run uses up one suspension. -/
theorem pauses_of_advance {run rest : Run α} {entries : List Value}
    (h : run.advance = (entries, .suspended rest)) : rest.pauses + 1 = run.pauses := by
  induction run generalizing entries with
  | done outcome => simp [advance] at h
  | record entry next ih =>
    simp only [advance, Prod.mk.injEq] at h
    exact ih (Prod.ext rfl h.2)
  | pause next =>
    simp only [advance, Prod.mk.injEq, Status.suspended.injEq] at h
    rw [← h.2]
    rfl

end Run

end JsonExpr
