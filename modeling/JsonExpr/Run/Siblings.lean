import JsonExpr.Run.Basic

/-!
Groups of runs that belong together: the items of an array, the arguments of a call, the tests of
a filter. The siblings are started in order, each running until it finishes or suspends; the
unfinished ones are then resumed in the same order, until all are finished.

A group of at most thirty suspends as one after every round, and the first failure ends it at
once. A larger group keeps its unfinished siblings in a queue and suspends as soon as two of them
have suspended one after the other; it reports a failure only when every earlier sibling has
finished, and goes on with the others until then. Both end at the first failure, in the order of
the siblings, when no sibling ever suspends.
-/

namespace JsonExpr.Run

variable {α β : Type}

/-! ## Small groups -/

/-- Goes on with the right run while the left one is suspended. The pair suspends when the right
run does, and both are then resumed. -/
def meanwhile (left : Run α) (resume : Run β → Run (α × β)) : Run β → Run (α × β)
  | .done (.ok b) => .pause (left.map fun a => (a, b))
  | .done (.error error) => .fail error
  | .record entry right => .record entry (meanwhile left resume right)
  | .pause right => .pause (resume right)

/-- Two runs side by side, the left one first in every round. The first failure ends both. -/
def both : Run α → Run β → Run (α × β)
  | .done (.ok a), right => right.map fun b => (a, b)
  | .done (.error error), _ => .fail error
  | .record entry left, right => .record entry (both left right)
  | .pause left, right => meanwhile left (both left) right

/-- A small group: all runs side by side. -/
def joinFew : List (Run α) → Run (List α)
  | [] => .ok []
  | run :: rest => (both run (joinFew rest)).map fun pair => pair.1 :: pair.2

/-! ## Large groups -/

/-- The result of a group as far as it is settled: a failure counts when all siblings before it
have finished, and the values when all have. -/
def settled? : List (Option (Except EvalError α)) → Option (Except EvalError (List α))
  | [] => some (.ok [])
  | none :: _ => none
  | some (.error error) :: _ => some (.error error)
  | some (.ok value) :: rest => (settled? rest).map fun result => result.map (value :: ·)

/-- What the unfinished siblings still need: a step for each, and one for each suspension. -/
def demand : List (Nat × Run α) → Nat
  | [] => 0
  | (_, run) :: rest => run.pauses + 1 + demand rest

theorem demand_append (left right : List (Nat × Run α)) :
    demand (left ++ right) = demand left + demand right := by
  induction left with
  | nil => simp [demand]
  | cons sibling rest ih =>
    simp only [List.cons_append, demand, ih]
    omega

/-- A large group under way. The queue holds the unfinished siblings with their positions, the
slots the outcomes of the finished ones; `again` says that the sibling before has just
suspended. -/
def joinMany (slots : List (Option (Except EvalError α))) (queue : List (Nat × Run α))
    (again : Bool) : Run (List α) :=
  match queue with
  | [] => .done ((settled? slots).getD (.ok []))
  | (position, run) :: rest =>
    match _h : run.advance with
    | (entries, .finished outcome) =>
      let slots := slots.set position (some outcome)
      match settled? slots with
      | some result => .recordAll entries (.done result)
      | none => .recordAll entries (joinMany slots rest false)
    | (entries, .suspended run) =>
      let queue := rest ++ [(position, run)]
      if again || rest.isEmpty then .recordAll entries (.pause (joinMany slots queue false))
      else .recordAll entries (joinMany slots queue true)
termination_by demand queue
decreasing_by
  · simp [demand]
  · have used := pauses_of_advance ‹_›
    simp only [demand_append]
    simp [demand]
    omega
  · have used := pauses_of_advance ‹_›
    simp only [demand_append]
    simp [demand]
    omega

/-! ## Groups of any size -/

/-- The size up to which a group is small. -/
def fewLimit : Nat := 30

/-- All runs of a group, with their values in order. -/
def joinAll (runs : List (Run α)) : Run (List α) :=
  if runs.length ≤ fewLimit then joinFew runs
  else joinMany (runs.map fun _ => none) ((List.range runs.length).zip runs) false

end JsonExpr.Run
