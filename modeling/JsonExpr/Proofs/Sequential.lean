import JsonExpr.Eval
import JsonExpr.Proofs.Groups
import JsonExpr.Proofs.Operators
import JsonExpr.Proofs.Tree

/-!
Evaluation with callables that never suspend, against an interpreter that knows neither runs nor
groups. `Expr.interpret` works through an expression from left to right with a log at hand: it looks
an operator up before its operands and a callable after its arguments, takes items, values,
arguments and the tests of a filter one after the other, and stops at the first failure.

`Recorder.perform` is what a run amounts to in the interpreter. It turns the sequence of runs into
the sequence of computations, and a group of runs that never suspend is a sequence.
-/

namespace JsonExpr

/-- A computation that may fail, with a log that stays when it does. -/
abbrev Recorder := ExceptT EvalError (StateM (List Value))

namespace Recorder

/-- What a run comes to that is done at once: its entries go to the log, and it ends as it does. -/
def perform {α : Type} (run : Run α) : Recorder α :=
  fun log => (run.outcome, log ++ run.log)

/-- A call that is done at once. A failure carries the name. -/
def call (name : String) (run : Run Value) : Recorder Value :=
  perform (run.mapError (.callable name))

end Recorder

namespace Expr

mutual

/-- The value of an expression, step by step from left to right. -/
def interpret (g : Grammar) (scope : Scope) : Expr → Recorder Value
  | .literal value => pure value
  | .ident name relative => pure ((scope.root relative).property name)
  | .member subject name _ => do
    let value ← interpret g scope subject
    return value.property name
  | .binary operator left right =>
    match BuiltIn.ofSymbol? operator with
    | none => throw (.unknownOperator operator)
    | some .or => do
      let value ← interpret g scope left
      if value.isTruthy then return value else interpret g scope right
    | some .and => do
      let value ← interpret g scope left
      if value.isTruthy then interpret g scope right else return value
    | some (.strict apply) => do
      let a ← interpret g scope left
      let b ← interpret g scope right
      liftExcept (apply a b)
  | .unary operator right =>
    if operator = "!" then do
      let value ← interpret g scope right
      return .bool !value.isTruthy
    else throw (.unknownOperator operator)
  | .cond test yes no => do
    let value ← interpret g scope test
    if value.isTruthy then interpret g scope yes else interpret g scope no
  | .elvis test otherwise => do
    let value ← interpret g scope test
    if value.isTruthy then return value else interpret g scope otherwise
  | .filter subject predicate true => do
    let value ← interpret g scope subject
    let verdicts ← value.elements.mapM fun item => interpret g (scope.visiting item) predicate
    return .array (keep value.elements verdicts)
  | .filter subject key false => do
    let value ← interpret g scope subject
    let key ← interpret g scope key
    return value.index key
  | .array items => do
    let values ← interpretItems g scope items
    return .array values
  | .object entries => do
    let values ← interpretEntries g scope entries
    return .ofEntries ((entries.map Prod.fst).zip values)
  | .call .functions name args => do
    let values ← interpretItems g scope args
    match g.function? name with
    | some function => Recorder.call name (function values)
    | none => throw (.unknownFunction name)
  | .call .transforms name args => do
    let values ← interpretItems g scope args
    match g.transform? name with
    | some transform => Recorder.call name (transform values)
    | none => throw (.unknownTransform name)

/-- The values of expressions, one after the other. -/
def interpretItems (g : Grammar) (scope : Scope) : List Expr → Recorder (List Value)
  | [] => return []
  | item :: rest => do
    let value ← interpret g scope item
    let values ← interpretItems g scope rest
    return value :: values

/-- The values of entries, one after the other. -/
def interpretEntries (g : Grammar) (scope : Scope) : List (String × Expr) → Recorder (List Value)
  | [] => return []
  | (_, item) :: rest => do
    let value ← interpret g scope item
    let values ← interpretEntries g scope rest
    return value :: values

end

end Expr

/-! ## Runs as computations -/

namespace Recorder

variable {α β : Type}

theorem perform_ok (value : α) : perform (.ok value) = pure value := by
  funext log
  exact congrArg (Prod.mk _) (List.append_nil log)

theorem perform_fail (error : EvalError) : perform (.fail error : Run α) = throw error := by
  funext log
  exact congrArg (Prod.mk _) (List.append_nil log)

theorem perform_done (outcome : Except EvalError α) :
    perform (.done outcome) = liftExcept outcome := by
  cases outcome with
  | ok value => exact perform_ok value
  | error error => exact perform_fail error

/-- A computation that goes on after another, with the log at hand. -/
theorem bind_apply (first : Recorder α) (next : α → Recorder β) (log : List Value) :
    (first >>= next) log =
      match first log with
      | (.ok value, log) => next value log
      | (.error error, log) => (.error error, log) := by
  change ExceptT.bindCont next (first log).1 (first log).2 = _
  rcases first log with ⟨outcome | outcome, entries⟩ <;> rfl

theorem perform_bind (run : Run α) (next : α → Run β) :
    perform (run.bind next) = perform run >>= fun value => perform (next value) := by
  funext log
  rw [bind_apply, perform, perform, Run.outcome_bind]
  cases ends : run.outcome with
  | ok value => rw [Run.log_bind_of_ok ends, ← List.append_assoc]; rfl
  | error error => rw [Run.log_bind_of_error ends]; rfl

theorem perform_map (f : α → β) (run : Run α) :
    perform (run.map f) = perform run >>= fun value => pure (f value) := by
  funext log
  rw [bind_apply, perform, perform, Run.outcome_map, Run.log_map]
  cases run.outcome <;> rfl

theorem perform_inSequence (runs : List (Run α)) :
    perform (Run.inSequence runs) = runs.mapM perform := by
  induction runs with
  | nil => exact perform_ok []
  | cons run rest ih =>
    rw [Run.inSequence, perform_bind, List.mapM_cons, ← ih]
    simp only [perform_map]

end Recorder

/-! ## Runs that never suspend -/

namespace Run

variable {α β : Type}

@[simp] theorem pauses_map (f : α → β) (run : Run α) : (run.map f).pauses = run.pauses := by
  induction run with
  | done outcome => rfl
  | record entry rest ih => exact ih
  | pause rest ih => exact congrArg (· + 1) ih

@[simp] theorem pauses_mapError (f : EvalError → EvalError) (run : Run α) :
    (run.mapError f).pauses = run.pauses := by
  induction run with
  | done outcome => rfl
  | record entry rest ih => exact ih
  | pause rest ih => exact congrArg (· + 1) ih

theorem pauses_bind {run : Run α} {next : α → Run β} (first : run.pauses = 0)
    (second : ∀ value, (next value).pauses = 0) : (run.bind next).pauses = 0 := by
  induction run with
  | done outcome =>
    cases outcome with
    | ok value => exact second value
    | error error => rfl
  | record entry rest ih => exact ih first
  | pause rest => cases first

theorem pauses_joinAll {runs : List (Run α)} (steady : ∀ run ∈ runs, run.pauses = 0) :
    (joinAll runs).pauses = 0 := by
  rw [joinAll_of_pauses steady]
  induction runs with
  | nil => rfl
  | cons run rest ih =>
    obtain ⟨first, others⟩ := List.forall_mem_cons.1 steady
    refine pauses_bind first fun value => ?_
    rw [pauses_map]
    exact ih others

end Run

namespace Grammar

variable {g : Grammar}

/-- No callable of the grammar ever suspends. -/
def IsSynchronous (g : Grammar) : Prop :=
  ∀ pool name callable, Expr.callable g pool name = .ok callable →
    ∀ args, (callable args).pauses = 0

theorem isSynchronous_standard : IsSynchronous .standard := by
  intro pool name callable found
  cases pool <;> cases found

theorem IsSynchronous.addFunction (synchronous : g.IsSynchronous) (name : String)
    {function : Callable} (steady : ∀ args, (function args).pauses = 0) :
    (g.addFunction name function).IsSynchronous := by
  intro pool other callable found
  cases pool with
  | functions =>
    by_cases same : other = name
    · rw [same, Expr.callable, function?_addFunction_self] at found
      cases found
      exact steady
    · rw [Expr.callable, function?_addFunction_of_ne same] at found
      exact synchronous .functions other callable found
  | transforms => exact synchronous .transforms other callable found

end Grammar

namespace Expr

variable {g : Grammar}

theorem pauses_invoke (synchronous : g.IsSynchronous) (pool : Pool) (name : String)
    (args : List Value) : (invoke g pool name args).pauses = 0 := by
  unfold invoke
  split
  · rename_i callable found
    rw [Run.pauses_mapError]
    exact synchronous pool name callable found args
  · rfl

theorem pauses_applyBinary (standard : g.IsStandard) (symbol : String) {left right : Run Value}
    (first : left.pauses = 0) (second : right.pauses = 0) :
    (g.applyBinary symbol left right).pauses = 0 := by
  rw [standard.applyBinary_eq]
  split
  · rfl
  · rename_i builtIn _
    cases builtIn with
    | or =>
      refine Run.pauses_bind first fun value => ?_
      split
      · rfl
      · exact second
    | and =>
      refine Run.pauses_bind first fun value => ?_
      split
      · exact second
      · rfl
    | strict apply =>
      exact Run.pauses_bind first fun a => Run.pauses_bind second fun b => rfl

theorem pauses_applyUnary (symbol : String) {right : Run Value} (steady : right.pauses = 0) :
    (g.applyUnary symbol right).pauses = 0 := by
  unfold Grammar.applyUnary
  split
  · rfl
  · exact Run.pauses_bind steady fun value => rfl

/-- With callables that never suspend, no evaluation does. -/
theorem pauses_eval (standard : g.IsStandard) (synchronous : g.IsSynchronous) (e : Expr)
    (scope : Scope) : (eval g scope e).pauses = 0 := by
  induction e generalizing scope with
  | literal value => rfl
  | ident name relative => rfl
  | member subject name relative ih =>
    rw [eval, Run.pauses_map]
    exact ih scope
  | binary operator left right first second =>
    rw [Grammar.eval_binary]
    exact pauses_applyBinary standard operator (first scope) (second scope)
  | unary operator right ih =>
    rw [Grammar.eval_unary]
    exact pauses_applyUnary operator (ih scope)
  | cond test yes no ih first second =>
    rw [eval]
    refine Run.pauses_bind (ih scope) fun value => ?_
    split
    · exact first scope
    · exact second scope
  | elvis test otherwise ih second =>
    rw [eval]
    refine Run.pauses_bind (ih scope) fun value => ?_
    split
    · rfl
    · exact second scope
  | filter subject predicate relative ih inside =>
    cases relative with
    | true =>
      rw [eval]
      refine Run.pauses_bind (ih scope) fun value => ?_
      rw [Run.pauses_map]
      exact Run.pauses_joinAll (List.forall_mem_map.2 fun item _ => inside _)
    | false =>
      rw [eval]
      refine Run.pauses_bind (ih scope) fun value => ?_
      rw [Run.pauses_map]
      exact inside scope
  | array items ih =>
    rw [eval, Run.pauses_map, evalItems_eq_map]
    exact Run.pauses_joinAll (List.forall_mem_map.2 fun item mem => ih item mem scope)
  | object entries ih =>
    rw [eval, Run.pauses_map, evalEntries_eq_map]
    exact Run.pauses_joinAll (List.forall_mem_map.2 fun entry mem => ih entry mem scope)
  | call pool name args ih =>
    rw [eval, evalItems_eq_map]
    refine Run.pauses_bind ?_ fun values => pauses_invoke synchronous pool name values
    exact Run.pauses_joinAll (List.forall_mem_map.2 fun arg mem => ih arg mem scope)

/-! ## Evaluation as interpretation -/

open Recorder (perform perform_ok perform_fail perform_done perform_bind perform_map
  perform_inSequence)

theorem interpretItems_eq {scope : Scope} {items : List Expr}
    (same : ∀ item ∈ items, interpret g scope item = perform (eval g scope item)) :
    interpretItems g scope items = (items.map (eval g scope)).mapM perform := by
  induction items with
  | nil => rfl
  | cons item rest ih =>
    obtain ⟨first, others⟩ := List.forall_mem_cons.1 same
    rw [interpretItems, first, ih others, List.map_cons, List.mapM_cons]

theorem interpretEntries_eq_interpretItems (scope : Scope) (entries : List (String × Expr)) :
    interpretEntries g scope entries = interpretItems g scope (entries.map Prod.snd) := by
  induction entries with
  | nil => rfl
  | cons entry rest ih => rw [interpretEntries, ih, List.map_cons, interpretItems]

/-- A group of runs that never suspend is worked through in order. -/
theorem perform_joinAll {α : Type} {runs : List (Run α)} (steady : ∀ run ∈ runs, run.pauses = 0) :
    perform (Run.joinAll runs) = runs.mapM perform := by
  rw [Run.joinAll_of_pauses steady, perform_inSequence]

/-- Expressions that stand side by side are interpreted one after the other. -/
theorem interpretItems_eq_perform {scope : Scope} {items : List Expr}
    (steady : ∀ item ∈ items, (eval g scope item).pauses = 0)
    (same : ∀ item ∈ items, interpret g scope item = perform (eval g scope item)) :
    interpretItems g scope items = perform (Run.joinAll (evalItems g scope items)) := by
  rw [evalItems_eq_map, perform_joinAll (List.forall_mem_map.2 steady), interpretItems_eq same]

theorem perform_invoke (pool : Pool) (name : String) (args : List Value) :
    perform (invoke g pool name args) =
      match callable g pool name with
      | .ok callable => Recorder.call name (callable args)
      | .error error => throw error := by
  unfold invoke
  cases callable g pool name with
  | ok callable => rfl
  | error error => exact perform_fail error

theorem perform_applyBinary (standard : g.IsStandard) (symbol : String) (left right : Run Value) :
    perform (g.applyBinary symbol left right) =
      match BuiltIn.ofSymbol? symbol with
      | none => throw (.unknownOperator symbol)
      | some .or => do
        let value ← perform left
        if value.isTruthy then return value else perform right
      | some .and => do
        let value ← perform left
        if value.isTruthy then perform right else return value
      | some (.strict apply) =>
        perform left >>= fun a => perform right >>= fun b => liftExcept (apply a b) := by
  rw [standard.applyBinary_eq]
  cases BuiltIn.ofSymbol? symbol with
  | none => exact perform_fail _
  | some builtIn =>
    cases builtIn with
    | or =>
      refine (perform_bind left _).trans (congrArg _ (funext fun value => ?_))
      rw [apply_ite perform, perform_ok]
    | and =>
      refine (perform_bind left _).trans (congrArg _ (funext fun value => ?_))
      rw [apply_ite perform, perform_ok]
    | strict apply =>
      refine (perform_bind left _).trans (congrArg _ (funext fun a => ?_))
      refine (perform_bind right _).trans (congrArg _ (funext fun b => ?_))
      exact perform_done _

theorem perform_applyUnary (standard : g.IsStandard) (symbol : String) (right : Run Value) :
    perform (g.applyUnary symbol right) =
      if symbol = "!" then do
        let value ← perform right
        return .bool !value.isTruthy
      else throw (.unknownOperator symbol) := by
  rw [standard.applyUnary_eq]
  split
  · refine (perform_bind right _).trans (congrArg _ (funext fun value => ?_))
    exact perform_ok _
  · exact perform_fail _

/-- The interpreter does what the evaluation comes to. -/
theorem interpret_eq_perform (standard : g.IsStandard) (synchronous : g.IsSynchronous) (e : Expr)
    (scope : Scope) : interpret g scope e = perform (eval g scope e) := by
  have steady := pauses_eval standard synchronous
  induction e generalizing scope with
  | literal value => exact (perform_ok value).symm
  | ident name relative => exact (perform_ok _).symm
  | member subject name relative ih =>
    rw [interpret, eval, perform_map, ih]
  | binary operator left right first second =>
    rw [interpret, Grammar.eval_binary, perform_applyBinary standard, first, second]
  | unary operator right ih =>
    rw [interpret, Grammar.eval_unary, perform_applyUnary standard, ih]
  | cond test yes no ih first second =>
    rw [interpret, eval, perform_bind, ih, first, second]
    simp only [apply_ite perform]
  | elvis test otherwise ih second =>
    rw [interpret, eval, perform_bind, ih, second]
    simp only [apply_ite perform, perform_ok]
  | filter subject predicate relative ih inside =>
    cases relative with
    | true =>
      rw [interpret, eval, perform_bind, ih]
      refine congrArg _ (funext fun value => ?_)
      rw [perform_map, perform_joinAll (List.forall_mem_map.2 fun item _ => steady predicate _)]
      simp only [inside, List.mapM_map]
      rfl
    | false =>
      rw [interpret, eval, perform_bind, ih]
      simp only [perform_map, inside]
  | array items ih =>
    rw [interpret, eval, perform_map, interpretItems_eq_perform (fun item _ => steady item scope)
      fun item mem => ih item mem scope]
  | object entries ih =>
    rw [interpret, eval, perform_map, evalEntries_eq_evalItems, interpretEntries_eq_interpretItems,
      interpretItems_eq_perform (fun item _ => steady item scope)
        (List.forall_mem_map.2 fun entry mem => ih entry mem scope)]
  | call pool name args ih =>
    rw [eval, perform_bind, ← interpretItems_eq_perform (fun arg _ => steady arg scope)
      fun arg mem => ih arg mem scope]
    cases pool with
    | functions =>
      rw [interpret]
      refine congrArg _ (funext fun values => ?_)
      rw [perform_invoke, callable]
      cases g.function? name <;> rfl
    | transforms =>
      rw [interpret]
      refine congrArg _ (funext fun values => ?_)
      rw [perform_invoke, callable]
      cases g.transform? name <;> rfl

/-- With callables that never suspend, an evaluation never suspends either, and the interpreter ends
as it does, with the same entries in the same order behind those that the log has already. -/
theorem interpret_eq_eval (standard : g.IsStandard) (synchronous : g.IsSynchronous) (scope : Scope)
    (e : Expr) (log : List Value) :
    (eval g scope e).pauses = 0 ∧
      (interpret g scope e).run.run log =
        ((eval g scope e).outcome, log ++ (eval g scope e).log) :=
  ⟨pauses_eval standard synchronous e scope,
    congrFun (interpret_eq_perform standard synchronous e scope) log⟩

/-- `note` records its first argument and returns it, `refuse` records it and fails. -/
def noting : Grammar :=
  Grammar.standard
    |>.addFunction "note" (fun args =>
      .record (args.headD .undefined) (.ok (args.headD .undefined)))
    |>.addFunction "refuse" (fun args =>
      .record (args.headD .undefined) (.fail (.custom "refused")))

theorem isStandard_noting : noting.IsStandard := fun _ => rfl

theorem isSynchronous_noting : noting.IsSynchronous :=
  (Grammar.isSynchronous_standard.addFunction "note" fun _ => rfl).addFunction "refuse" fun _ => rfl

/-- Forty items, two of which fail. -/
def noteRow : Expr :=
  .array ((List.range 40).map fun i =>
    .call .functions (if i = 29 ∨ i = 30 then "refuse" else "note") [.literal (.int (.ofNat i))])

set_option maxRecDepth 2000 in
/-- A row of forty ends at the first failure, with what was recorded up to there. -/
theorem interpret_eq_eval_noteRow :
    (eval noting ⟨.null, none⟩ noteRow).pauses = 0 ∧
      (eval noting ⟨.null, none⟩ noteRow).outcome =
        .error (.callable "refuse" (.custom "refused")) ∧
      (eval noting ⟨.null, none⟩ noteRow).log = (List.range 30).map fun i => .int (.ofNat i) := by
  obtain ⟨steady, same⟩ := interpret_eq_eval isStandard_noting isSynchronous_noting
    ⟨.null, none⟩ noteRow []
  obtain ⟨ends, log⟩ := Prod.mk.inj same
  exact ⟨steady, ends.symm, log.symm⟩

end Expr

end JsonExpr
