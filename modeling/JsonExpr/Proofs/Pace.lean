import Mathlib.Data.List.Forall2
import JsonExpr.Proofs.Sequential

/-!
Suspensions do not change what an evaluation gives. `Expr.evalAt` evaluates with calls that know
their place in the evaluation, so that any two calls, also those that a filter makes for different
elements, may suspend differently; a grammar makes calls that do not look at their places
(`Expr.evalAt_invoke`). `Grammar.quiet` is a grammar without its suspensions.

Two runs agree when both fail, or when both have the same value and the same entries in their logs,
in some order. Every construct turns operands that agree into results that agree: for groups of
siblings this is `Run.joined_joinAll`.
-/

namespace JsonExpr

/-! ## Runs without their suspensions -/

namespace Run

variable {α β : Type}

/-- The run without its suspensions. -/
def quiet : Run α → Run α
  | .done outcome => .done outcome
  | .record entry rest => .record entry rest.quiet
  | .pause rest => rest.quiet

@[simp] theorem outcome_quiet (run : Run α) : run.quiet.outcome = run.outcome := by
  induction run with
  | done outcome => rfl
  | record entry rest ih => exact ih
  | pause rest ih => exact ih

@[simp] theorem log_quiet (run : Run α) : run.quiet.log = run.log := by
  induction run with
  | done outcome => rfl
  | record entry rest ih => exact congrArg (entry :: ·) ih
  | pause rest ih => exact ih

@[simp] theorem pauses_quiet (run : Run α) : run.quiet.pauses = 0 := by
  induction run with
  | done outcome => rfl
  | record entry rest ih => exact ih
  | pause rest ih => exact ih

theorem quiet_quiet (run : Run α) : run.quiet.quiet = run.quiet := by
  induction run with
  | done outcome => rfl
  | record entry rest ih => exact congrArg (Run.record entry) ih
  | pause rest ih => exact ih

theorem quiet_mapError (f : EvalError → EvalError) (run : Run α) :
    (run.mapError f).quiet = run.quiet.mapError f := by
  induction run with
  | done outcome => rfl
  | record entry rest ih => exact congrArg (Run.record entry) ih
  | pause rest ih => exact ih

theorem quiet_pauseTimes (count : Nat) (run : Run α) :
    (run.pauseTimes count).quiet = run.quiet := by
  induction count with
  | zero => rfl
  | succ count ih => exact ih

/-- Both runs fail, or both have the same value and record the same entries in some order. -/
inductive Agrees (run other : Run α) : Prop
  | values {value : α} : run.outcome = .ok value → other.outcome = .ok value →
    run.log.Perm other.log → Agrees run other
  | failures {error otherError : EvalError} : run.outcome = .error error →
    other.outcome = .error otherError → Agrees run other

namespace Agrees

variable {run other : Run α}

theorem of_quiet_eq (same : run.quiet = other.quiet) : Agrees run other := by
  have outcome := congrArg Run.outcome same
  have log := congrArg Run.log same
  rw [outcome_quiet, outcome_quiet] at outcome
  rw [log_quiet, log_quiet] at log
  cases ends : run.outcome with
  | ok value => exact .values ends (outcome.symm.trans ends) (.of_eq log)
  | error error => exact .failures ends (outcome.symm.trans ends)

theorem refl (run : Run α) : Agrees run run :=
  of_quiet_eq rfl

theorem symm (agrees : Agrees run other) : Agrees other run := by
  cases agrees with
  | values first second logs => exact .values second first logs.symm
  | failures first second => exact .failures second first

theorem bind (agrees : Agrees run other) {next otherNext : α → Run β}
    (after : ∀ value, Agrees (next value) (otherNext value)) :
    Agrees (run.bind next) (other.bind otherNext) := by
  cases agrees with
  | @values value first second logs =>
    have end₁ := outcome_bind_of_ok first next
    have end₂ := outcome_bind_of_ok second otherNext
    cases after value with
    | values next₁ next₂ nextLogs =>
      refine .values (end₁.trans next₁) (end₂.trans next₂) ?_
      rw [log_bind_of_ok first, log_bind_of_ok second]
      exact logs.append nextLogs
    | failures next₁ next₂ => exact .failures (end₁.trans next₁) (end₂.trans next₂)
  | failures first second =>
    exact .failures (outcome_bind_of_error first next) (outcome_bind_of_error second otherNext)

theorem map (agrees : Agrees run other) (f : α → β) : Agrees (run.map f) (other.map f) := by
  rw [map_eq_bind, map_eq_bind]
  exact agrees.bind fun value => .refl (.ok (f value))

/-- If all of some siblings have values, those that agree with them have the same ones. -/
theorem values_of_forall {runs others : List (Run α)} (agree : List.Forall₂ Agrees runs others)
    {values : List α} (ends : runs.map outcome = values.map .ok) :
    others.map outcome = values.map .ok ∧ (runs.flatMap log).Perm (others.flatMap log) := by
  induction agree generalizing values with
  | nil => exact ⟨ends, .refl _⟩
  | cons agrees _ ih =>
    cases values with
    | nil => cases ends
    | cons value rest =>
      obtain ⟨first, restEnds⟩ := List.cons.inj ends
      obtain ⟨same, restLogs⟩ := ih restEnds
      cases agrees with
      | values own second logs =>
        cases own.symm.trans first
        refine ⟨?_, logs.append restLogs⟩
        rw [List.map_cons, second, same, List.map_cons]
      | failures own _ => cases own.symm.trans first

theorem joinAll {runs others : List (Run α)} (agree : List.Forall₂ Agrees runs others) :
    Agrees (joinAll runs) (joinAll others) := by
  cases joined_joinAll runs with
  | @values values outcomes ends logs =>
    obtain ⟨otherOutcomes, both⟩ := values_of_forall agree outcomes
    cases joined_joinAll others with
    | @values otherValues same otherEnds otherLogs =>
      have valuesEq : otherValues = values :=
        List.map_injective_iff.2 (fun _ _ => Except.ok.inj) (same.symm.trans otherOutcomes)
      subst valuesEq
      exact .values ends otherEnds ((logs.trans both).trans otherLogs.symm)
    | failure mem _ =>
      rw [otherOutcomes] at mem
      obtain ⟨_, _, eq⟩ := List.mem_map.1 mem
      cases eq
  | failure mem ends =>
    cases joined_joinAll others with
    | values outcomes _ _ =>
      have flipped : List.Forall₂ Agrees others runs :=
        (List.Forall₂.flip agree).imp fun _ _ agrees => agrees.symm
      rw [(values_of_forall flipped outcomes).1] at mem
      obtain ⟨_, _, eq⟩ := List.mem_map.1 mem
      cases eq
    | failure _ otherEnds => exact .failures ends otherEnds

end Agrees

end Run

/-! ## Grammars without their suspensions -/

theorem Fields.find?_map {α β : Type} (f : α → β) (fields : Fields α) (name : String) :
    find? name (fields.map fun entry => (entry.1, f entry.2)) = (find? name fields).map f := by
  induction fields with
  | nil => rfl
  | cons entry rest ih =>
    rw [List.map_cons, find?, find?]
    split
    · rfl
    · exact ih

namespace Registry

variable {α β : Type}

/-- Applies a function to all entries. -/
def map (f : α → β) (registry : Registry α) : Registry β where
  fields := registry.fields.map fun entry => (entry.1, f entry.2)
  nodup := by
    rw [Fields.names, List.map_map]
    exact registry.nodup

theorem find?_map (f : α → β) (registry : Registry α) (name : String) :
    (registry.map f).find? name = (registry.find? name).map f :=
  Fields.find?_map f registry.fields name

end Registry

namespace Grammar

variable {g : Grammar}

/-- The grammar with callables that do the same and never suspend. -/
def quiet (g : Grammar) : Grammar where
  elements := g.elements
  functions := g.functions.map fun function args => (function args).quiet
  transforms := g.transforms.map fun transform args => (transform args).quiet

theorem IsStandard.quiet (standard : g.IsStandard) : g.quiet.IsStandard :=
  standard

theorem callable_quiet (g : Grammar) (pool : Pool) (name : String) :
    Expr.callable g.quiet pool name =
      (Expr.callable g pool name).map fun callable args => (callable args).quiet := by
  cases pool with
  | functions =>
    rw [Expr.callable, Expr.callable, function?, function?, quiet, Registry.find?_map]
    cases g.functions.find? name <;> rfl
  | transforms =>
    rw [Expr.callable, Expr.callable, transform?, transform?, quiet, Registry.find?_map]
    cases g.transforms.find? name <;> rfl

theorem isSynchronous_quiet (g : Grammar) : g.quiet.IsSynchronous := by
  intro pool name callable found args
  rw [callable_quiet] at found
  cases own : Expr.callable g pool name with
  | error error =>
    rw [own] at found
    cases found
  | ok callable =>
    rw [own] at found
    cases found
    exact Run.pauses_quiet (callable args)

theorem invoke_quiet (g : Grammar) (pool : Pool) (name : String) (args : List Value) :
    Expr.invoke g.quiet pool name args = (Expr.invoke g pool name args).quiet := by
  rw [Expr.invoke, Expr.invoke, callable_quiet]
  cases Expr.callable g pool name with
  | error error => rfl
  | ok callable => exact (Run.quiet_mapError _ _).symm

/-- The evaluation with a quiet grammar never suspends. -/
theorem pauses_eval_quiet (standard : g.IsStandard) (e : Expr) (scope : Scope) :
    (Expr.eval g.quiet scope e).pauses = 0 :=
  Expr.pauses_eval standard.quiet g.isSynchronous_quiet e scope

end Grammar

/-! ## Calls that know their places -/

/-- Where in an evaluation an expression is evaluated: the number of each expression on the way from
it out to the whole, among the operands of the next one. A filter has its subject first, then the
test of each element. -/
abbrev Place := List Nat

/-- What calls do. -/
abbrev Caller := Place → Pool → String → List Value → Run Value

namespace Expr

mutual

/-- The evaluation of an expression at a place, with calls that know theirs. -/
def evalAt (g : Grammar) (call : Caller) (place : Place) (scope : Scope) : Expr → Run Value
  | .literal value => .ok value
  | .ident name relative => .ok ((scope.root relative).property name)
  | .member subject name _ => (evalAt g call (0 :: place) scope subject).map (Value.property name)
  | .binary operator left right =>
    g.applyBinary operator (evalAt g call (0 :: place) scope left)
      (evalAt g call (1 :: place) scope right)
  | .unary operator right => g.applyUnary operator (evalAt g call (0 :: place) scope right)
  | .cond test yes no =>
    (evalAt g call (0 :: place) scope test).bind fun value =>
      if value.isTruthy then evalAt g call (1 :: place) scope yes
      else evalAt g call (2 :: place) scope no
  | .elvis test otherwise =>
    (evalAt g call (0 :: place) scope test).bind fun value =>
      if value.isTruthy then .ok value else evalAt g call (1 :: place) scope otherwise
  | .filter subject predicate true =>
    (evalAt g call (0 :: place) scope subject).bind fun value =>
      (Run.joinAll (value.elements.zipIdx.map fun element =>
        evalAt g call ((element.2 + 1) :: place) (scope.visiting element.1) predicate)).map
          fun verdicts => .array (keep value.elements verdicts)
  | .filter subject key false =>
    (evalAt g call (0 :: place) scope subject).bind fun value =>
      (evalAt g call (1 :: place) scope key).map fun key => value.index key
  | .array items => (Run.joinAll (evalItemsAt g call place scope 0 items)).map .array
  | .object entries =>
    (Run.joinAll (evalEntriesAt g call place scope 0 entries)).map fun values =>
      .ofEntries ((entries.map Prod.fst).zip values)
  | .call pool name args =>
    (Run.joinAll (evalItemsAt g call place scope 0 args)).bind (call place pool name)

/-- The evaluations of expressions that stand side by side, numbered from a position on. -/
def evalItemsAt (g : Grammar) (call : Caller) (place : Place) (scope : Scope) :
    Nat → List Expr → List (Run Value)
  | _, [] => []
  | i, item :: rest =>
    evalAt g call (i :: place) scope item :: evalItemsAt g call place scope (i + 1) rest

/-- The evaluations of the values of entries, numbered from a position on. -/
def evalEntriesAt (g : Grammar) (call : Caller) (place : Place) (scope : Scope) :
    Nat → List (String × Expr) → List (Run Value)
  | _, [] => []
  | i, (_, value) :: rest =>
    evalAt g call (i :: place) scope value :: evalEntriesAt g call place scope (i + 1) rest

end

variable {g : Grammar} {call : Caller}

theorem evalItemsAt_eq {place : Place} {scope : Scope} {items : List Expr}
    (same : ∀ item ∈ items, ∀ place, evalAt g call place scope item = eval g scope item)
    (i : Nat) : evalItemsAt g call place scope i items = evalItems g scope items := by
  induction items generalizing i with
  | nil => rfl
  | cons item rest ih =>
    obtain ⟨first, others⟩ := List.forall_mem_cons.1 same
    rw [evalItemsAt, evalItems, first, ih others]

theorem evalEntriesAt_eq_evalItemsAt (place : Place) (scope : Scope) (i : Nat)
    (entries : List (String × Expr)) :
    evalEntriesAt g call place scope i entries =
      evalItemsAt g call place scope i (entries.map Prod.snd) := by
  induction entries generalizing i with
  | nil => rfl
  | cons entry rest ih => rw [evalEntriesAt, ih, List.map_cons, evalItemsAt]

theorem map_zipIdx {α β : Type} (f : α → β) (items : List α) :
    (items.zipIdx.map fun item => f item.1) = items.map f := by
  conv_rhs => rw [← List.zipIdx_map_fst 0 items, List.map_map]
  rfl

/-- Calls of what a grammar has under their names need no places. -/
theorem evalAt_invoke (g : Grammar) (e : Expr) (place : Place) (scope : Scope) :
    evalAt g (fun _ => invoke g) place scope e = eval g scope e := by
  induction e generalizing place scope with
  | literal value => rfl
  | ident name relative => rfl
  | member subject name relative ih => rw [evalAt, eval, ih]
  | binary operator left right first second => rw [evalAt, Grammar.eval_binary, first, second]
  | unary operator right ih => rw [evalAt, Grammar.eval_unary, ih]
  | cond test yes no ih first second =>
    rw [evalAt, eval, ih]
    simp only [first, second]
  | elvis test otherwise ih second =>
    rw [evalAt, eval, ih]
    simp only [second]
  | filter subject predicate relative ih inside =>
    cases relative with
    | true =>
      rw [evalAt, eval, ih]
      simp only [inside]
      refine congrArg _ (funext fun value => ?_)
      rw [map_zipIdx fun item => eval g (scope.visiting item) predicate]
    | false =>
      rw [evalAt, eval, ih]
      simp only [inside]
  | array items ih =>
    rw [evalAt, eval, evalItemsAt_eq fun item mem place => ih item mem place scope]
  | object entries ih =>
    rw [evalAt, eval, evalEntriesAt_eq_evalItemsAt, evalEntries_eq_evalItems,
      evalItemsAt_eq (List.forall_mem_map.2 fun entry mem place => ih entry mem place scope)]
  | call pool name args ih =>
    rw [evalAt, eval, evalItemsAt_eq fun arg mem place => ih arg mem place scope]

end Expr

/-- The calls do what the callables of the grammar do, but suspend as they like. -/
def Caller.Paces (call : Caller) (g : Grammar) : Prop :=
  ∀ place pool name args, (call place pool name args).quiet = (Expr.invoke g pool name args).quiet

/-- Calls may suspend any number of times, at each place another one. -/
theorem Caller.paces_pauseTimes (g : Grammar) (count : Place → Nat) :
    Caller.Paces (fun place pool name args =>
      (Expr.invoke g pool name args).pauseTimes (count place)) g :=
  fun place _ _ _ => Run.quiet_pauseTimes (count place) _

/-! ## Agreement of evaluations -/

open Run (Agrees)

namespace Expr

variable {g : Grammar} {call : Caller}

theorem agrees_applyBinary (standard : g.IsStandard) (symbol : String)
    {left left' right right' : Run Value} (first : Agrees left left')
    (second : Agrees right right') :
    Agrees (g.applyBinary symbol left right) (g.quiet.applyBinary symbol left' right') := by
  rw [standard.applyBinary_eq, standard.quiet.applyBinary_eq]
  cases BuiltIn.ofSymbol? symbol with
  | none => exact .refl _
  | some builtIn =>
    cases builtIn with
    | or =>
      refine first.bind fun value => ?_
      split
      · exact .refl _
      · exact second
    | and =>
      refine first.bind fun value => ?_
      split
      · exact second
      · exact .refl _
    | strict apply => exact first.bind fun a => second.bind fun b => .refl _

theorem agrees_applyUnary (g : Grammar) (symbol : String) {right right' : Run Value}
    (agrees : Agrees right right') :
    Agrees (g.applyUnary symbol right) (g.quiet.applyUnary symbol right') := by
  change Agrees (g.applyUnary symbol right) (g.applyUnary symbol right')
  unfold Grammar.applyUnary
  split
  · exact .refl _
  · exact agrees.bind fun value => .refl _

theorem agrees_items {place : Place} {scope : Scope} {items : List Expr}
    (agree : ∀ item ∈ items, ∀ place,
      Agrees (evalAt g call place scope item) (eval g.quiet scope item)) (i : Nat) :
    List.Forall₂ Agrees (evalItemsAt g call place scope i items)
      (evalItems g.quiet scope items) := by
  induction items generalizing i with
  | nil => exact .nil
  | cons item rest ih =>
    obtain ⟨first, others⟩ := List.forall_mem_cons.1 agree
    exact .cons (first _) (ih others (i + 1))

/-- Expressions that stand side by side agree as a group if each of them does. -/
theorem agrees_group {place : Place} {scope : Scope} {items : List Expr}
    (agree : ∀ item ∈ items, ∀ place,
      Agrees (evalAt g call place scope item) (eval g.quiet scope item)) :
    Agrees (Run.joinAll (evalItemsAt g call place scope 0 items))
      (Run.joinAll (evalItems g.quiet scope items)) :=
  .joinAll (agrees_items agree 0)

/-- However the calls suspend, an evaluation agrees with the one that never suspends. -/
theorem agrees_eval (standard : g.IsStandard) (paces : call.Paces g) (e : Expr) (place : Place)
    (scope : Scope) : Agrees (evalAt g call place scope e) (eval g.quiet scope e) := by
  induction e generalizing place scope with
  | literal value => exact .refl _
  | ident name relative => exact .refl _
  | member subject name relative ih =>
    rw [evalAt, eval]
    exact (ih _ scope).map _
  | binary operator left right first second =>
    rw [evalAt, Grammar.eval_binary]
    exact agrees_applyBinary standard operator (first _ scope) (second _ scope)
  | unary operator right ih =>
    rw [evalAt, Grammar.eval_unary]
    exact agrees_applyUnary g operator (ih _ scope)
  | cond test yes no ih first second =>
    rw [evalAt, eval]
    refine (ih _ scope).bind fun value => ?_
    split
    · exact first _ scope
    · exact second _ scope
  | elvis test otherwise ih second =>
    rw [evalAt, eval]
    refine (ih _ scope).bind fun value => ?_
    split
    · exact .refl _
    · exact second _ scope
  | filter subject predicate relative ih inside =>
    cases relative with
    | true =>
      rw [evalAt, eval]
      refine (ih _ scope).bind fun value => Agrees.map ?_ _
      rw [← map_zipIdx fun item => eval g.quiet (scope.visiting item) predicate]
      apply Agrees.joinAll
      rw [List.forall₂_map_left_iff, List.forall₂_map_right_iff, List.forall₂_same]
      exact fun element _ => inside _ _
    | false =>
      rw [evalAt, eval]
      exact (ih _ scope).bind fun value => (inside _ scope).map _
  | array items ih =>
    rw [evalAt, eval]
    exact (agrees_group fun item mem place => ih item mem place scope).map _
  | object entries ih =>
    rw [evalAt, eval, evalEntriesAt_eq_evalItemsAt, evalEntries_eq_evalItems]
    refine (agrees_group ?_).map _
    exact List.forall_mem_map.2 fun entry mem place => ih entry mem place scope
  | call pool name args ih =>
    rw [evalAt, eval]
    refine (agrees_group fun arg mem place => ih arg mem place scope).bind fun values => ?_
    refine .of_quiet_eq ?_
    rw [Grammar.invoke_quiet, Run.quiet_quiet]
    exact paces place pool name values

/-- However often each of the calls suspends, an evaluation fails if and only if the one fails that
never suspends, and otherwise it has the same value and records the same, in some order. -/
theorem evalAt_of_paces (standard : g.IsStandard) (paces : call.Paces g) (place : Place)
    (scope : Scope) (e : Expr) :
    ((∃ error, (evalAt g call place scope e).outcome = .error error) ↔
        ∃ error, (eval g.quiet scope e).outcome = .error error) ∧
      ∀ value, (evalAt g call place scope e).outcome = .ok value →
        (eval g.quiet scope e).outcome = .ok value ∧
          (evalAt g call place scope e).log.Perm (eval g.quiet scope e).log := by
  cases agrees_eval standard paces e place scope with
  | values first second logs =>
    refine ⟨⟨?_, ?_⟩, ?_⟩
    · rintro ⟨error, fails⟩
      cases first.symm.trans fails
    · rintro ⟨error, fails⟩
      cases second.symm.trans fails
    · intro value ends
      cases first.symm.trans ends
      exact ⟨second, logs⟩
  | failures first second =>
    refine ⟨⟨fun _ => ⟨_, second⟩, fun _ => ⟨_, first⟩⟩, ?_⟩
    intro value ends
    cases first.symm.trans ends

/-- The call for the first element suspends twice, the one for the second not at all. -/
def hesitant : Caller :=
  fun place pool name args =>
    (invoke noting pool name args).pauseTimes (if place = [1] then 2 else 0)

/-- Two elements, both of them noted by a filter. -/
def noteElements : Expr :=
  .filter (.literal (.array [.object [("x", .int 1)], .object [("x", .int 2)]]))
    (.call .functions "note" [.ident "x" true]) true

/-- The second element is noted before the first, and both are kept all the same. -/
theorem evalAt_of_paces_noteElements :
    (evalAt noting hesitant [] ⟨.null, none⟩ noteElements).log = [.int 2, .int 1] ∧
      (eval noting.quiet ⟨.null, none⟩ noteElements).outcome =
        .ok (.array [.object [("x", .int 1)], .object [("x", .int 2)]]) ∧
      [.int 2, .int 1].Perm (eval noting.quiet ⟨.null, none⟩ noteElements).log := by
  have paces : hesitant.Paces noting :=
    Caller.paces_pauseTimes noting fun place => if place = [1] then 2 else 0
  obtain ⟨_, same⟩ := evalAt_of_paces isStandard_noting paces [] ⟨.null, none⟩ noteElements
  obtain ⟨ends, logs⟩ := same _ rfl
  exact ⟨rfl, ends, logs⟩

end Expr

end JsonExpr
