import JsonExpr.Proofs.Engine
import JsonExpr.Proofs.Groups
import JsonExpr.Proofs.Lexer
import JsonExpr.Proofs.Operators
import JsonExpr.Proofs.Parser.WellFormed
import JsonExpr.Proofs.Sequential

/-!
Where the failures of evaluations come from. A failure of a whole expression is that of one of its
nodes, unchanged: `Expr.exists_raises` finds the node, an operator or a call whose operands have
values.

What a source compiles to has registered operators only, so an unknown operator can only be a
failure that an operator of the host gives. With the built-in operators all failures are of four
kinds (`Expr.Explained`).
-/

namespace JsonExpr

/-! ## Conjunction and disjunction -/

namespace Run

variable {left right : Run Value} {error : EvalError}

theorem of_or_eq_error (fails : (left.or right).outcome = .error error) :
    left.outcome = .error error ∨ right.outcome = .error error := by
  rcases of_outcome_bind_eq_error fails with fails | ⟨value, _, fails⟩
  · exact .inl fails
  · split at fails
    · cases fails
    · exact .inr fails

theorem of_and_eq_error (fails : (left.and right).outcome = .error error) :
    left.outcome = .error error ∨ right.outcome = .error error := by
  rcases of_outcome_bind_eq_error fails with fails | ⟨value, _, fails⟩
  · exact .inl fails
  · split at fails
    · exact .inr fails
    · cases fails

end Run

namespace Expr

variable {g : Grammar}

theorem WellFormed.of_mem_children {tree child : Expr} (wellFormed : tree.WellFormed g)
    (mem : child ∈ tree.children) : child.WellFormed g := by
  cases tree with
  | literal value => cases mem
  | ident name relative => cases mem
  | member subject name relative =>
    cases List.mem_singleton.1 mem
    exact wellFormed.2
  | binary operator left right =>
    simp only [children, List.mem_cons, List.not_mem_nil, or_false] at mem
    rcases mem with rfl | rfl
    · exact wellFormed.2.1
    · exact wellFormed.2.2
  | unary operator right =>
    cases List.mem_singleton.1 mem
    exact wellFormed.2
  | cond test yes no =>
    simp only [children, List.mem_cons, List.not_mem_nil, or_false] at mem
    rcases mem with rfl | rfl | rfl
    · exact wellFormed.1
    · exact wellFormed.2.1
    · exact wellFormed.2.2
  | elvis test otherwise =>
    simp only [children, List.mem_cons, List.not_mem_nil, or_false] at mem
    rcases mem with rfl | rfl
    · exact wellFormed.1
    · exact wellFormed.2
  | filter subject predicate relative =>
    simp only [children, List.mem_cons, List.not_mem_nil, or_false] at mem
    rcases mem with rfl | rfl
    · exact wellFormed.2.1
    · exact wellFormed.2.2
  | array items => exact wellFormedItems_iff.1 wellFormed child mem
  | object entries =>
    obtain ⟨entry, inEntries, rfl⟩ := List.mem_map.1 mem
    exact wellFormedEntries_iff.1 wellFormed entry inEntries
  | call pool name args => exact wellFormedItems_iff.1 wellFormed.2 child mem

theorem WellFormed.of_contains {tree node : Expr} (wellFormed : tree.WellFormed g)
    (contains : tree.Contains node) : node.WellFormed g := by
  induction contains with
  | self => exact wellFormed
  | child _ mem ih => exact ih.of_mem_children mem

/-! ## Failures of nodes -/

/-- The operator of the node, as it is registered, itself returns the error. -/
inductive OperatorReturns (g : Grammar) (scope : Scope) (error : EvalError) : Expr → Prop
  | direct {symbol : String} {left right : Expr} {precedence : UInt32}
      {apply : Value → Value → Except EvalError Value} {a b : Value} :
    g.binary? symbol = some ⟨precedence, .direct apply⟩ →
    (left.eval g scope).outcome = .ok a → (right.eval g scope).outcome = .ok b →
    apply a b = .error error → OperatorReturns g scope error (.binary symbol left right)
  | deferred {symbol : String} {left right : Expr} {precedence : UInt32}
      {apply : Run Value → Run Value → Run Value} :
    g.binary? symbol = some ⟨precedence, .deferred apply⟩ →
    (left.eval g scope).outcome ≠ .error error → (right.eval g scope).outcome ≠ .error error →
    (apply (left.eval g scope) (right.eval g scope)).outcome = .error error →
    OperatorReturns g scope error (.binary symbol left right)
  | unary {symbol : String} {right : Expr} {op : UnaryOp} {a : Value} :
    g.unary? symbol = some op → (right.eval g scope).outcome = .ok a →
    op.apply a = .error error → OperatorReturns g scope error (.unary symbol right)

/-- The node itself gives the error. -/
inductive Raises (g : Grammar) (scope : Scope) (error : EvalError) : Expr → Prop
  | operator {node : Expr} : OperatorReturns g scope error node → Raises g scope error node
  | noBinary {symbol : String} {left right : Expr} :
    g.binary? symbol = none → error = .unknownOperator symbol →
    Raises g scope error (.binary symbol left right)
  | noUnary {symbol : String} {right : Expr} :
    g.unary? symbol = none → error = .unknownOperator symbol →
    Raises g scope error (.unary symbol right)
  | call {pool : Pool} {name : String} {args : List Expr} {values : List Value} :
    args.map (fun arg => (arg.eval g scope).outcome) = values.map .ok →
    (invoke g pool name values).outcome = .error error →
    Raises g scope error (.call pool name args)

/-- Some node of the tree gives the error, in the given context. -/
def Origin (g : Grammar) (context : Value) (error : EvalError) (tree : Expr) : Prop :=
  ∃ node element, tree.Contains node ∧ Raises g ⟨context, element⟩ error node

variable {context : Value} {error : EvalError}

theorem Origin.of_child {tree child : Expr} (mem : child ∈ tree.children)
    (origin : Origin g context error child) : Origin g context error tree := by
  obtain ⟨node, element, contains, raises⟩ := origin
  exact ⟨node, element, .of_child mem contains, raises⟩

theorem origin_binary {symbol : String} {left right : Expr} {element : Option Value}
    (first : (left.eval g ⟨context, element⟩).outcome = .error error →
      Origin g context error left)
    (second : (right.eval g ⟨context, element⟩).outcome = .error error →
      Origin g context error right)
    (fails : (eval g ⟨context, element⟩ (.binary symbol left right)).outcome = .error error) :
    Origin g context error (.binary symbol left right) := by
  have inLeft : left ∈ children (.binary symbol left right) := List.mem_cons_self
  have inRight : right ∈ children (.binary symbol left right) :=
    List.mem_cons_of_mem _ List.mem_cons_self
  rw [eval] at fails
  split at fails
  · rename_i unknown
    cases fails
    exact ⟨_, element, .self, .noBinary unknown rfl⟩
  · rename_i precedence apply registered
    rcases Run.of_outcome_bind_eq_error fails with fails | ⟨a, leftEnds, fails⟩
    · exact .of_child inLeft (first fails)
    · rcases Run.of_outcome_bind_eq_error fails with fails | ⟨b, rightEnds, fails⟩
      · exact .of_child inRight (second fails)
      · exact ⟨_, element, .self, .operator (.direct registered leftEnds rightEnds fails)⟩
  · rename_i precedence apply registered
    by_cases leftFails : (left.eval g ⟨context, element⟩).outcome = .error error
    · exact .of_child inLeft (first leftFails)
    · by_cases rightFails : (right.eval g ⟨context, element⟩).outcome = .error error
      · exact .of_child inRight (second rightFails)
      · exact ⟨_, element, .self, .operator (.deferred registered leftFails rightFails fails)⟩

theorem origin_unary {symbol : String} {right : Expr} {element : Option Value}
    (inner : (right.eval g ⟨context, element⟩).outcome = .error error →
      Origin g context error right)
    (fails : (eval g ⟨context, element⟩ (.unary symbol right)).outcome = .error error) :
    Origin g context error (.unary symbol right) := by
  rw [eval] at fails
  split at fails
  · rename_i unknown
    cases fails
    exact ⟨_, element, .self, .noUnary unknown rfl⟩
  · rename_i op registered
    rcases Run.of_outcome_bind_eq_error fails with fails | ⟨a, ends, fails⟩
    · exact .of_child List.mem_cons_self (inner fails)
    · exact ⟨_, element, .self, .operator (.unary registered ends fails)⟩

/-- An evaluation that fails fails as one of its nodes does. -/
theorem origin_of_eval {e : Expr} {element : Option Value}
    (fails : (e.eval g ⟨context, element⟩).outcome = .error error) : Origin g context error e := by
  induction e generalizing element with
  | literal value => cases fails
  | ident name relative => cases fails
  | member subject name relative ih =>
    rw [eval, Run.outcome_map_eq_error_iff] at fails
    exact .of_child List.mem_cons_self (ih fails)
  | binary symbol left right first second => exact origin_binary first second fails
  | unary symbol right ih => exact origin_unary ih fails
  | cond test yes no ih first second =>
    rw [eval] at fails
    rcases Run.of_outcome_bind_eq_error fails with fails | ⟨value, _, fails⟩
    · exact .of_child (by simp [children]) (ih fails)
    · split at fails
      · exact .of_child (by simp [children]) (first fails)
      · exact .of_child (by simp [children]) (second fails)
  | elvis test otherwise ih second =>
    rw [eval] at fails
    rcases Run.of_outcome_bind_eq_error fails with fails | ⟨value, _, fails⟩
    · exact .of_child (by simp [children]) (ih fails)
    · split at fails
      · cases fails
      · exact .of_child (by simp [children]) (second fails)
  | filter subject predicate relative ih inside =>
    cases relative with
    | true =>
      rw [eval] at fails
      rcases Run.of_outcome_bind_eq_error fails with fails | ⟨value, _, fails⟩
      · exact .of_child (by simp [children]) (ih fails)
      · rw [Run.outcome_map_eq_error_iff] at fails
        obtain ⟨run, mem, fails⟩ := Run.exists_of_joinAll_eq_error fails
        obtain ⟨item, _, rfl⟩ := List.mem_map.1 mem
        exact .of_child (by simp [children]) (inside fails)
    | false =>
      rw [eval] at fails
      rcases Run.of_outcome_bind_eq_error fails with fails | ⟨value, _, fails⟩
      · exact .of_child (by simp [children]) (ih fails)
      · rw [Run.outcome_map_eq_error_iff] at fails
        exact .of_child (by simp [children]) (inside fails)
  | array items ih =>
    rw [eval, Run.outcome_map_eq_error_iff, evalItems_eq_map] at fails
    obtain ⟨run, mem, fails⟩ := Run.exists_of_joinAll_eq_error fails
    obtain ⟨item, inItems, rfl⟩ := List.mem_map.1 mem
    exact .of_child inItems (ih item inItems fails)
  | object entries ih =>
    rw [eval, Run.outcome_map_eq_error_iff, evalEntries_eq_map] at fails
    obtain ⟨run, mem, fails⟩ := Run.exists_of_joinAll_eq_error fails
    obtain ⟨entry, inEntries, rfl⟩ := List.mem_map.1 mem
    exact .of_child (List.mem_map_of_mem inEntries) (ih entry inEntries fails)
  | call pool name args ih =>
    rw [eval, evalItems_eq_map] at fails
    rcases Run.of_outcome_bind_eq_error fails with fails | ⟨values, ends, fails⟩
    · obtain ⟨run, mem, fails⟩ := Run.exists_of_joinAll_eq_error fails
      obtain ⟨arg, inArgs, rfl⟩ := List.mem_map.1 mem
      exact .of_child inArgs (ih arg inArgs fails)
    · have outcomes := Run.outcomes_of_joinAll_eq_ok ends
      rw [List.map_map] at outcomes
      exact ⟨_, element, .self, .call outcomes fails⟩

/-! ## Built-in operators -/

/-- The symbol of the operator of a node. -/
def operator? : Expr → Option String
  | .binary symbol _ _ | .unary symbol _ => some symbol
  | _ => none

/-- The built-in operator of the node returns the error, for the values of its operands. -/
inductive BuiltInReturns (g : Grammar) (scope : Scope) (error : EvalError) : Expr → Prop
  | strict {symbol : String} {left right : Expr} {apply : Value → Value → Except EvalError Value}
      {a b : Value} :
    BuiltIn.ofSymbol? symbol = some (.strict apply) →
    (left.eval g scope).outcome = .ok a → (right.eval g scope).outcome = .ok b →
    apply a b = .error error → BuiltInReturns g scope error (.binary symbol left right)

variable {scope : Scope} {node : Expr}

theorem BuiltInReturns.isArithmetic (returns : BuiltInReturns g scope error node) :
    error.IsArithmetic := by
  cases returns with
  | strict builtIn _ _ fails => exact BuiltIn.isArithmetic_of_strict builtIn fails

/-- Where an operator is the built-in one of its symbol, it returns an error as that does. -/
theorem OperatorReturns.builtIn (returns : OperatorReturns g scope error node) {symbol : String}
    (operator : node.operator? = some symbol)
    (same : g.element? symbol = Grammar.standard.element? symbol) :
    BuiltInReturns g scope error node := by
  have binary : g.binary? symbol = Grammar.standard.binary? symbol := by
    rw [Grammar.binary?, Grammar.binary?, same]
  have table := Grammar.map_binary?_standard symbol
  rw [← binary] at table
  cases returns with
  | direct registered first second fails =>
    cases operator
    rw [registered] at table
    cases listed : BuiltIn.ofSymbol? symbol with
    | none =>
      rw [listed] at table
      cases table
    | some builtIn =>
      rw [listed] at table
      cases builtIn <;> cases table
      exact .strict listed first second fails
  | deferred registered first second fails =>
    cases operator
    rw [registered] at table
    cases listed : BuiltIn.ofSymbol? symbol with
    | none =>
      rw [listed] at table
      cases table
    | some builtIn =>
      rw [listed] at table
      cases builtIn <;> cases table
      · exact ((Run.of_or_eq_error fails).elim first second).elim
      · exact ((Run.of_and_eq_error fails).elim first second).elim
  | unary registered ends fails =>
    cases operator
    have unary : g.unary? symbol = Grammar.standard.unary? symbol := by
      rw [Grammar.unary?, Grammar.unary?, same]
    rw [unary, Grammar.unary?_standard] at registered
    split at registered <;> cases registered
    cases fails

/-! ## Calls -/

theorem of_callable_eq_error {pool : Pool} {name : String}
    (fails : callable g pool name = .error error) :
    (pool = .functions ∧ error = .unknownFunction name ∧ g.function? name = none) ∨
      (pool = .transforms ∧ error = .unknownTransform name ∧ g.transform? name = none) := by
  cases pool with
  | functions =>
    cases found : g.function? name with
    | none =>
      simp only [callable, found, Except.error.injEq] at fails
      exact .inl ⟨rfl, fails.symm, rfl⟩
    | some function => simp [callable, found] at fails
  | transforms =>
    cases found : g.transform? name with
    | none =>
      simp only [callable, found, Except.error.injEq] at fails
      exact .inr ⟨rfl, fails.symm, rfl⟩
    | some transform => simp [callable, found] at fails

theorem of_invoke_eq_error {pool : Pool} {name : String} {values : List Value}
    (fails : (invoke g pool name values).outcome = .error error) :
    callable g pool name = .error error ∨
      ∃ registered source, callable g pool name = .ok registered ∧
        (registered values).outcome = .error source ∧ error = .callable name source := by
  unfold invoke at fails
  split at fails
  · rename_i registered found
    rw [Run.outcome_mapError] at fails
    cases ends : (registered values).outcome with
    | ok value =>
      rw [ends] at fails
      cases fails
    | error source =>
      rw [ends] at fails
      exact .inr ⟨registered, source, found, ends, (Except.error.inj fails).symm⟩
  · rename_i other found
    cases fails
    exact .inl found

/-! ## Failures of trees that fit the grammar -/

/-- In a tree that fits the grammar no operator is missing. -/
theorem Raises.cases_of_wellFormed (raises : Raises g scope error node)
    (wellFormed : node.WellFormed g) :
    (∃ operator, node.operator? = some operator ∧ OperatorReturns g scope error node) ∨
      ∃ pool name args values, node = .call pool name args ∧
        args.map (fun arg => (arg.eval g scope).outcome) = values.map .ok ∧
        (invoke g pool name values).outcome = .error error := by
  cases raises with
  | operator returns =>
    refine .inl ?_
    cases returns with
    | direct registered first second fails =>
      exact ⟨_, rfl, .direct registered first second fails⟩
    | deferred registered first second fails =>
      exact ⟨_, rfl, .deferred registered first second fails⟩
    | unary registered ends fails => exact ⟨_, rfl, .unary registered ends fails⟩
  | noBinary unknown _ =>
    have registered := wellFormed.1
    rw [unknown] at registered
    cases registered
  | noUnary unknown _ =>
    have registered := wellFormed.1
    rw [unknown] at registered
    cases registered
  | call outcomes fails => exact .inr ⟨_, _, _, _, rfl, outcomes, fails⟩

/-- What an unknown operator means for a tree: an operator of the host returns this failure, and it
is not the built-in one of its symbol. -/
theorem exists_operatorReturns {tree : Expr} (wellFormed : tree.WellFormed g) {symbol : String}
    {element : Option Value}
    (fails : (tree.eval g ⟨context, element⟩).outcome = .error (.unknownOperator symbol)) :
    ∃ node element operator, tree.Contains node ∧
      OperatorReturns g ⟨context, element⟩ (.unknownOperator symbol) node ∧
      node.operator? = some operator ∧
      g.element? operator ≠ Grammar.standard.element? operator := by
  obtain ⟨node, element, contains, raises⟩ := origin_of_eval fails
  rcases raises.cases_of_wellFormed (wellFormed.of_contains contains) with
    ⟨operator, named, returns⟩ | ⟨pool, name, args, values, _, _, fails⟩
  · refine ⟨node, element, operator, contains, returns, named, fun same => ?_⟩
    exact (returns.builtIn named same).isArithmetic
  · rcases of_invoke_eq_error fails with unknown | ⟨_, _, _, _, wrapped⟩
    · rcases of_callable_eq_error unknown with ⟨_, other, _⟩ | ⟨_, other, _⟩ <;> cases other
    · cases wrapped

/-- The causes of failures with the built-in operators: a call of a callable that is not there, a
built-in operator that does not apply to its operands, and a callable that fails. -/
def Explained (g : Grammar) (context : Value) (tree : Expr) : EvalError → Prop
  | .unknownFunction name =>
    (∃ args, tree.Contains (.call .functions name args)) ∧ g.function? name = none
  | .unknownTransform name =>
    (∃ args, tree.Contains (.call .transforms name args)) ∧ g.transform? name = none
  | .typeError text =>
    ∃ node element, tree.Contains node ∧
      BuiltInReturns g ⟨context, element⟩ (.typeError text) node
  | .divisionByZero =>
    ∃ node element, tree.Contains node ∧ BuiltInReturns g ⟨context, element⟩ .divisionByZero node
  | .callable name source =>
    ∃ pool args registered values element, tree.Contains (.call pool name args) ∧
      callable g pool name = .ok registered ∧
      args.map (fun arg => (arg.eval g ⟨context, element⟩).outcome) = values.map .ok ∧
      (registered values).outcome = .error source
  | .unknownOperator _ | .custom _ => False

theorem BuiltInReturns.explained {tree : Expr} {element : Option Value}
    (contains : tree.Contains node) (returns : BuiltInReturns g ⟨context, element⟩ error node) :
    Explained g context tree error := by
  have arithmetic := returns.isArithmetic
  cases error with
  | typeError text => exact ⟨node, element, contains, returns⟩
  | divisionByZero => exact ⟨node, element, contains, returns⟩
  | _ => exact arithmetic.elim

theorem explained_of_eval (standard : g.IsStandard) {tree : Expr} (wellFormed : tree.WellFormed g)
    {element : Option Value} (fails : (tree.eval g ⟨context, element⟩).outcome = .error error) :
    Explained g context tree error := by
  obtain ⟨node, element, contains, raises⟩ := origin_of_eval fails
  rcases raises.cases_of_wellFormed (wellFormed.of_contains contains) with
    ⟨operator, named, returns⟩ | ⟨pool, name, args, values, rfl, outcomes, fails⟩
  · exact (returns.builtIn named (standard operator)).explained contains
  · rcases of_invoke_eq_error fails with unknown | ⟨registered, source, found, ends, rfl⟩
    · rcases of_callable_eq_error unknown with ⟨rfl, rfl, absent⟩ | ⟨rfl, rfl, absent⟩
      · exact ⟨⟨args, contains⟩, absent⟩
      · exact ⟨⟨args, contains⟩, absent⟩
    · exact ⟨pool, args, registered, values, element, contains, found, outcomes, ends⟩

end Expr

theorem Dialect.wellFormed_of_read {d : Dialect} {source : String} {tree : Expr}
    (h : d.read source = .ok tree) : tree.WellFormed d.grammar := by
  obtain ⟨ts, _, parsed⟩ := Dialect.read_eq_ok_iff.1 h
  exact Parser.wellFormed_of_parse parsed

/-- How an expression fails that an engine has compiled. An unknown operator is a failure that an
operator of the host has returned; and if the engine had the built-in operators only, the failure
is explained by the tree and by the callables that the engine had. -/
theorem error_of_compiled {e : Engine} (reachable : e.Reachable) {source : String}
    {expression : Expression} (compiled : (e.compile source).2 = .ok expression)
    {context : Value} {error : EvalError}
    (fails : (expression.evaluate context).outcome = .error error) :
    (∀ symbol, error = .unknownOperator symbol →
        ∃ node element operator, expression.tree.expr.Contains node ∧
          Expr.OperatorReturns e.dialect.grammar ⟨context, element⟩ error node ∧
          node.operator? = some operator ∧
          e.dialect.grammar.element? operator ≠ Grammar.standard.element? operator) ∧
      (e.dialect.grammar.IsStandard →
        Expr.Explained e.dialect.grammar context expression.tree.expr error) := by
  obtain ⟨read, grammar⟩ := reachable.faithful.of_compile_eq_ok compiled
  have wellFormed := Dialect.wellFormed_of_read read
  rw [Expression.evaluate, Expr.evaluate, grammar] at fails
  refine ⟨?_, fun standard => Expr.explained_of_eval standard wellFormed fails⟩
  rintro symbol rfl
  exact Expr.exists_operatorReturns wellFormed fails

/-- The tokens of `refuse(null)`. -/
def refusal : List Token :=
  [⟨.identifier, "refuse", .string "refuse"⟩, ⟨.openParen, "(", .string "("⟩,
    ⟨.literal, "null", .null⟩, ⟨.closeParen, ")", .string ")"⟩]

theorem tokenize_refusal : tokenize Expr.noting "refuse(null)" = .ok refusal := by
  have name : Lexes Expr.noting none ['r', 'e', 'f', 'u', 's', 'e']
      [⟨.identifier, "refuse", .string "refuse"⟩] (some .identifier)
      ['(', 'n', 'u', 'l', 'l', ')'] :=
    (Lexeme.Takes.word rfl (List.all_eq_true.1 rfl) fun c mem => by cases mem; rfl).starts nofun
      |>.lexes (.cons rfl)
  have opener : Lexes Expr.noting (some .identifier) ['('] [⟨.openParen, "(", .string "("⟩]
      (some .openParen) ['n', 'u', 'l', 'l', ')'] :=
    Lexes.mark Expr.isStandard_noting (by decide) (.cons rfl)
  have argument : Lexes Expr.noting (some .openParen) ['n', 'u', 'l', 'l']
      [⟨.literal, "null", .null⟩] (some .literal) [')'] :=
    (Lexeme.Takes.word rfl (List.all_eq_true.1 rfl) fun c mem => by cases mem; rfl).starts nofun
      |>.lexes (.cons rfl)
  have closer : Lexes Expr.noting (some .literal) [')'] [⟨.closeParen, ")", .string ")"⟩]
      (some .closeParen) [] := Lexes.mark Expr.isStandard_noting (by decide) nofun
  have text : "refuse(null)" = String.ofList
      (['r', 'e', 'f', 'u', 's', 'e'] ++ (['('] ++ (['n', 'u', 'l', 'l'] ++ [')']))) := rfl
  rw [text]
  exact (name.trans (opener.trans (argument.trans closer))).tokenize (.cons rfl)

theorem read_refusal :
    (⟨Expr.noting, {}⟩ : Dialect).read "refuse(null)" =
      .ok (.call .functions "refuse" [.literal .null]) := by
  rw [Dialect.read, tokenize_refusal]
  rfl

/-- The failure of the callable comes out with its name, and with nothing else around it. -/
theorem error_of_compiled_refusal :
    (Expression.evaluate ⟨"refuse(null)", ⟨0, .call .functions "refuse" [.literal .null]⟩,
        Expr.noting⟩ .null).outcome = .error (.callable "refuse" (.custom "refused")) ∧
      Expr.Explained Expr.noting .null (.call .functions "refuse" [.literal .null])
        (.callable "refuse" (.custom "refused")) := by
  let engine : Engine := (Engine.new {}).updateGrammar fun _ => Expr.noting
  have reachable : engine.Reachable := .step (.new {}) (.updateGrammar fun _ => Expr.noting)
  have compiled : (engine.compile "refuse(null)").2 =
      .ok ⟨"refuse(null)", ⟨0, .call .functions "refuse" [.literal .null]⟩, Expr.noting⟩ :=
    Engine.compile_of_read rfl read_refusal
  obtain ⟨_, explained⟩ := @error_of_compiled engine reachable _ _ compiled .null _ rfl
  exact ⟨rfl, explained Expr.isStandard_noting⟩

end JsonExpr
