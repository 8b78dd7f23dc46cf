import JsonExpr.Proofs.Scoping
import Mathlib.Logic.Relation

/-!
Rewriting with the connectives. An alternative may be written as a disjunction, a negation moved to
the operands of a disjunction or conjunction, and a chain of disjunctions or conjunctions grouped in
another way, anywhere in a tree and any number of times (`Expr.Rewrites`). The evaluation stays what
it was, step by step (`Expr.eval_of_rewrites`): the operands run in the same order and as often.

Each replacement is a law of runs. `Expr.Frame` is what is around a replacement; that an evaluation
does not depend on how it writes its parts is shown frame by frame.
-/

namespace JsonExpr

/-! ## Laws of the connectives -/

namespace Run

theorem or_assoc (a b c : Run Value) : (a.or b).or c = a.or (b.or c) := by
  rw [or, or, or, bind_bind]
  refine congrArg _ (funext fun value => ?_)
  cases truth : value.isTruthy with
  | true => exact if_pos truth
  | false => rfl

theorem and_assoc (a b c : Run Value) : (a.and b).and c = a.and (b.and c) := by
  rw [and, and, and, bind_bind]
  refine congrArg _ (funext fun value => ?_)
  cases truth : value.isTruthy with
  | true => rfl
  | false => exact if_neg (Bool.eq_false_iff.1 truth)

theorem not_and (a b : Run Value) : (a.and b).not = a.not.or b.not := by
  rw [and, not, not, or, bind_bind, bind_bind]
  refine congrArg _ (funext fun value => ?_)
  cases truth : value.isTruthy with
  | true => rfl
  | false =>
    change ok (Value.bool !value.isTruthy) = ok (Value.bool true)
    rw [truth]
    rfl

theorem not_or (a b : Run Value) : (a.or b).not = a.not.and b.not := by
  rw [or, not, not, and, bind_bind, bind_bind]
  refine congrArg _ (funext fun value => ?_)
  cases truth : value.isTruthy with
  | true =>
    change ok (Value.bool !value.isTruthy) = ok (Value.bool false)
    rw [truth]
    rfl
  | false => rfl

/-- Runs with an operation between them, grouped to the right. There has to be one at least. -/
def chain (connect : Run Value → Run Value → Run Value) : List (Run Value) → Run Value
  | [] => .ok .undefined
  | [run] => run
  | run :: rest => connect run (chain connect rest)

theorem chain_append {connect : Run Value → Run Value → Run Value}
    (assoc : ∀ a b c, connect (connect a b) c = connect a (connect b c))
    {left right : List (Run Value)} (first : left ≠ []) (second : right ≠ []) :
    chain connect (left ++ right) = connect (chain connect left) (chain connect right) := by
  induction left with
  | nil => exact absurd rfl first
  | cons run rest ih =>
    cases rest with
    | nil =>
      obtain ⟨other, others, rfl⟩ := List.exists_cons_of_ne_nil second
      rfl
    | cons next rest =>
      have tail := ih (List.cons_ne_nil next rest)
      calc chain connect (run :: (next :: rest ++ right))
          = connect run (chain connect (next :: rest ++ right)) := rfl
        _ = connect run (connect (chain connect (next :: rest)) (chain connect right)) := by
          rw [tail]
        _ = connect (connect run (chain connect (next :: rest))) (chain connect right) :=
          (assoc _ _ _).symm

end Run

/-! ## Replacements -/

namespace Expr

/-- The operands of a chain of one operator; an expression that is no such chain is its only
operand. -/
def operands (operator : String) : Expr → List Expr
  | .binary own left right =>
    if own = operator then operands operator left ++ operands operator right
    else [.binary own left right]
  | e => [e]

theorem operands_ne_nil (operator : String) (e : Expr) : operands operator e ≠ [] := by
  induction e with
  | binary own left right first _ =>
    rw [operands]
    split
    · exact List.append_ne_nil_of_left_ne_nil first _
    · exact List.cons_ne_nil _ _
  | _ => exact List.cons_ne_nil _ _

/-- A replacement of one expression by another. -/
inductive Replaces : Expr → Expr → Prop
  /-- `test ?: otherwise` is a disjunction. -/
  | elvis (test otherwise : Expr) :
    Replaces (.elvis test otherwise) (.binary "||" test otherwise)
  /-- A negated conjunction is a disjunction of negations. -/
  | notAnd (a b : Expr) :
    Replaces (.unary "!" (.binary "&&" a b)) (.binary "||" (.unary "!" a) (.unary "!" b))
  /-- A negated disjunction is a conjunction of negations. -/
  | notOr (a b : Expr) :
    Replaces (.unary "!" (.binary "||" a b)) (.binary "&&" (.unary "!" a) (.unary "!" b))
  /-- A chain of conjunctions or of disjunctions is grouped in another way. -/
  | regroup {operator : String} {tree other : Expr} :
    operator = "||" ∨ operator = "&&" → operands operator tree = operands operator other →
    Replaces tree other

/-- An expression but for one of its parts. -/
inductive Frame
  | member (name : String) (relative : Bool)
  | binaryLeft (operator : String) (right : Expr)
  | binaryRight (operator : String) (left : Expr)
  | unary (operator : String)
  | condTest (yes no : Expr)
  | condYes (test no : Expr)
  | condNo (test yes : Expr)
  | elvisTest (otherwise : Expr)
  | elvisOtherwise (test : Expr)
  | filterSubject (predicate : Expr) (relative : Bool)
  | filterPredicate (subject : Expr) (relative : Bool)
  | arrayItem (before after : List Expr)
  | objectEntry (before : List (String × Expr)) (key : String) (after : List (String × Expr))
  | callArg (pool : Pool) (name : String) (before after : List Expr)

/-- The expression with that part. -/
def Frame.plug (e : Expr) : Frame → Expr
  | .member name relative => .member e name relative
  | .binaryLeft operator right => .binary operator e right
  | .binaryRight operator left => .binary operator left e
  | .unary operator => .unary operator e
  | .condTest yes no => .cond e yes no
  | .condYes test no => .cond test e no
  | .condNo test yes => .cond test yes e
  | .elvisTest otherwise => .elvis e otherwise
  | .elvisOtherwise test => .elvis test e
  | .filterSubject predicate relative => .filter e predicate relative
  | .filterPredicate subject relative => .filter subject e relative
  | .arrayItem before after => .array (before ++ e :: after)
  | .objectEntry before key after => .object (before ++ (key, e) :: after)
  | .callArg pool name before after => .call pool name (before ++ e :: after)

/-- One replacement somewhere in a tree. -/
inductive RewriteStep : Expr → Expr → Prop
  | here {tree other : Expr} : Replaces tree other → RewriteStep tree other
  | inside (frame : Frame) {tree other : Expr} : RewriteStep tree other →
    RewriteStep (frame.plug tree) (frame.plug other)

/-- Any number of replacements, in any places of the tree. -/
abbrev Rewrites : Expr → Expr → Prop :=
  Relation.ReflTransGen RewriteStep

/-! ## Parts of an evaluation -/

variable {g : Grammar} {call : Caller} {tree other : Expr}

theorem evalItemsAt_plug
    (same : ∀ place scope, evalAt g call place scope tree = evalAt g call place scope other)
    (place : Place) (scope : Scope) (before after : List Expr) (i : Nat) :
    evalItemsAt g call place scope i (before ++ tree :: after) =
      evalItemsAt g call place scope i (before ++ other :: after) := by
  induction before generalizing i with
  | nil =>
    rw [List.nil_append, List.nil_append, evalItemsAt, evalItemsAt, same]
  | cons item rest ih =>
    rw [List.cons_append, List.cons_append, evalItemsAt, evalItemsAt, ih]

/-- An evaluation depends on what its parts do, not on how they are written. -/
theorem evalAt_plug (frame : Frame)
    (same : ∀ place scope, evalAt g call place scope tree = evalAt g call place scope other)
    (place : Place) (scope : Scope) :
    evalAt g call place scope (frame.plug tree) =
      evalAt g call place scope (frame.plug other) := by
  cases frame with
  | member name relative => rw [Frame.plug, Frame.plug, evalAt, evalAt, same]
  | binaryLeft operator right => rw [Frame.plug, Frame.plug, evalAt, evalAt, same]
  | binaryRight operator left => rw [Frame.plug, Frame.plug, evalAt, evalAt, same]
  | unary operator => rw [Frame.plug, Frame.plug, evalAt, evalAt, same]
  | condTest yes no => rw [Frame.plug, Frame.plug, evalAt, evalAt, same]
  | condYes test no => rw [Frame.plug, Frame.plug, evalAt, evalAt, same]
  | condNo test yes => rw [Frame.plug, Frame.plug, evalAt, evalAt, same]
  | elvisTest otherwise => rw [Frame.plug, Frame.plug, evalAt, evalAt, same]
  | elvisOtherwise test => rw [Frame.plug, Frame.plug, evalAt, evalAt, same]
  | filterSubject predicate relative =>
    cases relative <;> rw [Frame.plug, Frame.plug, evalAt, evalAt, same]
  | filterPredicate subject relative =>
    cases relative with
    | true =>
      rw [Frame.plug, Frame.plug, evalAt, evalAt]
      simp only [same]
    | false => rw [Frame.plug, Frame.plug, evalAt, evalAt, same]
  | arrayItem before after =>
    rw [Frame.plug, Frame.plug, evalAt, evalAt, evalItemsAt_plug same]
  | objectEntry before key after =>
    rw [Frame.plug, Frame.plug, evalAt, evalAt, evalEntriesAt_eq_evalItemsAt,
      evalEntriesAt_eq_evalItemsAt]
    simp only [List.map_append, List.map_cons, evalItemsAt_plug same]
  | callArg pool name before after =>
    rw [Frame.plug, Frame.plug, evalAt, evalAt, evalItemsAt_plug same]

/-! ## Places -/

section Places

variable {answer : Pool → String → List Value → Run Value}

theorem evalItemsAt_place {scope : Scope} {items : List Expr}
    (same : ∀ item ∈ items, ∀ place place',
      evalAt g (fun _ => answer) place scope item = evalAt g (fun _ => answer) place' scope item)
    (place place' : Place) (i : Nat) :
    evalItemsAt g (fun _ => answer) place scope i items =
      evalItemsAt g (fun _ => answer) place' scope i items := by
  induction items generalizing i with
  | nil => rfl
  | cons item rest ih =>
    obtain ⟨first, others⟩ := List.forall_mem_cons.1 same
    rw [evalItemsAt, evalItemsAt, first _ (i :: place'), ih others]

/-- For calls that do not look at their places, an evaluation is the same at any place. -/
theorem evalAt_place (e : Expr) (place place' : Place) (scope : Scope) :
    evalAt g (fun _ => answer) place scope e = evalAt g (fun _ => answer) place' scope e := by
  induction e generalizing place place' scope with
  | literal value => rfl
  | ident name relative => rfl
  | member subject name relative ih => rw [evalAt, ih _ (0 :: place'), evalAt]
  | binary operator left right first second =>
    rw [evalAt, first _ (0 :: place'), second _ (1 :: place'), evalAt]
  | unary operator right ih => rw [evalAt, ih _ (0 :: place'), evalAt]
  | cond test yes no ih first second =>
    rw [evalAt, ih _ (0 :: place'), first _ (1 :: place'), second _ (2 :: place'), evalAt]
  | elvis test otherwise ih second =>
    rw [evalAt, ih _ (0 :: place'), second _ (1 :: place'), evalAt]
  | filter subject predicate relative ih inside =>
    cases relative with
    | true =>
      rw [evalAt, ih _ (0 :: place'), evalAt]
      refine congrArg _ (funext fun value => ?_)
      have visits (element : Value × Nat) :
          evalAt g (fun _ => answer) ((element.2 + 1) :: place) (scope.visiting element.1)
              predicate =
            evalAt g (fun _ => answer) ((element.2 + 1) :: place') (scope.visiting element.1)
              predicate :=
        inside _ _ _
      rw [funext visits]
    | false => rw [evalAt, ih _ (0 :: place'), inside _ (1 :: place'), evalAt]
  | array items ih =>
    rw [evalAt, evalItemsAt_place (fun item mem place place' => ih item mem place place' scope) _
      place', evalAt]
  | object entries ih =>
    rw [evalAt, evalEntriesAt_eq_evalItemsAt, evalItemsAt_place (List.forall_mem_map.2
      fun entry mem place place' => ih entry mem place place' scope) _ place', evalAt,
      evalEntriesAt_eq_evalItemsAt]
  | call pool name args ih =>
    rw [evalAt, evalItemsAt_place (fun arg mem place place' => ih arg mem place place' scope) _
      place', evalAt]

/-- A chain is evaluated operand by operand, however it is grouped. -/
theorem evalAt_eq_chain {operator : String} {connect : Run Value → Run Value → Run Value}
    (applies : ∀ left right, g.applyBinary operator left right = connect left right)
    (assoc : ∀ a b c, connect (connect a b) c = connect a (connect b c)) (place : Place)
    (scope : Scope) (tree : Expr) :
    evalAt g (fun _ => answer) place scope tree =
      Run.chain connect
        ((operands operator tree).map (evalAt g (fun _ => answer) place scope)) := by
  have alone (e : Expr) : evalAt g (fun _ => answer) place scope e =
      Run.chain connect ([e].map (evalAt g (fun _ => answer) place scope)) := rfl
  induction tree with
  | binary own left right first second =>
    rw [operands]
    split
    · rename_i same
      rw [evalAt, same, applies, List.map_append, Run.chain_append assoc
        (List.map_eq_nil_iff.not.2 (operands_ne_nil operator left))
        (List.map_eq_nil_iff.not.2 (operands_ne_nil operator right)), ← first, ← second,
        evalAt_place left _ place, evalAt_place right _ place]
    · exact alone _
  | _ => exact alone _

variable (connectives : g.HasConnectives)
include connectives

theorem Replaces.evalAt_eq (replaces : Replaces tree other) (place : Place) (scope : Scope) :
    evalAt g (fun _ => answer) place scope tree =
      evalAt g (fun _ => answer) place scope other := by
  cases replaces with
  | elvis test otherwise =>
    rw [evalAt, evalAt, connectives.applyBinary_or]
    rfl
  | notAnd a b =>
    simp only [evalAt, connectives.applyUnary_not, connectives.applyBinary_and,
      connectives.applyBinary_or]
    rw [Run.not_and, evalAt_place b (1 :: 0 :: place) (0 :: 1 :: place)]
  | notOr a b =>
    simp only [evalAt, connectives.applyUnary_not, connectives.applyBinary_and,
      connectives.applyBinary_or]
    rw [Run.not_or, evalAt_place b (1 :: 0 :: place) (0 :: 1 :: place)]
  | regroup connective same =>
    rcases connective with rfl | rfl
    · rw [evalAt_eq_chain connectives.applyBinary_or Run.or_assoc, same,
        ← evalAt_eq_chain connectives.applyBinary_or Run.or_assoc]
    · rw [evalAt_eq_chain connectives.applyBinary_and Run.and_assoc, same,
        ← evalAt_eq_chain connectives.applyBinary_and Run.and_assoc]

theorem RewriteStep.evalAt_eq (step : RewriteStep tree other) :
    ∀ place scope, evalAt g (fun _ => answer) place scope tree =
      evalAt g (fun _ => answer) place scope other := by
  induction step with
  | here replaces => exact replaces.evalAt_eq connectives
  | inside frame _ ih => exact evalAt_plug frame ih

theorem Rewrites.evalAt_eq (rewrites : Rewrites tree other) (place : Place) (scope : Scope) :
    evalAt g (fun _ => answer) place scope tree =
      evalAt g (fun _ => answer) place scope other := by
  induction rewrites with
  | refl => rfl
  | tail _ step ih => exact ih.trans (step.evalAt_eq connectives place scope)

end Places

/-! ## Trees that fit -/

theorem anyRelative_eq_any (items : List Expr) : anyRelative items = items.any hasRelative := by
  induction items with
  | nil => rfl
  | cons item rest ih => rw [anyRelative, ih, List.any_cons]

theorem hasRelative_eq_any (operator : String) (tree : Expr) :
    tree.hasRelative = (operands operator tree).any hasRelative := by
  induction tree with
  | binary own left right first second =>
    rw [operands]
    split
    · rw [hasRelative, List.any_append, first, second]
    · rw [List.any_cons, List.any_nil, Bool.or_false]
  | _ => exact (Bool.or_false _).symm

theorem Replaces.hasRelative_eq (replaces : Replaces tree other) :
    tree.hasRelative = other.hasRelative := by
  cases replaces with
  | elvis test otherwise => rfl
  | notAnd a b => rfl
  | notOr a b => rfl
  | @regroup operator _ _ _ same =>
    rw [hasRelative_eq_any operator, same, ← hasRelative_eq_any]

theorem Frame.hasRelative_plug (frame : Frame) (same : tree.hasRelative = other.hasRelative) :
    (frame.plug tree).hasRelative = (frame.plug other).hasRelative := by
  cases frame <;>
    simp only [plug, hasRelative, anyRelativeEntry_eq, anyRelative_eq_any, List.map_append,
      List.map_cons, List.any_append, List.any_cons, same]

theorem RewriteStep.hasRelative_eq (step : RewriteStep tree other) :
    tree.hasRelative = other.hasRelative := by
  induction step with
  | here replaces => exact replaces.hasRelative_eq
  | inside frame _ ih => exact frame.hasRelative_plug ih

theorem wellFormed_iff_operands {operator : String} (registered : (g.binary? operator).isSome)
    (tree : Expr) :
    tree.WellFormed g ↔ ∀ operand ∈ operands operator tree, operand.WellFormed g := by
  induction tree with
  | binary own left right first second =>
    rw [operands]
    split
    · rename_i same
      rw [List.forall_mem_append, ← first, ← second, WellFormed, same]
      exact and_iff_right registered
    · exact List.forall_mem_singleton.symm
  | _ => exact List.forall_mem_singleton.symm

theorem Replaces.wellFormed (connectives : g.HasConnectives) (replaces : Replaces tree other)
    (fits : tree.WellFormed g) : other.WellFormed g := by
  cases replaces with
  | elvis test otherwise => exact ⟨connectives.isSome_binary? (.inl rfl), fits⟩
  | notAnd a b =>
    obtain ⟨bang, _, left, right⟩ := fits
    exact ⟨connectives.isSome_binary? (.inl rfl), ⟨bang, left⟩, bang, right⟩
  | notOr a b =>
    obtain ⟨bang, _, left, right⟩ := fits
    exact ⟨connectives.isSome_binary? (.inr rfl), ⟨bang, left⟩, bang, right⟩
  | regroup connective same =>
    have registered := connectives.isSome_binary? connective
    rwa [wellFormed_iff_operands registered, ← same, ← wellFormed_iff_operands registered]

theorem wellFormedItems_plug (keeps : tree.WellFormed g → other.WellFormed g)
    {before after : List Expr} (fits : WellFormedItems g (before ++ tree :: after)) :
    WellFormedItems g (before ++ other :: after) := by
  rw [wellFormedItems_iff, List.forall_mem_append, List.forall_mem_cons] at *
  obtain ⟨first, own, second⟩ := fits
  exact ⟨first, keeps own, second⟩

/-- A part may be replaced by another that fits and has relative names if the part has. -/
theorem Frame.wellFormed_plug (frame : Frame) (same : tree.hasRelative = other.hasRelative)
    (keeps : tree.WellFormed g → other.WellFormed g) (fits : (frame.plug tree).WellFormed g) :
    (frame.plug other).WellFormed g := by
  cases frame with
  | member name relative => exact ⟨fits.1, keeps fits.2⟩
  | binaryLeft operator right => exact ⟨fits.1, keeps fits.2.1, fits.2.2⟩
  | binaryRight operator left => exact ⟨fits.1, fits.2.1, keeps fits.2.2⟩
  | unary operator => exact ⟨fits.1, keeps fits.2⟩
  | condTest yes no => exact ⟨keeps fits.1, fits.2⟩
  | condYes test no => exact ⟨fits.1, keeps fits.2.1, fits.2.2⟩
  | condNo test yes => exact ⟨fits.1, fits.2.1, keeps fits.2.2⟩
  | elvisTest otherwise => exact ⟨keeps fits.1, fits.2⟩
  | elvisOtherwise test => exact ⟨fits.1, keeps fits.2⟩
  | filterSubject predicate relative => exact ⟨fits.1, keeps fits.2.1, fits.2.2⟩
  | filterPredicate subject relative => exact ⟨fits.1.trans same, fits.2.1, keeps fits.2.2⟩
  | arrayItem before after => exact wellFormedItems_plug keeps fits
  | objectEntry before key after =>
    rw [plug, WellFormed, wellFormedEntries_iff, List.forall_mem_append,
      List.forall_mem_cons] at *
    obtain ⟨first, own, second⟩ := fits
    exact ⟨first, keeps own, second⟩
  | callArg pool name before after =>
    have args : before ++ other :: after ≠ [] :=
      List.append_ne_nil_of_right_ne_nil before (List.cons_ne_nil other after)
    exact ⟨fun _ => args, wellFormedItems_plug keeps fits.2⟩

theorem RewriteStep.wellFormed (connectives : g.HasConnectives) (step : RewriteStep tree other) :
    tree.WellFormed g → other.WellFormed g := by
  induction step with
  | here replaces => exact replaces.wellFormed connectives
  | inside frame step ih => exact frame.wellFormed_plug step.hasRelative_eq ih

theorem Rewrites.wellFormed (connectives : g.HasConnectives) (rewrites : Rewrites tree other)
    (fits : tree.WellFormed g) : other.WellFormed g := by
  induction rewrites with
  | refl => exact fits
  | tail _ step ih => exact step.wellFormed connectives ih

/-- Rewriting with the connectives leaves an evaluation as it is, and makes the same calls in the
same order; a tree that fits its grammar does so afterwards. -/
theorem eval_of_rewrites (connectives : g.HasConnectives) (rewrites : Rewrites tree other)
    (scope : Scope) :
    eval g scope other = eval g scope tree ∧ calls g scope other = calls g scope tree ∧
      (tree.WellFormed g → other.WellFormed g) := by
  refine ⟨?_, ?_, Rewrites.wellFormed connectives rewrites⟩
  · rw [← evalAt_invoke g _ [], ← evalAt_invoke g _ []]
    exact (Rewrites.evalAt_eq connectives rewrites [] scope).symm
  · exact congrArg Run.log (Rewrites.evalAt_eq connectives rewrites [] scope).symm

/-- `note(.name)` -/
def noteOf (name : String) : Expr :=
  .call .functions "note" [.ident name true]

/-- `rows[!(note(.a) && note(.b)) ?: note(.c)]` -/
def negatedRows : Expr :=
  .filter (.ident "rows" false)
    (.elvis (.unary "!" (.binary "&&" (noteOf "a") (noteOf "b"))) (noteOf "c")) true

/-- `rows[!note(.a) || (!note(.b) || note(.c))]` -/
def disjointRows : Expr :=
  .filter (.ident "rows" false)
    (.binary "||" (.unary "!" (noteOf "a"))
      (.binary "||" (.unary "!" (noteOf "b")) (noteOf "c"))) true

theorem rewrites_negatedRows : Rewrites negatedRows disjointRows := by
  let frame := Frame.filterPredicate (.ident "rows" false) true
  let negations := Expr.binary "||" (.unary "!" (noteOf "a")) (.unary "!" (noteOf "b"))
  have first : RewriteStep negatedRows (frame.plug (.elvis negations (noteOf "c"))) :=
    .inside frame (.inside (.elvisTest _) (.here (.notAnd _ _)))
  have second : RewriteStep (frame.plug (.elvis negations (noteOf "c")))
      (frame.plug (.binary "||" negations (noteOf "c"))) :=
    .inside frame (.here (.elvis _ _))
  have third : RewriteStep (frame.plug (.binary "||" negations (noteOf "c"))) disjointRows :=
    .inside frame (.here (.regroup (.inl rfl) rfl))
  exact .tail (.tail (.single first) second) third

/-- Only the tests that are needed are noted, row by row. -/
theorem eval_of_rewrites_negatedRows :
    (eval noting ⟨.object [("rows", .array [.object [("a", .int 0)],
        .object [("a", .int 1), ("b", .int 2), ("c", .int 0)]])], none⟩ disjointRows).log =
      [.int 0, .int 1, .int 2, .int 0] := by
  rw [(eval_of_rewrites isStandard_noting.hasConnectives rewrites_negatedRows _).1]
  rfl

end Expr

end JsonExpr
