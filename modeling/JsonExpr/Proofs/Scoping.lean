import JsonExpr.Proofs.Errors
import JsonExpr.Proofs.Pace

/-!
What names can see. The brackets of a filter read relative names from the elements that the filter
looks at; an expression without relative names outside of such brackets does not notice the element
of a filter around it (`Expr.eval_of_not_hasRelative`).

The names that are left, at any depth, belong to the context, and may be replaced by what they have
there (`Expr.resolve`). What remains needs no context at all, and whoever listens to the calls hears
the same. This holds for trees whose flags are right, as those of the parser are.
-/

namespace JsonExpr

namespace Expr

/-! ## Scopes of names -/

/-- Every bracket is a filter exactly if its inside has relative names. -/
def IsScoped (tree : Expr) : Prop :=
  ∀ subject predicate relative, tree.Contains (.filter subject predicate relative) →
    relative = predicate.hasRelative

variable {g : Grammar} {tree child : Expr}

theorem IsScoped.of_child (flags : tree.IsScoped) (mem : child ∈ tree.children) :
    child.IsScoped :=
  fun _ _ _ contains => flags _ _ _ (.of_child mem contains)

theorem WellFormed.isScoped (wellFormed : tree.WellFormed g) : tree.IsScoped :=
  fun _ _ _ contains => (wellFormed.of_contains contains).1

/-- Parsing gives every bracket its flag. -/
theorem isScoped_of_parse {d : Dialect} {ts : List Token} (h : Parser.parse d ts = .ok tree) :
    tree.IsScoped :=
  (Parser.wellFormed_of_parse h).isScoped

theorem hasRelative_of_mem {items : List Expr} (mem : child ∈ items)
    (relative : child.hasRelative = true) : anyRelative items = true := by
  induction items with
  | nil => cases mem
  | cons item rest ih =>
    rw [anyRelative, Bool.or_eq_true]
    rcases List.mem_cons.1 mem with rfl | mem
    · exact .inl relative
    · exact .inr (ih mem)

theorem anyRelativeEntry_eq (entries : List (String × Expr)) :
    anyRelativeEntry entries = anyRelative (entries.map Prod.snd) := by
  induction entries with
  | nil => rfl
  | cons entry rest ih => rw [anyRelativeEntry, ih, List.map_cons, anyRelative]

/-! ## Names of the context -/

mutual

/-- The expression with the names of a context replaced by what they have there, also in the
brackets of filters. -/
def resolve (context : Value) : Expr → Expr
  | .literal value => .literal value
  | .ident name relative =>
    if relative then .ident name relative else .literal (context.property name)
  | .member subject name relative => .member (resolve context subject) name relative
  | .binary operator left right => .binary operator (resolve context left) (resolve context right)
  | .unary operator right => .unary operator (resolve context right)
  | .cond test yes no => .cond (resolve context test) (resolve context yes) (resolve context no)
  | .elvis test otherwise => .elvis (resolve context test) (resolve context otherwise)
  | .filter subject predicate relative =>
    .filter (resolve context subject) (resolve context predicate) relative
  | .array items => .array (resolveItems context items)
  | .object entries => .object (resolveEntries context entries)
  | .call pool name args => .call pool name (resolveItems context args)

/-- All the expressions, resolved. -/
def resolveItems (context : Value) : List Expr → List Expr
  | [] => []
  | item :: rest => resolve context item :: resolveItems context rest

/-- The entries with their values resolved. -/
def resolveEntries (context : Value) : List (String × Expr) → List (String × Expr)
  | [] => []
  | (key, value) :: rest => (key, resolve context value) :: resolveEntries context rest

end

theorem map_fst_resolveEntries (context : Value) (entries : List (String × Expr)) :
    (resolveEntries context entries).map Prod.fst = entries.map Prod.fst := by
  induction entries with
  | nil => rfl
  | cons entry rest ih => rw [resolveEntries, List.map_cons, List.map_cons, ih]

theorem map_snd_resolveEntries (context : Value) (entries : List (String × Expr)) :
    (resolveEntries context entries).map Prod.snd =
      resolveItems context (entries.map Prod.snd) := by
  induction entries with
  | nil => rfl
  | cons entry rest ih => rw [resolveEntries, List.map_cons, List.map_cons, ih, resolveItems]

variable {call : Caller} {context elsewhere : Value} {element other : Option Value}

theorem evalItemsAt_resolve {items : List Expr}
    (same : ∀ item ∈ items, ∀ place, evalAt g call place ⟨elsewhere, other⟩ (item.resolve context) =
      evalAt g call place ⟨context, element⟩ item) (place : Place) (i : Nat) :
    evalItemsAt g call place ⟨elsewhere, other⟩ i (resolveItems context items) =
      evalItemsAt g call place ⟨context, element⟩ i items := by
  induction items generalizing i with
  | nil => rfl
  | cons item rest ih =>
    obtain ⟨first, others⟩ := List.forall_mem_cons.1 same
    rw [resolveItems, evalItemsAt, evalItemsAt, first, ih others]

/-- In another scope a resolved expression gives what the expression gives in its own, if relative
names that belong to the scope are read from the same value. -/
theorem evalAt_resolve {e : Expr} (flags : e.IsScoped) (place : Place)
    (same : e.hasRelative = true → element.getD context = other.getD elsewhere) :
    evalAt g call place ⟨elsewhere, other⟩ (e.resolve context) =
      evalAt g call place ⟨context, element⟩ e := by
  induction e generalizing place element other with
  | literal value => rfl
  | ident name relative =>
    cases relative with
    | true =>
      change Run.ok ((other.getD elsewhere).property name) =
        .ok ((element.getD context).property name)
      rw [same rfl]
    | false => rfl
  | member subject name relative ih =>
    have inner := ih (flags.of_child (by simp [children])) (0 :: place) fun has =>
      same (by simp [hasRelative, has])
    rw [resolve, evalAt, inner, evalAt]
  | binary operator left right first second =>
    have left := first (flags.of_child (by simp [children])) (0 :: place) fun has =>
      same (by simp [hasRelative, has])
    have right := second (flags.of_child (by simp [children])) (1 :: place) fun has =>
      same (by simp [hasRelative, has])
    rw [resolve, evalAt, left, right, evalAt]
  | unary operator right ih =>
    have inner := ih (flags.of_child (by simp [children])) (0 :: place) fun has =>
      same (by simp [hasRelative, has])
    rw [resolve, evalAt, inner, evalAt]
  | cond test yes no ih first second =>
    have test := ih (flags.of_child (by simp [children])) (0 :: place) fun has =>
      same (by simp [hasRelative, has])
    have yes := first (flags.of_child (by simp [children])) (1 :: place) fun has =>
      same (by simp [hasRelative, has])
    have no := second (flags.of_child (by simp [children])) (2 :: place) fun has =>
      same (by simp [hasRelative, has])
    rw [resolve, evalAt, test, yes, no, evalAt]
  | elvis test otherwise ih second =>
    have test := ih (flags.of_child (by simp [children])) (0 :: place) fun has =>
      same (by simp [hasRelative, has])
    have otherwise := second (flags.of_child (by simp [children])) (1 :: place) fun has =>
      same (by simp [hasRelative, has])
    rw [resolve, evalAt, test, otherwise, evalAt]
  | filter subject predicate relative ih inside =>
    have subject := ih (flags.of_child (by simp [children])) (0 :: place) fun has =>
      same (by simp [hasRelative, has])
    have inner : predicate.IsScoped := flags.of_child (by simp [children])
    cases relative with
    | true =>
      rw [resolve, evalAt, subject, evalAt]
      refine congrArg _ (funext fun value => ?_)
      -- Both scopes visit the same element, and nothing is left of those around.
      have visits (item : Value) (i : Nat) :
          evalAt g call ((i + 1) :: place) (Scope.visiting ⟨elsewhere, other⟩ item)
              (predicate.resolve context) =
            evalAt g call ((i + 1) :: place) (Scope.visiting ⟨context, element⟩ item) predicate :=
        inside inner _ fun _ => rfl
      simp only [visits]
    | false =>
      have flag : false = predicate.hasRelative := flags _ _ _ .self
      have key : evalAt g call (1 :: place) ⟨elsewhere, other⟩ (predicate.resolve context) =
          evalAt g call (1 :: place) ⟨context, element⟩ predicate :=
        inside inner _ fun has => by cases flag.trans has
      rw [resolve, evalAt, subject, key, evalAt]
  | array items ih =>
    have inner := evalItemsAt_resolve fun item mem place =>
      ih item mem (flags.of_child mem) place fun has => same (hasRelative_of_mem mem has)
    rw [resolve, evalAt, inner, evalAt]
  | object entries ih =>
    have inner := evalItemsAt_resolve fun item mem place => by
      obtain ⟨entry, inEntries, rfl⟩ := List.mem_map.1 mem
      exact ih entry inEntries (flags.of_child mem) place fun has => same (by
        rw [hasRelative, anyRelativeEntry_eq]
        exact hasRelative_of_mem mem has)
    rw [resolve, evalAt, evalEntriesAt_eq_evalItemsAt, map_fst_resolveEntries,
      map_snd_resolveEntries, inner, evalAt, evalEntriesAt_eq_evalItemsAt]
  | call pool name args ih =>
    have inner := evalItemsAt_resolve fun arg mem place =>
      ih arg mem (flags.of_child mem) place fun has => same (hasRelative_of_mem mem has)
    rw [resolve, evalAt, inner, evalAt]

/-! ## Calls -/

end Expr

/-- The run without what it records. -/
def Run.silent {α : Type} : Run α → Run α
  | .done outcome => .done outcome
  | .record _ rest => rest.silent
  | .pause rest => .pause rest.silent

/-- Calls of what a grammar has under their names, each of which records only that it is made: the
registry, the name and the arguments. -/
def Caller.announcing (g : Grammar) : Caller := fun _ pool name args =>
  .record (.array (.bool (pool = .transforms) :: .string name :: args))
    (Expr.invoke g pool name args).silent

namespace Expr

/-- The calls that an evaluation makes, one after the other. -/
def calls (g : Grammar) (scope : Scope) (e : Expr) : List Value :=
  (evalAt g (.announcing g) [] scope e).log

/-- An expression without relative names of its own gives the same and calls the same whatever the
element of a filter around it is. The names in it, however deep, are those of the context: in their
place, the context and the element around may be any. -/
theorem eval_of_not_hasRelative {e : Expr} (flags : e.IsScoped) (bare : e.hasRelative = false)
    (g : Grammar) (context : Value) (element other : Option Value) :
    eval g ⟨context, element⟩ e = eval g ⟨context, other⟩ e ∧
      calls g ⟨context, element⟩ e = calls g ⟨context, other⟩ e ∧
      ∀ elsewhere, eval g ⟨elsewhere, other⟩ (e.resolve context) = eval g ⟨context, element⟩ e ∧
        calls g ⟨elsewhere, other⟩ (e.resolve context) = calls g ⟨context, element⟩ e := by
  have same (call : Caller) (elsewhere : Value) (element other : Option Value) :
      evalAt g call [] ⟨elsewhere, other⟩ (e.resolve context) =
        evalAt g call [] ⟨context, element⟩ e :=
    evalAt_resolve flags [] fun has => by cases bare.symm.trans has
  have evaluated (elsewhere : Value) (element other : Option Value) :
      eval g ⟨elsewhere, other⟩ (e.resolve context) = eval g ⟨context, element⟩ e := by
    rw [← evalAt_invoke g _ [], ← evalAt_invoke g _ []]
    exact same _ elsewhere element other
  have called (elsewhere : Value) (element other : Option Value) :
      calls g ⟨elsewhere, other⟩ (e.resolve context) = calls g ⟨context, element⟩ e :=
    congrArg Run.log (same _ elsewhere element other)
  refine ⟨?_, ?_, fun elsewhere => ⟨evaluated _ _ _, called _ _ _⟩⟩
  · rw [← evaluated context element none, ← evaluated context other none]
  · rw [← called context element none, ← called context other none]

/-- `rows[note(.tags)[note(.name) == wanted]]`, a filter within a filter. -/
def wantedRows : Expr :=
  .filter (.ident "rows" false)
    (.filter (.call .functions "note" [.ident "tags" true])
      (.binary "==" (.call .functions "note" [.ident "name" true]) (.ident "wanted" false)) true)
    true

theorem wellFormed_wantedRows : wantedRows.WellFormed noting :=
  ⟨rfl, trivial, rfl, ⟨nofun, trivial, trivial⟩, rfl, ⟨nofun, trivial, trivial⟩, trivial⟩

/-- A context with one row, whose only tag is wanted. -/
def wantedContext : Value :=
  .object [("rows", .array [.object [("tags", .array [.object [("name", .int 1)]])]]),
    ("wanted", .int 1)]

/-- The rows and tags of an element around are not noticed. -/
theorem eval_of_not_hasRelative_wantedRows :
    (eval noting ⟨wantedContext, some (.object [("rows", .array []), ("tags", .array [])])⟩
        wantedRows).outcome =
        .ok (.array [.object [("tags", .array [.object [("name", .int 1)]])]]) ∧
      calls noting ⟨wantedContext, some (.object [("rows", .array []), ("tags", .array [])])⟩
          wantedRows =
        [.array [.bool false, .string "note", .array [.object [("name", .int 1)]]],
          .array [.bool false, .string "note", .int 1]] := by
  obtain ⟨same, sameCalls, _⟩ := eval_of_not_hasRelative wellFormed_wantedRows.isScoped rfl noting
    wantedContext (some (.object [("rows", .array []), ("tags", .array [])])) none
  rw [same, sameCalls]
  exact ⟨rfl, rfl⟩

end Expr

end JsonExpr
