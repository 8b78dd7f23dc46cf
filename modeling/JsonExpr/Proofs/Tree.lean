import JsonExpr.Expr
import JsonExpr.Grammar

/-!
Induction over trees, the nodes of a tree, and the trees that fit a grammar. A list of trees stands
for the trees in it.

What holds of a tree because it holds of each of its nodes is said with `Expr.Everywhere`.
-/

namespace JsonExpr

namespace Expr

section Induction

variable {motive : Expr → Prop} (literal : ∀ value, motive (.literal value))
  (ident : ∀ name relative, motive (.ident name relative))
  (member : ∀ subject name relative, motive subject → motive (.member subject name relative))
  (binary : ∀ operator left right, motive left → motive right →
    motive (.binary operator left right))
  (unary : ∀ operator right, motive right → motive (.unary operator right))
  (cond : ∀ test yes no, motive test → motive yes → motive no → motive (.cond test yes no))
  (elvis : ∀ test otherwise, motive test → motive otherwise → motive (.elvis test otherwise))
  (filter : ∀ subject predicate relative, motive subject → motive predicate →
    motive (.filter subject predicate relative))
  (array : ∀ items, (∀ item ∈ items, motive item) → motive (.array items))
  (object : ∀ entries, (∀ entry ∈ entries, motive entry.2) → motive (.object entries))
  (call : ∀ pool name args, (∀ arg ∈ args, motive arg) → motive (.call pool name args))

include literal ident member binary unary cond elvis filter array object call

/-- Induction over a tree, with a case for each kind of expression. -/
@[induction_eliminator]
theorem induction (tree : Expr) : motive tree :=
  @Expr.rec motive (fun items => ∀ item ∈ items, motive item)
    (fun entries => ∀ entry ∈ entries, motive entry.2) (fun entry => motive entry.2)
    literal ident member binary unary cond elvis filter array object call
    (fun _ none => nomatch none)
    (fun _ _ first rest => List.forall_mem_cons.2 ⟨first, rest⟩)
    (fun _ none => nomatch none)
    (fun _ _ first rest => List.forall_mem_cons.2 ⟨first, rest⟩)
    (fun _ _ value => value)
    tree

end Induction

/-! ## Nodes -/

/-- The expressions that an expression is put together from. -/
def children : Expr → List Expr
  | .literal _ | .ident _ _ => []
  | .member subject _ _ => [subject]
  | .binary _ left right => [left, right]
  | .unary _ right => [right]
  | .cond test yes no => [test, yes, no]
  | .elvis test otherwise => [test, otherwise]
  | .filter subject predicate _ => [subject, predicate]
  | .array items => items
  | .object entries => entries.map Prod.snd
  | .call _ _ args => args

/-- The nodes of a tree. -/
inductive Contains (tree : Expr) : Expr → Prop
  | self : Contains tree tree
  | child {node child : Expr} : Contains tree node → child ∈ node.children → Contains tree child

theorem Contains.of_child {tree child node : Expr} (mem : child ∈ tree.children)
    (contains : child.Contains node) : tree.Contains node := by
  induction contains with
  | self => exact .child .self mem
  | child _ inner ih => exact .child ih inner

theorem Contains.eq_or_exists_child {tree node : Expr} (contains : tree.Contains node) :
    node = tree ∨ ∃ child ∈ tree.children, child.Contains node := by
  induction contains with
  | self => exact .inl rfl
  | child _ mem ih =>
    rcases ih with rfl | ⟨outer, isChild, inner⟩
    · exact .inr ⟨_, mem, .self⟩
    · exact .inr ⟨outer, isChild, .child inner mem⟩

/-- The property holds of all nodes of the tree. -/
def Everywhere (p : Expr → Prop) (tree : Expr) : Prop :=
  ∀ node, tree.Contains node → p node

section Everywhere

variable {p : Expr → Prop} {tree : Expr}

theorem Everywhere.self (everywhere : tree.Everywhere p) : p tree :=
  everywhere tree .self

theorem Everywhere.parts (everywhere : tree.Everywhere p) :
    ∀ child ∈ tree.children, child.Everywhere p :=
  fun _ mem node contains => everywhere node (.of_child mem contains)

theorem Everywhere.node (own : p tree) (parts : ∀ child ∈ tree.children, child.Everywhere p) :
    tree.Everywhere p := by
  intro node contains
  rcases contains.eq_or_exists_child with rfl | ⟨child, mem, inner⟩
  · exact own
  · exact parts child mem node inner

end Everywhere

/-! ## Trees that fit a grammar -/

mutual

/-- Operators are registered as they are used, properties are not read from the element of a
filter, a bracket is a filter exactly if its inside reads from the element, and a transform has a
subject. -/
def WellFormed (g : Grammar) : Expr → Prop
  | .literal _ => True
  | .ident _ _ => True
  | .member subject _ relative => relative = false ∧ subject.WellFormed g
  | .binary operator left right =>
    (g.binary? operator).isSome ∧ left.WellFormed g ∧ right.WellFormed g
  | .unary operator right => (g.unary? operator).isSome ∧ right.WellFormed g
  | .cond test yes no => test.WellFormed g ∧ yes.WellFormed g ∧ no.WellFormed g
  | .elvis test otherwise => test.WellFormed g ∧ otherwise.WellFormed g
  | .filter subject predicate relative =>
    relative = predicate.hasRelative ∧ subject.WellFormed g ∧ predicate.WellFormed g
  | .array items => WellFormedItems g items
  | .object entries => WellFormedEntries g entries
  | .call pool _ args => (pool = .transforms → args ≠ []) ∧ WellFormedItems g args

/-- All the trees fit the grammar. -/
def WellFormedItems (g : Grammar) : List Expr → Prop
  | [] => True
  | item :: rest => item.WellFormed g ∧ WellFormedItems g rest

/-- The values of all entries fit the grammar. -/
def WellFormedEntries (g : Grammar) : List (String × Expr) → Prop
  | [] => True
  | (_, value) :: rest => value.WellFormed g ∧ WellFormedEntries g rest

end

variable {g : Grammar}

theorem wellFormedItems_iff {items : List Expr} :
    WellFormedItems g items ↔ ∀ item ∈ items, item.WellFormed g := by
  induction items with
  | nil => simp [WellFormedItems]
  | cons item rest ih => rw [WellFormedItems, ih, List.forall_mem_cons]

theorem wellFormedEntries_iff {entries : List (String × Expr)} :
    WellFormedEntries g entries ↔ ∀ entry ∈ entries, entry.2.WellFormed g := by
  induction entries with
  | nil => simp [WellFormedEntries]
  | cons entry rest ih => rw [WellFormedEntries, ih, List.forall_mem_cons]

/-- What a tree that fits the grammar has at each of its nodes. -/
def Fits (g : Grammar) : Expr → Prop
  | .member _ _ relative => relative = false
  | .binary operator _ _ => (g.binary? operator).isSome
  | .unary operator _ => (g.unary? operator).isSome
  | .filter _ predicate relative => relative = predicate.hasRelative
  | .call pool _ args => pool = .transforms → args ≠ []
  | _ => True

theorem Everywhere.wellFormed {tree : Expr} (fits : tree.Everywhere (Fits g)) :
    tree.WellFormed g := by
  have parts := fits.parts
  induction tree with
  | literal value => trivial
  | ident name relative => trivial
  | member subject name relative ih =>
    have inner := parts subject List.mem_cons_self
    exact ⟨fits.self, ih inner inner.parts⟩
  | binary operator left right left_ih right_ih =>
    obtain ⟨first, second⟩ := List.forall_mem_cons.1 parts
    have second := second right List.mem_cons_self
    exact ⟨fits.self, left_ih first first.parts, right_ih second second.parts⟩
  | unary operator right ih =>
    have inner := parts right List.mem_cons_self
    exact ⟨fits.self, ih inner inner.parts⟩
  | cond test yes no test_ih yes_ih no_ih =>
    obtain ⟨first, others⟩ := List.forall_mem_cons.1 parts
    obtain ⟨second, third⟩ := List.forall_mem_cons.1 others
    have third := third no List.mem_cons_self
    exact ⟨test_ih first first.parts, yes_ih second second.parts, no_ih third third.parts⟩
  | elvis test otherwise test_ih otherwise_ih =>
    obtain ⟨first, second⟩ := List.forall_mem_cons.1 parts
    have second := second otherwise List.mem_cons_self
    exact ⟨test_ih first first.parts, otherwise_ih second second.parts⟩
  | filter subject predicate relative subject_ih predicate_ih =>
    obtain ⟨first, second⟩ := List.forall_mem_cons.1 parts
    have second := second predicate List.mem_cons_self
    exact ⟨fits.self, subject_ih first first.parts, predicate_ih second second.parts⟩
  | array items ih =>
    exact wellFormedItems_iff.2 fun item mem => ih item mem (parts item mem) (parts item mem).parts
  | object entries ih =>
    refine wellFormedEntries_iff.2 fun entry mem => ?_
    have inner := parts entry.2 (List.mem_map_of_mem mem)
    exact ih entry mem inner inner.parts
  | call pool name args ih =>
    exact ⟨fits.self, wellFormedItems_iff.2 fun arg mem =>
      ih arg mem (parts arg mem) (parts arg mem).parts⟩

end Expr

end JsonExpr
