import JsonExpr.Proofs.Parser.Reads
import JsonExpr.Proofs.Tree

/-!
What holds of all nodes that the parser builds. `Parser.Builds d taken p` has a rule for each kind
of node: what the parser puts together from tokens with the property `taken` has the property `p`.
Then all trees that a level or an owner holds have it at each node, and so will the operators that
wait along the open edge; every token keeps this (`Parser.Builds.everywhere`).

The first use is `Parser.wellFormed_of_parse`: every tree fits the grammar that it was read with.
-/

namespace JsonExpr

/-- The nodes that the parser builds have the property `p`, if the tokens have the property
`taken`. -/
structure Parser.Builds (d : Dialect) (taken : Token → Prop) (p : Expr → Prop) : Prop where
  literal {t : Token} : taken t → t.kind = .literal → p (.literal t.value)
  name {t : Token} (relative : Bool) : taken t → t.kind = .identifier → p (.ident t.text relative)
  member {t : Token} (subject : Expr) :
    taken t → t.kind = .identifier → p (.member subject t.text false)
  binary {t : Token} (left right : Expr) :
    (d.grammar.binary? t.text).isSome → p (.binary t.text left right)
  unary {t : Token} (right : Expr) : (d.grammar.unary? t.text).isSome → p (.unary t.text right)
  choice (test : Expr) (consequent : Option Expr) (alternate : Expr) :
    p (Parser.choice test consequent alternate)
  bracket (subject predicate : Expr) : p (.filter subject predicate predicate.hasRelative)
  array (items : List Expr) : p (.array items)
  object (entries : List (String × Expr)) : p (.object entries)
  function {callee : Expr} {name : String} (args : List Expr) :
    Level.calleeName? d.options callee = some name → p callee → p (.call .functions name args)
  transform {t : Token} (subject : Expr) (args : List Expr) :
    taken t → t.kind = .identifier → p (.call .transforms t.text (subject :: args))
  segment {t : Token} (name : String) (subject : Expr) (args : List Expr) :
    d.options.namespacedTransforms = true →
    p (.call .transforms (name ++ "." ++ t.text) (subject :: args))

variable {d : Dialect} {taken : Token → Prop} {p : Expr → Prop}

/-! ## Trees under construction -/

/-- The operator will be a node with the property, and so are the nodes of its left operand. -/
def Open.Has (p : Expr → Prop) : Open → Prop
  | .binary operator _ left =>
    left.Everywhere p ∧ ∀ left right, p (.binary operator left right)
  | .unary operator => ∀ right, p (.unary operator right)

theorem Open.Has.close {op : Open} {right : Expr} (has : op.Has p)
    (inner : right.Everywhere p) : (op.close right).Everywhere p := by
  cases op with
  | binary operator precedence left =>
    exact .node (has.2 left right)
      (List.forall_mem_cons.2 ⟨has.1, List.forall_mem_singleton.2 inner⟩)
  | unary operator => exact .node (has right) (List.forall_mem_singleton.2 inner)

/-- All the waiting operators will have the property. -/
def Spine.Has (p : Expr → Prop) (spine : Spine) : Prop :=
  ∀ op ∈ spine, Open.Has p op

theorem Spine.Has.climb {spine : Spine} (has : spine.Has p) (precedence : UInt32) {tree : Expr}
    (inner : tree.Everywhere p) :
    (spine.climb precedence tree).1.Everywhere p ∧
      Spine.Has p (spine.climb precedence tree).2 := by
  induction spine generalizing tree with
  | nil => exact ⟨inner, has⟩
  | cons op rest ih =>
    obtain ⟨first, others⟩ := List.forall_mem_cons.1 has
    rw [Spine.climb]
    split
    · exact ih others (first.close inner)
    · exact ⟨inner, has⟩

theorem Spine.Has.closeAll {spine : Spine} (has : spine.Has p) {tree : Expr}
    (inner : tree.Everywhere p) : (spine.closeAll tree).Everywhere p := by
  induction spine generalizing tree with
  | nil => exact inner
  | cons op rest ih =>
    obtain ⟨first, others⟩ := List.forall_mem_cons.1 has
    exact ih others (first.close inner)

/-- The operand has the property everywhere; a transform has it whatever arguments follow. -/
def Operand.Has (p : Expr → Prop) : Operand → Prop
  | .plain tree | .named tree | .called tree => tree.Everywhere p
  | .piped name subject =>
    subject.Everywhere p ∧ ∀ args, p (.call .transforms name (subject :: args))

theorem Operand.Has.tree {operand : Operand} (has : operand.Has p) :
    operand.tree.Everywhere p := by
  cases operand with
  | piped name subject => exact .node (has.2 []) (List.forall_mem_singleton.2 has.1)
  | _ => exact has

/-- All that the mode holds has the property. -/
def Mode.Has (d : Dialect) (p : Expr → Prop) : Mode → Prop
  | .operand | .relativeName => True
  | .memberName subject | .transformName subject => subject.Everywhere p
  | .transformSegment _ subject =>
    d.options.namespacedTransforms = true ∧ subject.Everywhere p
  | .after last => last.Has p
  | .key entries | .colon entries _ => ∀ entry ∈ entries, entry.2.Everywhere p

/-- All that the slot holds has the property; a call has it whatever arguments follow. -/
def Slot.Has (p : Expr → Prop) : Slot → Prop
  | .group => True
  | .bracket subject => subject.Everywhere p
  | .argument pool name args =>
    (∀ further, p (.call pool name (args ++ further))) ∧ ∀ arg ∈ args, arg.Everywhere p
  | .item items => ∀ item ∈ items, item.Everywhere p
  | .entry entries _ => ∀ entry ∈ entries, entry.2.Everywhere p
  | .consequent test => test.Everywhere p
  | .alternate test yes => test.Everywhere p ∧ ∀ branch ∈ yes, branch.Everywhere p

/-- All that the step leads to has the property. -/
def Step.Has (d : Dialect) (p : Expr → Prop) : Step → Prop
  | .stay level => level.spine.Has p ∧ level.mode.Has d p
  | .enter owner => owner.spine.Has p ∧ owner.slot.Has p

/-- All that the tokens amount to has the property. -/
def Reading.Has (d : Dialect) (p : Expr → Prop) : Reading → Prop
  | .step next => next.Has d p
  | .tree result => result.Everywhere p

/-! ## Tokens -/

theorem forall_mem_snoc {α : Type} {p : α → Prop} {items : List α} {item : α}
    (all : ∀ item ∈ items, p item) (last : p item) : ∀ other ∈ items ++ [item], p other :=
  List.forall_mem_append.2 ⟨all, List.forall_mem_singleton.2 last⟩

theorem Parser.Builds.everywhere_object (builds : Builds d taken p)
    {entries : List (String × Expr)} (values : ∀ entry ∈ entries, entry.2.Everywhere p) :
    (Expr.object entries).Everywhere p :=
  .node (builds.object entries) (List.forall_mem_map.2 values)

theorem Accepts.has {level : Level} {t : Token} {step : Step} (accepts : Accepts d level t step)
    (builds : Parser.Builds d taken p) (isTaken : taken t) (has : (Step.stay level).Has d p) :
    step.Has d p := by
  obtain ⟨spine, mode⟩ := has
  cases accepts with
  | literal kind => exact ⟨spine, Expr.Everywhere.node (builds.literal isTaken kind) nofun⟩
  | identifier kind => exact ⟨spine, Expr.Everywhere.node (builds.name false isTaken kind) nofun⟩
  | unary kind registered =>
    have closed (right : Expr) : p (.unary t.text right) :=
      builds.unary right (Option.isSome_of_eq_some registered)
    exact ⟨List.forall_mem_cons.2 ⟨closed, spine⟩, trivial⟩
  | openGroup kind => exact ⟨spine, trivial⟩
  | openArray kind => exact ⟨spine, List.forall_mem_nil _⟩
  | openObject kind => exact ⟨spine, List.forall_mem_nil _⟩
  | leadingDot kind => exact ⟨spine, trivial⟩
  | relativeName kind => exact ⟨spine, Expr.Everywhere.node (builds.name true isTaken kind) nofun⟩
  | @binary _ operand _ op kind registered =>
    obtain ⟨left, waiting⟩ := Spine.Has.climb spine op.precedence mode.tree
    have closed (left right : Expr) : p (.binary t.text left right) :=
      builds.binary left right (Option.isSome_of_eq_some registered)
    have first : Open.Has p (.binary t.text op.precedence _) := ⟨left, closed⟩
    exact ⟨List.forall_mem_cons.2 ⟨first, waiting⟩, trivial⟩
  | pipe kind => exact ⟨spine, mode.tree⟩
  | memberDot kind plain => exact ⟨spine, mode.tree⟩
  | segmentDot kind namespaced => exact ⟨spine, namespaced, mode.1⟩
  | openBracket kind => exact ⟨spine, mode.tree⟩
  | question kind => exact ⟨List.forall_mem_nil _, Spine.Has.closeAll spine mode.tree⟩
  | @call _ tree _ _ kind callee =>
    have called (args : List Expr) : p (.call .functions _ args) :=
      builds.function args callee (Expr.Everywhere.self mode)
    exact ⟨spine, called, List.forall_mem_nil _⟩
  | transformCall kind => exact ⟨spine, mode.2, List.forall_mem_singleton.2 mode.1⟩
  | @memberName _ subject _ kind =>
    exact ⟨spine, Expr.Everywhere.node (builds.member subject isTaken kind)
      (List.forall_mem_singleton.2 mode)⟩
  | @transformName _ subject _ kind =>
    exact ⟨spine, mode, fun args => builds.transform subject args isTaken kind⟩
  | @transformSegment _ name subject _ kind =>
    exact ⟨spine, mode.2, fun args => builds.segment name subject args mode.1⟩
  | nameKey kind => exact ⟨spine, mode⟩
  | stringKey kind value => exact ⟨spine, mode⟩
  | closeObject kind => exact ⟨spine, builds.everywhere_object mode⟩
  | colon kind => exact ⟨spine, mode⟩

theorem Closes.has {owner : Owner} {t : Token} {result : Option Expr} {step : Step}
    (closes : Closes owner t result step) (builds : Parser.Builds d taken p)
    (has : (Step.enter owner).Has d p) (inner : ∀ tree ∈ result, tree.Everywhere p) :
    step.Has d p := by
  obtain ⟨spine, slot⟩ := has
  cases closes with
  | group kind => exact ⟨spine, inner _ rfl⟩
  | @bracket _ subject predicate _ kind =>
    exact ⟨spine, Expr.Everywhere.node (builds.bracket subject predicate)
      (List.forall_mem_cons.2 ⟨slot, List.forall_mem_singleton.2 (inner _ rfl)⟩)⟩
  | @nextArgument _ pool name args arg _ kind =>
    refine ⟨spine, fun further => ?_, forall_mem_snoc slot.2 (inner _ rfl)⟩
    rw [List.append_assoc]
    exact slot.1 ([arg] ++ further)
  | lastArgument kind =>
    exact ⟨spine, Expr.Everywhere.node (slot.1 _) (forall_mem_snoc slot.2 (inner _ rfl))⟩
  | @noArgument _ pool name args _ kind bare =>
    have called := slot.1 []
    rw [List.append_nil] at called
    exact ⟨spine, Expr.Everywhere.node called slot.2⟩
  | nextItem kind => exact ⟨spine, forall_mem_snoc slot (inner _ rfl)⟩
  | lastItem kind =>
    exact ⟨spine, Expr.Everywhere.node (builds.array _) (forall_mem_snoc slot (inner _ rfl))⟩
  | noItem kind => exact ⟨spine, Expr.Everywhere.node (builds.array []) nofun⟩
  | nextEntry kind => exact ⟨spine, forall_mem_snoc slot (inner _ rfl)⟩
  | lastEntry kind =>
    exact ⟨spine, builds.everywhere_object (forall_mem_snoc slot (inner _ rfl))⟩
  | consequent kind => exact ⟨spine, slot, inner⟩

/-! ## Rows of tokens -/

theorem Parser.Builds.everywhere_choice (builds : Builds d taken p) {test alternate : Expr}
    {consequent : Option Expr} (first : test.Everywhere p)
    (second : ∀ branch ∈ consequent, branch.Everywhere p) (third : alternate.Everywhere p) :
    (Parser.choice test consequent alternate).Everywhere p := by
  have own := builds.choice test consequent alternate
  cases consequent with
  | none =>
    exact .node own (List.forall_mem_cons.2 ⟨first, List.forall_mem_singleton.2 third⟩)
  | some branch =>
    exact .node own (List.forall_mem_cons.2
      ⟨first, List.forall_mem_cons.2 ⟨second branch rfl, List.forall_mem_singleton.2 third⟩⟩)

theorem Level.everywhere_of_result? {level : Level} {tree : Expr}
    (has : (Step.stay level).Has d p) (ends : level.result? = some (some tree)) :
    tree.Everywhere p := by
  obtain ⟨spine, mode⟩ := level
  cases mode with
  | after operand =>
    cases ends
    exact Spine.Has.closeAll has.1 has.2.tree
  | operand => cases spine <;> cases ends
  | _ => cases ends

/-- Whatever tokens amount to has the property. -/
theorem Reads.has {ts : List Token} {reading : Reading} (reads : Reads d ts reading)
    (builds : Parser.Builds d taken p) (isTaken : ∀ t ∈ ts, taken t) : reading.Has d p := by
  induction reads with
  | fresh => exact ⟨List.forall_mem_nil _, trivial⟩
  | accept _ accepts ih =>
    obtain ⟨before, last⟩ := List.forall_mem_append.1 isTaken
    exact accepts.has builds (last _ List.mem_cons_self) (ih before)
  | result _ ends ih => exact Level.everywhere_of_result? (ih isTaken) ends
  | choice _ _ left right =>
    obtain ⟨before, behind⟩ := List.forall_mem_append.1 isTaken
    obtain ⟨_, test, consequent⟩ := left before
    exact builds.everywhere_choice test consequent (right behind)
  | close _ _ closes left right =>
    obtain ⟨inside, _⟩ := List.forall_mem_append.1 isTaken
    obtain ⟨before, behind⟩ := List.forall_mem_append.1 inside
    refine closes.has builds (left before) fun tree mem => ?_
    cases mem
    exact right behind
  | closeEmpty _ closes ih =>
    obtain ⟨before, _⟩ := List.forall_mem_append.1 isTaken
    exact closes.has builds (ih before) fun tree mem => nomatch mem

theorem Parser.Builds.everywhere (builds : Builds d taken p) {ts : List Token} {tree : Expr}
    (h : parse d ts = .ok tree) (isTaken : ∀ t ∈ ts, taken t) : tree.Everywhere p :=
  (Reads.of_parse h).has builds isTaken

/-! ## Trees that fit the grammar -/

theorem Parser.builds_fits (d : Dialect) : Builds d (fun _ => True) (Expr.Fits d.grammar) where
  literal _ _ := trivial
  name _ _ _ := trivial
  member _ _ _ := rfl
  binary _ _ registered := registered
  unary _ registered := registered
  choice _ consequent _ := by cases consequent <;> trivial
  bracket _ _ := rfl
  array _ := trivial
  object _ := trivial
  function _ _ _ := nofun
  transform _ _ _ _ _ := List.cons_ne_nil _ _
  segment _ _ _ _ _ := List.cons_ne_nil _ _

theorem Parser.wellFormed_of_parse {d : Dialect} {ts : List Token} {tree : Expr}
    (h : parse d ts = .ok tree) : tree.WellFormed d.grammar :=
  ((builds_fits d).everywhere h fun _ _ => trivial).wellFormed

end JsonExpr
