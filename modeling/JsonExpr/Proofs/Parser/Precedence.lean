import JsonExpr.Operators.Standard
import JsonExpr.Proofs.Parser.Completeness

/-!
How operators group their operands. A row of terms with unary operators in front of them and binary
operators between them can be grouped in many ways. In the groupings that respect the precedences
the operands of an operator bind at least as tight on its left side, and tighter on its right side.
A row has exactly one of these, and its tree is what the parser gives.

While a row is read, the operators at the open edge and what stands on their left sides are
`Waiting`: from the outside in their precedences increase, and `climb` keeps it that way.
-/

namespace JsonExpr

/-- The precedence of a binary operator. -/
def Grammar.precedence (g : Grammar) (operator : String) : UInt32 :=
  ((g.binary? operator).map BinaryOp.precedence).getD 0

/-- A term, its tree, and the unary operators in front of it. -/
structure Factor where
  signs : List Token
  body : List Token
  tree : Expr

namespace Factor

def tokens (f : Factor) : List Token :=
  f.signs ++ f.body

/-- The unary operators wrap the tree of the term, the nearest first. -/
def whole (f : Factor) : Expr :=
  f.signs.foldr (fun sign right => .unary sign.text right) f.tree

/-- The unary operators are registered, and alone the term is parsed to its tree. -/
structure IsParsed (d : Dialect) (f : Factor) : Prop where
  signs : ∀ sign ∈ f.signs, sign.kind = .unaryOp ∧ (d.grammar.unary? sign.text).isSome
  body : ∃ names, Derives d (.term names) f.body
  tree : Parser.parse d f.body = .ok f.tree

end Factor

/-- What stands in a row. -/
inductive Item
  | factor (f : Factor)
  | operator (t : Token)

def Item.tokens : Item → List Token
  | .factor f => f.tokens
  | .operator t => [t]

/-- Factors with registered binary operators between them. -/
inductive IsRow (d : Dialect) : List Item → Prop
  | first {f : Factor} : f.IsParsed d → IsRow d [.factor f]
  | next {items : List Item} {t : Token} {f : Factor} :
    IsRow d items → t.kind = .binaryOp → (d.grammar.binary? t.text).isSome → f.IsParsed d →
    IsRow d (items ++ [.operator t] ++ [.factor f])

/-- A way to group the factors of a row. -/
inductive Grouping
  | factor (f : Factor)
  | node (left : Grouping) (operator : Token) (right : Grouping)

namespace Grouping

/-- The expression that the grouping stands for. -/
def tree : Grouping → Expr
  | .factor f => f.whole
  | .node left operator right => .binary operator.text left.tree right.tree

/-- The row, from left to right. -/
def inOrder : Grouping → List Item
  | .factor f => [.factor f]
  | .node left operator right => left.inOrder ++ [.operator operator] ++ right.inOrder

/-- The precedence of the outermost operator. -/
def precedence? (g : Grammar) : Grouping → Option UInt32
  | .factor _ => none
  | .node _ operator _ => some (g.precedence operator.text)

/-- An operator groups what binds at least as tight on its left side and what binds tighter on its
right side. -/
def Respects (g : Grammar) : Grouping → Prop
  | .factor _ => True
  | .node left operator right =>
    left.Respects g ∧ right.Respects g ∧
      (∀ p ∈ left.precedence? g, g.precedence operator.text ≤ p) ∧
      ∀ p ∈ right.precedence? g, g.precedence operator.text < p

/-! ## There is at most one grouping -/

variable {g : Grammar}

/-- No operator binds less tight than the outermost one. -/
theorem precedence_le_of_mem {grouping : Grouping} (respects : grouping.Respects g) :
    ∀ p ∈ grouping.precedence? g, ∀ t, Item.operator t ∈ grouping.inOrder →
      p ≤ g.precedence t.text := by
  induction grouping with
  | factor f =>
    intro p outermost
    cases outermost
  | node left operator right leftIh rightIh =>
    obtain ⟨leftRespects, rightRespects, leftBound, rightBound⟩ := respects
    rintro p outermost t mem
    cases outermost
    simp only [inOrder, List.mem_append, List.mem_singleton, Item.operator.injEq] at mem
    rcases mem with (inLeft | rfl) | inRight
    · cases left with
      | factor f => simp [inOrder] at inLeft
      | node =>
        exact UInt32.le_trans (leftBound _ rfl) (leftIh leftRespects _ rfl t inLeft)
    · exact UInt32.le_refl _
    · cases right with
      | factor f => simp [inOrder] at inRight
      | node =>
        have tighter := rightIh rightRespects _ rfl t inRight
        exact UInt32.le_of_lt (UInt32.lt_of_lt_of_le (rightBound _ rfl) tighter)

theorem le_of_mem_left {left right : Grouping} {operator t : Token}
    (respects : (node left operator right).Respects g) (mem : .operator t ∈ left.inOrder) :
    g.precedence operator.text ≤ g.precedence t.text :=
  precedence_le_of_mem respects _ rfl t (by simp [inOrder, mem])

theorem lt_of_mem_right {left right : Grouping} {operator t : Token}
    (respects : (node left operator right).Respects g) (mem : .operator t ∈ right.inOrder) :
    g.precedence operator.text < g.precedence t.text := by
  obtain ⟨_, rightRespects, _, bound⟩ := respects
  cases right with
  | factor f => simp [inOrder] at mem
  | node =>
    have tighter := precedence_le_of_mem rightRespects _ rfl t mem
    exact UInt32.lt_of_lt_of_le (bound _ rfl) tighter

/-- Two ways to split a list at an element are one, or each has its element on that side of the
other's where the other is not. -/
theorem split_cases {α : Type} {as bs cs ds : List α} {x y : α}
    (split : as ++ [x] ++ bs = cs ++ [y] ++ ds) :
    (as = cs ∧ x = y ∧ bs = ds) ∨ (x ∈ cs ∧ y ∈ bs) ∨ (y ∈ as ∧ x ∈ ds) := by
  simp only [List.append_assoc, List.singleton_append] at split
  rcases List.append_eq_append_iff.1 split with ⟨gap, rfl, rest⟩ | ⟨gap, rfl, rest⟩
  · cases gap with
    | nil =>
      obtain ⟨rfl, rfl⟩ := List.cons.inj rest
      exact Or.inl ⟨(List.append_nil as).symm, rfl, rfl⟩
    | cons z gap =>
      obtain ⟨rfl, rfl⟩ := List.cons.inj rest
      exact Or.inr (Or.inl ⟨by simp, by simp⟩)
  · cases gap with
    | nil =>
      obtain ⟨rfl, rfl⟩ := List.cons.inj rest
      exact Or.inl ⟨List.append_nil cs, rfl, rfl⟩
    | cons z gap =>
      obtain ⟨rfl, rfl⟩ := List.cons.inj rest
      exact Or.inr (Or.inr ⟨by simp, by simp⟩)

/-- The outermost operator is the last of those that bind least tight, so the row leaves no choice
where to split it. -/
theorem Respects.eq_of_inOrder_eq {grouping other : Grouping} (respects : grouping.Respects g)
    (otherRespects : other.Respects g) (same : grouping.inOrder = other.inOrder) :
    grouping = other := by
  induction grouping generalizing other with
  | factor f =>
    cases other with
    | factor f' => simpa [inOrder] using same
    | node left operator right =>
      have mem : .operator operator ∈ (factor f).inOrder := by
        rw [same]
        simp [inOrder]
      simp [inOrder] at mem
  | node left operator right leftIh rightIh =>
    cases other with
    | factor f =>
      have mem : .operator operator ∈ (factor f).inOrder := by
        rw [← same]
        simp [inOrder]
      simp [inOrder] at mem
    | node left' operator' right' =>
      rcases split_cases same with ⟨lefts, operators, rights⟩ | ⟨inLeft, inRight⟩ |
        ⟨inLeft, inRight⟩
      · have leftEq := leftIh respects.1 otherRespects.1 lefts
        have rightEq := rightIh respects.2.1 otherRespects.2.1 rights
        cases operators
        rw [leftEq, rightEq]
      · have notLess := le_of_mem_left otherRespects inLeft
        exact (UInt32.not_le.2 (lt_of_mem_right respects inRight) notLess).elim
      · have notLess := le_of_mem_left respects inLeft
        exact (UInt32.not_le.2 (lt_of_mem_right otherRespects inRight) notLess).elim

end Grouping

/-! ## The open edge -/

/-- An operator at the open edge and what stands on its left side. -/
structure Waiting where
  left : Grouping
  operator : Token

namespace Waiting

variable {g : Grammar}

/-- The operator as it waits for its right operand. -/
def toOpen (g : Grammar) (w : Waiting) : Open :=
  .binary w.operator.text (g.precedence w.operator.text) w.left.tree

def precedence (g : Grammar) (w : Waiting) : UInt32 :=
  g.precedence w.operator.text

@[simp] theorem precedence_toOpen (w : Waiting) : (w.toOpen g).precedence = w.precedence g := rfl

/-- The row up to the place of the right operand; the innermost operator comes first. -/
def inOrder : List Waiting → List Item
  | [] => []
  | w :: rest => inOrder rest ++ w.left.inOrder ++ [.operator w.operator]

/-- Each operator has all of its left operand, and binds tighter than those around it. -/
def Respects (g : Grammar) : List Waiting → Prop
  | [] => True
  | w :: rest =>
    w.left.Respects g ∧ (∀ p ∈ w.left.precedence? g, w.precedence g ≤ p) ∧
      (∀ next ∈ rest.head?, next.precedence g < w.precedence g) ∧ Respects g rest

/-- Where the operators that bind at least as tight as `p` close, they close to a grouping that
respects the precedences, and the others go on waiting. -/
theorem climb (p : UInt32) (waiting : List Waiting) :
    ∀ grouping : Grouping, grouping.Respects g →
      (∀ w ∈ waiting.head?, ∀ q ∈ grouping.precedence? g, w.precedence g < q) →
      (∀ q ∈ grouping.precedence? g, p ≤ q) → Respects g waiting →
      ∃ (closed : Grouping) (rest : List Waiting),
        Spine.climb p grouping.tree (waiting.map (toOpen g)) =
          (closed.tree, rest.map (toOpen g)) ∧
        closed.Respects g ∧ (∀ q ∈ closed.precedence? g, p ≤ q) ∧ Respects g rest ∧
        (∀ w ∈ rest.head?, w.precedence g < p) ∧
        inOrder rest ++ closed.inOrder = inOrder waiting ++ grouping.inOrder := by
  induction waiting with
  | nil =>
    intro grouping respects _ bound _
    exact ⟨grouping, [], rfl, respects, bound, trivial, nofun, rfl⟩
  | cons w rest ih =>
    intro grouping respects tighter bound waits
    obtain ⟨left, leftBound, outer, restWaits⟩ := waits
    by_cases closes : p ≤ w.precedence g
    · have node : (Grouping.node w.left w.operator grouping).Respects g :=
        ⟨left, respects, leftBound, tighter w rfl⟩
      have nodeOuter : ∀ next ∈ rest.head?,
          ∀ q ∈ (Grouping.node w.left w.operator grouping).precedence? g,
            next.precedence g < q := by
        rintro next mem q outermost
        cases outermost
        exact outer next mem
      have nodeBound : ∀ q ∈ (Grouping.node w.left w.operator grouping).precedence? g, p ≤ q := by
        rintro q outermost
        cases outermost
        exact closes
      obtain ⟨closed, waiting, climbs, facts⟩ :=
        ih _ node nodeOuter nodeBound restWaits
      refine ⟨closed, waiting, ?_, ?_⟩
      · rw [List.map_cons, Spine.climb, precedence_toOpen, if_pos closes]
        exact climbs
      · obtain ⟨closedRespects, closedBound, stillWaits, below, row⟩ := facts
        refine ⟨closedRespects, closedBound, stillWaits, below, ?_⟩
        rw [row]
        simp only [inOrder, Grouping.inOrder, List.append_assoc]
    · refine ⟨grouping, w :: rest, ?_, respects, bound, ⟨left, leftBound, outer, restWaits⟩, ?_,
        rfl⟩
      · rw [List.map_cons, Spine.climb, precedence_toOpen, if_neg closes]
      · rintro next mem
        cases mem
        exact UInt32.not_le.1 closes

end Waiting

theorem le_unaryPrecedence (p : UInt32) : p ≤ unaryPrecedence := by
  have bound := p.toNat_lt
  have greatest : unaryPrecedence.toNat = 2 ^ 32 - 1 := rfl
  apply UInt32.le_iff_toNat_le.2
  omega

/-- At the end of a row all operators close, as before an operator that binds less tight than any
other. -/
theorem Spine.climb_zero (spine : Spine) (tree : Expr) :
    spine.climb 0 tree = (spine.closeAll tree, []) := by
  induction spine generalizing tree with
  | nil => rfl
  | cons op rest ih =>
    have least : 0 ≤ op.precedence := UInt32.zero_le
    rw [climb, if_pos least, ih]
    rfl

namespace Factor

/-- The unary operators at the open edge, the innermost first. -/
def spine (f : Factor) : Spine :=
  (f.signs.map fun sign => Open.unary sign.text).reverse

/-- Unary operators close before any binary operator. -/
theorem climb_spine (f : Factor) (p : UInt32) (outer : Spine) :
    Spine.climb p f.tree (f.spine ++ outer) = Spine.climb p f.whole outer := by
  obtain ⟨signs, body, tree⟩ := f
  unfold spine whole
  induction signs generalizing outer with
  | nil => rfl
  | cons sign rest ih =>
    have closes : p ≤ (Open.unary sign.text).precedence := le_unaryPrecedence p
    rw [List.map_cons, List.reverse_cons, List.append_assoc, ih, List.singleton_append,
      Spine.climb, if_pos closes]
    rfl

variable {d : Dialect}

theorem IsParsed.reads_signs {f : Factor} (parsed : f.IsParsed d) {before : List Token}
    {outer : Spine} (reads : Reads d before (.step (.stay ⟨outer, .operand⟩))) :
    Reads d (before ++ f.signs) (.step (.stay ⟨f.spine ++ outer, .operand⟩)) := by
  have registered := parsed.signs
  clear parsed
  obtain ⟨signs, body, tree⟩ := f
  unfold spine
  induction signs generalizing before outer with
  | nil => rwa [List.append_nil]
  | cons sign rest ih =>
    obtain ⟨⟨kind, registered⟩, others⟩ := List.forall_mem_cons.1 registered
    obtain ⟨op, registered⟩ := Option.isSome_iff_exists.1 registered
    have next := ih (reads.accept (.unary kind registered)) others
    simpa only [List.map_cons, List.reverse_cons, List.append_assoc, List.singleton_append]
      using next

/-- Behind any open edge the factor is read with the tree that its term has alone. -/
theorem IsParsed.reads {f : Factor} (parsed : f.IsParsed d) {before : List Token} {outer : Spine}
    (reads : Reads d before (.step (.stay ⟨outer, .operand⟩))) :
    ∃ operand : Operand, operand.tree = f.tree ∧
      Reads d (before ++ f.tokens) (.step (.stay ⟨f.spine ++ outer, .after operand⟩)) := by
  obtain ⟨names, derives⟩ := parsed.body
  obtain ⟨operand, _, _, term⟩ := derives.reads
  have alone : Reads d f.body (.tree operand.tree) := term.reads.chain
  refine ⟨operand, alone.tree_unique (parse_eq_ok_iff.1 parsed.tree), ?_⟩
  have whole := term (parsed.reads_signs reads)
  rwa [List.append_assoc] at whole

end Factor

/-- What closes behind a factor, its unary operators first. -/
theorem Waiting.climb_factor {g : Grammar} (p : UInt32) (f : Factor) {waiting : List Waiting}
    (waits : Respects g waiting) :
    ∃ (closed : Grouping) (rest : List Waiting),
      Spine.climb p f.tree (f.spine ++ waiting.map (toOpen g)) =
        (closed.tree, rest.map (toOpen g)) ∧
      closed.Respects g ∧ (∀ q ∈ closed.precedence? g, p ≤ q) ∧ Respects g rest ∧
      (∀ w ∈ rest.head?, w.precedence g < p) ∧
      inOrder rest ++ closed.inOrder = inOrder waiting ++ [.factor f] := by
  rw [f.climb_spine]
  exact climb p waiting (.factor f) trivial nofun nofun waits

/-! ## The parser groups a row -/

namespace IsRow

variable {d : Dialect} {items : List Item}

/-- After a row its last factor stands behind the operators that wait. -/
theorem reads (row : IsRow d items) :
    ∃ (waiting : List Waiting) (f : Factor) (operand : Operand),
      operand.tree = f.tree ∧ Waiting.Respects d.grammar waiting ∧
      Waiting.inOrder waiting ++ [.factor f] = items ∧
      Reads d (items.flatMap Item.tokens)
        (.step (.stay ⟨f.spine ++ waiting.map (Waiting.toOpen d.grammar), .after operand⟩)) := by
  induction row with
  | @first f parsed =>
    obtain ⟨operand, tree, reads⟩ := parsed.reads .fresh
    refine ⟨[], f, operand, tree, trivial, rfl, ?_⟩
    rw [List.nil_append] at reads
    rwa [List.flatMap_singleton]
  | @next items t f' _ kind registered parsed ih =>
    obtain ⟨waiting, f, operand, tree, waits, row, reads⟩ := ih
    obtain ⟨op, registered⟩ := Option.isSome_iff_exists.1 registered
    have precedence : d.grammar.precedence t.text = op.precedence := by
      rw [Grammar.precedence, registered]
      rfl
    obtain ⟨closed, rest, climbs, respects, bound, stillWaits, below, same⟩ :=
      Waiting.climb_factor op.precedence f waits
    have accepted := reads.accept (.binary kind registered)
    rw [tree, climbs] at accepted
    obtain ⟨operand', tree', next⟩ := parsed.reads accepted
    refine ⟨⟨closed, t⟩ :: rest, f', operand', tree', ?_, ?_, ?_⟩
    · rw [← precedence] at bound below
      exact ⟨respects, bound, below, stillWaits⟩
    · rw [Waiting.inOrder, same, row]
    · rw [List.flatMap_append, List.flatMap_append, List.flatMap_singleton, List.flatMap_singleton,
        List.map_cons, Waiting.toOpen, precedence]
      exact next

end IsRow

/-- The parser gives the tree of a grouping of the row that respects the precedences, and there is
no other such grouping. -/
theorem parse_row {d : Dialect} {items : List Item} (row : IsRow d items) :
    ∃ grouping : Grouping, Parser.parse d (items.flatMap Item.tokens) = .ok grouping.tree ∧
      grouping.inOrder = items ∧ grouping.Respects d.grammar ∧
      ∀ other : Grouping, other.inOrder = items → other.Respects d.grammar → other = grouping := by
  obtain ⟨waiting, f, operand, tree, waits, inOrder, reads⟩ := row.reads
  obtain ⟨grouping, rest, climbs, respects, _, _, below, same⟩ := Waiting.climb_factor 0 f waits
  have closed : rest = [] := by
    cases rest with
    | nil => rfl
    | cons w rest => exact (UInt32.not_lt_zero (below w rfl)).elim
  rw [closed, Spine.climb_zero] at climbs
  obtain ⟨result, _⟩ := Prod.mk.inj climbs
  refine ⟨grouping, ?_, ?_, respects, ?_⟩
  · apply parse_eq_ok_iff.2
    have sentence := reads.chain
    rwa [tree, result] at sentence
  · rw [closed, inOrder] at same
    exact same
  · intro other otherRow otherRespects
    rw [closed, inOrder] at same
    exact otherRespects.eq_of_inOrder_eq respects (otherRow.trans same.symm)

/-- A name behind unary operators. -/
def Factor.ofName (signs : List Token) (name : String) : Factor :=
  ⟨signs, [⟨.identifier, name, .string name⟩], .ident name false⟩

theorem Factor.isParsed_ofName {d : Dialect} {signs : List Token}
    (registered : ∀ sign ∈ signs, sign.kind = .unaryOp ∧ (d.grammar.unary? sign.text).isSome)
    (name : String) : (ofName signs name).IsParsed d where
  signs := registered
  body := ⟨some 1, .name rfl⟩
  tree := parse_eq_ok_iff.2 (ReadsOperand.name rfl).reads.chain

/-- `!a - b - c * d`. -/
def differenceRow : List Item :=
  [.factor (.ofName [⟨.unaryOp, "!", .string "!"⟩] "a"), .operator ⟨.binaryOp, "-", .string "-"⟩,
    .factor (.ofName [] "b"), .operator ⟨.binaryOp, "-", .string "-"⟩, .factor (.ofName [] "c"),
    .operator ⟨.binaryOp, "*", .string "*"⟩, .factor (.ofName [] "d")]

theorem isRow_differenceRow : IsRow ⟨.standard, {}⟩ differenceRow := by
  have name (name : String) : (Factor.ofName [] name).IsParsed ⟨.standard, {}⟩ :=
    Factor.isParsed_ofName (by simp) name
  have negated : (Factor.ofName [⟨.unaryOp, "!", .string "!"⟩] "a").IsParsed ⟨.standard, {}⟩ := by
    apply Factor.isParsed_ofName
    rw [List.forall_mem_singleton]
    exact ⟨rfl, rfl⟩
  have b := (IsRow.first negated).next (t := ⟨.binaryOp, "-", .string "-"⟩) rfl rfl (name "b")
  have c := b.next (t := ⟨.binaryOp, "-", .string "-"⟩) rfl rfl (name "c")
  exact c.next (t := ⟨.binaryOp, "*", .string "*"⟩) rfl rfl (name "d")

theorem parse_row_differenceRow :
    ∃ grouping : Grouping,
      Parser.parse ⟨.standard, {}⟩ (differenceRow.flatMap Item.tokens) = .ok grouping.tree ∧
      grouping.inOrder = differenceRow ∧ grouping.Respects .standard ∧
      ∀ other : Grouping, other.inOrder = differenceRow → other.Respects .standard →
        other = grouping :=
  parse_row isRow_differenceRow

end JsonExpr
