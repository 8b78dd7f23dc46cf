import JsonExpr.Proofs.Sequential

/-!
Brackets behind an expression. With relative names in them they are a filter, and a filter selects:
`Expr.outcome_bracket_eq_ok_iff` says when it has a value, what it looks at in each kind of subject,
and that the value is what its test accepts, in the order of the subject. Two filters one after the
other are one filter by both tests (`Expr.outcome_filter_filter`).

Without relative names they are an index or a key. A property of an array and the property behind
an index are not read alike: the one looks at the first item as it is, the other would step onto
that item as well if it is an array (`Expr.eval_member_of_array`).
-/

namespace JsonExpr

/-- What a filter looks at: the items of an array, nothing of `undefined`, or any other value as it
is. -/
theorem Value.elements_eq_iff {value : Value} {elements : List Value} :
    value.elements = elements ↔
      value = .array elements ∨ value = .undefined ∧ elements = [] ∨
        (∀ items, value ≠ .array items) ∧ value ≠ .undefined ∧ elements = [value] := by
  cases value with
  | array items => simp [Value.elements]
  | undefined => simp [Value.elements, eq_comm]
  | _ => simp [Value.elements, eq_comm]

namespace Expr

variable {g : Grammar} {scope : Scope} {subject p q : Expr}

/-- Brackets behind an expression, as the parser reads them. -/
def bracket (subject inside : Expr) : Expr :=
  .filter subject inside inside.hasRelative

/-! ## Filters -/

/-- The test has a true value at the element. -/
def accepts (g : Grammar) (scope : Scope) (test : Expr) (element : Value) : Bool :=
  (eval g (scope.visiting element) test).outcome.toOption.any Value.isTruthy

/-- The test has a value at each of the elements. -/
def Decides (g : Grammar) (scope : Scope) (test : Expr) (elements : List Value) : Prop :=
  ∀ element ∈ elements, ∃ verdict, (eval g (scope.visiting element) test).outcome = .ok verdict

theorem accepts_of_ok {test : Expr} {element verdict : Value}
    (ends : (eval g (scope.visiting element) test).outcome = .ok verdict) :
    accepts g scope test element = verdict.isTruthy := by
  rw [accepts, ends]
  rfl

/-- The verdicts on the elements keep those that the test accepts. -/
theorem keep_eq_filter {test : Expr} {elements verdicts : List Value}
    (outcomes : elements.map (fun element => (eval g (scope.visiting element) test).outcome) =
      verdicts.map .ok) :
    keep elements verdicts = elements.filter (accepts g scope test) := by
  induction elements generalizing verdicts with
  | nil => rfl
  | cons element rest ih =>
    cases verdicts with
    | nil => cases outcomes
    | cons verdict others =>
      obtain ⟨ends, outcomes⟩ := List.cons.inj outcomes
      have kept := ih outcomes
      rw [keep] at kept ⊢
      rw [List.zip_cons_cons, List.filter_cons, List.filter_cons, accepts_of_ok ends]
      split
      · rw [List.map_cons, kept]
      · exact kept

theorem exists_verdicts_iff {test : Expr} {elements : List Value} :
    (∃ verdicts : List Value,
        elements.map (fun element => (eval g (scope.visiting element) test).outcome) =
          verdicts.map .ok) ↔
      Decides g scope test elements := by
  have runs := @Run.exists_values_iff _
    (elements.map fun element => eval g (scope.visiting element) test)
  rwa [List.map_map, List.forall_mem_map] at runs

/-- A filter has a value if its subject has one and its test has one at each element of that; the
elements that the test accepts are then the value. -/
theorem outcome_filter_eq_ok_iff {test : Expr} {value : Value} :
    (eval g scope (.filter subject test true)).outcome = .ok value ↔
      ∃ whole, (eval g scope subject).outcome = .ok whole ∧
        Decides g scope test whole.elements ∧
        value = .array (whole.elements.filter (accepts g scope test)) := by
  rw [eval, Run.outcome_bind_eq_ok_iff]
  refine exists_congr fun whole => and_congr_right fun _ => ?_
  rw [Run.outcome_map_eq_ok_iff, ← exists_verdicts_iff]
  simp only [Run.outcome_joinAll_eq_ok_iff, List.map_map, Function.comp_def]
  constructor
  · rintro ⟨verdicts, outcomes, rfl⟩
    exact ⟨⟨verdicts, outcomes⟩, congrArg Value.array (keep_eq_filter outcomes)⟩
  · rintro ⟨⟨verdicts, outcomes⟩, rfl⟩
    exact ⟨verdicts, outcomes, congrArg Value.array (keep_eq_filter outcomes)⟩

/-- What brackets with relative names select, said for each kind of subject. -/
theorem outcome_bracket_eq_ok_iff (relative : p.hasRelative = true) {value : Value} :
    (eval g scope (subject.bracket p)).outcome = .ok value ↔
      ∃ whole elements, (eval g scope subject).outcome = .ok whole ∧
        (whole = .array elements ∨ whole = .undefined ∧ elements = [] ∨
          (∀ items, whole ≠ .array items) ∧ whole ≠ .undefined ∧ elements = [whole]) ∧
        Decides g scope p elements ∧
        value = .array (elements.filter (accepts g scope p)) := by
  rw [bracket, relative, outcome_filter_eq_ok_iff]
  refine exists_congr fun whole => ?_
  constructor
  · rintro ⟨ends, decides, rfl⟩
    exact ⟨_, ends, Value.elements_eq_iff.1 rfl, decides, rfl⟩
  · rintro ⟨elements, ends, looks, decides, rfl⟩
    cases Value.elements_eq_iff.2 looks
    exact ⟨ends, decides, rfl⟩

/-! ## One filter after the other -/

section Conjunction

variable (connectives : g.HasConnectives)
include connectives

theorem outcome_and (scope : Scope) :
    (eval g scope (.binary "&&" p q)).outcome =
      (eval g scope p).outcome.bind fun value =>
        if value.isTruthy then (eval g scope q).outcome else .ok value := by
  rw [Grammar.eval_binary, connectives.applyBinary_and, Run.and, Run.outcome_bind]
  simp only [apply_ite Run.outcome]
  rfl

theorem accepts_and (element : Value) :
    accepts g scope (.binary "&&" p q) element =
      (accepts g scope p element && accepts g scope q element) := by
  unfold accepts
  rw [outcome_and connectives]
  cases (eval g (scope.visiting element) p).outcome with
  | error error => rfl
  | ok value =>
    cases truth : value.isTruthy <;> simp [Except.bind, Except.toOption, truth]

/-- Both tests have values if the first one has and the second one has where the first accepts. -/
theorem decides_and (elements : List Value) :
    Decides g scope (.binary "&&" p q) elements ↔
      Decides g scope p elements ∧ Decides g scope q (elements.filter (accepts g scope p)) := by
  have alone (element : Value) :
      (∃ verdict, (eval g (scope.visiting element) (.binary "&&" p q)).outcome = .ok verdict) ↔
        (∃ verdict, (eval g (scope.visiting element) p).outcome = .ok verdict) ∧
          (accepts g scope p element = true →
            ∃ verdict, (eval g (scope.visiting element) q).outcome = .ok verdict) := by
    rw [outcome_and connectives, accepts]
    cases (eval g (scope.visiting element) p).outcome with
    | error error => simp [Except.bind]
    | ok value => cases truth : value.isTruthy <;> simp [Except.bind, Except.toOption, truth]
  unfold Decides
  simp only [alone, List.mem_filter, and_imp]
  constructor
  · intro both
    exact ⟨fun element mem => (both element mem).1, fun element mem => (both element mem).2⟩
  · rintro ⟨first, second⟩ element mem
    exact ⟨first element mem, second element mem⟩

theorem filter_accepts_and (elements : List Value) :
    elements.filter (accepts g scope (.binary "&&" p q)) =
      (elements.filter (accepts g scope p)).filter (accepts g scope q) := by
  rw [List.filter_filter]
  refine List.filter_congr fun element _ => ?_
  rw [accepts_and connectives, Bool.and_comm]

theorem outcome_filter_filter {value : Value} :
    (eval g scope (.filter (.filter subject p true) q true)).outcome = .ok value ↔
      (eval g scope (.filter subject (.binary "&&" p q) true)).outcome = .ok value := by
  rw [outcome_filter_eq_ok_iff, outcome_filter_eq_ok_iff]
  constructor
  · rintro ⟨selected, selects, second, rfl⟩
    obtain ⟨whole, ends, first, rfl⟩ := outcome_filter_eq_ok_iff.1 selects
    refine ⟨whole, ends, (decides_and connectives _).2 ⟨first, second⟩, ?_⟩
    rw [filter_accepts_and connectives]
    rfl
  · rintro ⟨whole, ends, decides, rfl⟩
    obtain ⟨first, second⟩ := (decides_and connectives _).1 decides
    refine ⟨_, outcome_filter_eq_ok_iff.2 ⟨whole, ends, first, rfl⟩, second, ?_⟩
    rw [filter_accepts_and connectives]
    rfl

/-- A filter selects the elements that its test accepts, as they stand in the subject: those of an
array are its items, `undefined` has none, and any other value is the only one of its own. Filters
select one after the other as one filter does by both their tests. -/
theorem outcome_bracket_bracket (relative : p.hasRelative = true) (further : q.hasRelative = true)
    (scope : Scope) (subject : Expr) (value : Value) :
    ((eval g scope (subject.bracket p)).outcome = .ok value ↔
        ∃ whole elements, (eval g scope subject).outcome = .ok whole ∧
          (whole = .array elements ∨ whole = .undefined ∧ elements = [] ∨
            (∀ items, whole ≠ .array items) ∧ whole ≠ .undefined ∧ elements = [whole]) ∧
          Decides g scope p elements ∧
          value = .array (elements.filter (accepts g scope p))) ∧
      ((eval g scope ((subject.bracket p).bracket q)).outcome = .ok value ↔
        (eval g scope (subject.bracket (.binary "&&" p q))).outcome = .ok value) := by
  refine ⟨outcome_bracket_eq_ok_iff relative, ?_⟩
  have both : (Expr.binary "&&" p q).hasRelative = true := by
    rw [hasRelative, relative, Bool.true_or]
  rw [bracket, bracket, bracket, relative, further, both]
  exact outcome_filter_filter connectives

end Conjunction

/-- `name[note(.open)]` -/
def openOnes (name : String) : Expr :=
  bracket (.ident name false) (.call .functions "note" [.ident "open" true])

/-- An order, as a filter looks at it. -/
def order (isOpen : Bool) (count : Int64) : Value :=
  .object [("open", .bool isOpen), ("count", .int count)]

/-- A context with orders, two of which are alike, and with one that stands alone. -/
def orders : Value :=
  .object [("orders", .array [order true 2, order false 2, order true 0, order true 2]),
    ("latest", order true 1)]

/-- Orders that are open are selected from an array, from an order that stands alone, and from where
there is none. Those that have a count as well are selected in the same way. -/
theorem outcome_bracket_bracket_openOrders :
    (eval noting ⟨orders, none⟩ ((openOnes "orders").bracket (.ident "count" true))).outcome =
        .ok (.array [order true 2, order true 2]) ∧
      (eval noting ⟨orders, none⟩ ((openOnes "latest").bracket (.ident "count" true))).outcome =
        .ok (.array [order true 1]) ∧
      (eval noting ⟨orders, none⟩ (openOnes "latest")).outcome = .ok (.array [order true 1]) ∧
      (eval noting ⟨orders, none⟩ (openOnes "missing")).outcome = .ok (.array []) := by
  have selects (name : String) (value : Value) :=
    outcome_bracket_bracket (p := .call .functions "note" [.ident "open" true])
      (q := .ident "count" true) isStandard_noting.hasConnectives rfl rfl ⟨orders, none⟩
      (.ident name false) value
  refine ⟨(selects _ _).2.2 rfl, (selects _ _).2.2 rfl, (selects _ _).1.2 ?_,
    (selects _ _).1.2 ?_⟩
  · refine ⟨order true 1, [order true 1], rfl, .inr (.inr ⟨nofun, nofun, rfl⟩), ?_, rfl⟩
    exact List.forall_mem_singleton.2 ⟨_, rfl⟩
  · exact ⟨.undefined, [], rfl, .inr (.inl ⟨rfl, rfl⟩), nofun, rfl⟩

end Expr

/-! ## Items -/

namespace Value

theorem property_array (items : List Value) (name : String) :
    (array items).property name = (items.headD .undefined).get name := by
  cases items <;> rfl

theorem index_zero (items : List Value) :
    (array items).index (.int 0) = items.headD .undefined := by
  cases items <;> rfl

/-- Only an array has the properties of another value. -/
theorem get_eq_property_iff (items : List Value) (name : String) :
    (items.headD .undefined).get name = (items.headD .undefined).property name ↔
      ∀ inner, items.head? = some (.array inner) → (array inner).property name = .undefined := by
  cases items with
  | nil => exact ⟨fun _ _ found => (nomatch found), fun _ => rfl⟩
  | cons first rest =>
    cases first with
    | array inner =>
      constructor
      · rintro same _ ⟨⟩
        exact same.symm
      · intro empty
        exact (empty inner rfl).symm
    | _ => exact ⟨fun _ _ found => (nomatch found), fun _ => rfl⟩

end Value

namespace Expr

/-- `subject[0]` -/
def firstItem (subject : Expr) : Expr :=
  subject.bracket (.literal (.int 0))

theorem eval_firstItem (g : Grammar) (scope : Scope) (subject : Expr) :
    eval g scope subject.firstItem =
      (eval g scope subject).map fun value => value.index (.int 0) := by
  rw [Run.map_eq_bind]
  rfl

theorem eval_member_firstItem (g : Grammar) (scope : Scope) (subject : Expr) (name : String) :
    eval g scope (.member subject.firstItem name false) =
      (eval g scope subject).map fun value => (value.index (.int 0)).property name := by
  rw [eval, eval_firstItem, Run.map_map]

/-- A property of an array is the one that its first item has, as it is; behind the index the
property is read from that item like from any value. Both record the same on their way, and they are
the same unless the first item is an array that has the property itself. -/
theorem eval_member_of_array (g : Grammar) (scope : Scope) (subject : Expr) {items : List Value}
    (ends : (eval g scope subject).outcome = .ok (.array items)) (name : String) :
    (eval g scope (.member subject name false)).outcome =
        .ok ((items.headD .undefined).get name) ∧
      (eval g scope (.member subject.firstItem name false)).outcome =
        .ok ((items.headD .undefined).property name) ∧
      (eval g scope (.member subject name false)).log =
        (eval g scope (.member subject.firstItem name false)).log ∧
      (eval g scope (.member subject name false) =
          eval g scope (.member subject.firstItem name false) ↔
        ∀ inner, items.head? = some (.array inner) →
          (Value.array inner).property name = .undefined) := by
  rw [eval_member_firstItem, eval, Run.map_eq_map_iff ends, Run.outcome_map, Run.outcome_map,
    Run.log_map, Run.log_map, ends, Value.property_array, Value.index_zero]
  refine ⟨?_, ?_, rfl, Value.get_eq_property_iff items name⟩
  · rw [Except.map, Value.property_array]
  · rw [Except.map, Value.index_zero]

/-- Orders with their items, the first of which is a list. -/
def nestedOrders : Value :=
  .object [("flat", .array [.object [("sku", .int 1)], .object [("sku", .int 2)]]),
    ("nested", .array [.array [.object [("sku", .int 1)]]])]

theorem eval_member_of_array_nestedOrders :
    eval .standard ⟨nestedOrders, none⟩ (.member (.ident "flat" false) "sku" false) =
        eval .standard ⟨nestedOrders, none⟩
          (.member (firstItem (.ident "flat" false)) "sku" false) ∧
      (eval .standard ⟨nestedOrders, none⟩ (.member (.ident "nested" false) "sku" false)).outcome =
        .ok .undefined := by
  obtain ⟨_, _, _, same⟩ :=
    eval_member_of_array .standard ⟨nestedOrders, none⟩ (.ident "flat" false) rfl "sku"
  obtain ⟨ends, _⟩ :=
    eval_member_of_array .standard ⟨nestedOrders, none⟩ (.ident "nested" false) rfl "sku"
  exact ⟨same.2 nofun, ends⟩

/-- Behind the index, the property of the inner array is there. -/
theorem not_member_of_nested_array :
    ¬∀ (g : Grammar) (scope : Scope) (subject : Expr) (items : List Value) (name : String),
      (eval g scope subject).outcome = .ok (.array items) →
        (eval g scope (.member subject name false)).outcome =
          (eval g scope (.member subject.firstItem name false)).outcome := by
  intro alike
  have same := alike .standard ⟨nestedOrders, none⟩ (.ident "nested" false) _ "sku" rfl
  cases same

end Expr

end JsonExpr
