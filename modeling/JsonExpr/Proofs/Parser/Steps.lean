import JsonExpr.Parser.Basic

/-!
What one token does to the parser, said once and without the texts that only errors quote.

* `Accepts d level t step`: the level itself uses the token, which either changes it or opens a
  nested level.
* `Closes owner t result step`: the token closes the level that the owner waits for, whose result
  is given.

`accept?_eq_ok_iff` and `closes_iff` tie both to the functions of the parser. All that is proved
about whole runs rests on these two relations.
-/

namespace JsonExpr

/-- The level uses the token. -/
inductive Accepts (d : Dialect) : Level → Token → Step → Prop
  | literal {spine : Spine} {t : Token} :
    t.kind = .literal →
    Accepts d ⟨spine, .operand⟩ t (.stay ⟨spine, .after (.plain (.literal t.value))⟩)
  | identifier {spine : Spine} {t : Token} :
    t.kind = .identifier →
    Accepts d ⟨spine, .operand⟩ t (.stay ⟨spine, .after (.named (.ident t.text false))⟩)
  | unary {spine : Spine} {t : Token} {op : UnaryOp} :
    t.kind = .unaryOp → d.grammar.unary? t.text = some op →
    Accepts d ⟨spine, .operand⟩ t (.stay ⟨.unary t.text :: spine, .operand⟩)
  | openGroup {spine : Spine} {t : Token} :
    t.kind = .openParen → Accepts d ⟨spine, .operand⟩ t (.enter ⟨spine, .group⟩)
  | openArray {spine : Spine} {t : Token} :
    t.kind = .openBracket → Accepts d ⟨spine, .operand⟩ t (.enter ⟨spine, .item []⟩)
  | openObject {spine : Spine} {t : Token} :
    t.kind = .openCurl → Accepts d ⟨spine, .operand⟩ t (.stay ⟨spine, .key []⟩)
  | leadingDot {spine : Spine} {t : Token} :
    t.kind = .dot → Accepts d ⟨spine, .operand⟩ t (.stay ⟨spine, .relativeName⟩)
  | relativeName {spine : Spine} {t : Token} :
    t.kind = .identifier →
    Accepts d ⟨spine, .relativeName⟩ t (.stay ⟨spine, .after (.named (.ident t.text true))⟩)
  | binary {spine : Spine} {operand : Operand} {t : Token} {op : BinaryOp} :
    t.kind = .binaryOp → d.grammar.binary? t.text = some op →
    Accepts d ⟨spine, .after operand⟩ t
      (.stay ⟨.binary t.text op.precedence (spine.climb op.precedence operand.tree).1 ::
        (spine.climb op.precedence operand.tree).2, .operand⟩)
  | pipe {spine : Spine} {operand : Operand} {t : Token} :
    t.kind = .pipe →
    Accepts d ⟨spine, .after operand⟩ t (.stay ⟨spine, .transformName operand.tree⟩)
  | memberDot {spine : Spine} {operand : Operand} {t : Token} :
    t.kind = .dot →
    (∀ name subject, operand = .piped name subject → d.options.namespacedTransforms = false) →
    Accepts d ⟨spine, .after operand⟩ t (.stay ⟨spine, .memberName operand.tree⟩)
  | segmentDot {spine : Spine} {name : String} {subject : Expr} {t : Token} :
    t.kind = .dot → d.options.namespacedTransforms = true →
    Accepts d ⟨spine, .after (.piped name subject)⟩ t
      (.stay ⟨spine, .transformSegment name subject⟩)
  | openBracket {spine : Spine} {operand : Operand} {t : Token} :
    t.kind = .openBracket →
    Accepts d ⟨spine, .after operand⟩ t (.enter ⟨spine, .bracket operand.tree⟩)
  | question {spine : Spine} {operand : Operand} {t : Token} :
    t.kind = .question →
    Accepts d ⟨spine, .after operand⟩ t (.enter ⟨[], .consequent (spine.closeAll operand.tree)⟩)
  | call {spine : Spine} {tree : Expr} {name : String} {t : Token} :
    t.kind = .openParen → Level.calleeName? d.options tree = some name →
    Accepts d ⟨spine, .after (.named tree)⟩ t (.enter ⟨spine, .argument .functions name []⟩)
  | transformCall {spine : Spine} {name : String} {subject : Expr} {t : Token} :
    t.kind = .openParen →
    Accepts d ⟨spine, .after (.piped name subject)⟩ t
      (.enter ⟨spine, .argument .transforms name [subject]⟩)
  | memberName {spine : Spine} {subject : Expr} {t : Token} :
    t.kind = .identifier →
    Accepts d ⟨spine, .memberName subject⟩ t
      (.stay ⟨spine, .after (.named (.member subject t.text false))⟩)
  | transformName {spine : Spine} {subject : Expr} {t : Token} :
    t.kind = .identifier →
    Accepts d ⟨spine, .transformName subject⟩ t
      (.stay ⟨spine, .after (.piped t.text subject)⟩)
  | transformSegment {spine : Spine} {name : String} {subject : Expr} {t : Token} :
    t.kind = .identifier →
    Accepts d ⟨spine, .transformSegment name subject⟩ t
      (.stay ⟨spine, .after (.piped (name ++ "." ++ t.text) subject)⟩)
  | nameKey {spine : Spine} {entries : List (String × Expr)} {t : Token} :
    t.kind = .identifier →
    Accepts d ⟨spine, .key entries⟩ t (.stay ⟨spine, .colon entries t.text⟩)
  | stringKey {spine : Spine} {entries : List (String × Expr)} {key : String} {t : Token} :
    t.kind = .literal → t.value = .string key →
    Accepts d ⟨spine, .key entries⟩ t (.stay ⟨spine, .colon entries key⟩)
  | closeObject {spine : Spine} {entries : List (String × Expr)} {t : Token} :
    t.kind = .closeCurl →
    Accepts d ⟨spine, .key entries⟩ t (.stay ⟨spine, .after (.plain (.object entries))⟩)
  | colon {spine : Spine} {entries : List (String × Expr)} {key : String} {t : Token} :
    t.kind = .colon →
    Accepts d ⟨spine, .colon entries key⟩ t (.enter ⟨spine, .entry entries key⟩)

/-- The token closes the level that the owner waits for, after a tree or before the level has
begun. The second branch of a choice is never closed by a token of its own. -/
inductive Closes : Owner → Token → Option Expr → Step → Prop
  | group {spine : Spine} {t : Token} {tree : Expr} :
    t.kind = .closeParen →
    Closes ⟨spine, .group⟩ t (some tree) (.stay ⟨spine, .after (.plain tree)⟩)
  | bracket {spine : Spine} {subject predicate : Expr} {t : Token} :
    t.kind = .closeBracket →
    Closes ⟨spine, .bracket subject⟩ t (some predicate)
      (.stay ⟨spine, .after (.named (.filter subject predicate predicate.hasRelative))⟩)
  | nextArgument {spine : Spine} {pool : Pool} {name : String} {args : List Expr} {arg : Expr}
      {t : Token} :
    t.kind = .comma →
    Closes ⟨spine, .argument pool name args⟩ t (some arg)
      (.enter ⟨spine, .argument pool name (args ++ [arg])⟩)
  | lastArgument {spine : Spine} {pool : Pool} {name : String} {args : List Expr} {arg : Expr}
      {t : Token} :
    t.kind = .closeParen →
    Closes ⟨spine, .argument pool name args⟩ t (some arg)
      (.stay ⟨spine, .after (.called (.call pool name (args ++ [arg])))⟩)
  | noArgument {spine : Spine} {pool : Pool} {name : String} {args : List Expr} {t : Token} :
    t.kind = .closeParen → args.length = (if pool = .transforms then 1 else 0) →
    Closes ⟨spine, .argument pool name args⟩ t none
      (.stay ⟨spine, .after (.called (.call pool name args))⟩)
  | nextItem {spine : Spine} {items : List Expr} {item : Expr} {t : Token} :
    t.kind = .comma →
    Closes ⟨spine, .item items⟩ t (some item) (.enter ⟨spine, .item (items ++ [item])⟩)
  | lastItem {spine : Spine} {items : List Expr} {item : Expr} {t : Token} :
    t.kind = .closeBracket →
    Closes ⟨spine, .item items⟩ t (some item)
      (.stay ⟨spine, .after (.plain (.array (items ++ [item])))⟩)
  | noItem {spine : Spine} {t : Token} :
    t.kind = .closeBracket →
    Closes ⟨spine, .item []⟩ t none (.stay ⟨spine, .after (.plain (.array []))⟩)
  | nextEntry {spine : Spine} {entries : List (String × Expr)} {key : String} {value : Expr}
      {t : Token} :
    t.kind = .comma →
    Closes ⟨spine, .entry entries key⟩ t (some value)
      (.stay ⟨spine, .key (entries ++ [(key, value)])⟩)
  | lastEntry {spine : Spine} {entries : List (String × Expr)} {key : String} {value : Expr}
      {t : Token} :
    t.kind = .closeCurl →
    Closes ⟨spine, .entry entries key⟩ t (some value)
      (.stay ⟨spine, .after (.plain (.object (entries ++ [(key, value)])))⟩)
  | consequent {spine : Spine} {test : Expr} {branch : Option Expr} {t : Token} :
    t.kind = .colon →
    Closes ⟨spine, .consequent test⟩ t branch (.enter ⟨spine, .alternate test branch⟩)

variable {d : Dialect} {text : String} {t : Token}

/-! ## Tokens that a level uses -/

theorem Accepts.of_operand {spine : Spine} {step : Step}
    (h : Level.acceptOperand? d text spine t = some (.ok step)) :
    Accepts d ⟨spine, .operand⟩ t step := by
  unfold Level.acceptOperand? at h
  split at h
  case h_1 kind => cases h; exact .literal kind
  case h_2 kind => cases h; exact .identifier kind
  case h_3 kind =>
    split at h
    · rename_i op registered
      cases h
      exact .unary kind registered
    · cases h
  case h_4 kind => cases h; exact .openGroup kind
  case h_5 kind => cases h; exact .openObject kind
  case h_6 kind => cases h; exact .openArray kind
  case h_7 kind => cases h; exact .leadingDot kind
  case h_8 => cases h

theorem Accepts.of_call {spine : Spine} {operand : Operand} {step : Step}
    (kind : t.kind = .openParen)
    (h : Level.acceptCall? d text spine operand = some (.ok step)) :
    Accepts d ⟨spine, .after operand⟩ t step := by
  unfold Level.acceptCall? at h
  split at h
  · split at h
    · rename_i name callee
      cases h
      exact .call kind callee
    · cases h
  · cases h
    exact .transformCall kind
  · cases h
  · cases h

theorem Accepts.of_dot {spine : Spine} {operand : Operand} (kind : t.kind = .dot) :
    Accepts d ⟨spine, .after operand⟩ t (.stay ⟨spine, Level.afterDot d operand⟩) := by
  cases operand with
  | piped name subject =>
    cases namespaced : d.options.namespacedTransforms with
    | true =>
      rw [Level.afterDot, if_pos namespaced]
      exact .segmentDot kind namespaced
    | false =>
      rw [Level.afterDot, if_neg (by simp [namespaced])]
      exact .memberDot kind fun _ _ _ => namespaced
  | _ => exact .memberDot kind fun _ _ eq => by cases eq

theorem Accepts.of_after {spine : Spine} {operand : Operand} {step : Step}
    (h : Level.acceptAfter? d text spine operand t = some (.ok step)) :
    Accepts d ⟨spine, .after operand⟩ t step := by
  unfold Level.acceptAfter? at h
  split at h
  case h_1 kind =>
    split at h
    · rename_i op registered
      cases h
      exact .binary kind registered
    · cases h
  case h_2 kind => cases h; exact .pipe kind
  case h_3 kind => cases h; exact .of_dot kind
  case h_4 kind => cases h; exact .openBracket kind
  case h_5 kind => cases h; exact .question kind
  case h_6 kind => exact .of_call kind h
  case h_7 => cases h

theorem Accepts.of_key {spine : Spine} {entries : List (String × Expr)} {step : Step}
    (h : Level.acceptKey? text spine entries t = some (.ok step)) :
    Accepts d ⟨spine, .key entries⟩ t step := by
  unfold Level.acceptKey? at h
  split at h
  case h_1 kind => cases h; exact .nameKey kind
  case h_2 kind =>
    split at h
    · rename_i key value
      cases h
      exact .stringKey kind value
    · cases h
  case h_3 kind => cases h; exact .closeObject kind
  case h_4 => cases h

/-- The relation holds of exactly what the parser does, whatever text it has read. -/
theorem accept?_eq_ok_iff {level : Level} {step : Step} :
    level.accept? d text t = some (.ok step) ↔ Accepts d level t step := by
  constructor
  · intro h
    rcases level with ⟨spine, mode⟩
    cases mode with
    | operand => exact .of_operand h
    | after operand => exact .of_after h
    | key entries => exact .of_key h
    | relativeName =>
      obtain ⟨kind, eq⟩ : t.kind = .identifier ∧ _ := by simpa [Level.accept?] using h
      exact eq ▸ .relativeName kind
    | memberName subject =>
      obtain ⟨kind, eq⟩ : t.kind = .identifier ∧ _ := by simpa [Level.accept?] using h
      exact eq ▸ .memberName kind
    | transformName subject =>
      obtain ⟨kind, eq⟩ : t.kind = .identifier ∧ _ := by simpa [Level.accept?] using h
      exact eq ▸ .transformName kind
    | transformSegment name subject =>
      obtain ⟨kind, eq⟩ : t.kind = .identifier ∧ _ := by simpa [Level.accept?] using h
      exact eq ▸ .transformSegment kind
    | colon entries key =>
      obtain ⟨kind, eq⟩ : t.kind = .colon ∧ _ := by simpa [Level.accept?] using h
      exact eq ▸ .colon kind
  · intro h
    cases h with
    | @memberDot spine operand kind plain =>
      cases operand <;> simp_all [Level.accept?, Level.acceptAfter?, Level.afterDot]
    | _ =>
      simp_all [Level.accept?, Level.acceptOperand?, Level.acceptAfter?, Level.acceptCall?,
        Level.acceptKey?, Level.afterDot]

/-! ## Tokens that close a level -/

theorem closedBy_group {kind : TokenKind} :
    Slot.closedBy .group kind = true ↔ kind = .closeParen := by
  cases kind <;> decide

theorem closedBy_bracket {subject : Expr} {kind : TokenKind} :
    Slot.closedBy (.bracket subject) kind = true ↔ kind = .closeBracket := by
  cases kind <;> simp [Slot.closedBy, Slot.state, State.ends?]

theorem closedBy_argument {pool : Pool} {name : String} {args : List Expr} {kind : TokenKind} :
    Slot.closedBy (.argument pool name args) kind = true ↔ kind = .comma ∨ kind = .closeParen := by
  cases kind <;> simp [Slot.closedBy, Slot.state, State.ends?]

theorem closedBy_item {items : List Expr} {kind : TokenKind} :
    Slot.closedBy (.item items) kind = true ↔ kind = .comma ∨ kind = .closeBracket := by
  cases kind <;> simp [Slot.closedBy, Slot.state, State.ends?]

theorem closedBy_entry {entries : List (String × Expr)} {key : String} {kind : TokenKind} :
    Slot.closedBy (.entry entries key) kind = true ↔ kind = .comma ∨ kind = .closeCurl := by
  cases kind <;> simp [Slot.closedBy, Slot.state, State.ends?]

theorem closedBy_consequent {test : Expr} {kind : TokenKind} :
    Slot.closedBy (.consequent test) kind = true ↔ kind = .colon := by
  cases kind <;> simp [Slot.closedBy, Slot.state, State.ends?]

/-- The kinds that close a level. -/
theorem kind_of_closedBy {slot : Slot} {kind : TokenKind} (closed : slot.closedBy kind = true) :
    kind ∈ [.comma, .colon, .closeParen, .closeBracket, .closeCurl] := by
  cases slot with
  | group => simp [closedBy_group.1 closed]
  | bracket subject => simp [closedBy_bracket.1 closed]
  | argument pool name args => rcases closedBy_argument.1 closed with rfl | rfl <;> simp
  | item items => rcases closedBy_item.1 closed with rfl | rfl <;> simp
  | entry entries key => rcases closedBy_entry.1 closed with rfl | rfl <;> simp
  | consequent test => simp [closedBy_consequent.1 closed]
  | alternate test consequent => cases closed

theorem Closes.of_tree {owner : Owner} {tree : Expr} {step : Step}
    (closed : owner.slot.closedBy t.kind = true)
    (h : owner.close text t (some tree) = .ok step) : Closes owner t (some tree) step := by
  rcases owner with ⟨spine, slot⟩
  cases slot with
  | group => cases h; exact .group (closedBy_group.1 closed)
  | bracket subject => cases h; exact .bracket (closedBy_bracket.1 closed)
  | argument pool name args =>
    rcases closedBy_argument.1 closed with kind | kind
    · simp only [Owner.close, if_pos kind] at h
      cases h
      exact .nextArgument kind
    · simp only [Owner.close, kind, reduceCtorEq, if_false] at h
      cases h
      exact .lastArgument kind
  | item items =>
    rcases closedBy_item.1 closed with kind | kind
    · simp only [Owner.close, if_pos kind] at h
      cases h
      exact .nextItem kind
    · simp only [Owner.close, kind, reduceCtorEq, if_false] at h
      cases h
      exact .lastItem kind
  | entry entries key =>
    rcases closedBy_entry.1 closed with kind | kind
    · simp only [Owner.close, if_pos kind] at h
      cases h
      exact .nextEntry kind
    · simp only [Owner.close, kind, reduceCtorEq, if_false] at h
      cases h
      exact .lastEntry kind
  | consequent test => cases h; exact .consequent (closedBy_consequent.1 closed)
  | alternate test consequent => cases closed

theorem Closes.of_none {owner : Owner} {step : Step}
    (closed : owner.slot.closedBy t.kind = true)
    (h : owner.close text t none = .ok step) : Closes owner t none step := by
  rcases owner with ⟨spine, slot⟩
  cases slot with
  | argument pool name args =>
    simp only [Owner.close] at h
    by_cases bare : t.kind = .closeParen ∧ args.length = if pool = .transforms then 1 else 0
    · rw [if_pos bare] at h
      cases h
      exact .noArgument bare.1 bare.2
    · rw [if_neg bare] at h
      cases h
  | item items =>
    simp only [Owner.close] at h
    by_cases bare : t.kind = .closeBracket ∧ items = []
    · rw [if_pos bare] at h
      obtain ⟨kind, rfl⟩ := bare
      cases h
      exact .noItem kind
    · rw [if_neg bare] at h
      cases h
  | consequent test => cases h; exact .consequent (closedBy_consequent.1 closed)
  | group => cases h
  | bracket subject => cases h
  | entry entries key => cases h
  | alternate test consequent => cases closed

/-- The relation holds of exactly what the parser does at a token that closes a level. -/
theorem closes_iff {owner : Owner} {result : Option Expr} {step : Step} :
    owner.slot.closedBy t.kind = true ∧ owner.close text t result = .ok step ↔
      Closes owner t result step := by
  constructor
  · rintro ⟨closed, h⟩
    cases result with
    | some tree => exact .of_tree closed h
    | none => exact .of_none closed h
  · intro h
    cases h <;>
      simp_all [Owner.close, closedBy_group, closedBy_bracket, closedBy_argument, closedBy_item,
        closedBy_entry, closedBy_consequent]

/-- A token that closes a level is none that the level could use where it may end. -/
theorem accept?_eq_none_of_closedBy {slot : Slot} (closed : slot.closedBy t.kind = true)
    {level : Level} {result : Option Expr} (ends : level.result? = some result) :
    level.accept? d text t = none := by
  have kinds := kind_of_closedBy closed
  simp only [List.mem_cons, List.not_mem_nil, or_false] at kinds
  rcases level with ⟨spine, mode⟩
  cases mode with
  | operand =>
    rcases kinds with kind | kind | kind | kind | kind <;>
      simp [Level.accept?, Level.acceptOperand?, kind]
  | after operand =>
    rcases kinds with kind | kind | kind | kind | kind <;>
      simp [Level.accept?, Level.acceptAfter?, kind]
  | _ => simp [Level.result?] at ends

end JsonExpr
