import JsonExpr.Operators.Standard
import JsonExpr.Proofs.Parser.Terms
import JsonExpr.Proofs.Tree
import JsonExpr.Value.Json

/-!
Expressions written out as tokens, and read back. Every operand of an operator, of a choice, of a
property, of a bracket and of a transform stands in parentheses; items, values, arguments and what
is inside of brackets stand bare. Nothing is left to precedence, so the parser has to give back the
tree that was written.
-/

namespace JsonExpr

/-- With dotted names for functions the names of a chain make up the name of a function. -/
theorem Level.calleeName?_of_chain? {options : ParseOptions} {tree : Expr} {names : List String}
    (namespaced : options.namespacedFunctions = true) (chain : chain? tree = some names) :
    calleeName? options tree = some (".".intercalate names) := by
  unfold calleeName?
  rw [chain]
  split
  · rename_i name eq
    cases eq
    rw [String.intercalate_singleton]
  · rename_i all _ eq
    cases eq
    rw [if_pos namespaced]
  · rename_i eq
    cases eq

/-- What is free in writing an expression. -/
structure Style where
  /-- The text of a token of this kind with this value. -/
  spell : TokenKind → Value → String
  /-- The symbol of a punctuation. -/
  symbol : TokenKind → String
  /-- A transform without further arguments is followed by empty parentheses. -/
  emptyArguments : Bool

namespace Style

variable (style : Style)

def token (kind : TokenKind) (value : Value) : Token :=
  ⟨kind, style.spell kind value, value⟩

def mark (kind : TokenKind) : Token :=
  style.token kind (.string (style.symbol kind))

def name (name : String) : Token :=
  style.token .identifier (.string name)

def group (ts : List Token) : List Token :=
  [style.mark .openParen] ++ ts ++ [style.mark .closeParen]

/-- The parts of a name between its dots. -/
def segments (name : String) : List String :=
  (name.toList.splitOn '.').map String.ofList

/-- Further parts of a dotted name. -/
def further (names : List String) : List Token :=
  names.flatMap fun name => [style.mark .dot] ++ [style.name name]

/-- The name of a callable, split at its dots. -/
def callable (name : String) : List Token :=
  match segments name with
  | [] => []
  | first :: rest => [style.name first] ++ style.further rest

mutual

/-- Writes an expression. -/
def render : Expr → List Token
  | .literal value => [style.token .literal value]
  | .ident name relative =>
    if relative then [style.mark .dot] ++ [style.name name] else [style.name name]
  | .member subject name _ =>
    style.group (render subject) ++ [style.mark .dot] ++ [style.name name]
  | .binary operator left right =>
    style.group (render left) ++ [style.token .binaryOp (.string operator)] ++
      style.group (render right)
  | .unary operator right =>
    [style.token .unaryOp (.string operator)] ++ style.group (render right)
  | .cond test yes no =>
    style.group (render test) ++ [style.mark .question] ++ style.group (render yes) ++
      [style.mark .colon] ++ style.group (render no)
  | .elvis test otherwise =>
    style.group (render test) ++ [style.mark .question] ++ [style.mark .colon] ++
      style.group (render otherwise)
  | .filter subject predicate _ =>
    style.group (render subject) ++ [style.mark .openBracket] ++ render predicate ++
      [style.mark .closeBracket]
  | .array items => [style.mark .openBracket] ++ renderItems items ++ [style.mark .closeBracket]
  | .object entries => [style.mark .openCurl] ++ renderEntries entries ++ [style.mark .closeCurl]
  | .call .functions name args =>
    style.callable name ++
      ([style.mark .openParen] ++ renderItems args ++ [style.mark .closeParen])
  | .call .transforms name args => renderTransform name args

/-- Writes expressions with commas between them. -/
def renderItems : List Expr → List Token
  | [] => []
  | [item] => render item
  | item :: next :: rest => render item ++ [style.mark .comma] ++ renderItems (next :: rest)

/-- Writes entries with commas between them. -/
def renderEntries : List (String × Expr) → List Token
  | [] => []
  | [(key, value)] =>
    [style.token .literal (.string key)] ++ [style.mark .colon] ++ render value
  | (key, value) :: next :: rest =>
    [style.token .literal (.string key)] ++ [style.mark .colon] ++ render value ++
      [style.mark .comma] ++ renderEntries (next :: rest)

/-- Writes a transform with its arguments, the first of which is its subject. -/
def renderTransform (name : String) : List Expr → List Token
  | [] => []
  | [subject] =>
    style.group (render subject) ++ [style.mark .pipe] ++ style.callable name ++
      if style.emptyArguments then [style.mark .openParen] ++ [style.mark .closeParen] else []
  | subject :: arg :: args =>
    style.group (render subject) ++ [style.mark .pipe] ++ style.callable name ++
      ([style.mark .openParen] ++ renderItems (arg :: args) ++ [style.mark .closeParen])

end

@[simp] theorem kind_token (kind : TokenKind) (value : Value) :
    (style.token kind value).kind = kind := rfl

@[simp] theorem kind_mark (kind : TokenKind) : (style.mark kind).kind = kind := rfl

@[simp] theorem kind_name (name : String) : (style.name name).kind = .identifier := rfl

/-! ## Names -/

theorem intercalate_segments (name : String) : ".".intercalate (segments name) = name := by
  apply String.toList_inj.1
  rw [String.toList_intercalate, segments, List.map_map]
  have plain : String.toList ∘ String.ofList = id := by
    funext cs
    exact String.toList_ofList
  rw [plain, List.map_id]
  exact List.intercalate_splitOn '.'

theorem segments_ne_nil (name : String) : segments name ≠ [] := by
  intro nil
  exact List.splitOn_ne_nil _ _ (List.map_eq_nil_iff.1 nil)

variable {d : Dialect}

/-- Further names make a longer chain of names. -/
theorem reads_further (rest : List String) :
    ∀ {ts : List Token} {tree : Expr} {names : List String}, ReadsOperand d ts (.named tree) →
      Level.chain? tree = some names →
      ∃ longer, ReadsOperand d (ts ++ style.further rest) (.named longer) ∧
        Level.chain? longer = some (names ++ rest) := by
  induction rest with
  | nil =>
    intro ts tree names reads chain
    refine ⟨tree, ?_, ?_⟩
    · rwa [further, List.flatMap_nil, List.append_nil]
    · rwa [List.append_nil]
  | cons name rest ih =>
    intro ts tree names reads chain
    have member := reads.member nofun (style.kind_mark .dot) (style.kind_name name)
    have next : Level.chain? (.member tree name false) = some (names ++ [name]) := by
      rw [Level.chain?, chain, Option.map_some]
    obtain ⟨longer, whole, all⟩ := ih member next
    rw [List.append_assoc, List.append_assoc] at whole
    rw [List.append_assoc] at all
    exact ⟨longer, whole, all⟩

/-- The parts of a dotted name are read as a callee of this name. -/
theorem reads_callable (namespaced : d.options.namespacedFunctions = true) (name : String) :
    ∃ tree, ReadsOperand d (style.callable name) (.named tree) ∧
      Level.calleeName? d.options tree = some name := by
  have whole := intercalate_segments name
  cases split : segments name with
  | nil => exact (segments_ne_nil name split).elim
  | cons first rest =>
    obtain ⟨tree, reads, chain⟩ :=
      style.reads_further rest (ReadsOperand.name (style.kind_name first)) rfl
    refine ⟨tree, by rwa [callable, split], ?_⟩
    rw [split] at whole
    rw [Level.calleeName?_of_chain? namespaced chain]
    exact congrArg some whole

/-- Further parts of the name of a transform. -/
theorem reads_segments (namespaced : d.options.namespacedTransforms = true) (rest : List String) :
    ∀ {ts : List Token} {name : String} {subject : Expr},
      ReadsOperand d ts (.piped name subject) →
      ReadsOperand d (ts ++ style.further rest)
        (.piped (".".intercalate (name :: rest)) subject) := by
  induction rest with
  | nil =>
    intro ts name subject reads
    rwa [further, List.flatMap_nil, List.append_nil, String.intercalate_singleton]
  | cons next rest ih =>
    intro ts name subject reads
    have longer := ih (reads.segment namespaced (style.kind_mark .dot) (style.kind_name next))
    have names : ".".intercalate ((name ++ "." ++ next) :: rest) =
        ".".intercalate (name :: next :: rest) := by
      rw [String.intercalate_cons_append, String.intercalate_cons_cons]
    rw [List.append_assoc, List.append_assoc] at longer
    rw [← names]
    exact longer

/-- A subject, a pipe, and the parts of a dotted name are read as the transform of this name. -/
theorem reads_pipe (namespaced : d.options.namespacedTransforms = true) (name : String)
    {ts : List Token} {subject : Operand} (reads : ReadsOperand d ts subject) :
    ReadsOperand d (ts ++ [style.mark .pipe] ++ style.callable name)
      (.piped name subject.tree) := by
  have whole := intercalate_segments name
  cases split : segments name with
  | nil => exact (segments_ne_nil name split).elim
  | cons first rest =>
    rw [split] at whole
    have piped := reads.pipe (style.kind_mark .pipe) (style.kind_name first)
    have longer := style.reads_segments namespaced rest piped
    rw [List.append_assoc] at longer
    rw [callable, split, ← whole]
    exact longer

/-! ## Lists -/

theorem reads_items {items : List Expr} (some : items ≠ [])
    (reads : ∀ item ∈ items, Reads d (style.render item) (.tree item)) :
    ReadsList d (style.renderItems items) items := by
  induction items with
  | nil => exact (some rfl).elim
  | cons item rest ih =>
    obtain ⟨first, others⟩ := List.forall_mem_cons.1 reads
    cases rest with
    | nil => exact .single first
    | cons next rest => exact .cons first (style.kind_mark .comma) (ih (by simp) others)

theorem reads_entries {entries : List (String × Expr)} (some : entries ≠ [])
    (reads : ∀ entry ∈ entries, Reads d (style.render entry.2) (.tree entry.2)) :
    ReadsEntries d (style.renderEntries entries) entries := by
  induction entries with
  | nil => exact (some rfl).elim
  | cons entry rest ih =>
    obtain ⟨key, value⟩ := entry
    obtain ⟨first, others⟩ := List.forall_mem_cons.1 reads
    have spells : (style.token .literal (.string key)).SpellsKey key := Or.inr ⟨rfl, rfl⟩
    cases rest with
    | nil => exact .single spells (style.kind_mark .colon) first
    | cons next rest =>
      exact .cons spells (style.kind_mark .colon) first (style.kind_mark .comma)
        (ih (by simp) others)

/-- The arguments in their parentheses. -/
theorem reads_arguments {args : List Expr}
    (reads : ∀ arg ∈ args, Reads d (style.render arg) (.tree arg)) :
    ReadsArguments d
      ([style.mark .openParen] ++ style.renderItems args ++ [style.mark .closeParen]) args := by
  cases args with
  | nil => exact .none (style.kind_mark .openParen) (style.kind_mark .closeParen)
  | cons arg rest =>
    exact .list (style.kind_mark .openParen) (style.reads_items (by simp) reads)
      (style.kind_mark .closeParen)

/-! ## Expressions -/

theorem reads_group {ts : List Token} {tree : Expr} (inner : Reads d ts (.tree tree)) :
    ReadsOperand d (style.group ts) (.plain tree) :=
  .group (style.kind_mark .openParen) inner (style.kind_mark .closeParen)

theorem reads_array {items : List Expr}
    (reads : ∀ item ∈ items, Reads d (style.render item) (.tree item)) :
    ReadsOperand d (style.render (.array items)) (.plain (.array items)) := by
  cases items with
  | nil => exact .emptyArray (style.kind_mark .openBracket) (style.kind_mark .closeBracket)
  | cons item rest =>
    exact .array (style.kind_mark .openBracket) (style.reads_items (by simp) reads)
      (style.kind_mark .closeBracket)

theorem reads_object {entries : List (String × Expr)}
    (reads : ∀ entry ∈ entries, Reads d (style.render entry.2) (.tree entry.2)) :
    ReadsOperand d (style.render (.object entries)) (.plain (.object entries)) := by
  cases entries with
  | nil => exact .emptyObject (style.kind_mark .openCurl) (style.kind_mark .closeCurl)
  | cons entry rest =>
    exact .object (style.kind_mark .openCurl) (style.reads_entries (by simp) reads)
      (style.kind_mark .closeCurl)

/-- Without further arguments the transform may end with its name, or with empty parentheses. -/
theorem reads_transform (namespaced : d.options.namespacedTransforms = true) (name : String)
    {args : List Expr} (subject : args ≠ [])
    (reads : ∀ arg ∈ args, Reads d (style.render arg) (.tree arg)) :
    ∃ operand, operand.tree = .call .transforms name args ∧
      ReadsOperand d (style.renderTransform name args) operand := by
  cases args with
  | nil => exact (subject rfl).elim
  | cons first rest =>
    obtain ⟨firstReads, others⟩ := List.forall_mem_cons.1 reads
    have piped := style.reads_pipe namespaced name (style.reads_group firstReads)
    cases rest with
    | nil =>
      rw [renderTransform]
      cases style.emptyArguments with
      | false =>
        rw [if_neg Bool.false_ne_true, List.append_nil]
        exact ⟨_, rfl, piped⟩
      | true => exact ⟨_, rfl, piped.transformCall (style.reads_arguments others)⟩
    | cons arg args => exact ⟨_, rfl, piped.transformCall (style.reads_arguments others)⟩

/-- The tokens of an expression are read as this expression. -/
theorem reads_render (functions : d.options.namespacedFunctions = true)
    (transforms : d.options.namespacedTransforms = true) {tree : Expr}
    (wellFormed : tree.WellFormed d.grammar) : Reads d (style.render tree) (.tree tree) := by
  induction tree with
  | literal value => exact (ReadsOperand.literal (style.kind_token .literal value)).reads.chain
  | ident name relative =>
    cases relative with
    | false => exact (ReadsOperand.name (style.kind_name name)).reads.chain
    | true =>
      exact (ReadsOperand.relative (style.kind_mark .dot) (style.kind_name name)).reads.chain
  | member subject name relative subjectReads =>
    obtain ⟨rfl, subject⟩ := wellFormed
    have whole := (style.reads_group (subjectReads subject)).member nofun (style.kind_mark .dot)
      (style.kind_name name)
    exact whole.reads.chain
  | binary operator left right leftReads rightReads =>
    obtain ⟨registered, left, right⟩ := wellFormed
    obtain ⟨op, registered⟩ := Option.isSome_iff_exists.1 registered
    have kind := style.kind_token .binaryOp (.string operator)
    exact (style.reads_group (leftReads left)).binary kind registered
      (style.reads_group (rightReads right))
  | unary operator right rightReads =>
    obtain ⟨registered, right⟩ := wellFormed
    obtain ⟨op, registered⟩ := Option.isSome_iff_exists.1 registered
    have kind := style.kind_token .unaryOp (.string operator)
    exact ReadsOperand.unary kind registered (style.reads_group (rightReads right))
  | cond test yes no testReads yesReads noReads =>
    obtain ⟨test, yes, no⟩ := wellFormed
    exact (style.reads_group (testReads test)).reads.cond (style.kind_mark .question)
      (style.reads_group (yesReads yes)).reads.chain (style.kind_mark .colon)
      (style.reads_group (noReads no)).reads.chain
  | elvis test otherwise testReads otherwiseReads =>
    obtain ⟨test, otherwise⟩ := wellFormed
    exact (style.reads_group (testReads test)).reads.elvis (style.kind_mark .question)
      (style.kind_mark .colon) (style.reads_group (otherwiseReads otherwise)).reads.chain
  | filter subject predicate relative subjectReads predicateReads =>
    obtain ⟨rfl, subject, predicate⟩ := wellFormed
    have whole := (style.reads_group (subjectReads subject)).bracket (style.kind_mark .openBracket)
      (predicateReads predicate) (style.kind_mark .closeBracket)
    exact whole.reads.chain
  | array items itemReads =>
    have fit := Expr.wellFormedItems_iff.1 wellFormed
    have reads := style.reads_array fun item mem => itemReads item mem (fit item mem)
    exact reads.reads.chain
  | object entries entryReads =>
    have fit := Expr.wellFormedEntries_iff.1 wellFormed
    have reads := style.reads_object fun entry mem => entryReads entry mem (fit entry mem)
    exact reads.reads.chain
  | call pool name args argReads =>
    obtain ⟨subject, fit⟩ := wellFormed
    have fit := Expr.wellFormedItems_iff.1 fit
    have reads := fun arg mem => argReads arg mem (fit arg mem)
    cases pool with
    | functions =>
      obtain ⟨callee, calleeReads, named⟩ := style.reads_callable functions name
      exact (calleeReads.call named (style.reads_arguments reads)).reads.chain
    | transforms =>
      obtain ⟨operand, tree, whole⟩ :=
        style.reads_transform transforms name (subject rfl) reads
      have sentence : Reads d _ (.tree operand.tree) := whole.reads.chain
      rwa [tree] at sentence

end Style

/-- The parser undoes the writing of a tree that fits the grammar. -/
theorem parse_render (style : Style) {g : Grammar} {tree : Expr} (wellFormed : tree.WellFormed g) :
    Parser.parse ⟨g, { namespacedFunctions := true, namespacedTransforms := true }⟩
      (style.render tree) = .ok tree :=
  parse_eq_ok_iff.2 (style.reads_render rfl rfl wellFormed)

/-- Literals as JSON texts, the punctuation of the language, and no parentheses without arguments
behind a transform. -/
def Style.plain : Style where
  spell kind value := if kind = .literal then value.jsonText else value.text
  symbol kind := ((Grammar.punctuation.find? (·.2 = kind)).map Prod.fst).getD ""
  emptyArguments := false

/-- `(names|text.sort)[.length > 3]`, with parentheses around all operands. -/
def sortedLongNames : Expr :=
  .filter (.call .transforms "text.sort" [.ident "names" false])
    (.binary ">" (.ident "length" true) (.literal (.int 3))) true

theorem sortedLongNames_wellFormed : sortedLongNames.WellFormed .standard := by
  refine ⟨rfl, ⟨by simp, trivial, trivial⟩, ?_, trivial, trivial⟩
  rfl

theorem parse_render_sortedLongNames :
    Parser.parse ⟨.standard, { namespacedFunctions := true, namespacedTransforms := true }⟩
      (Style.plain.render sortedLongNames) = .ok sortedLongNames :=
  parse_render .plain sortedLongNames_wellFormed

end JsonExpr
