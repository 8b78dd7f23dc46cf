import JsonExpr.Proofs.Engine
import JsonExpr.Proofs.Lexer
import JsonExpr.Proofs.Parser.Rendering
import JsonExpr.Proofs.Siblings
import JsonExpr.Proofs.Value

/-!
The JSON text of a value is an expression for this value. The lexer reads the text as the tokens of
an expression made of literals, arrays and objects, the parser reads these tokens as this
expression, and its value is the value at the start.

Doubles, `undefined` and the control characters that JSON writes with a code are left out: they are
written in other ways than in expressions.
-/

namespace JsonExpr

namespace Value

mutual

/-- The value has neither `undefined` nor doubles, and no characters that JSON writes with a
code. -/
def IsPlain : Value → Prop
  | .undefined => False
  | .null => True
  | .bool _ => True
  | .int _ => True
  | .float _ => False
  | .string s => ∀ c ∈ s.toList, Json.IsPlain c
  | .array items => IsPlainItems items
  | .object fields => IsPlainFields fields

/-- All items are plain. -/
def IsPlainItems : List Value → Prop
  | [] => True
  | item :: rest => item.IsPlain ∧ IsPlainItems rest

/-- All keys and all their values are plain. -/
def IsPlainFields : List (String × Value) → Prop
  | [] => True
  | (key, value) :: rest =>
    ((∀ c ∈ key.toList, Json.IsPlain c) ∧ value.IsPlain) ∧ IsPlainFields rest

end

theorem isPlainItems_iff {items : List Value} :
    IsPlainItems items ↔ ∀ item ∈ items, item.IsPlain := by
  induction items with
  | nil => simp [IsPlainItems]
  | cons item rest ih => rw [IsPlainItems, ih, List.forall_mem_cons]

theorem isPlainFields_iff {fields : List (String × Value)} :
    IsPlainFields fields ↔
      ∀ field ∈ fields, (∀ c ∈ field.1.toList, Json.IsPlain c) ∧ field.2.IsPlain := by
  induction fields with
  | nil => simp [IsPlainFields]
  | cons field rest ih => rw [IsPlainFields, ih, List.forall_mem_cons]

mutual

/-- The expression that writes a value down. -/
def toExpr : Value → Expr
  | .array items => .array (toExprItems items)
  | .object fields => .object (toExprFields fields)
  | value => .literal value

/-- The expressions for items. -/
def toExprItems : List Value → List Expr
  | [] => []
  | item :: rest => item.toExpr :: toExprItems rest

/-- The entries for fields. -/
def toExprFields : List (String × Value) → List (String × Expr)
  | [] => []
  | (key, value) :: rest => (key, value.toExpr) :: toExprFields rest

end

theorem toExprItems_eq_map (items : List Value) : toExprItems items = items.map toExpr := by
  induction items with
  | nil => rfl
  | cons item rest ih => rw [toExprItems, ih, List.map_cons]

theorem toExprFields_eq_map (fields : List (String × Value)) :
    toExprFields fields = fields.map fun field => (field.1, field.2.toExpr) := by
  induction fields with
  | nil => rfl
  | cons field rest ih => rw [toExprFields, ih, List.map_cons]

theorem compactItems_toJsonItems (items : List Value) :
    Json.compactItems (toJsonItems items) = items.map fun item => item.toJson.compact := by
  induction items with
  | nil => rfl
  | cons item rest ih => rw [toJsonItems, Json.compactItems, ih, List.map_cons]

theorem compactFields_toJsonFields (fields : List (String × Value)) :
    Json.compactFields (toJsonFields fields) =
      fields.map fun field => Json.quote field.1 ++ [':'] ++ field.2.toJson.compact := by
  induction fields with
  | nil => rfl
  | cons field rest ih =>
    rw [toJsonFields, Json.compactFields, ih, List.map_cons, List.append_assoc,
      List.singleton_append]

end Value

/-! ## The text is read as tokens -/

section Tokens

variable {g : Grammar} {last : Option TokenKind} {after : List Char}

/-- Where an item of an array or of an object may end. -/
def Stops (after : List Char) : Prop :=
  ∀ c ∈ after.head?, c = ',' ∨ c = ']' ∨ c = '\x7d'

/-- Wherever an item may stand, the text is read as these tokens. -/
def LexesItem (g : Grammar) (cs : List Char) (ts : List Token) : Prop :=
  ∀ ⦃last : Option TokenKind⦄ ⦃after : List Char⦄, Lexeme.operandExpected last = true →
    Stops after → ∃ final, Lexes g last cs ts final after

theorem Stops.solid (stops : Stops after) : Text.IsSolid after := by
  intro c mem
  rcases stops c mem with rfl | rfl | rfl <;> rfl

theorem stops_closer {closer : Char} (isCloser : closer = ']' ∨ closer = '\x7d')
    (after : List Char) : Stops (closer :: after) := by
  intro c mem
  cases mem
  exact Or.inr isCloser

theorem Stops.endsAt (stops : Stops after) (n : Text.Numeral) : n.EndsAt after := by
  refine Text.Numeral.endsAt_of_stops fun c mem => ?_
  rcases stops c mem with rfl | rfl | rfl <;> decide

theorem Stops.noWordPart (stops : Stops after) :
    ∀ c ∈ after.head?, Text.isWordPart c = false := by
  intro c mem
  rcases stops c mem with rfl | rfl | rfl <;> decide

/-- A quoted text is read as the string. -/
theorem starts_quote {s : String} (plain : ∀ c ∈ s.toList, Json.IsPlain c) :
    Lexeme.Starts g last (Json.quote s) after .literal (.string s) := by
  have chunks : ∀ c ∈ s.toList, Text.IsChunk '"' (Json.escapeChar c) := fun c mem =>
    (Json.isChunk_escapeChar (plain c mem)).1
  have meaning := Text.unescape_flatMap chunks fun c mem =>
    (Json.isChunk_escapeChar (plain c mem)).2
  have starts : Lexeme.Starts g last _ after _ _ := 
    (Lexeme.Takes.string (Or.inl rfl) (Text.isBody_flatMap chunks)).starts nofun
  rwa [meaning, String.ofList_toList] at starts

/-- A numeral is read as the integer. -/
theorem starts_integer (expected : Lexeme.operandExpected last = true) (stops : Stops after)
    (n : Int64) : Lexeme.Starts g last (Text.integer n.toInt) after .literal (.int n) := by
  have proper : Text.Numeral.IsProper ⟨Text.natural n.toInt.natAbs, []⟩ :=
    ⟨Text.natural_ne_nil _, fun c mem => Text.isDigit_of_mem_natural mem, nofun⟩
  have digits := Text.ofDigits_natural n.toInt.natAbs
  unfold Text.integer
  split
  · rename_i negative
    have fits : n.toInt = if true then -(Text.ofDigits (Text.natural n.toInt.natAbs) : Int)
        else Text.ofDigits (Text.natural n.toInt.natAbs) := by
      rw [if_pos rfl, digits]
      omega
    rw [← Text.Numeral.value_digits fits]
    exact (Lexeme.Takes.signed (Or.inr rfl) expected proper (stops.endsAt _)).starts nofun
  · rename_i positive
    have fits : n.toInt = if false then -(Text.ofDigits (Text.natural n.toInt.natAbs) : Int)
        else Text.ofDigits (Text.natural n.toInt.natAbs) := by
      rw [if_neg Bool.false_ne_true, digits]
      omega
    rw [← Text.Numeral.value_digits fits]
    exact (Lexeme.Takes.number proper (stops.endsAt _)).starts proper.whole_ne_nil

theorem starts_null (stops : Stops after) :
    Lexeme.Starts g last ['n', 'u', 'l', 'l'] after .literal .null :=
  (Lexeme.Takes.word rfl (List.all_eq_true.1 rfl) stops.noWordPart).starts nofun

theorem starts_bool (stops : Stops after) (b : Bool) :
    Lexeme.Starts g last (Json.bool b).compact after .literal (.bool b) := by
  cases b with
  | false => exact (Lexeme.Takes.word rfl (List.all_eq_true.1 rfl) stops.noWordPart).starts nofun
  | true => exact (Lexeme.Takes.word rfl (List.all_eq_true.1 rfl) stops.noWordPart).starts nofun

/-- No JSON text starts with white space. -/
theorem solid_compact {value : Value} (plain : value.IsPlain) :
    Text.IsSolid (value.toJson.compact ++ after) := by
  cases value with
  | undefined => exact plain.elim
  | null => exact .cons rfl
  | bool b =>
    cases b with
    | false => exact .cons rfl
    | true => exact .cons rfl
  | int n =>
    have digits : ∀ c ∈ Text.natural n.toInt.natAbs, c.isDigit = true := fun c mem =>
      Text.isDigit_of_mem_natural mem
    rw [Value.toJson, Json.compact, Text.integer]
    split
    · exact .cons rfl
    · cases split : Text.natural n.toInt.natAbs with
      | nil => exact (Text.natural_ne_nil _ split).elim
      | cons c tail =>
        rw [split] at digits
        exact .cons (Text.isBlank_of_isDigit (digits c List.mem_cons_self))
  | float x => exact plain.elim
  | string s => exact .cons rfl
  | array items => exact .cons rfl
  | object fields => exact .cons rfl

theorem solid_join {texts : List (List Char)}
    (solid : ∀ text ∈ texts, ∀ tail, Text.IsSolid (text ++ tail)) (tailSolid : Text.IsSolid after) :
    Text.IsSolid (Json.join [','] texts ++ after) := by
  cases texts with
  | nil => exact tailSolid
  | cons text rest =>
    have first := solid text List.mem_cons_self
    cases rest with
    | nil => exact first after
    | cons next rest =>
      rw [Json.join, List.append_assoc, List.append_assoc]
      · exact first _
      · simp

theorem solid_items {items : List Value} (plain : ∀ item ∈ items, item.IsPlain)
    (solid : Text.IsSolid after) :
    Text.IsSolid (Json.join [','] (items.map fun item => item.toJson.compact) ++ after) := by
  refine solid_join ?_ solid
  intro text mem tail
  obtain ⟨item, isItem, rfl⟩ := List.mem_map.1 mem
  exact solid_compact (plain item isItem)

theorem solid_fields {fields : List (String × Value)} (solid : Text.IsSolid after) :
    Text.IsSolid (Json.join [','] (fields.map fun field =>
      Json.quote field.1 ++ [':'] ++ field.2.toJson.compact) ++ after) := by
  refine solid_join ?_ solid
  intro text mem tail
  obtain ⟨field, _, rfl⟩ := List.mem_map.1 mem
  exact .cons rfl

theorem symbol_of_mem_marks : ∀ mark ∈ Grammar.marks,
    Style.plain.symbol mark.2 = String.singleton mark.1 ∧ mark.2 ≠ .literal := by
  decide

theorem mark_plain {c : Char} {kind : TokenKind} (mem : (c, kind) ∈ Grammar.marks) :
    Style.plain.mark kind = ⟨kind, String.singleton c, .string (String.singleton c)⟩ := by
  obtain ⟨symbol, noLiteral⟩ := symbol_of_mem_marks _ mem
  have text : Style.plain.spell kind (.string (String.singleton c)) = String.singleton c :=
    if_neg noLiteral
  rw [Style.mark, symbol, Style.token, text]

variable (standard : g.IsStandard)

include standard

theorem lexes_mark {c : Char} {kind : TokenKind} (mem : (c, kind) ∈ Grammar.marks)
    (solid : Text.IsSolid after) :
    Lexes g last [c] [Style.plain.mark kind] (some kind) after := by
  rw [mark_plain mem]
  exact Lexes.mark standard mem solid

theorem LexesItem.cons {cs ds : List Char} {ts us : List Token} (first : LexesItem g cs ts)
    (rest : LexesItem g ds us) (solid : ∀ after, Stops after → Text.IsSolid (ds ++ after)) :
    LexesItem g (cs ++ [','] ++ ds) (ts ++ [Style.plain.mark .comma] ++ us) := by
  intro last after expected stops
  have comma : Stops ([','] ++ (ds ++ after)) := by
    intro c mem
    cases mem
    exact Or.inl rfl
  obtain ⟨middle, front⟩ := first expected comma
  obtain ⟨final, back⟩ := @rest (some .comma) after rfl stops
  have mark : Lexes g middle [','] [Style.plain.mark .comma] (some .comma) (ds ++ after) :=
    lexes_mark standard (by decide) (solid after stops)
  exact ⟨final, (front.trans mark).trans back⟩

theorem lexes_items {items : List Value} (plain : ∀ item ∈ items, item.IsPlain)
    (reads : ∀ item ∈ items,
      LexesItem g item.toJson.compact (Style.plain.render item.toExpr)) :
    LexesItem g (Json.join [','] (items.map fun item => item.toJson.compact))
      (Style.plain.renderItems (items.map Value.toExpr)) := by
  induction items with
  | nil => exact fun _ _ _ _ => ⟨_, .refl⟩
  | cons item rest ih =>
    obtain ⟨first, others⟩ := List.forall_mem_cons.1 reads
    obtain ⟨_, otherPlain⟩ := List.forall_mem_cons.1 plain
    cases rest with
    | nil => exact first
    | cons next rest =>
      exact first.cons standard (ih otherPlain others) fun after stops =>
        solid_items otherPlain stops.solid

/-- An entry is its key, a colon and its value. -/
theorem lexes_field {key : String} {value : Value} (keyPlain : ∀ c ∈ key.toList, Json.IsPlain c)
    (plain : value.IsPlain)
    (reads : LexesItem g value.toJson.compact (Style.plain.render value.toExpr)) :
    LexesItem g (Json.quote key ++ [':'] ++ value.toJson.compact)
      ([Style.plain.token .literal (.string key)] ++ [Style.plain.mark .colon] ++
        Style.plain.render value.toExpr) := by
  intro last after expected stops
  have name : Lexes g last (Json.quote key) [Style.plain.token .literal (.string key)]
      (some .literal) ([':'] ++ (value.toJson.compact ++ after)) :=
    (starts_quote keyPlain).lexes (.cons rfl)
  have mark : Lexes g (some .literal) [':'] [Style.plain.mark .colon] (some .colon)
      (value.toJson.compact ++ after) :=
    lexes_mark standard (by decide) (solid_compact plain)
  obtain ⟨final, back⟩ := @reads (some .colon) after rfl stops
  exact ⟨final, (name.trans mark).trans back⟩

theorem lexes_fields {fields : List (String × Value)}
    (plain : ∀ field ∈ fields, (∀ c ∈ field.1.toList, Json.IsPlain c) ∧ field.2.IsPlain)
    (reads : ∀ field ∈ fields,
      LexesItem g field.2.toJson.compact (Style.plain.render field.2.toExpr)) :
    LexesItem g
      (Json.join [','] (fields.map fun field =>
        Json.quote field.1 ++ [':'] ++ field.2.toJson.compact))
      (Style.plain.renderEntries (fields.map fun field => (field.1, field.2.toExpr))) := by
  induction fields with
  | nil => exact fun _ _ _ _ => ⟨_, .refl⟩
  | cons field rest ih =>
    obtain ⟨firstReads, others⟩ := List.forall_mem_cons.1 reads
    obtain ⟨⟨keyPlain, firstPlain⟩, otherPlain⟩ := List.forall_mem_cons.1 plain
    have first := lexes_field standard keyPlain firstPlain firstReads
    cases rest with
    | nil => exact first
    | cons next rest =>
      exact first.cons standard (ih otherPlain others) fun after stops =>
        solid_fields stops.solid

/-- Brackets around items or entries. -/
theorem LexesItem.bracketed {opener closer : Char} {openKind closeKind : TokenKind}
    {cs : List Char} {ts : List Token} (inner : LexesItem g cs ts)
    (openMark : (opener, openKind) ∈ Grammar.marks)
    (closeMark : (closer, closeKind) ∈ Grammar.marks)
    (expects : Lexeme.operandExpected (some openKind) = true)
    (closes : ∀ after, Stops (closer :: after))
    (solid : ∀ after, Text.IsSolid (cs ++ ([closer] ++ after))) :
    LexesItem g ([opener] ++ cs ++ [closer])
      ([Style.plain.mark openKind] ++ ts ++ [Style.plain.mark closeKind]) := by
  intro last after _ stops
  have front : Lexes g last [opener] [Style.plain.mark openKind] (some openKind)
      (cs ++ ([closer] ++ after)) := lexes_mark standard openMark (solid after)
  obtain ⟨middle, body⟩ := inner expects (closes after)
  have back : Lexes g middle [closer] [Style.plain.mark closeKind] (some closeKind) after :=
    lexes_mark standard closeMark stops.solid
  exact ⟨_, (front.trans body).trans back⟩

/-- Wherever an item may stand, the text of a value is read as the tokens of its expression. -/
theorem lexes_compact {value : Value} (plain : value.IsPlain) :
    LexesItem g value.toJson.compact (Style.plain.render value.toExpr) := by
  induction value with
  | undefined => exact plain.elim
  | null => exact fun _ _ _ stops => ⟨_, (starts_null stops).lexes stops.solid⟩
  | bool b => exact fun _ _ _ stops => ⟨_, (starts_bool stops b).lexes stops.solid⟩
  | int n =>
    exact fun _ _ expected stops => ⟨_, (starts_integer expected stops n).lexes stops.solid⟩
  | float x => exact plain.elim
  | string s => exact fun _ _ _ stops => ⟨_, (starts_quote plain).lexes stops.solid⟩
  | array items ih =>
    have itemsPlain := Value.isPlainItems_iff.1 plain
    have inner := lexes_items standard itemsPlain fun item mem => ih item mem (itemsPlain item mem)
    have opener : ('[', TokenKind.openBracket) ∈ Grammar.marks := by decide
    have closer : (']', TokenKind.closeBracket) ∈ Grammar.marks := by decide
    have whole := inner.bracketed standard opener closer rfl (stops_closer (Or.inl rfl))
      fun after => solid_items itemsPlain (.cons rfl)
    rw [← Value.compactItems_toJsonItems, ← Value.toExprItems_eq_map] at whole
    exact whole
  | object fields ih =>
    have fieldsPlain := Value.isPlainFields_iff.1 plain
    have inner := lexes_fields standard fieldsPlain fun field mem =>
      ih field mem (fieldsPlain field mem).2
    have opener : ('\x7b', TokenKind.openCurl) ∈ Grammar.marks := by decide
    have closer : ('\x7d', TokenKind.closeCurl) ∈ Grammar.marks := by decide
    have whole := inner.bracketed standard opener closer rfl (stops_closer (Or.inr rfl))
      fun after => solid_fields (.cons rfl)
    rw [← Value.compactFields_toJsonFields, ← Value.toExprFields_eq_map] at whole
    exact whole

/-- The JSON text of a value is split into the tokens of its expression. -/
theorem tokenize_jsonText {value : Value} (plain : value.IsPlain) :
    tokenize g value.jsonText = .ok (Style.plain.render value.toExpr) := by
  obtain ⟨final, lexes⟩ := @lexes_compact g standard value plain none [] rfl nofun
  have solid : Text.IsSolid (value.toJson.compact ++ []) := solid_compact plain
  rw [List.append_nil] at solid
  exact lexes.tokenize solid

end Tokens

/-! ## The tokens are read as the expression -/

theorem reads_toExpr (d : Dialect) (value : Value) :
    Reads d (Style.plain.render value.toExpr) (.tree value.toExpr) := by
  have literal (value : Value) : Reads d (Style.plain.render (.literal value))
      (.tree (.literal value)) :=
    (ReadsOperand.literal (Style.plain.kind_token .literal value)).reads.chain
  induction value with
  | undefined => exact literal .undefined
  | null => exact literal .null
  | bool b => exact literal (.bool b)
  | int n => exact literal (.int n)
  | float x => exact literal (.float x)
  | string s => exact literal (.string s)
  | array items ih =>
    have itemReads : ∀ item ∈ items.map Value.toExpr,
        Reads d (Style.plain.render item) (.tree item) := List.forall_mem_map.2 ih
    rw [Value.toExpr, Value.toExprItems_eq_map]
    exact (Style.plain.reads_array itemReads).reads.chain
  | object fields ih =>
    have fieldReads : ∀ entry ∈ fields.map fun field => (field.1, field.2.toExpr),
        Reads d (Style.plain.render entry.2) (.tree entry.2) := List.forall_mem_map.2 ih
    rw [Value.toExpr, Value.toExprFields_eq_map]
    exact (Style.plain.reads_object fieldReads).reads.chain

/-! ## The expression has the value -/

theorem eval_toExpr (g : Grammar) (scope : Scope) {value : Value} (wellFormed : value.WellFormed) :
    value.toExpr.eval g scope = .ok value := by
  induction value with
  | undefined => rfl
  | null => rfl
  | bool b => rfl
  | int n => rfl
  | float x => rfl
  | string s => rfl
  | array items ih =>
    have fit := Value.wellFormedItems_iff.1 wellFormed
    have values : items.map (Expr.eval g scope ∘ Value.toExpr) = items.map Run.ok :=
      List.map_congr_left fun item mem => ih item mem (fit item mem)
    rw [Value.toExpr, Expr.eval, Expr.evalItems_eq_map, Value.toExprItems_eq_map, List.map_map,
      values, Run.joinAll_ok]
    rfl
  | object fields ih =>
    obtain ⟨nodup, fit⟩ := wellFormed
    have fit := Value.wellFormedFields_iff.1 fit
    have entries : (fields.map fun field => (field.1, field.2.toExpr)).map
        (fun entry => entry.2.eval g scope) = (fields.map Prod.snd).map Run.ok := by
      rw [List.map_map, List.map_map]
      exact List.map_congr_left fun field mem => ih field mem (fit field mem)
    have keys : (fields.map fun field => (field.1, field.2.toExpr)).map Prod.fst =
        fields.map Prod.fst := by
      rw [List.map_map]
      rfl
    have pairs : (fields.map Prod.fst).zip (fields.map Prod.snd) = fields := by
      rw [List.zip_map', List.map_id']
    rw [Value.toExpr, Expr.eval, Expr.evalEntries_eq_map, Value.toExprFields_eq_map, entries, keys,
      Run.joinAll_ok, Run.ok, Run.map, Except.map, pairs, Value.ofEntries,
      Fields.ofList_eq_self nodup]
    rfl

/-- With the standard operators and punctuation, and whatever functions and transforms, an engine
evaluates the JSON text of a value to this value. -/
theorem evaluate_jsonText {e : Engine} (reachable : e.Reachable)
    (standard : e.dialect.grammar.IsStandard) {value : Value} (plain : value.IsPlain)
    (wellFormed : value.WellFormed) (context : Value) :
    (e.evaluate value.jsonText context).2 = .ok (.ok value) := by
  have tokens := tokenize_jsonText standard plain
  have parsed := parse_eq_ok_iff.2 (reads_toExpr e.dialect value)
  rw [reachable.faithful.evaluate_eq, Dialect.read, tokens]
  simp only [parsed]
  exact congrArg Except.ok (eval_toExpr e.dialect.grammar ⟨context, none⟩ wellFormed)

/-- An object with the least integer and a key that JSON has to escape. -/
def extremes : Value :=
  .object [("a \"b\"\n", .array [.int Int64.minValue, .null]), ("c", .bool true)]

theorem extremes_isPlain : extremes.IsPlain :=
  ⟨⟨Json.isPlain_of_all rfl, trivial, trivial, trivial⟩, ⟨Json.isPlain_of_all rfl, trivial⟩,
    trivial⟩

theorem extremes_wellFormed : extremes.WellFormed :=
  ⟨by decide, ⟨trivial, trivial, trivial⟩, trivial, trivial⟩

theorem evaluate_jsonText_extremes :
    ((Engine.new {}).evaluate extremes.jsonText .null).2 = .ok (.ok extremes) :=
  evaluate_jsonText (.new {}) Grammar.isStandard_standard extremes_isPlain extremes_wellFormed .null

end JsonExpr
