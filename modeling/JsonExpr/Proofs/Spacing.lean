import JsonExpr.Proofs.Engine
import JsonExpr.Proofs.Lossless
import JsonExpr.Proofs.Parser.Quotes

/-!
White space between tokens. If no symbol of the grammar contains any, tokens may be set apart as one
likes: the same tokens are read (`Splits.respaced`), although whatever the lexer looks at behind a
token may have changed. The parser makes the same of them (`unquote_parse`).
-/

namespace JsonExpr

open Lexeme (Takes Parts)

/-! ## Trailing white space -/

/-- The text without the white space at its end. -/
def Text.trimEnd (cs : List Char) : List Char :=
  (cs.reverse.dropWhile isBlank).reverse

/-- No white space stands at the end. -/
def Text.IsTrimmed (cs : List Char) : Prop :=
  ∀ c ∈ cs.getLast?, isBlank c = false

variable {g : Grammar} {last : Option TokenKind} {idle : Bool} {kind : TokenKind} {value : Value}
  {text gap rest after cs ds : List Char} {ts : List Token}

theorem Text.trimEnd_append (trimmed : IsTrimmed text) (blank : ∀ c ∈ gap, isBlank c = true) :
    trimEnd (text ++ gap) = text := by
  have front : ∀ c ∈ gap.reverse, isBlank c = true := fun c mem => blank c (List.mem_reverse.1 mem)
  have stops : ∀ c ∈ text.reverse.head?, isBlank c = false := by rwa [List.head?_reverse]
  rw [trimEnd, List.reverse_append, (span_append front stops).2, List.reverse_reverse]

theorem Text.IsTrimmed.of_forall (solid : ∀ c ∈ text, isBlank c = false) : IsTrimmed text :=
  fun c mem => solid c (List.mem_of_getLast? mem)

theorem Text.Numeral.isBlank_of_mem_chars {n : Numeral} (proper : n.IsProper) {c : Char}
    (mem : c ∈ n.chars) : isBlank c = false := by
  have digit {cs : List Char} (digits : ∀ c ∈ cs, c.isDigit = true) (mem : c ∈ cs) :
      isBlank c = false := isBlank_of_isDigit (digits c mem)
  unfold chars at mem
  split at mem
  · exact digit proper.whole mem
  · rcases List.mem_append.1 mem with mem | mem
    · exact digit proper.whole mem
    · rcases List.mem_cons.1 mem with rfl | mem
      · rfl
      · exact digit proper.fraction mem

/-- A token does not end with white space. -/
theorem Lexeme.Takes.isTrimmed (bare : g.IsBare) (takes : Takes g last text after kind value) :
    Text.IsTrimmed text := by
  cases takes with
  | @string quote body _ isQuote =>
    intro c mem
    rw [List.getLast?_concat] at mem
    cases mem
    rcases isQuote with rfl | rfl <;> rfl
  | number proper => exact .of_forall fun c => Text.Numeral.isBlank_of_mem_chars proper
  | signed isSign _ proper =>
    refine .of_forall (List.forall_mem_cons.2
      ⟨?_, fun c => Text.Numeral.isBlank_of_mem_chars proper⟩)
    rcases isSign with rfl | rfl <;> rfl
  | word starts holds =>
    have part : ∀ c, Text.isWordPart c = true → Text.isBlank c = false := fun c part =>
      Bool.eq_false_iff.2 fun blank => by cases part.symm.trans (Text.isWordPart_of_isBlank blank)
    exact .of_forall (List.forall_mem_cons.2
      ⟨part _ (Text.isWordPart_of_isWordStart starts), fun c mem => part c (holds c mem)⟩)
  | symbol _ isMatch => exact .of_forall (bare _ (List.mem_of_find?_eq_some isMatch))

/-! ## Other white space -/

/-- The text has these tokens without the white space behind them, and some other behind each. -/
inductive Respaced : List Token → List Char → Prop
  | nil : Respaced [] []
  | cons {t : Token} {ts : List Token} {gap rest : List Char} :
    gap ≠ [] → (∀ c ∈ gap, Text.isBlank c = true) → Respaced ts rest →
    Respaced (t :: ts) (Text.trimEnd t.raw.toList ++ (gap ++ rest))

/-- Both texts have a token in front, behind which no token of the second text reaches. -/
def Resembles (g : Grammar) (cs ds : List Char) : Prop :=
  ∃ front rest other, cs = front ++ rest ∧ ds = front ++ other ∧ (cs ≠ [] → front ≠ []) ∧
    Parts g front other

theorem Lexeme.Takes.of_resembles (takes : Takes g last [] cs kind value)
    (resembles : Resembles g cs ds) : Takes g last [] ds kind value := by
  obtain ⟨front, rest, other, rfl, rfl, nonempty, parts⟩ := resembles
  exact takes.of_parts (nonempty takes.ne_nil) parts

theorem Token.lexeme_mk (solid : Text.IsSolid (text ++ gap)) (trimmed : Text.IsTrimmed text)
    (blank : ∀ c ∈ gap, Text.isBlank c = true) :
    (Token.mk kind (String.ofList (text ++ gap)) value).lexeme = String.ofList text := by
  change String.ofList
    (Text.trimEnd ((String.ofList (text ++ gap)).toList.dropWhile Text.isBlank)) =
      String.ofList text
  rw [String.toList_ofList, solid.span.2, Text.trimEnd_append trimmed blank]

/-- With other white space behind each token, the text splits into the same tokens. -/
theorem Splits.respaced (bare : g.IsBare) (splits : Splits g last idle cs ts)
    (solid : Text.IsSolid cs) {body : List Char} (respaced : Respaced ts body) :
    ∃ us, Splits g last idle (body.dropWhile Text.isBlank) us ∧ List.Forall₂ Token.Alike ts us ∧
      Resembles g cs (body.dropWhile Text.isBlank) := by
  induction splits generalizing body with
  | nil =>
    cases respaced
    exact ⟨[], .nil, .nil, [], [], [], rfl, rfl, fun some => (some rfl).elim, Lexeme.parts_nil []⟩
  | @cons last idle text gap rest kind value ts takes blank inner busy _ ih =>
    cases respaced with
    | @cons _ _ newGap newRest nonempty newBlank respaced =>
      obtain ⟨us, splits, alike, resembles⟩ := ih inner respaced
      have trimmed := takes.isTrimmed bare
      obtain ⟨moreBlank, newSolid⟩ := Text.forall_mem_span Text.isBlank newRest
      rw [String.toList_ofList, Text.trimEnd_append trimmed blank]
      cases text with
      | nil =>
        -- A token without characters has no white space either.
        have none : gap = [] := by
          cases gap with
          | nil => rfl
          | cons c gap => cases (solid c rfl).symm.trans (blank c List.mem_cons_self)
        subst none
        rw [List.nil_append, List.dropWhile_append_of_pos newBlank]
        have split : Splits g last idle ([] ++ ([] ++ newRest.dropWhile Text.isBlank))
            (⟨kind, String.ofList ([] ++ []), value⟩ :: us) :=
          .cons (takes.of_resembles resembles) nofun newSolid busy splits
        exact ⟨_, split, .cons ⟨rfl, rfl, rfl⟩ alike, resembles⟩
      | cons c text =>
        have front {ds : List Char} : Text.IsSolid (c :: text ++ ds) := .cons (solid c rfl)
        have whole : newGap ++ newRest =
            (newGap ++ newRest.takeWhile Text.isBlank) ++ newRest.dropWhile Text.isBlank := by
          rw [List.append_assoc, List.takeWhile_append_dropWhile]
        have gapBlank : ∀ d ∈ newGap ++ newRest.takeWhile Text.isBlank, Text.isBlank d = true :=
          List.forall_mem_append.2 ⟨newBlank, moreBlank⟩
        have parts : Parts g (c :: text) (newGap ++ newRest) :=
          Lexeme.parts_of_gap bare nonempty newBlank _ _
        have newTakes := takes.of_parts_behind nofun parts
        have first : Token.Alike ⟨kind, String.ofList (c :: text ++ gap), value⟩
            ⟨kind, String.ofList (c :: text ++ (newGap ++ newRest.takeWhile Text.isBlank)),
              value⟩ := by
          refine ⟨rfl, rfl, ?_⟩
          rw [Token.lexeme_mk front trimmed blank, Token.lexeme_mk front trimmed gapBlank]
        rw [front.span.2]
        refine ⟨_, ?_, .cons first alike,
          c :: text, gap ++ rest, _, rfl, rfl, fun _ => List.cons_ne_nil _ _, parts⟩
        rw [whole] at newTakes ⊢
        exact .cons newTakes gapBlank newSolid nofun splits

/-- However its tokens are set apart, a text is read as the same tokens. -/
theorem tokenize_respaced (bare : g.IsBare) {source : String} (read : tokenize g source = .ok ts)
    {lead body : List Char} (blank : ∀ c ∈ lead, Text.isBlank c = true)
    (respaced : Respaced ts body) :
    ∃ us, tokenize g (String.ofList (lead ++ body)) = .ok us ∧ List.Forall₂ Token.Alike ts us := by
  have splits := tokenize_eq_ok_iff.1 read
  obtain ⟨_, solid⟩ := Text.forall_mem_span Text.isBlank source.toList
  obtain ⟨us, respaced, alike, _⟩ := splits.respaced bare solid respaced
  refine ⟨us, ?_, alike⟩
  rw [tokenize_eq_ok_iff, String.toList_ofList, List.dropWhile_append_of_pos blank]
  exact respaced

theorem Token.map_of_alike {α : Type} {us : List Token} {f : Token → α}
    (same : ∀ {t u : Token}, t.Alike u → f t = f u) (alike : List.Forall₂ Token.Alike ts us) :
    us.map f = ts.map f := by
  induction alike with
  | nil => rfl
  | cons first _ ih => rw [List.map_cons, List.map_cons, same first, ih]

theorem Dialect.read_of_parse {d : Dialect} {source : String}
    (read : tokenize d.grammar source = .ok ts) :
    d.read source = (Parser.parse d ts).mapError Error.parse := by
  rw [Dialect.read, read]
  dsimp only
  cases Parser.parse d ts <;> rfl

/-- If no symbol contains white space, that between tokens is insignificant: with any other behind
each token and in front, the same kinds and values are read, and every engine builds the same tree
or fails for the same reason. -/
theorem compile_respaced (bare : g.IsBare) {source : String} (read : tokenize g source = .ok ts)
    {lead body : List Char} (blank : ∀ c ∈ lead, Text.isBlank c = true)
    (respaced : Respaced ts body) :
    (∃ us, tokenize g (String.ofList (lead ++ body)) = .ok us ∧
      us.map Token.kind = ts.map Token.kind ∧ us.map Token.value = ts.map Token.value) ∧
    ∀ e : Engine, e.Reachable → e.dialect.grammar = g →
      (∃ left right, (e.compile source).2 = .ok left ∧
        (e.compile (String.ofList (lead ++ body))).2 = .ok right ∧
        right.tree.expr = left.tree.expr) ∨
      ∃ left right, (e.compile source).2 = .error (.parse left) ∧
        (e.compile (String.ofList (lead ++ body))).2 = .error (.parse right) ∧
        right.unquoted = left.unquoted := by
  obtain ⟨us, newRead, alike⟩ := tokenize_respaced bare read blank respaced
  refine ⟨⟨us, newRead, Token.map_of_alike Token.Alike.kind alike,
    Token.map_of_alike Token.Alike.value alike⟩, fun e reachable grammar => ?_⟩
  subst grammar
  have faithful := reachable.faithful
  have first := Dialect.read_of_parse read
  have second := Dialect.read_of_parse newRead
  have same : unquote (Parser.parse e.dialect ts) = unquote (Parser.parse e.dialect us) :=
    unquote_parse alike
  rcases cases_of_unquote_eq same with ⟨tree, one, two⟩ | ⟨left, right, one, two, cause⟩
  · rw [one] at first
    rw [two] at second
    obtain ⟨left, compiled, leftTree⟩ := faithful.compile_of_read_ok first
    obtain ⟨right, newCompiled, rightTree⟩ := faithful.compile_of_read_ok second
    exact .inl ⟨left, right, compiled, newCompiled, rightTree.trans leftTree.symm⟩
  · rw [one] at first
    rw [two] at second
    exact .inr ⟨left, right, faithful.compile_of_read_error first,
      faithful.compile_of_read_error second, cause.symm⟩

theorem Grammar.isBare_standard : Grammar.standard.IsBare := by
  have all : ∀ symbol ∈ Grammar.standard.elements.names,
      symbol.toList.all (fun c => !Text.isBlank c) = true := by
    rw [names_standard]
    decide
  intro symbol isSymbol c mem
  rw [symbols, List.mem_mergeSort, List.mem_filter] at isSymbol
  simpa using List.all_eq_true.1 (all symbol isSymbol.1) c mem

/-- The tokens of `x[1]`. -/
def bracketTokens : List Token :=
  [⟨.identifier, "x", .string "x"⟩, ⟨.openBracket, "[", .string "["⟩, ⟨.literal, "1", .int 1⟩,
    ⟨.closeBracket, "]", .string "]"⟩]

theorem tokenize_bracket : tokenize .standard "x[1]" = .ok bracketTokens := by
  have name : Lexes .standard none ['x'] [⟨.identifier, "x", .string "x"⟩] (some .identifier)
      ['[', '1', ']'] :=
    (Takes.word rfl (List.forall_mem_nil _) fun c mem => by cases mem; rfl).starts nofun
      |>.lexes (.cons rfl)
  have opener : Lexes .standard (some .identifier) ['['] [⟨.openBracket, "[", .string "["⟩]
      (some .openBracket) ['1', ']'] :=
    Lexes.mark Grammar.isStandard_standard (by decide) (.cons rfl)
  have number : Lexes .standard (some .openBracket) ['1'] [⟨.literal, "1", .int 1⟩]
      (some .literal) [']'] := by
    have takes : Takes .standard (some .openBracket) ['1'] [']'] .literal (.int 1) :=
      .number (n := ⟨['1'], []⟩) ⟨nofun, List.all_eq_true.1 rfl, nofun⟩
        (Text.Numeral.endsAt_of_stops fun c mem => by cases mem; exact ⟨rfl, nofun⟩)
    exact (takes.starts nofun).lexes (.cons rfl)
  have closer : Lexes .standard (some .literal) [']'] [⟨.closeBracket, "]", .string "]"⟩]
      (some .closeBracket) [] := Lexes.mark Grammar.isStandard_standard (by decide) nofun
  have text : "x[1]" = String.ofList (['x'] ++ (['['] ++ (['1'] ++ [']']))) := rfl
  rw [text]
  exact (name.trans (opener.trans (number.trans closer))).tokenize (.cons rfl)

theorem read_bracket :
    (Engine.new {}).dialect.read "x[1]" =
      .ok (.filter (.ident "x" false) (.literal (.int 1)) false) := by
  change Dialect.read ⟨.standard, {}⟩ "x[1]" = _
  rw [Dialect.read, tokenize_bracket]
  rfl

/-- White space wherever there may be some. -/
theorem compile_respaced_bracket :
    ∃ expression, ((Engine.new {}).compile " x\t[ 1\n]  ").2 = .ok expression ∧
      expression.tree.expr = .filter (.ident "x" false) (.literal (.int 1)) false := by
  have last : Respaced [⟨.closeBracket, "]", .string "]"⟩] [']', ' ', ' '] :=
    @Respaced.cons _ _ [' ', ' '] _ nofun (List.all_eq_true.1 rfl) .nil
  have number : Respaced [⟨.literal, "1", .int 1⟩, ⟨.closeBracket, "]", .string "]"⟩]
      ['1', '\n', ']', ' ', ' '] :=
    @Respaced.cons _ _ ['\n'] _ nofun (List.all_eq_true.1 rfl) last
  have respaced : Respaced bracketTokens "x\t[ 1\n]  ".toList :=
    @Respaced.cons _ _ ['\t'] _ nofun (List.all_eq_true.1 rfl) <|
      @Respaced.cons _ _ [' '] _ nofun (List.all_eq_true.1 rfl) number
  have blank : ∀ c ∈ [' '], Text.isBlank c = true := List.all_eq_true.1 rfl
  obtain ⟨_, compiles⟩ := compile_respaced Grammar.isBare_standard tokenize_bracket blank respaced
  rcases compiles (Engine.new {}) (.new {}) rfl with
    ⟨left, right, compiled, newCompiled, same⟩ | ⟨left, right, fails, _⟩
  · cases (Engine.compile_of_read rfl read_bracket).symm.trans compiled
    exact ⟨right, newCompiled, same⟩
  · cases (Engine.compile_of_read rfl read_bracket).symm.trans fails

end JsonExpr
