import JsonExpr.Proofs.Engine
import JsonExpr.Proofs.Lexer
import JsonExpr.Proofs.Parser.Refusals
import JsonExpr.Proofs.Symbols

/-!
Paths: words with dots between them. Behind a dot the lexer reads a word as a name even if it spells
an operator, so a path is the chain of properties that it looks like, and its value is read off the
context property by property. A keyword is a literal behind a dot too, and there the parser refuses
it (`compile_path`).
-/

namespace JsonExpr

/-- The whole text is one word. -/
def Text.IsWord (word : String) : Prop :=
  ∃ c tail, word.toList = c :: tail ∧ isWordStart c = true ∧ ∀ d ∈ tail, isWordPart d = true

theorem Text.IsWord.ofList {c : Char} {tail : List Char} (starts : isWordStart c = true)
    (holds : tail.all isWordPart = true) : IsWord (String.ofList (c :: tail)) :=
  ⟨c, tail, String.toList_ofList, starts, List.all_eq_true.1 holds⟩

/-- The dot is a symbol, and no other symbol begins with one. -/
structure Grammar.DotsAlone (g : Grammar) : Prop where
  element : g.element? "." = some (.punctuation .dot)
  alone : ∀ symbol, (g.element? symbol).isSome → symbol.toList.head? = some '.' → symbol = "."

theorem Grammar.dotsAlone_standard : DotsAlone .standard where
  element := rfl
  alone symbol registered front :=
    (alone_of_mem_marks ('.', .dot) List.mem_cons_self).2 symbol
      (Fields.isSome_find?_iff.1 registered) (.inr front)

variable {g : Grammar} {d : Dialect} {last : Option TokenKind} {word : String} {value : Value}
  {after : List Char}

/-! ## Words -/

namespace Lexeme

/-- The words that stand for a value wherever they are. -/
def keyword? : String → Option Value
  | "true" => some (.bool true)
  | "false" => some (.bool false)
  | "null" => some .null
  | "undefined" => some .undefined
  | _ => none

theorem wordMeaning_of_keyword (keyword : keyword? word = some value) :
    wordMeaning g last word = (.literal, value) := by
  unfold keyword? at keyword
  split at keyword <;> cases keyword <;> rfl

theorem trim_keyword (keyword : keyword? word = some value) : Text.trim word = word := by
  unfold keyword? at keyword
  split at keyword <;> cases keyword <;> rfl

/-- Behind a dot a word is a name, whatever the grammar has under it, and elsewhere if that is no
operator. -/
theorem wordMeaning_of_not_keyword (noKeyword : keyword? word = none)
    (isName : last = some .dot ∨ g.binary? word = none ∧ g.unary? word = none) :
    wordMeaning g last word = (.identifier, .string word) := by
  have ne {keyword : String} (isKeyword : (keyword? keyword).isSome) : word ≠ keyword := by
    rintro rfl
    rw [noKeyword] at isKeyword
    cases isKeyword
  rw [wordMeaning, if_neg (ne rfl), if_neg (ne rfl), if_neg (ne rfl), if_neg (ne rfl)]
  rcases isName with behindDot | ⟨noBinary, noUnary⟩
  · rw [if_pos behindDot]
  · split
    · rfl
    · split
      · rename_i op registered
        rw [Grammar.binary?, registered] at noBinary
        cases noBinary
      · rename_i op registered
        rw [Grammar.unary?, registered] at noUnary
        cases noUnary
      · rfl

end Lexeme

/-! ## Tokens -/

namespace Token

/-- The token that a word is read as. -/
def ofWord (g : Grammar) (last : Option TokenKind) (word : String) : Token :=
  ⟨(Lexeme.wordMeaning g last word).1, word, (Lexeme.wordMeaning g last word).2⟩

/-- The token of a name. -/
def name (word : String) : Token :=
  ⟨.identifier, word, .string word⟩

/-- The token of a dot. -/
def dot : Token :=
  ⟨.dot, ".", .string "."⟩

end Token

theorem Text.IsWord.isSolid (isWord : Text.IsWord word) (after : List Char) :
    Text.IsSolid (word.toList ++ after) := by
  obtain ⟨c, tail, chars, starts, _⟩ := isWord
  rw [chars]
  refine .cons (Bool.eq_false_iff.2 fun blank => ?_)
  cases (Text.isWordPart_of_isWordStart starts).symm.trans (Text.isWordPart_of_isBlank blank)

theorem lexes_word (isWord : Text.IsWord word)
    (stops : ∀ c ∈ after.head?, Text.isWordPart c = false) (solid : Text.IsSolid after) :
    Lexes g last word.toList [.ofWord g last word] (some (Lexeme.wordMeaning g last word).1)
      after := by
  obtain ⟨c, tail, chars, starts, holds⟩ := isWord
  have takes : Lexeme.Takes g last (c :: tail) after _ _ := .word starts holds stops
  have lexes := (takes.starts (List.cons_ne_nil c tail)).lexes solid
  rwa [← chars, String.ofList_toList] at lexes

theorem matchSymbol?_dot (dots : g.DotsAlone) (after : List Char) :
    g.matchSymbol? ('.' :: after) = some "." := by
  have fits : g.Fits "." ('.' :: after) :=
    ⟨by rw [dots.element]; rfl, rfl, List.prefix_append ['.'] after⟩
  cases found : g.matchSymbol? ('.' :: after) with
  | none => exact (Grammar.matchSymbol?_eq_none_iff.1 found "." fits).elim
  | some symbol =>
    obtain ⟨⟨registered, _, _⟩, longest⟩ := Grammar.isLongest_of_matchSymbol? found
    obtain ⟨tail, chars⟩ := longest "." fits
    have front : symbol.toList.head? = some '.' := by
      rw [← chars]
      rfl
    rw [dots.alone symbol registered front]

theorem lexes_dot (dots : g.DotsAlone) (solid : Text.IsSolid after) :
    Lexes g last ['.'] [.dot] (some .dot) after := by
  have noSign : ¬("." = "+" ∨ "." = "-") := by decide
  have takes : Lexeme.Takes g last ['.'] after .dot (.string ".") :=
    @Lexeme.Takes.symbol g last "." (.punctuation .dot) after ⟨rfl, rfl, rfl, rfl⟩
      (matchSymbol?_dot dots after) dots.element fun isSign => (noSign isSign).elim
  exact (takes.starts nofun).lexes solid

/-- What stands behind the first word of a path: a dot before each further word. -/
def dotted (rest : List String) : List Char :=
  rest.flatMap fun word => '.' :: word.toList

theorem toList_path (first : String) (rest : List String) :
    (".".intercalate (first :: rest)).toList = first.toList ++ dotted rest := by
  induction rest generalizing first with
  | nil => rw [String.intercalate_singleton, dotted, List.flatMap_nil, List.append_nil]
  | cons word rest ih =>
    rw [String.intercalate_cons_cons, String.toList_append, String.toList_append, ih,
      List.append_assoc]
    rfl

theorem eq_of_mem_head?_dotted {rest : List String} {c : Char} (mem : c ∈ (dotted rest).head?) :
    c = '.' := by
  cases rest with
  | nil => cases mem
  | cons word rest => cases mem; rfl

/-- A word of a path, before what follows it there. -/
theorem lexes_word_of_path (isWord : Text.IsWord word) (rest : List String) :
    Lexes g last word.toList [.ofWord g last word] (some (Lexeme.wordMeaning g last word).1)
      (dotted rest ++ []) := by
  rw [List.append_nil]
  refine lexes_word isWord (fun c mem => ?_) fun c mem => ?_
  · rw [eq_of_mem_head?_dotted mem]
    rfl
  · rw [eq_of_mem_head?_dotted mem]
    rfl

theorem lexes_dotted (dots : g.DotsAlone) {rest : List String}
    (words : ∀ word ∈ rest, Text.IsWord word) :
    ∃ final, Lexes g last (dotted rest)
      (rest.flatMap fun word => [.dot, .ofWord g (some .dot) word]) final [] := by
  induction rest generalizing last with
  | nil => exact ⟨last, .refl⟩
  | cons word rest ih =>
    obtain ⟨isWord, others⟩ := List.forall_mem_cons.1 words
    obtain ⟨final, further⟩ := @ih (some (Lexeme.wordMeaning g (some .dot) word).1) others
    have solid : Text.IsSolid (word.toList ++ dotted rest ++ []) := by
      rw [List.append_nil]
      exact isWord.isSolid _
    exact ⟨final, (lexes_dot dots solid).trans ((lexes_word_of_path isWord rest).trans further)⟩

/-- A path is read word by word. -/
theorem tokenize_path (dots : g.DotsAlone) {first : String} {rest : List String}
    (words : ∀ word ∈ first :: rest, Text.IsWord word) :
    tokenize g (".".intercalate (first :: rest)) =
      .ok (.ofWord g none first ::
        rest.flatMap fun word => [.dot, .ofWord g (some .dot) word]) := by
  obtain ⟨isWord, others⟩ := List.forall_mem_cons.1 words
  obtain ⟨final, further⟩ := lexes_dotted dots others
  have tokens := ((lexes_word_of_path isWord rest).trans further).tokenize (isWord.isSolid _)
  rwa [← toList_path, String.ofList_toList] at tokens

/-! ## Trees -/

/-- The tree of a path. -/
def Expr.path (first : String) (rest : List String) : Expr :=
  rest.foldl (fun subject name => .member subject name false) (.ident first false)

/-- Its value is read name by name. -/
theorem Expr.eval_path (g : Grammar) (context : Value) (first : String) (rest : List String) :
    (Expr.path first rest).evaluate g context =
      .ok (rest.foldl (fun value name => value.property name) (context.property first)) := by
  have whole : ∀ (tree : Expr) (value : Value), tree.eval g ⟨context, none⟩ = .ok value →
      (rest.foldl (fun subject name => .member subject name false) tree).eval g ⟨context, none⟩ =
        .ok (rest.foldl (fun value name => value.property name) value) := by
    induction rest with
    | nil => exact fun _ _ evaluated => evaluated
    | cons name rest ih =>
      intro tree value evaluated
      refine ih _ _ ?_
      rw [Expr.eval, evaluated]
      rfl
  exact whole (.ident first false) (context.property first) rfl

namespace Parser

/-- A parser that has read a name or a property, and waits for nothing else. -/
def atName (text : String) (tree : Expr) : Parser :=
  ⟨text, .reading [] ⟨[], .after (.named tree)⟩⟩

theorem addAll_atName (d : Dialect) (text : String) (tree : Expr) (rest : List String) :
    (atName text tree).addAll d (rest.flatMap fun name => [.dot, .name name]) =
      .ok (atName (".".intercalate (text :: rest))
        (rest.foldl (fun subject name => .member subject name false) tree)) := by
  induction rest generalizing text tree with
  | nil =>
    rw [String.intercalate_singleton]
    rfl
  | cons name rest ih =>
    have step : (atName text tree).addAll d [.dot, .name name] =
        .ok (atName (text ++ "." ++ name) (.member tree name false)) := rfl
    rw [List.flatMap_cons]
    refine addAll_append_eq_ok.2 ⟨_, step, ?_⟩
    rw [ih, String.intercalate_cons_append, ← String.intercalate_cons_cons]
    rfl

/-- The parser after the first names of a path. -/
theorem addAll_names (d : Dialect) (first : String) (rest : List String) :
    start.addAll d (.name first :: rest.flatMap fun name => [.dot, .name name]) =
      .ok (atName (".".intercalate (first :: rest)) (.path first rest)) := by
  have begun : start.add d (.name first) = .ok (atName first (.ident first false)) := by
    change Except.ok (atName ("" ++ first) _) = _
    rw [String.empty_append]
    rfl
  exact addAll_cons_eq_ok.2 ⟨_, begun, addAll_atName d first (.ident first false) rest⟩

theorem parse_names (d : Dialect) (first : String) (rest : List String) :
    parse d (.name first :: rest.flatMap fun name => [.dot, .name name]) =
      .ok (.path first rest) :=
  parse_eq_ok.2 ⟨_, addAll_names d first rest, rfl⟩

/-- Behind a dot the parser has no use for a literal. -/
theorem parse_literal (d : Dialect) (first : String) (before : List String) (raw : String)
    (value : Value) (after : List Token) :
    parse d ((.name first :: before.flatMap fun name => [.dot, .name name]) ++
        .dot :: ⟨.literal, raw, value⟩ :: after) =
      .error (.unexpectedToken (Text.trim raw) .literal
        (".".intercalate (first :: before ++ [raw]))) := by
  have text : ".".intercalate (first :: before ++ [raw]) =
      ".".intercalate (first :: before) ++ "." ++ raw := by
    rw [String.intercalate_append_of_ne_nil (List.cons_ne_nil _ _) (List.cons_ne_nil _ _),
      String.intercalate_singleton]
  let atDot : Parser :=
    ⟨".".intercalate (first :: before) ++ ".", .reading [] ⟨[], .memberName (.path first before)⟩⟩
  have toDot : (atName (".".intercalate (first :: before)) (.path first before)).add d .dot =
      .ok atDot := rfl
  have refused : atDot.add d ⟨.literal, raw, value⟩ =
      .error (.unexpectedToken (Text.trim raw) .literal
        (".".intercalate (first :: before ++ [raw]))) := by
    rw [text]
    rfl
  have reached : start.addAll d
      ((.name first :: before.flatMap fun name => [.dot, .name name]) ++ [.dot]) = .ok atDot :=
    addAll_append_eq_ok.2
      ⟨_, addAll_names d first before, addAll_cons_eq_ok.2 ⟨_, toDot, rfl⟩⟩
  have failed := addAll_eq_error.2 ⟨_, _, after, _, rfl, reached, refused⟩
  rw [List.append_assoc] at failed
  rw [parse]
  exact congrArg (· >>= _) failed

end Parser

/-! ## Sources -/

/-- The word is a name where a path begins: neither a keyword nor an operator. -/
structure Grammar.IsName (g : Grammar) (word : String) : Prop where
  keyword : Lexeme.keyword? word = none
  binary : g.binary? word = none
  unary : g.unary? word = none

section Sources

variable {first : String} {rest : List String}

/-- The first word of a path. -/
theorem Grammar.IsName.ofWord_eq (isName : g.IsName word) :
    Token.ofWord g last word = .name word := by
  rw [Token.ofWord, Lexeme.wordMeaning_of_not_keyword isName.keyword
    (.inr ⟨isName.binary, isName.unary⟩), Token.name]

/-- The further words, if none of them is a keyword. -/
theorem flatMap_ofWord (noKeyword : ∀ word ∈ rest, Lexeme.keyword? word = none) :
    (rest.flatMap fun word => [Token.dot, .ofWord g (some .dot) word]) =
      rest.flatMap fun word => [.dot, .name word] := by
  refine List.flatMap_congr fun word mem => ?_
  rw [Token.ofWord, Lexeme.wordMeaning_of_not_keyword (noKeyword word mem) (.inl rfl), Token.name]

variable (dots : d.grammar.DotsAlone) (words : ∀ word ∈ first :: rest, Text.IsWord word)
  (isName : d.grammar.IsName first)

include dots words isName

theorem Dialect.read_path (noKeyword : ∀ word ∈ rest, Lexeme.keyword? word = none) :
    d.read (".".intercalate (first :: rest)) = .ok (.path first rest) := by
  refine read_eq_ok_iff.2 ⟨_, tokenize_path dots words, ?_⟩
  rw [isName.ofWord_eq, flatMap_ofWord noKeyword]
  exact Parser.parse_names d first rest

/-- The first keyword behind a dot is refused, whatever follows. -/
theorem Dialect.read_path_keyword {before behind : List String}
    (split : rest = before ++ word :: behind)
    (noKeyword : ∀ name ∈ before, Lexeme.keyword? name = none)
    (keyword : Lexeme.keyword? word = some value) :
    d.read (".".intercalate (first :: rest)) = .error (.parse (.unexpectedToken word .literal
      (".".intercalate (first :: before ++ [word])))) := by
  refine read_eq_error_iff.2 (.inr ⟨_, _, tokenize_path dots words, ?_, rfl⟩)
  have refused := Parser.parse_literal d first before word value
    (behind.flatMap fun word => [.dot, .ofWord d.grammar (some .dot) word])
  rw [Lexeme.trim_keyword keyword] at refused
  rw [isName.ofWord_eq, split, List.flatMap_append, flatMap_ofWord noKeyword, List.flatMap_cons,
    Token.ofWord, Lexeme.wordMeaning_of_keyword keyword]
  exact refused

end Sources

/-- A path compiles to the chain of properties that it looks like, and reads them one after the
other, also those that spell an operator; but a keyword behind a dot is refused. -/
theorem compile_path {e : Engine} (reachable : e.Reachable) (dots : e.dialect.grammar.DotsAlone)
    {first : String} {rest : List String} (words : ∀ word ∈ first :: rest, Text.IsWord word)
    (isName : e.dialect.grammar.IsName first) :
    ((∀ word ∈ rest, Lexeme.keyword? word = none) →
      (∃ expression, (e.compile (".".intercalate (first :: rest))).2 = .ok expression ∧
          expression.tree.expr = .path first rest) ∧
        ∀ context, (e.evaluate (".".intercalate (first :: rest)) context).2 =
          .ok (.ok (rest.foldl (fun value word => value.property word)
            (context.property first)))) ∧
      ∀ before word behind value, rest = before ++ word :: behind →
        (∀ name ∈ before, Lexeme.keyword? name = none) → Lexeme.keyword? word = some value →
          (e.compile (".".intercalate (first :: rest))).2 =
            .error (.parse (.unexpectedToken word .literal
              (".".intercalate (first :: before ++ [word])))) := by
  have faithful := reachable.faithful
  refine ⟨fun noKeyword => ?_, fun before word behind value split noKeyword keyword => ?_⟩
  · have read := Dialect.read_path dots words isName noKeyword
    refine ⟨faithful.compile_of_read_ok read, fun context => ?_⟩
    rw [faithful.evaluate_eq, read, Except.map, Expr.eval_path]
  · exact faithful.compile_of_read_error
      (Dialect.read_path_keyword dots words isName split noKeyword keyword)

theorem isName_a : Grammar.standard.IsName "a" := ⟨rfl, rfl, rfl⟩

/-- An operator and a keyword behind dots. -/
theorem compile_path_in :
    ((Engine.new {}).evaluate "a.in.b"
        (.object [("a", .object [("in", .object [("b", .int 5)])])])).2 = .ok (.ok (.int 5)) ∧
      ((Engine.new {}).compile "a.in.null.b").2 =
        .error (.parse (.unexpectedToken "null" .literal "a.in.null")) := by
  have isWordA : Text.IsWord "a" := .ofList rfl rfl
  have isWordIn : Text.IsWord "in" := .ofList rfl rfl
  have isWordB : Text.IsWord "b" := .ofList rfl rfl
  have isWordNull : Text.IsWord "null" := .ofList rfl rfl
  constructor
  · have words : ∀ word ∈ ["a", "in", "b"], Text.IsWord word := by simp [isWordA, isWordIn, isWordB]
    exact ((compile_path (.new {}) Grammar.dotsAlone_standard words isName_a).1
      (List.forall_mem_cons.2 ⟨rfl, List.forall_mem_singleton.2 rfl⟩)).2 _
  · have words : ∀ word ∈ ["a", "in", "null", "b"], Text.IsWord word := by
      simp [isWordA, isWordIn, isWordNull, isWordB]
    exact (compile_path (.new {}) Grammar.dotsAlone_standard words isName_a).2 ["in"] "null" ["b"]
      .null rfl (List.forall_mem_singleton.2 rfl) rfl

/-- Not every word is a property behind a dot. -/
theorem not_compiled_keyword :
    ¬∀ rest : List String, (∀ word ∈ rest, Text.IsWord word) →
      ∃ expression, ((Engine.new {}).compile (".".intercalate ("a" :: rest))).2 = .ok expression ∧
        expression.tree.expr = .path "a" rest := by
  intro everyWord
  have isWordA : Text.IsWord "a" := .ofList rfl rfl
  have isWordTrue : Text.IsWord "true" := .ofList rfl rfl
  have words : ∀ word ∈ ["a", "true"], Text.IsWord word := by simp [isWordA, isWordTrue]
  obtain ⟨expression, compiled, _⟩ := everyWord ["true"] (List.forall_mem_singleton.2 isWordTrue)
  have split : ["true"] = [] ++ "true" :: [] := rfl
  have refused := (Engine.Reachable.new {}).faithful.compile_of_read_error
    (Dialect.read_path_keyword Grammar.dotsAlone_standard words isName_a split nofun rfl)
  cases refused.symm.trans compiled

end JsonExpr
