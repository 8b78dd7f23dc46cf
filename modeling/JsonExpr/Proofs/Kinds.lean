import JsonExpr.Proofs.Grammar
import JsonExpr.Proofs.Lossless

/-!
What the kind of a token says about it. The lexer and the parser share the grammar: where the lexer
sees an operator there is one, under the spelling of the token and of the right sort, names have no
dots, and literals are no collections (`Token.suits_of_tokenize`).

This needs a grammar of a host. In another one a spelling might be said to be a name or an operator
without being one.
-/

namespace JsonExpr

/-- The value is no collection. -/
def Value.IsScalar : Value → Prop
  | .array _ | .object _ => False
  | _ => True

/-- The token is what its kind says. -/
structure Token.Suits (g : Grammar) (t : Token) : Prop where
  literal : t.kind = .literal → t.value.IsScalar
  identifier : t.kind = .identifier → '.' ∉ t.text.toList
  binary : t.kind = .binaryOp → (g.binary? t.text).isSome
  unary : t.kind = .unaryOp → (g.unary? t.text).isSome

variable {g : Grammar} {symbol raw : String}

theorem Text.Numeral.isScalar_value (n : Text.Numeral) (negative : Bool) :
    (n.value negative).IsScalar := by
  simp only [Text.Numeral.value]
  split
  · trivial
  · split <;> trivial

namespace Grammar

theorem isSome_binary? {op : BinaryOp} (registered : g.element? symbol = some (.binary op)) :
    (g.binary? symbol).isSome := by
  rw [binary?, registered]
  rfl

theorem isSome_unary? {op : UnaryOp} (registered : g.element? symbol = some (.unary op)) :
    (g.unary? symbol).isSome := by
  rw [unary?, registered]
  rfl

/-- The kinds of punctuation are those of no other token. -/
theorem kind_of_mem_punctuation {kind : TokenKind} (mem : (symbol, kind) ∈ punctuation) :
    kind ≠ .literal ∧ kind ≠ .identifier ∧ kind ≠ .binaryOp ∧ kind ≠ .unaryOp := by
  have all : ∀ entry ∈ punctuation, entry.2 ≠ .literal ∧ entry.2 ≠ .identifier ∧
      entry.2 ≠ .binaryOp ∧ entry.2 ≠ .unaryOp := by decide
  exact all _ mem

end Grammar

namespace Token

theorem suits_literal {value : Value} (scalar : value.IsScalar) :
    Suits g ⟨.literal, raw, value⟩ :=
  ⟨fun _ => scalar, nofun, nofun, nofun⟩

theorem suits_identifier {name : String} (noDot : '.' ∉ name.toList) :
    Suits g ⟨.identifier, raw, .string name⟩ :=
  ⟨nofun, fun _ => noDot, nofun, nofun⟩

theorem suits_element {element : Element} (regular : g.Regular)
    (registered : g.element? symbol = some element) :
    Suits g ⟨element.kind, raw, .string symbol⟩ := by
  cases element with
  | punctuation kind =>
    obtain ⟨noLiteral, noName, noBinary, noUnary⟩ :=
      Grammar.kind_of_mem_punctuation (regular symbol kind registered)
    exact ⟨fun eq => (noLiteral eq).elim, fun eq => (noName eq).elim, fun eq => (noBinary eq).elim,
      fun eq => (noUnary eq).elim⟩
  | binary op => exact ⟨nofun, nofun, fun _ => Grammar.isSome_binary? registered, nofun⟩
  | unary op => exact ⟨nofun, nofun, nofun, fun _ => Grammar.isSome_unary? registered⟩

theorem suits_word {last : Option TokenKind} {word : String} (noDot : '.' ∉ word.toList) :
    Suits g ⟨(Lexeme.wordMeaning g last word).1, raw, (Lexeme.wordMeaning g last word).2⟩ := by
  unfold Lexeme.wordMeaning
  split
  · exact suits_literal trivial
  · split
    · exact suits_literal trivial
    · split
      · exact suits_literal trivial
      · split
        · exact suits_literal trivial
        · split
          · exact suits_identifier noDot
          · split
            · rename_i registered
              exact ⟨nofun, nofun, fun _ => Grammar.isSome_binary? registered, nofun⟩
            · rename_i registered
              exact ⟨nofun, nofun, nofun, fun _ => Grammar.isSome_unary? registered⟩
            · exact suits_identifier noDot

theorem noDot_of_word {c : Char} {tail : List Char} (starts : Text.isWordStart c = true)
    (holds : ∀ d ∈ tail, Text.isWordPart d = true) : '.' ∉ (String.ofList (c :: tail)).toList := by
  rw [String.toList_ofList]
  intro mem
  have noPart : Text.isWordPart '.' = false := rfl
  rcases List.mem_cons.1 mem with rfl | mem
  · cases noPart.symm.trans (Text.isWordPart_of_isWordStart starts)
  · cases noPart.symm.trans (holds _ mem)

theorem suits_of_takes (regular : g.Regular) {last : Option TokenKind} {text after : List Char}
    {kind : TokenKind} {value : Value} (takes : Lexeme.Takes g last text after kind value) :
    Suits g ⟨kind, raw, value⟩ := by
  cases takes with
  | string isQuote isBody => exact suits_literal trivial
  | @number n after proper ends => exact suits_literal (n.isScalar_value false)
  | @signed sign n after isSign expected proper ends =>
    exact suits_literal (n.isScalar_value (sign == '-'))
  | word starts holds stops => exact suits_word (noDot_of_word starts holds)
  | symbol begins isMatch registered noSign => exact suits_element regular registered

theorem suits_of_tokenize (regular : g.Regular) {source : String} {ts : List Token}
    (h : tokenize g source = .ok ts) : ∀ t ∈ ts, t.Suits g := by
  intro t mem
  obtain ⟨_, solid⟩ := Text.forall_mem_span Text.isBlank source.toList
  obtain ⟨_, last, after, text, gap, takes, _⟩ :=
    (tokenize_eq_ok_iff.1 h).isTaken solid t mem
  exact suits_of_takes regular takes

end Token

end JsonExpr
