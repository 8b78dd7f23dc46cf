import JsonExpr.Proofs.Grammar
import JsonExpr.Proofs.Lexemes

/-!
Reading a text token by token. `Lexes` says what the front of a text is read as, whatever the
position; the readings of two parts that follow each other make up the reading of both.
-/

namespace JsonExpr

variable {g : Grammar} {last middle final : Option TokenKind} {kind : TokenKind} {c : Char}
  {text gap rest cs ds after : List Char} {ts us : List Token} {value : Value} {idle : Bool}

/-- No white space stands at the front. -/
def Text.IsSolid (cs : List Char) : Prop :=
  ∀ c ∈ cs.head?, Text.isBlank c = false

/-- Behind a token of the kind `last`, if any, the text `cs` is read as these tokens, after which
`after` is left to be read behind a token of the kind `final`. -/
def Lexes (g : Grammar) (last : Option TokenKind) (cs : List Char) (ts : List Token)
    (final : Option TokenKind) (after : List Char) : Prop :=
  ∀ position, ∃ position',
    Cursor.tokens g ⟨cs ++ after, position, last⟩ false =
      (Cursor.tokens g ⟨after, position', final⟩ false).map (ts ++ ·)

/-- The next token of the text is this one, whatever the position. -/
def Lexeme.Starts (g : Grammar) (last : Option TokenKind) (cs after : List Char)
    (kind : TokenKind) (value : Value) : Prop :=
  ∃ c tail, cs = c :: tail ∧
    ∀ position, read g last position c (tail ++ after) = .ok ⟨kind, value, cs, after⟩

/-! ## Tokens one after the other -/

theorem Text.IsSolid.span (solid : Text.IsSolid cs) :
    cs.takeWhile isBlank = [] ∧ cs.dropWhile isBlank = cs := by
  have split : ([] ++ cs).takeWhile isBlank = [] ∧ ([] ++ cs).dropWhile isBlank = cs :=
    Text.span_append nofun solid
  rwa [List.nil_append] at split

theorem Text.IsSolid.cons (notBlank : isBlank c = false) : Text.IsSolid (c :: cs) := by
  intro front mem
  cases mem
  exact notBlank

theorem Text.IsSolid.of_append {front back : List Char} (solid : IsSolid (front ++ back)) :
    IsSolid front := by
  cases front with
  | nil => nofun
  | cons c front => exact solid

theorem Lexeme.Takes.starts (takes : Lexeme.Takes g last cs after kind value)
    (nonempty : cs ≠ []) : Lexeme.Starts g last cs after kind value := by
  obtain ⟨c, tail, rfl⟩ := List.exists_cons_of_ne_nil nonempty
  exact ⟨c, tail, rfl, takes.read rfl⟩

namespace Cursor

theorem next_of_takes (takes : Lexeme.Takes g last text (gap ++ rest) kind value)
    (blank : ∀ c ∈ gap, Text.isBlank c = true) (solid : Text.IsSolid rest) (position : Nat) :
    next g ⟨text ++ (gap ++ rest), position, last⟩ =
      .ok (some (⟨kind, String.ofList (text ++ gap), value⟩,
        ⟨rest, position + utf8Length (text ++ gap), some kind⟩)) := by
  obtain ⟨c, tail, split⟩ := List.exists_cons_of_ne_nil takes.ne_nil
  obtain ⟨taken, dropped⟩ := Text.span_append blank solid
  rw [split, next]
  simp only [takes.read split, taken, dropped]

/-- The token that is taken is returned with the white space behind it. -/
theorem next_of_takes_append (takes : Lexeme.Takes g last text after kind value) (position : Nat) :
    next g ⟨text ++ after, position, last⟩ =
      .ok (some (⟨kind, String.ofList (text ++ after.takeWhile Text.isBlank), value⟩,
        ⟨after.dropWhile Text.isBlank,
          position + utf8Length (text ++ after.takeWhile Text.isBlank), some kind⟩)) := by
  obtain ⟨blank, solid⟩ := Text.forall_mem_span Text.isBlank after
  have parted := List.takeWhile_append_dropWhile (p := Text.isBlank) (l := after)
  rw [← parted] at takes
  have step := next_of_takes takes blank solid position
  rwa [parted] at step

theorem tokens_of_error {cursor : Cursor} {error : LexError}
    (failed : cursor.next g = .error error) : cursor.tokens g idle = .error error := by
  rw [tokens]
  split
  · rename_i found
    exact congrArg _ (Except.error.inj (found.symm.trans failed))
  · rename_i found
    cases found.symm.trans failed
  · rename_i found
    cases found.symm.trans failed

theorem tokens_nil (position : Nat) : tokens g ⟨[], position, last⟩ idle = .ok [] := by
  rw [tokens]
  split
  · rename_i failed
    cases failed
  · rfl
  · rename_i found
    cases found

theorem length_lt_iff :
    rest.length < (text ++ (gap ++ rest)).length ↔ (text ++ gap).isEmpty = false := by
  rw [← List.append_assoc, List.length_append, List.isEmpty_eq_false_iff, ← List.length_pos_iff]
  omega

/-- The tokens from a token on. -/
theorem tokens_of_takes (takes : Lexeme.Takes g last text (gap ++ rest) kind value)
    (blank : ∀ c ∈ gap, Text.isBlank c = true) (solid : Text.IsSolid rest)
    (busy : text ++ gap = [] → idle = false) (position : Nat) :
    tokens g ⟨text ++ (gap ++ rest), position, last⟩ idle =
      (tokens g ⟨rest, position + utf8Length (text ++ gap), some kind⟩ (text ++ gap).isEmpty).map
        (⟨kind, String.ofList (text ++ gap), value⟩ :: ·) := by
  have step := next_of_takes takes blank solid position
  rw [tokens]
  split
  · rename_i failed
    cases step.symm.trans failed
  · rename_i ended
    cases step.symm.trans ended
  · rename_i found
    cases step.symm.trans found
    cases empty : (text ++ gap).isEmpty with
    | false => rw [dif_pos (length_lt_iff.2 empty)]
    | true =>
      have same : ¬ rest.length < (text ++ (gap ++ rest)).length := fun shorter => by
        cases (length_lt_iff.1 shorter).symm.trans empty
      rw [dif_neg same, if_neg (by simp [busy (List.isEmpty_iff.1 empty)])]

end Cursor

theorem Lexeme.Starts.lexes (starts : Lexeme.Starts g last cs after kind value)
    (solid : Text.IsSolid after) :
    Lexes g last cs [⟨kind, String.ofList cs, value⟩] (some kind) after := by
  intro position
  obtain ⟨c, tail, rfl, read⟩ := starts
  have takes : Lexeme.Takes g last (c :: tail) ([] ++ after) kind value :=
    (Lexeme.read_eq_ok_iff.1 (read position)).1
  have tokens : Cursor.tokens g ⟨c :: tail ++ after, position, last⟩ false = _ :=
    Cursor.tokens_of_takes takes nofun solid (fun _ => rfl) position
  rw [List.append_nil] at tokens
  exact ⟨_, tokens⟩

theorem Lexes.refl : Lexes g last [] [] last after := by
  intro position
  refine ⟨position, ?_⟩
  rw [List.nil_append]
  cases Cursor.tokens g ⟨after, position, last⟩ false with
  | error error => rfl
  | ok rest => rfl

theorem Lexes.trans (first : Lexes g last cs ts middle (ds ++ after))
    (second : Lexes g middle ds us final after) :
    Lexes g last (cs ++ ds) (ts ++ us) final after := by
  intro position
  obtain ⟨position', left⟩ := first position
  obtain ⟨position'', right⟩ := second position'
  refine ⟨position'', ?_⟩
  rw [List.append_assoc, left, right]
  cases Cursor.tokens g ⟨after, position'', final⟩ false with
  | error error => rfl
  | ok rest => simp [Except.map]

/-- A text that is read to its end. -/
theorem Lexes.tokenize (lexes : Lexes g none cs ts final []) (solid : Text.IsSolid cs) :
    tokenize g (String.ofList cs) = .ok ts := by
  obtain ⟨none, all⟩ := solid.span
  unfold JsonExpr.tokenize Cursor.start
  rw [String.toList_ofList, none, all]
  obtain ⟨position, tokens⟩ := lexes (utf8Length [])
  rw [List.append_nil] at tokens
  rw [tokens, Cursor.tokens_nil]
  simp [Except.map]

/-! ## Punctuation -/

/-- The character is a punctuation, and no other symbol begins with it. -/
structure Grammar.IsMark (g : Grammar) (c : Char) (kind : TokenKind) : Prop where
  element : g.element? (String.singleton c) = some (.punctuation kind)
  symbol : String.singleton c ∈ g.symbols
  alone : ∀ symbol ∈ g.symbols, symbol.toList = [] ∨ symbol.toList.head? = some c →
    symbol = String.singleton c

namespace Lexeme

theorem matchSymbol?_mark (isMark : g.IsMark c kind) (after : List Char) :
    g.matchSymbol? (c :: after) = some (String.singleton c) := by
  cases found : g.matchSymbol? (c :: after) with
  | none =>
    have nowhere := List.find?_eq_none.1 found _ isMark.symbol
    simp at nowhere
  | some symbol =>
    obtain ⟨rest, split⟩ := matchSymbol?_isPrefix found
    have front : symbol.toList = [] ∨ symbol.toList.head? = some c := by
      cases chars : symbol.toList with
      | nil => exact Or.inl rfl
      | cons first tail =>
        rw [chars, List.cons_append] at split
        rw [(List.cons.inj split).1]
        exact Or.inr rfl
    rw [isMark.alone symbol (List.mem_of_find?_eq_some found) front]

/-- A mark, whatever stands before and behind it. -/
theorem starts_mark (isMark : g.IsMark c kind)
    (ordinary : (c == '"' || c == '\'') = false ∧ c.isDigit = false ∧
      (c == '+' || c == '-') = false ∧ Text.isWordStart c = false) :
    Starts g last [c] after kind (.string (String.singleton c)) := by
  obtain ⟨noQuote, noDigit, noSign, noWord⟩ := ordinary
  have chars : (String.singleton c).toList = [c] := String.toList_singleton c
  have begins : BeginsSymbol last (c :: after) := ⟨noQuote, noDigit, by simp [noSign], noWord⟩
  have isNoSign : ¬ (String.singleton c = "+" ∨ String.singleton c = "-") := by
    rintro (plus | minus)
    · cases chars.symm.trans (congrArg String.toList plus)
      cases noSign
    · cases chars.symm.trans (congrArg String.toList minus)
      cases noSign
  have takes : Takes g last (String.singleton c).toList after kind (.string (String.singleton c)) :=
    .symbol (by rwa [chars]) (by rw [chars]; exact matchSymbol?_mark isMark after) isMark.element
      fun isSign => (isNoSign isSign).elim
  rw [chars] at takes
  exact takes.starts nofun

end Lexeme

/-! ## The marks of the standard grammar -/

/-- The marks that only stand alone; a bar may also be doubled. -/
def Grammar.marks : List (Char × TokenKind) :=
  [('.', .dot), ('[', .openBracket), (']', .closeBracket), ('\x7b', .openCurl),
    ('\x7d', .closeCurl), (':', .colon), (',', .comma), ('(', .openParen), (')', .closeParen),
    ('?', .question)]

theorem Grammar.alone_of_mem_marks : ∀ mark ∈ Grammar.marks,
    looksLikeWord (String.singleton mark.1) = false ∧
      ∀ symbol ∈ Grammar.standard.elements.names,
        symbol.toList = [] ∨ symbol.toList.head? = some mark.1 →
          symbol = String.singleton mark.1 := by
  rw [names_standard]
  decide +kernel

theorem Grammar.element?_of_mem_marks (mem : (c, kind) ∈ Grammar.marks) :
    Grammar.standard.element? (String.singleton c) = some (.punctuation kind) := by
  simp only [marks, List.mem_cons, Prod.mk.injEq, List.not_mem_nil, or_false] at mem
  rcases mem with ⟨rfl, rfl⟩ | ⟨rfl, rfl⟩ | ⟨rfl, rfl⟩ | ⟨rfl, rfl⟩ | ⟨rfl, rfl⟩ | ⟨rfl, rfl⟩ |
    ⟨rfl, rfl⟩ | ⟨rfl, rfl⟩ | ⟨rfl, rfl⟩ | ⟨rfl, rfl⟩ <;> rfl

/-- Functions and transforms do not change how the marks are read. -/
theorem Grammar.isMark_of_mem_marks (standard : g.IsStandard)
    (mem : (c, kind) ∈ Grammar.marks) : g.IsMark c kind where
  element := by
    rw [standard]
    exact element?_of_mem_marks mem
  symbol := by
    obtain ⟨noWord, _⟩ := alone_of_mem_marks _ mem
    rw [standard.mem_symbols_iff, mem_symbols_iff, element?_of_mem_marks mem]
    exact ⟨rfl, noWord⟩
  alone symbol isSymbol front := by
    obtain ⟨_, alone⟩ := alone_of_mem_marks _ mem
    rw [standard.mem_symbols_iff, symbols, List.mem_mergeSort, List.mem_filter] at isSymbol
    exact alone symbol isSymbol.1 front

theorem Lexeme.ordinary_of_mem_marks : ∀ mark ∈ Grammar.marks,
    (mark.1 == '"' || mark.1 == '\'') = false ∧ mark.1.isDigit = false ∧
      (mark.1 == '+' || mark.1 == '-') = false ∧ Text.isWordStart mark.1 = false := by
  decide

/-- A mark of the standard grammar is a token of its own. -/
theorem Lexes.mark (standard : g.IsStandard)
    (mem : (c, kind) ∈ Grammar.marks) (solid : Text.IsSolid after) :
    Lexes g last [c] [⟨kind, String.singleton c, .string (String.singleton c)⟩] (some kind)
      after := by
  have isMark := Grammar.isMark_of_mem_marks standard mem
  have starts : Lexeme.Starts g last [c] after kind (.string (String.singleton c)) :=
    Lexeme.starts_mark isMark (Lexeme.ordinary_of_mem_marks _ mem)
  have text : String.ofList [c] = String.singleton c := String.singleton_eq_ofList.symm
  rw [← text]
  rw [← text] at starts
  exact starts.lexes solid

end JsonExpr
