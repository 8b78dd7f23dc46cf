import JsonExpr.Proofs.Text
import JsonExpr.Token.Lexer

/-!
What a token is, and how far the lexer looks for it. `Lexeme.Takes g last text after kind value`
says, rule by rule, that `text` is taken as a token of that kind and value where `after` follows;
`Lexeme.read` does exactly that (`read_eq_ok_iff`).

The rules look beyond the text, for the next digit, the rest of a word or a longer symbol. But
what follows matters only as far as it could belong to the token: `Takes.of_parts` puts other text
in its place, at any distance behind the token.
-/

namespace JsonExpr

variable {g : Grammar} {last : Option TokenKind} {kind : TokenKind} {value : Value}
  {c : Char} {text after cs : List Char} {position : Nat}

/-- No symbol of the grammar contains white space. -/
def Grammar.IsBare (g : Grammar) : Prop :=
  ∀ symbol ∈ g.symbols, ∀ c ∈ symbol.toList, Text.isBlank c = false

namespace Lexeme

/-- What stands here begins neither a string nor a number nor a word. -/
def BeginsSymbol (last : Option TokenKind) : List Char → Prop
  | [] => False
  | c :: cs =>
    (c == '"' || c == '\'') = false ∧ c.isDigit = false ∧
      ((c == '+' || c == '-') && operandExpected last && cs.head?.any Char.isDigit) = false ∧
      Text.isWordStart c = false

/-- Behind a token of the kind `last`, if any, and before `after` the text is a token. -/
inductive Takes (g : Grammar) (last : Option TokenKind) :
    List Char → List Char → TokenKind → Value → Prop
  | string {quote : Char} {body after : List Char} :
    quote = '"' ∨ quote = '\'' → Text.IsBody quote body →
    Takes g last (quote :: body ++ [quote]) after .literal
      (.string (String.ofList (Text.unescape quote body)))
  | number {n : Text.Numeral} {after : List Char} :
    n.IsProper → n.EndsAt after → Takes g last n.chars after .literal (n.value false)
  | signed {sign : Char} {n : Text.Numeral} {after : List Char} :
    sign = '+' ∨ sign = '-' → operandExpected last = true → n.IsProper → n.EndsAt after →
    Takes g last (sign :: n.chars) after .literal (n.value (sign == '-'))
  | word {c : Char} {tail after : List Char} :
    Text.isWordStart c = true → (∀ d ∈ tail, Text.isWordPart d = true) →
    (∀ d ∈ after.head?, Text.isWordPart d = false) →
    Takes g last (c :: tail) after (wordMeaning g last (String.ofList (c :: tail))).1
      (wordMeaning g last (String.ofList (c :: tail))).2
  | symbol {symbol : String} {element : Element} {after : List Char} :
    BeginsSymbol last (symbol.toList ++ after) →
    g.matchSymbol? (symbol.toList ++ after) = some symbol → g.element? symbol = some element →
    (symbol = "+" ∨ symbol = "-" → ∀ d ∈ after.head?, d ≠ '+' ∧ d ≠ '-') →
    Takes g last symbol.toList after element.kind (.string symbol)

/-- Where nothing is left there is no token. -/
theorem Takes.ne_nil (takes : Takes g last text after kind value) :
    text ++ after ≠ [] := by
  cases takes with
  | number proper =>
    obtain ⟨c, tail, chars, _⟩ := proper.exists_chars_eq_cons
    rw [chars]
    nofun
  | symbol begins =>
    intro none
    rw [none] at begins
    exact begins
  | string | signed | word => nofun

/-! ## What is read is taken -/

theorem takes_of_readString {quote : Char} (isQuote : quote = '"' ∨ quote = '\'')
    (h : readString position quote cs = .ok ⟨kind, value, text, after⟩) :
    Takes g last text after kind value := by
  unfold readString at h
  split at h
  · rename_i body rest found
    cases h
    exact .string isQuote (.of_splitQuoted? found)
  · cases h

theorem of_readNumber {sign : List Char} {negative : Bool}
    (h : readNumber position sign negative cs = .ok ⟨kind, value, text, after⟩) :
    ∃ n : Text.Numeral, n.IsProper ∧ n.EndsAt after ∧ kind = .literal ∧
      value = n.value negative ∧ text = sign ++ n.chars := by
  unfold readNumber at h
  split at h
  · rename_i n rest found
    cases h
    obtain ⟨proper, ends⟩ := Text.Numeral.of_split?_eq_some found
    exact ⟨n, proper, ends, rfl, rfl, rfl⟩
  · cases h

theorem takes_of_readSymbol (begins : BeginsSymbol last (c :: cs))
    (h : readSymbol g position c cs = .ok ⟨kind, value, text, after⟩) :
    Takes g last text after kind value := by
  have split := readSymbol_append h
  unfold readSymbol at h
  split at h
  · cases h
  · rename_i symbol element found
    simp only at h
    split at h
    · cases h
    · rename_i noSigns
      obtain ⟨matched, isMatch, pair⟩ := Option.bind_eq_some_iff.1 found
      obtain ⟨_, registered, eq⟩ := Option.map_eq_some_iff.1 pair
      cases eq
      simp only [Except.ok.injEq, Lexeme.mk.injEq] at h
      obtain ⟨rfl, rfl, rfl, rest⟩ := h
      rw [rest] at noSigns
      rw [← split] at begins isMatch
      refine .symbol begins isMatch registered fun isSign d mem => ?_
      have noSign := mt (fun any => And.intro isSign any) noSigns
      rw [Option.mem_def.1 mem] at noSign
      simpa using noSign

/-- The token at the front of a text. -/
theorem takes_of_read (h : read g last position c cs = .ok ⟨kind, value, text, after⟩) :
    Takes g last text after kind value := by
  unfold read at h
  split at h
  · rename_i isQuote
    exact takes_of_readString (by simpa using isQuote) h
  · rename_i noQuote
    split at h
    · obtain ⟨n, proper, ends, rfl, rfl, rfl⟩ := of_readNumber h
      exact .number proper ends
    · rename_i noDigit
      split at h
      · rename_i signed
        obtain ⟨n, proper, ends, rfl, rfl, rfl⟩ := of_readNumber h
        simp only [Bool.and_eq_true, Bool.or_eq_true, beq_iff_eq] at signed
        exact .signed signed.1.1 signed.1.2 proper ends
      · rename_i noSign
        split at h
        · rename_i word rest found
          cases h
          obtain ⟨c, tail, rfl, starts, holds, stops⟩ := Text.of_splitWord?_eq_some found
          exact .word starts holds stops
        · rename_i noWord
          have noStart : Text.isWordStart c = false := by
            rw [Text.splitWord?] at noWord
            split at noWord
            · cases noWord
            · rename_i noStart
              exact Bool.eq_false_iff.2 noStart
          exact takes_of_readSymbol ⟨Bool.eq_false_iff.2 noQuote, Bool.eq_false_iff.2 noDigit,
            Bool.eq_false_iff.2 noSign, noStart⟩ h

/-! ## What is taken is read -/

theorem noQuote_of_isDigit (digit : c.isDigit = true) : (c == '"' || c == '\'') = false := by
  have double : c ≠ '"' := ne_of_apply_ne Char.isDigit (by rw [digit]; decide)
  have single : c ≠ '\'' := ne_of_apply_ne Char.isDigit (by rw [digit]; decide)
  simp [double, single]

theorem isWordStart_of_isDigit (digit : c.isDigit = true) : Text.isWordStart c = false := by
  have ne_underscore : c ≠ '_' := ne_of_apply_ne Char.isDigit (by rw [digit]; decide)
  have ne_dollar : c ≠ '$' := ne_of_apply_ne Char.isDigit (by rw [digit]; decide)
  have noLetter : Text.isAlphabetic c = false := by
    simp only [Char.isDigit, Bool.and_eq_true, decide_eq_true_eq, UInt32.le_iff_toNat_le] at digit
    have ascii : c.val < 0x80 :=
      UInt32.lt_iff_toNat_lt.2 (Nat.lt_of_le_of_lt digit.2 (by decide))
    rw [Text.isAlphabetic, if_pos ascii]
    exact Text.isAlpha_of_lt (Nat.lt_of_le_of_lt digit.2 (by decide))
  simp [Text.isWordStart, noLetter, ne_underscore, ne_dollar]

theorem ordinary_of_isWordStart (starts : Text.isWordStart c = true) :
    (c == '"' || c == '\'') = false ∧ c.isDigit = false ∧ (c == '+' || c == '-') = false := by
  have ne (d : Char) (noStart : Text.isWordStart d = false) : c ≠ d :=
    ne_of_apply_ne Text.isWordStart (by rw [starts, noStart]; decide)
  refine ⟨by simp [ne '"' rfl, ne '\'' rfl], ?_, by simp [ne '+' rfl, ne '-' rfl]⟩
  cases digit : c.isDigit with
  | false => rfl
  | true => cases starts.symm.trans (isWordStart_of_isDigit digit)

theorem ne_backslash {quote : Char} (isQuote : quote = '"' ∨ quote = '\'') : quote ≠ '\\' := by
  rcases isQuote with rfl | rfl <;> decide

theorem read_string {quote : Char} {body : List Char} (isQuote : quote = '"' ∨ quote = '\'')
    (isBody : Text.IsBody quote body) :
    read g last position quote (body ++ [quote] ++ after) =
      .ok ⟨.literal, .string (String.ofList (Text.unescape quote body)),
        quote :: body ++ [quote], after⟩ := by
  have found : Text.splitQuoted? quote (body ++ quote :: after) = some (body, after) :=
    (Text.splitQuoted?_eq_some_iff (ne_backslash isQuote)).2 ⟨isBody, rfl⟩
  rw [List.append_assoc, List.singleton_append, read, if_pos (by simpa using isQuote), readString,
    found]

theorem read_number {n : Text.Numeral} (proper : n.IsProper) (ends : n.EndsAt after)
    (split : n.chars ++ after = c :: cs) :
    read g last position c cs = .ok ⟨.literal, n.value false, n.chars, after⟩ := by
  have digit : c.isDigit = true := by
    obtain ⟨first, tail, chars, digit⟩ := proper.exists_chars_eq_cons
    rw [chars] at split
    cases split
    exact digit
  have found := Text.Numeral.split?_chars proper ends
  rw [split] at found
  rw [read, if_neg (by simp [noQuote_of_isDigit digit]), if_pos digit, readNumber, found]
  rfl

theorem read_signed {sign : Char} {n : Text.Numeral} (isSign : sign = '+' ∨ sign = '-')
    (expected : operandExpected last = true) (proper : n.IsProper) (ends : n.EndsAt after) :
    read g last position sign (n.chars ++ after) =
      .ok ⟨.literal, n.value (sign == '-'), sign :: n.chars, after⟩ := by
  have digit : (n.chars ++ after).head?.any Char.isDigit = true := by
    obtain ⟨first, tail, chars, digit⟩ := proper.exists_chars_eq_cons
    rw [chars]
    exact digit
  have ordinary : (sign == '"' || sign == '\'') = false ∧ sign.isDigit = false := by
    rcases isSign with rfl | rfl <;> decide
  have signed : ((sign == '+' || sign == '-') && operandExpected last &&
      (n.chars ++ after).head?.any Char.isDigit) = true := by
    rw [expected, digit]
    simpa using isSign
  rw [read, if_neg (by simp [ordinary.1]), if_neg (by simp [ordinary.2]), if_pos signed, readNumber,
    Text.Numeral.split?_chars proper ends]
  rfl

theorem read_word {tail : List Char} (starts : Text.isWordStart c = true)
    (holds : ∀ d ∈ tail, Text.isWordPart d = true)
    (stops : ∀ d ∈ after.head?, Text.isWordPart d = false) :
    read g last position c (tail ++ after) =
      .ok ⟨(wordMeaning g last (String.ofList (c :: tail))).1,
        (wordMeaning g last (String.ofList (c :: tail))).2, c :: tail, after⟩ := by
  obtain ⟨noQuote, noDigit, noSign⟩ := ordinary_of_isWordStart starts
  have found := Text.splitWord?_word starts holds stops
  rw [List.cons_append] at found
  rw [read, if_neg (by simp [noQuote]), if_neg (by simp [noDigit]), if_neg (by simp [noSign]),
    found]

theorem read_symbol {symbol : String} {element : Element}
    (begins : BeginsSymbol last (symbol.toList ++ after))
    (isMatch : g.matchSymbol? (symbol.toList ++ after) = some symbol)
    (registered : g.element? symbol = some element)
    (noSign : symbol = "+" ∨ symbol = "-" → ∀ d ∈ after.head?, d ≠ '+' ∧ d ≠ '-')
    (split : symbol.toList ++ after = c :: cs) :
    read g last position c cs = .ok ⟨element.kind, .string symbol, symbol.toList, after⟩ := by
  rw [split] at begins isMatch
  obtain ⟨noQuote, noDigit, noNumber, noWord⟩ := begins
  have rest : (c :: cs).drop symbol.toList.length = after := by
    rw [← split, List.drop_left]
  rw [read, if_neg (by simp [noQuote]), if_neg (by simp [noDigit]), if_neg (by simp [noNumber]),
    Text.splitWord?, if_neg (by simp [noWord])]
  simp only [readSymbol, isMatch, registered, Option.bind_some, Option.map_some, rest]
  rw [if_neg]
  rintro ⟨isSign, any⟩
  obtain ⟨d, front, sign⟩ := (Option.any_eq_true _ _).1 any
  obtain ⟨notPlus, notMinus⟩ := noSign isSign d front
  simp [notPlus, notMinus] at sign

theorem Takes.read (takes : Takes g last text after kind value) (split : text ++ after = c :: cs)
    (position : Nat) : read g last position c cs = .ok ⟨kind, value, text, after⟩ := by
  cases takes with
  | string isQuote isBody =>
    cases split
    exact read_string isQuote isBody
  | number proper ends => exact read_number proper ends split
  | signed isSign expected proper ends =>
    cases split
    exact read_signed isSign expected proper ends
  | word starts holds stops =>
    cases split
    exact read_word starts holds stops
  | symbol begins isMatch registered noSign =>
    exact read_symbol begins isMatch registered noSign split

/-- The lexer takes tokens by the rules. -/
theorem read_eq_ok_iff :
    read g last position c cs = .ok ⟨kind, value, text, after⟩ ↔
      Takes g last text after kind value ∧ text ++ after = c :: cs :=
  ⟨fun h => ⟨takes_of_read h, read_append h⟩, fun ⟨takes, split⟩ => takes.read split position⟩

/-! ## What follows -/

/-- What stands behind the front belongs to no token that ends within it: it is nothing or begins
with white space, and no symbol reaches from the front into it. -/
structure Parts (g : Grammar) (front rest : List Char) : Prop where
  blank : ∀ c ∈ rest.head?, Text.isBlank c = true
  symbol : ∀ symbol ∈ g.symbols, symbol.toList <+: front ++ rest → symbol.toList <+: front

theorem parts_nil (front : List Char) : Parts g front [] where
  blank := nofun
  symbol symbol _ within := by rwa [List.append_nil] at within

/-- White space parts tokens as long as no symbol contains any. -/
theorem parts_of_gap {gap : List Char} (bare : g.IsBare) (nonempty : gap ≠ [])
    (blank : ∀ c ∈ gap, Text.isBlank c = true) (front rest : List Char) :
    Parts g front (gap ++ rest) := by
  obtain ⟨c, tail, rfl⟩ := List.exists_cons_of_ne_nil nonempty
  have first := blank c List.mem_cons_self
  refine ⟨fun d mem => ?_, fun symbol isSymbol within => ?_⟩
  · cases mem
    exact first
  · have reach : front ++ [c] <+: front ++ (c :: tail ++ rest) := ⟨tail ++ rest, by simp⟩
    have notIn : c ∉ symbol.toList := fun mem => by
      cases first.symm.trans (bare symbol isSymbol c mem)
    rcases List.prefix_or_prefix_of_prefix within reach with short | long
    · rcases List.prefix_concat_iff.1 short with eq | short
      · exact (notIn (by simp [eq])).elim
      · exact short
    · exact (notIn (long.subset (by simp))).elim

variable {rest other : List Char}

theorem mem_head?_append (blank : ∀ c ∈ other.head?, Text.isBlank c = true) (rest : List Char) :
    ∀ c ∈ (after ++ other).head?, c ∈ (after ++ rest).head? ∨ Text.isBlank c = true := by
  cases after with
  | nil => exact fun c mem => .inr (blank c mem)
  | cons d after => exact fun c mem => .inl mem

theorem endsAt_of_blank {n : Text.Numeral} (ends : n.EndsAt (after ++ rest))
    (blank : ∀ c ∈ other.head?, Text.isBlank c = true) : n.EndsAt (after ++ other) where
  noDigit c mem := by
    rcases mem_head?_append blank rest c mem with same | blank
    · exact ends.noDigit c same
    · exact Text.isDigit_of_isBlank blank
  noFraction none c tail eq := by
    cases after with
    | nil =>
      rw [List.nil_append] at eq
      rw [eq] at blank
      cases blank '.' rfl
    | cons d after =>
      obtain ⟨rfl, behind⟩ := List.cons.inj eq
      have front : c ∈ (after ++ other).head? := by
        change c ∈ (after.append other).head?
        rw [behind]
        rfl
      rcases mem_head?_append blank rest c front with same | blank
      · obtain ⟨tail, behind⟩ := List.head?_eq_some_iff.1 same
        exact ends.noFraction none c tail (congrArg ('.' :: ·) behind)
      · exact Text.isDigit_of_isBlank blank

theorem BeginsSymbol.of_blank {front : List Char} (begins : BeginsSymbol last (front ++ rest))
    (nonempty : front ≠ []) (blank : ∀ c ∈ other.head?, Text.isBlank c = true) :
    BeginsSymbol last (front ++ other) := by
  cases front with
  | nil => exact (nonempty rfl).elim
  | cons c front =>
    obtain ⟨noQuote, noDigit, noNumber, noWord⟩ := begins
    refine ⟨noQuote, noDigit, Bool.eq_false_iff.2 fun number => ?_, noWord⟩
    obtain ⟨sign, digit⟩ := (Bool.and_eq_true _ _).mp number
    obtain ⟨d, mem, digit⟩ := (Option.any_eq_true _ _).1 digit
    rcases mem_head?_append blank rest d mem with same | blank
    · have before : (front ++ rest).head?.any Char.isDigit = true := by
        rw [Option.mem_def.1 same]
        exact digit
      exact absurd ((Bool.and_eq_true _ _).mpr ⟨sign, before⟩) (Bool.eq_false_iff.1 noNumber)
    · cases digit.symm.trans (Text.isDigit_of_isBlank blank)

theorem Parts.matchSymbol? {front : List Char} {symbol : String}
    (parts : Parts g front other) (isMatch : g.matchSymbol? (front ++ rest) = some symbol)
    (within : symbol.toList <+: front) : g.matchSymbol? (front ++ other) = some symbol := by
  unfold Grammar.matchSymbol? at isMatch ⊢
  obtain ⟨_, before, behind, symbols, none⟩ := List.find?_eq_some_iff_append.1 isMatch
  refine List.find?_eq_some_iff_append.2 ⟨?_, before, behind, symbols, fun earlier mem => ?_⟩
  · have reach : symbol.toList <+: front ++ other := within.trans (List.prefix_append _ _)
    simpa using reach
  · have missed := none earlier mem
    have isSymbol : earlier ∈ g.symbols := by
      rw [symbols]
      exact List.mem_append_left _ mem
    simp only [Bool.not_eq_true', List.isPrefixOf_iff_prefix, ← Bool.not_eq_true] at missed ⊢
    exact fun reach => missed ((parts.symbol earlier isSymbol reach).trans (List.prefix_append _ _))

/-- Other text may stand behind a token, at any distance, if nothing of it belongs to a token that
ends before. -/
theorem Takes.of_parts (takes : Takes g last text (after ++ rest) kind value)
    (nonempty : text ++ after ≠ []) (parts : Parts g (text ++ after) other) :
    Takes g last text (after ++ other) kind value := by
  have head : ∀ c ∈ (after ++ other).head?, c ∈ (after ++ rest).head? ∨ Text.isBlank c = true :=
    mem_head?_append parts.blank rest
  cases takes with
  | string isQuote isBody => exact .string isQuote isBody
  | number proper ends => exact .number proper (endsAt_of_blank ends parts.blank)
  | signed isSign expected proper ends =>
    exact .signed isSign expected proper (endsAt_of_blank ends parts.blank)
  | word starts holds stops =>
    refine .word starts holds fun d mem => ?_
    rcases head d mem with same | blank
    · exact stops d same
    · exact Text.isWordPart_of_isBlank blank
  | @symbol symbol element _ begins isMatch registered noSign =>
    rw [← List.append_assoc] at isMatch begins
    have within : symbol.toList <+: symbol.toList ++ after := List.prefix_append _ _
    refine .symbol ?_ ?_ registered fun isSign d mem => ?_
    · rw [← List.append_assoc]
      exact begins.of_blank nonempty parts.blank
    · rw [← List.append_assoc]
      exact parts.matchSymbol? isMatch within
    · rcases head d mem with same | blank
      · exact noSign isSign d same
      · constructor <;> rintro rfl <;> cases blank

/-- Other text may stand directly behind a token that has characters. -/
theorem Takes.of_parts_behind (takes : Takes g last text after kind value) (nonempty : text ≠ [])
    (parts : Parts g text other) : Takes g last text other kind value := by
  have behind : Takes g last text ([] ++ after) kind value := takes
  exact behind.of_parts (by rwa [List.append_nil]) (by rwa [List.append_nil])

end Lexeme

end JsonExpr
