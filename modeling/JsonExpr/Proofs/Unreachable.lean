import JsonExpr.Proofs.Engine
import JsonExpr.Proofs.Kinds
import JsonExpr.Proofs.Parser.Endings
import JsonExpr.Proofs.Parser.Machine

/-!
Errors that never come. The lexer reads a number only where a digit stands, and it calls a token an
operator only if the grammar has that operator; the engine gives no token to a parser that is
complete. A machine falls back on the end of the text where a register is empty, and on a token
that ends it where it has no owner, but it stands where some parser does, and that has neither case.

The operators need a grammar of a host, which the lexer and the parser share.
-/

namespace JsonExpr

variable {d : Dialect} {g : Grammar}

/-! ## Numbers -/

namespace Lexeme

variable {shown : String} {place position : Nat}

theorem readString_ne_invalidNumber {quote : Char} {cs : List Char} :
    readString position quote cs ≠ .error (.invalidNumber shown place) := by
  unfold readString
  split <;> nofun

theorem readSymbol_ne_invalidNumber {c : Char} {cs : List Char} :
    readSymbol g position c cs ≠ .error (.invalidNumber shown place) := by
  unfold readSymbol
  split
  · nofun
  · dsimp only
    split <;> nofun

/-- A number is read only where a digit stands. -/
theorem read_ne_invalidNumber {last : Option TokenKind} {c : Char} {cs : List Char} :
    read g last position c cs ≠ .error (.invalidNumber shown place) := by
  intro h
  unfold read at h
  split at h
  · exact readString_ne_invalidNumber h
  · split at h
    · rename_i digit
      have front : (c :: cs).head?.any Char.isDigit = true := digit
      exact readNumber_ne_error front h
    · split at h
      · rename_i signed
        exact readNumber_ne_error (Bool.and_eq_true_iff.1 signed).2 h
      · split at h
        · cases h
        · exact readSymbol_ne_invalidNumber h

end Lexeme

theorem Cursor.next_ne_invalidNumber {cursor : Cursor} {shown : String} {place : Nat} :
    cursor.next g ≠ .error (.invalidNumber shown place) := by
  intro h
  unfold Cursor.next at h
  split at h
  · cases h
  · split at h
    · rename_i failed
      cases h
      exact Lexeme.read_ne_invalidNumber failed
    · cases h

/-- The lexer fails where a token cannot be read, or where one would come for ever. -/
theorem Cursor.of_tokens_eq_error {cursor : Cursor} {idle : Bool} {error : LexError}
    (h : cursor.tokens g idle = .error error) :
    (∃ place : Cursor, place.next g = .error error) ∨ ∃ position, error = .stalled position := by
  fun_induction Cursor.tokens g cursor idle with
  | case1 cursor idle cause failed =>
    cases h
    exact .inl ⟨cursor, failed⟩
  | case2 cursor idle ended => cases h
  | case3 cursor idle token after found shorter ih => exact ih (map_eq_error_iff.1 h)
  | case4 cursor token after found same =>
    cases h
    exact .inr ⟨cursor.position, rfl⟩
  | case5 cursor idle token after found same busy ih => exact ih (map_eq_error_iff.1 h)

/-! ## Tokens -/

namespace Refuses

variable {text : String} {t : Token} {error : ParseError}

theorem ne_unknownOperator (refuses : Refuses d text t error) (suits : t.Suits d.grammar)
    (symbol quoted : String) : error ≠ .unknownOperator symbol quoted := by
  cases refuses with
  | unknownUnary kind unknown =>
    have known := suits.unary kind
    rw [unknown] at known
    cases known
  | unknownBinary kind unknown =>
    have known := suits.binary kind
    rw [unknown] at known
    cases known
  | _ => nofun

theorem ne_alreadyComplete (refuses : Refuses d text t error) (token : String) :
    error ≠ .alreadyComplete token := by
  cases refuses <;> nofun

end Refuses

/-- Tokens that make no tree end too early, or there are none, or one of them is refused. -/
theorem Parser.refuses_of_parse {ts : List Token} {error : ParseError}
    (h : parse d ts = .error error) (early : ∀ text, error ≠ .unexpectedEnd text)
    (empty : error ≠ .emptyExpression) : ∃ t ∈ ts, ∃ text, Refuses d text t error := by
  unfold parse at h
  cases run : start.addAll d ts with
  | error cause =>
    rw [run] at h
    cases h
    obtain ⟨before, t, after, p, rfl, taken, refused⟩ := addAll_eq_error.1 run
    obtain ⟨text, owners, level, rfl⟩ := exists_reading_of_run taken
    exact ⟨t, by simp, _, refuses_of_add refused⟩
  | ok p =>
    obtain ⟨text, owners, level, rfl⟩ := exists_reading_of_run run
    rw [run] at h
    change ((complete ⟨text, .reading owners level⟩).1 >>= _) = _ at h
    rw [complete_eq] at h
    cases whole : whole? owners level with
    | none =>
      rw [whole] at h
      cases h
      exact (early text rfl).elim
    | some result =>
      rw [whole] at h
      cases result with
      | none =>
        cases h
        exact (empty rfl).elim
      | some tree => cases h

/-! ## Machines -/

namespace Machine

variable {m : Machine}

/-- A token is taken, or it comes too late, or there is a cause to refuse it. -/
theorem Reached.feed_cases (reached : Reached d m) (t : Token) :
    (∃ after, m.feed d t = .ok (none, after)) ∨
      m.feed d t = .error (.alreadyComplete t.lexeme) ∨
      ∃ text error, m.feed d t = .error error ∧ Refuses d text t error := by
  obtain ⟨p, represents⟩ := reached.exists_represents
  have same := represents.feed (d := d) t
  cases added : p.add d t with
  | ok q =>
    rw [added] at same
    obtain ⟨after, fed, _⟩ := same
    exact .inl ⟨after, fed⟩
  | error error =>
    rw [added] at same
    rcases p with ⟨text, phase⟩
    cases phase with
    | complete parsed =>
      cases added
      exact .inr (.inl same)
    | reading owners level => exact .inr (.inr ⟨_, error, same, Parser.refuses_of_add added⟩)

theorem Reached.complete_ne_emptySubExpression (reached : Reached d m) (token text : String) :
    m.complete.1 ≠ .error (.emptySubExpression token text) := by
  obtain ⟨p, represents⟩ := reached.exists_represents
  rw [represents.complete_eq.1]
  rcases p with ⟨quoted, phase⟩
  cases phase with
  | complete parsed => cases parsed <;> nofun
  | reading owners level =>
    rw [Parser.complete_eq]
    cases Parser.whole? owners level <;> nofun

end Machine

/-! ## Sources -/

/-- What makes a source unreadable is neither a number, nor an operator that the grammar does not
have, nor a token too many. -/
theorem Dialect.of_read_eq_error (reachable : d.grammar.Reachable) {source : String} {error : Error}
    (h : d.read source = .error error) :
    (∀ shown place, error ≠ .lex (.invalidNumber shown place)) ∧
      (∀ symbol text, error ≠ .parse (.unknownOperator symbol text)) ∧
      ∀ token, error ≠ .parse (.alreadyComplete token) := by
  rcases read_eq_error_iff.1 h with ⟨cause, failed, rfl⟩ | ⟨ts, cause, tokens, failed, rfl⟩
  · refine ⟨fun shown place same => ?_, nofun, nofun⟩
    cases same
    rcases Cursor.of_tokens_eq_error failed with ⟨cursor, failed⟩ | ⟨position, stalled⟩
    · exact Cursor.next_ne_invalidNumber failed
    · cases stalled
  · have suits := Token.suits_of_tokenize reachable.regular tokens
    refine ⟨nofun, fun symbol text same => ?_, fun token same => ?_⟩
    · cases same
      obtain ⟨t, mem, text, refuses⟩ := Parser.refuses_of_parse failed nofun nofun
      exact refuses.ne_unknownOperator (suits t mem) _ _ rfl
    · cases same
      obtain ⟨t, mem, text, refuses⟩ := Parser.refuses_of_parse failed nofun nofun
      exact refuses.ne_alreadyComplete _ rfl

/-- No internal error is ever reported. Compiling never fails for a number, an unknown operator or
a token too many, whatever the engine keeps. A machine that takes the tokens one by one never takes
the end of the text for a cause while tokens come, finds no token that ends it since it has no
owner, and at the end it misses no nested expression. These machines take and refuse what the parser
does, and come to the same. -/
theorem internal_errors_unreachable :
    (∀ e : Engine, e.dialect.grammar.Reachable → ∀ source error,
      (e.compile source).2 = .error error →
        (∀ shown place, error ≠ .lex (.invalidNumber shown place)) ∧
        (∀ symbol text, error ≠ .parse (.unknownOperator symbol text)) ∧
        ∀ token, error ≠ .parse (.alreadyComplete token)) ∧
    (∀ d m, Machine.Reached d m →
      (∀ t, (∀ text, m.feed d t ≠ .error (.unexpectedEnd text)) ∧
        ∀ stop after, m.feed d t ≠ .ok (some stop, after)) ∧
      ∀ token text, m.complete.1 ≠ .error (.emptySubExpression token text)) ∧
    ∀ d ts, (Machine.start.feedAll d ts).map (fun m => m.complete.1) =
        (Parser.start.addAll d ts).map (fun p => p.complete.1) ∧
      Machine.parse d ts = Parser.parse d ts := by
  refine ⟨fun e reachable source error compiled => ?_, fun d m reached => ⟨fun t => ?_, ?_⟩,
    fun d ts => ⟨Machine.completes_eq ts, Machine.parse_eq ts⟩⟩
  · exact Dialect.of_read_eq_error reachable (Engine.of_compile_eq_error compiled)
  · rcases reached.feed_cases t with ⟨after, fed⟩ | failed | ⟨text, error, failed, refuses⟩
    · rw [fed]
      exact ⟨nofun, nofun⟩
    · rw [failed]
      exact ⟨nofun, nofun⟩
    · rw [failed]
      refine ⟨fun quoted same => ?_, nofun⟩
      exact refuses.ne_unexpectedEnd quoted (Except.error.inj same)
  · exact reached.complete_ne_emptySubExpression

/-- The text `[` ends too early; the machine that has taken it waits for an item, and says so only
when it is completed. -/
theorem internal_errors_unreachable_openBracket :
    ∃ m, (Engine.compile (.new {}) "[").2 = .error (.parse (.unexpectedEnd "[")) ∧
      (∀ symbol text, Error.parse (.unexpectedEnd "[") ≠ .parse (.unknownOperator symbol text)) ∧
      Machine.Reached ⟨.standard, {}⟩ m ∧ m.complete.1 = .error (.unexpectedEnd "[") ∧
      ∀ t text, m.feed ⟨.standard, {}⟩ t ≠ .error (.unexpectedEnd text) := by
  have lexes : Lexes .standard none ['['] [⟨.openBracket, "[", .string "["⟩]
      (some .openBracket) [] := .mark Grammar.isStandard_standard (by decide) nofun
  have tokens : tokenize .standard "[" = .ok _ := lexes.tokenize (.cons rfl)
  have read : Dialect.read ⟨.standard, {}⟩ "[" = .error (.parse (.unexpectedEnd "[")) := by
    rw [Dialect.read, tokens]
    rfl
  have compiled : (Engine.compile (.new {}) "[").2 = .error (.parse (.unexpectedEnd "[")) :=
    (Engine.Reachable.new {}).faithful.compile_of_read_error read
  have fed : Machine.start.feed ⟨.standard, {}⟩ ⟨.openBracket, "[", .string "["⟩ =
      .ok (none, _) := rfl
  have reached := Machine.Reached.start.feed fed
  obtain ⟨engines, machines, _⟩ := internal_errors_unreachable
  exact ⟨_, compiled, (engines _ .standard _ _ compiled).2.1, reached, rfl,
    fun t => ((machines _ _ reached).1 t).1⟩

end JsonExpr
