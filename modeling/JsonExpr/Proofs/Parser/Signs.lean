import JsonExpr.Operators.Standard
import JsonExpr.Proofs.Lexemes
import JsonExpr.Proofs.Parser.Reads

/-!
Where operands are expected. The lexer decides from the kind of the last token alone whether a sign
before a digit belongs to a number; the parser has its levels and their owners for that.

`Phase.Placed` ties the two: what the parser is doing says whether the last token expects an
operand, and the brackets that are still open say whether that operand is the key of an entry.
Every token keeps this (`Phase.Placed.add`), so the two never disagree
(`operandExpected_agrees`).
-/

namespace JsonExpr

open Lexeme (operandExpected)

/-! ## Open brackets -/

namespace TokenKind

/-- The open brackets, the innermost first, behind one more token. -/
def nest (opened : List TokenKind) : TokenKind → List TokenKind
  | .openParen => .openParen :: opened
  | .openBracket => .openBracket :: opened
  | .openCurl => .openCurl :: opened
  | .closeParen | .closeBracket | .closeCurl => opened.tail
  | _ => opened

/-- The brackets that a row of tokens leaves open, the innermost first. -/
def unclosed (kinds : List TokenKind) : List TokenKind :=
  kinds.foldl nest []

theorem unclosed_snoc (kinds : List TokenKind) (kind : TokenKind) :
    unclosed (kinds ++ [kind]) = nest (unclosed kinds) kind := by
  rw [unclosed, List.foldl_append]
  rfl

/-- A key comes next: behind the brace that opens an object, and behind a comma directly between
braces. -/
def KeyExpected (kinds : List TokenKind) : Prop :=
  kinds.getLast? = some .openCurl ∨
    kinds.getLast? = some .comma ∧ (unclosed kinds).head? = some .openCurl

end TokenKind

open TokenKind (nest unclosed unclosed_snoc KeyExpected)

/-! ## Brackets and positions of a parser -/

/-- The bracket that a level in this mode has opened itself. -/
def Mode.opened : Mode → List TokenKind
  | .key _ | .colon _ _ => [.openCurl]
  | _ => []

/-- The bracket that stays open as long as the slot is not filled. -/
def Slot.opened : Slot → List TokenKind
  | .group | .argument _ _ _ => [.openParen]
  | .bracket _ | .item _ => [.openBracket]
  | .entry _ _ => [.openCurl]
  | .consequent _ | .alternate _ _ => []

/-- The mode that a level has behind these tokens. -/
def Mode.Follows (kinds : List TokenKind) : Mode → Prop
  | .operand => operandExpected kinds.getLast? = true ∧ ¬ KeyExpected kinds
  | .key _ => KeyExpected kinds
  | _ => operandExpected kinds.getLast? = false

/-- The brackets that a step leaves open. -/
def Step.opened : Step → List TokenKind
  | .stay level => level.mode.opened
  | .enter owner => owner.slot.opened

/-- The mode of the innermost level after a step. -/
def Step.mode : Step → Mode
  | .stay level => level.mode
  | .enter _ => .operand

/-- The phase is one that these tokens lead to, as far as brackets and operands go. -/
def Phase.Placed (kinds : List TokenKind) : Phase → Prop
  | .reading owners level =>
    unclosed kinds = level.mode.opened ++ owners.flatMap (·.slot.opened) ∧
      level.mode.Follows kinds
  | .complete _ => False

variable {d : Dialect} {kinds : List TokenKind}

theorem Phase.placed_afterStep {owners : List Owner} {step : Step}
    (opened : unclosed kinds = step.opened ++ owners.flatMap (·.slot.opened))
    (follows : step.mode.Follows kinds) : (Parser.afterStep owners step).Placed kinds := by
  cases step with
  | stay level => exact ⟨opened, follows⟩
  | enter owner => exact ⟨opened, follows⟩

theorem Mode.follows_operand {kind : TokenKind} (expects : kind.expectsOperand = true)
    (notCurl : kind ≠ .openCurl) (notComma : kind ≠ .comma) :
    Mode.operand.Follows (kinds ++ [kind]) := by
  rw [Mode.Follows, KeyExpected, List.getLast?_concat]
  refine ⟨expects, ?_⟩
  rintro (curl | ⟨comma, _⟩)
  · exact notCurl (Option.some.inj curl)
  · exact notComma (Option.some.inj comma)

theorem operandExpected_snoc {kind : TokenKind} (closed : kind.expectsOperand = false) :
    operandExpected (kinds ++ [kind]).getLast? = false := by
  rw [List.getLast?_concat]
  exact closed

/-! ## One token -/

theorem Accepts.nest_opened {level : Level} {t : Token} {step : Step}
    (accepts : Accepts d level t step) (outer : List TokenKind) :
    nest (level.mode.opened ++ outer) t.kind = step.opened ++ outer := by
  cases accepts <;> simp_all [nest, Mode.opened, Slot.opened, Step.opened]

/-- Whether the next token is an operand shows in the kind of the token that the level has used. -/
theorem Accepts.follows {level : Level} {t : Token} {step : Step}
    (accepts : Accepts d level t step) : step.mode.Follows (kinds ++ [t.kind]) := by
  cases accepts with
  | unary kind | binary kind | openGroup kind | openArray kind | openBracket kind | question kind
  | call kind | transformCall kind | colon kind =>
    rw [kind]
    exact Mode.follows_operand rfl nofun nofun
  | openObject kind =>
    rw [kind]
    exact .inl (List.getLast?_concat)
  | literal kind | identifier kind | leadingDot kind | relativeName kind | pipe kind
  | memberDot kind | segmentDot kind | memberName kind | transformName kind | transformSegment kind
  | nameKey kind | stringKey kind | closeObject kind =>
    rw [kind]
    exact operandExpected_snoc rfl

theorem Closes.nest_opened {owner : Owner} {t : Token} {result : Option Expr} {step : Step}
    (closes : Closes owner t result step) (outer : List TokenKind) :
    nest (owner.slot.opened ++ outer) t.kind = step.opened ++ outer := by
  cases closes <;> simp_all [nest, Mode.opened, Slot.opened, Step.opened]

/-- A comma asks for a key exactly if it stands directly between braces. -/
theorem Closes.follows {owner : Owner} {t : Token} {result : Option Expr} {step : Step}
    (closes : Closes owner t result step) {outer : List TokenKind}
    (opened : unclosed (kinds ++ [t.kind]) = step.opened ++ outer) :
    step.mode.Follows (kinds ++ [t.kind]) := by
  cases closes with
  | nextArgument kind | nextItem kind =>
    rw [kind] at opened ⊢
    refine ⟨?_, ?_⟩
    · rw [List.getLast?_concat]
      rfl
    · rw [KeyExpected, List.getLast?_concat, opened]
      rintro (curl | ⟨_, between⟩)
      · cases curl
      · cases between
  | nextEntry kind =>
    rw [kind] at opened ⊢
    refine .inr ⟨List.getLast?_concat, ?_⟩
    rw [opened]
    rfl
  | consequent kind =>
    rw [kind]
    exact Mode.follows_operand rfl nofun nofun
  | group kind | bracket kind | lastArgument kind | noArgument kind | lastItem kind | noItem kind
  | lastEntry kind =>
    rw [kind]
    exact operandExpected_snoc rfl

/-! ## Whole runs -/

/-- The owners get a result from a level that has no bracket of its own. -/
theorem Parser.placed_close {text : String} {t : Token} {owners : List Owner}
    {result : Option Expr} {phase : Phase} (closable : closable owners t.kind = true)
    (opened : unclosed kinds = owners.flatMap (·.slot.opened))
    (closed : close text t owners result = .ok phase) : phase.Placed (kinds ++ [t.kind]) := by
  induction owners generalizing result with
  | nil => cases closable
  | cons owner rest ih =>
    rcases closable_cons closable with closedBy | ⟨spine, test, consequent, rfl, outside⟩
    · rw [close_of_closedBy closedBy] at closed
      obtain ⟨step, stepped, rfl⟩ := map_eq_ok_iff.1 closed
      have closes := closes_iff.1 ⟨closedBy, stepped⟩
      have after : unclosed (kinds ++ [t.kind]) = step.opened ++ rest.flatMap (·.slot.opened) := by
        rw [unclosed_snoc, opened, List.flatMap_cons, closes.nest_opened]
      exact Phase.placed_afterStep after (closes.follows after)
    · -- The second branch of a choice has no bracket, so the token closes the choice as well.
      cases result with
      | some alternate => exact ih outside opened closed
      | none => cases closed

theorem Level.opened_of_result? {level : Level} {result : Option Expr}
    (ends : level.result? = some result) : level.mode.opened = [] := by
  rcases level with ⟨spine, mode⟩
  cases mode with
  | key entries => cases ends
  | colon entries key => cases ends
  | _ => rfl

theorem Phase.Placed.add {p q : Parser} {t : Token} (placed : p.phase.Placed kinds)
    (h : p.add d t = .ok q) : q.phase.Placed (kinds ++ [t.kind]) := by
  rcases p with ⟨text, phase⟩
  cases phase with
  | complete parsed => exact placed.elim
  | reading owners level =>
    obtain ⟨opened, _⟩ := placed
    rcases Parser.add_eq_ok h with ⟨step, accepts, after⟩ | ⟨result, ends, closable, closed⟩
    · rw [after]
      refine Phase.placed_afterStep ?_ accepts.follows
      rw [unclosed_snoc, opened, accepts.nest_opened]
    · rw [Level.opened_of_result? ends, List.nil_append] at opened
      exact Parser.placed_close closable opened closed

theorem Phase.Placed.addAll {ts : List Token} {p q : Parser} (placed : p.phase.Placed kinds)
    (h : p.addAll d ts = .ok q) : q.phase.Placed (kinds ++ ts.map Token.kind) := by
  induction ts generalizing p kinds with
  | nil =>
    cases h
    simpa only [List.map_nil, List.append_nil] using placed
  | cons t ts ih =>
    obtain ⟨r, first, rest⟩ := Parser.addAll_cons_eq_ok.1 h
    have after := ih (placed.add first) rest
    rwa [List.append_assoc] at after

/-- Brackets and operands of every parser that has read some tokens. -/
theorem Parser.placed_of_run {ts : List Token} {p : Parser} (run : start.addAll d ts = .ok p) :
    p.phase.Placed (ts.map Token.kind) := by
  have fresh : start.phase.Placed [] := by
    refine ⟨rfl, rfl, ?_⟩
    rintro (curl | ⟨comma, _⟩)
    · cases curl
    · cases comma
  exact fresh.addAll run

/-! ## Operators and numbers -/

/-- A token that closes no level is used by the level itself. -/
theorem Parser.accepts_of_add {text : String} {owners : List Owner} {level : Level} {t : Token}
    {p : Parser} (h : add d ⟨text, .reading owners level⟩ t = .ok p)
    (closesNone : t.kind ∉ [.comma, .colon, .closeParen, .closeBracket, .closeCurl]) :
    ∃ step, Accepts d level t step := by
  rcases add_eq_ok h with ⟨step, accepts, _⟩ | ⟨_, _, closable, _⟩
  · exact ⟨step, accepts⟩
  · obtain ⟨slot, closedBy⟩ := exists_closedBy_of_closable closable
    exact (closesNone (kind_of_closedBy closedBy)).elim

/-- A binary operator follows an operand. -/
theorem Phase.Placed.follows_of_binaryOp {p q : Parser} {t : Token} (placed : p.phase.Placed kinds)
    (kind : t.kind = .binaryOp) (h : p.add d t = .ok q) :
    operandExpected kinds.getLast? = false := by
  rcases p with ⟨text, phase⟩
  cases phase with
  | complete parsed => exact placed.elim
  | reading owners level =>
    obtain ⟨step, accepts⟩ := Parser.accepts_of_add h (by simp [kind])
    cases accepts with
    | binary => exact placed.2
    | _ => simp_all

/-- A number is an operand, and no key. -/
theorem Phase.Placed.follows_of_number {p q : Parser} {t : Token} (placed : p.phase.Placed kinds)
    (kind : t.kind = .literal) (number : t.value.isNumber = true) (h : p.add d t = .ok q) :
    Mode.operand.Follows kinds := by
  rcases p with ⟨text, phase⟩
  cases phase with
  | complete parsed => exact placed.elim
  | reading owners level =>
    obtain ⟨step, accepts⟩ := Parser.accepts_of_add h (by simp [kind])
    cases accepts with
    | literal => exact placed.2
    | stringKey _ value =>
      rw [value] at number
      cases number
    | _ => simp_all

/-- Where an operand is expected and no key, every literal is accepted. -/
theorem Phase.Placed.exists_add_of_literal {p : Parser} {t : Token}
    (placed : p.phase.Placed kinds) (follows : Mode.operand.Follows kinds)
    (kind : t.kind = .literal) : ∃ q, p.add d t = .ok q := by
  rcases p with ⟨text, phase⟩
  cases phase with
  | complete parsed => exact placed.elim
  | reading owners level =>
    rcases level with ⟨spine, mode⟩
    cases mode with
    | operand =>
      have accepts : Accepts d ⟨spine, .operand⟩ t
          (.stay ⟨spine, .after (.plain (.literal t.value))⟩) := .literal kind
      obtain ⟨text', run⟩ := accepts.leads text
      obtain ⟨q, added, _⟩ := Parser.addAll_cons_eq_ok.1 run
      exact ⟨q, added⟩
    | key entries => exact (follows.2 placed.2).elim
    | _ => cases follows.1.symm.trans placed.2

/-! ## Signs -/

/-- The lexer reads a sign and the digit behind it as one number. -/
def Lexeme.ReadsSigned (g : Grammar) (last : Option TokenKind) (position : Nat)
    (sign digit : Char) (rest : List Char) : Prop :=
  ∃ lexeme, read g last position sign (digit :: rest) = .ok lexeme ∧
    lexeme.kind = .literal ∧ lexeme.value.isNumber = true

theorem Lexeme.readsSigned_iff {g : Grammar} {last : Option TokenKind} {position : Nat}
    {sign digit : Char} {rest : List Char} (isSign : sign = '+' ∨ sign = '-')
    (isDigit : digit.isDigit = true) :
    ReadsSigned g last position sign digit rest ↔ operandExpected last = true := by
  constructor
  · rintro ⟨⟨kind, value, text, after⟩, found, _, number⟩
    obtain ⟨takes, split⟩ := read_eq_ok_iff.1 found
    cases takes with
    | string | symbol => cases number
    | number proper =>
      obtain ⟨c, tail, chars, digit⟩ := proper.exists_chars_eq_cons
      rw [chars] at split
      obtain ⟨rfl, _⟩ := List.cons.inj split
      rcases isSign with rfl | rfl <;> cases digit
    | signed _ expected => exact expected
    | word starts =>
      obtain ⟨rfl, _⟩ := List.cons.inj split
      rcases isSign with rfl | rfl <;> cases starts
  · intro expected
    obtain ⟨n, after, found⟩ := Text.Numeral.exists_split?_of_isDigit isDigit rest
    obtain ⟨proper, ends, split⟩ := Text.Numeral.split?_eq_some_iff.1 found
    have takes : Takes g last (sign :: n.chars) after .literal (n.value (sign == '-')) :=
      .signed isSign expected proper ends
    exact ⟨_, takes.read (congrArg (sign :: ·) split) position, rfl, n.isNumber_value _⟩

open Lexeme (ReadsSigned readsSigned_iff)

variable {ts : List Token} {p : Parser}

/-- The lexer and the parser agree on where an operand is expected: the kind of the last token
tells it apart from where a binary operator may stand, and thus a sign in front of a number from
the operator. -/
theorem Parser.operandExpected_agrees (run : start.addAll d ts = .ok p) :
    (operandExpected (ts.map Token.kind).getLast? = true →
      (∀ t, t.kind = .binaryOp → ∃ error, p.add d t = .error error) ∧
      ∀ t, t.kind = .literal → t.value.isNumber = true →
        ((∃ q, p.add d t = .ok q) ↔ ¬ KeyExpected (ts.map Token.kind))) ∧
    (operandExpected (ts.map Token.kind).getLast? = false →
      ∀ t, t.kind = .literal → t.value.isNumber = true → ∃ error, p.add d t = .error error) ∧
    ∀ position sign digit rest, sign = '+' ∨ sign = '-' → digit.isDigit = true →
      ((∃ t q, t.kind = .binaryOp ∧ p.add d t = .ok q) →
        ¬ ReadsSigned d.grammar (ts.map Token.kind).getLast? position sign digit rest) ∧
      ((∃ t q, t.kind = .literal ∧ t.value.isNumber = true ∧ p.add d t = .ok q) →
        ReadsSigned d.grammar (ts.map Token.kind).getLast? position sign digit rest) := by
  have placed := placed_of_run run
  have rejected {t : Token} (none : ¬ ∃ q, p.add d t = .ok q) :
      ∃ error, p.add d t = .error error := by
    cases added : p.add d t with
    | error error => exact ⟨error, rfl⟩
    | ok q => exact (none ⟨q, added⟩).elim
  refine ⟨fun expected => ⟨fun t kind => rejected ?_, fun t kind number => ⟨?_, ?_⟩⟩,
    fun unexpected t kind number => rejected ?_, fun position sign digit rest isSign isDigit => ?_⟩
  · rintro ⟨q, added⟩
    cases expected.symm.trans (placed.follows_of_binaryOp kind added)
  · rintro ⟨q, added⟩
    exact (placed.follows_of_number kind number added).2
  · exact fun noKey => placed.exists_add_of_literal ⟨expected, noKey⟩ kind
  · rintro ⟨q, added⟩
    cases unexpected.symm.trans (placed.follows_of_number kind number added).1
  · rw [readsSigned_iff isSign isDigit]
    constructor
    · rintro ⟨t, q, kind, added⟩ expected
      cases expected.symm.trans (placed.follows_of_binaryOp kind added)
    · rintro ⟨t, q, kind, number, added⟩
      exact (placed.follows_of_number kind number added).1

/-- The tokens of `f(\x7bk: !x\x7d, `. -/
def openCall : List Token :=
  [⟨.identifier, "f", .string "f"⟩, ⟨.openParen, "(", .string "("⟩,
    ⟨.openCurl, "\x7b", .string "\x7b"⟩, ⟨.identifier, "k", .string "k"⟩,
    ⟨.colon, ": ", .string ":"⟩, ⟨.unaryOp, "!", .string "!"⟩, ⟨.identifier, "x", .string "x"⟩,
    ⟨.closeCurl, "\x7d", .string "\x7d"⟩, ⟨.comma, ", ", .string ","⟩]

/-- The comma stands between arguments, although there have been entries before. -/
theorem Parser.operandExpected_agrees_openCall :
    ∃ p, start.addAll ⟨.standard, {}⟩ openCall = .ok p ∧
      (∀ t, t.kind = .binaryOp → ∃ error, p.add ⟨.standard, {}⟩ t = .error error) ∧
      ∀ t, t.kind = .literal → t.value.isNumber = true → ∃ q, p.add ⟨.standard, {}⟩ t = .ok q := by
  have run : start.addAll ⟨.standard, {}⟩ openCall = .ok _ := rfl
  obtain ⟨operators, numbers⟩ := (operandExpected_agrees run).1 rfl
  refine ⟨_, run, operators, fun t kind number => (numbers t kind number).2 ?_⟩
  rintro (curl | ⟨_, between⟩)
  · cases curl
  · cases between

end JsonExpr
