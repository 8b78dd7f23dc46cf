import JsonExpr.Operators.Standard
import JsonExpr.Proofs.Parser.Refusals
import JsonExpr.Proofs.Parser.Signs

/-!
There are no dead ends. Whatever a parser has taken, `Phase.ending` are tokens that bring it to a
tree: what its level still lacks, and then for each owner what closes it, the nearest first.

So the tokens that a parser takes are exactly the beginnings of what can be parsed, and a row of
tokens that cannot be continued is refused at the very token that makes it so
(`Parser.takes_exactly_prefixes`).
-/

namespace JsonExpr

/-! ## What is still to come -/

namespace Token

def null : Token :=
  ⟨.literal, "null", .null⟩

/-- Some name. -/
def someName : Token :=
  ⟨.identifier, "x", .string "x"⟩

def closeParen : Token :=
  ⟨.closeParen, ")", .string ")"⟩

def closeBracket : Token :=
  ⟨.closeBracket, "]", .string "]"⟩

def closeCurl : Token :=
  ⟨.closeCurl, "\x7d", .string "\x7d"⟩

def colon : Token :=
  ⟨.colon, ":", .string ":"⟩

end Token

open Token in
/-- Tokens after which a level in this mode may end. -/
def Mode.ending : Mode → List Token
  | .operand => [null]
  | .after _ => []
  | .relativeName | .memberName _ | .transformName _ | .transformSegment _ _ => [someName]
  | .key _ => [closeCurl]
  | .colon _ _ => [Token.colon, null, closeCurl]

open Token in
/-- Tokens after which the owner of a level that may end may end itself. -/
def Slot.ending : Slot → List Token
  | .group | .argument _ _ _ => [closeParen]
  | .bracket _ | .item _ => [closeBracket]
  | .entry _ _ => [closeCurl]
  | .consequent _ => [Token.colon, null]
  | .alternate _ _ => []

/-- Tokens that bring a parser to a tree. -/
def Phase.ending : Phase → List Token
  | .reading owners level => level.mode.ending ++ owners.flatMap (·.slot.ending)
  | .complete _ => []

variable {d : Dialect}

/-! ## The innermost level -/

namespace Parser

theorem gives_after {owners : List Owner} {spine : Spine} (operand : Operand) :
    Gives owners (spine.closeAll operand.tree) (.reading owners ⟨spine, .after operand⟩) :=
  .level rfl

/-- Where a level begins, one literal is enough. -/
theorem leads_null (owners : List Owner) :
    ∃ phase, Leads d (.reading owners .fresh) [.null] phase ∧
      Gives owners (.literal .null) phase :=
  ⟨_, (Accepts.literal rfl).leads, .level rfl⟩

theorem leads_ending (owners : List Owner) (level : Level) :
    ∃ phase tree, Leads d (.reading owners level) level.mode.ending phase ∧
      Gives owners tree phase := by
  rcases level with ⟨spine, mode⟩
  cases mode with
  | operand => exact ⟨_, _, (Accepts.literal rfl).leads, gives_after _⟩
  | after operand => exact ⟨_, _, .refl _, gives_after operand⟩
  | relativeName => exact ⟨_, _, (Accepts.relativeName rfl).leads, gives_after _⟩
  | memberName subject => exact ⟨_, _, (Accepts.memberName rfl).leads, gives_after _⟩
  | transformName subject => exact ⟨_, _, (Accepts.transformName rfl).leads, gives_after _⟩
  | transformSegment name subject =>
    exact ⟨_, _, (Accepts.transformSegment rfl).leads, gives_after _⟩
  | key entries => exact ⟨_, _, (Accepts.closeObject rfl).leads, gives_after _⟩
  | colon entries key =>
    have colon : Leads d (.reading owners ⟨spine, .colon entries key⟩) [.colon]
        (.reading (⟨spine, .entry entries key⟩ :: owners) .fresh) := (Accepts.colon rfl).leads
    obtain ⟨phase, value, gives⟩ := leads_null (d := d) (⟨spine, .entry entries key⟩ :: owners)
    have close : Closes ⟨spine, .entry entries key⟩ Token.closeCurl (some (.literal .null))
        (.stay ⟨spine, .after (.plain (.object (entries ++ [(key, .literal .null)])))⟩) :=
      .lastEntry rfl
    exact ⟨_, _, colon.trans (value.trans (close.leads gives)), gives_after _⟩

/-! ## The owners -/

/-- Once a level may end, its owner can be brought to where it may end. -/
theorem Gives.leads_ending {owner : Owner} {owners : List Owner} {tree : Expr} {phase : Phase}
    (gives : Gives (owner :: owners) tree phase) :
    ∃ after result, Leads d phase owner.slot.ending after ∧ Gives owners result after := by
  rcases owner with ⟨spine, slot⟩
  cases slot with
  | group => exact ⟨_, _, (Closes.group rfl).leads gives, gives_after _⟩
  | bracket subject => exact ⟨_, _, (Closes.bracket rfl).leads gives, gives_after _⟩
  | argument pool name args => exact ⟨_, _, (Closes.lastArgument rfl).leads gives, gives_after _⟩
  | item items => exact ⟨_, _, (Closes.lastItem rfl).leads gives, gives_after _⟩
  | entry entries key => exact ⟨_, _, (Closes.lastEntry rfl).leads gives, gives_after _⟩
  | consequent test =>
    have colon : Leads d phase [.colon]
        (.reading (⟨spine, .alternate test (some tree)⟩ :: owners) .fresh) :=
      (Closes.consequent rfl).leads gives
    obtain ⟨after, branch, gives⟩ :=
      leads_null (d := d) (⟨spine, .alternate test (some tree)⟩ :: owners)
    exact ⟨after, _, colon.trans branch, .choice gives⟩
  | alternate test consequent => exact ⟨_, _, .refl _, .choice gives⟩

theorem Gives.leads_endings {owners : List Owner} {tree : Expr} {phase : Phase}
    (gives : Gives owners tree phase) :
    ∃ after whole, Leads d phase (owners.flatMap (·.slot.ending)) after ∧
      Gives [] whole after := by
  induction owners generalizing tree phase with
  | nil => exact ⟨phase, tree, .refl phase, gives⟩
  | cons owner owners ih =>
    obtain ⟨middle, result, first, gives⟩ := gives.leads_ending
    obtain ⟨after, whole, rest, gives⟩ := ih gives
    exact ⟨after, whole, first.trans rest, gives⟩

/-- Every parser that is not complete comes to a tree behind its ending. -/
theorem exists_complete_ending (text : String) (owners : List Owner) (level : Level) :
    ∃ q tree, addAll d ⟨text, .reading owners level⟩ (Phase.reading owners level).ending = .ok q ∧
      q.complete.1 = .ok (some tree) := by
  obtain ⟨middle, tree, inner, gives⟩ := leads_ending (d := d) owners level
  obtain ⟨after, whole, outer, gives⟩ := gives.leads_endings (d := d)
  obtain ⟨text', run⟩ := (inner.trans outer) text
  exact ⟨_, whole, run, gives.finish rfl⟩

/-! ## Beginnings of what can be parsed -/

variable {ts : List Token}

theorem exists_reading_of_run {p : Parser} (run : start.addAll d ts = .ok p) :
    ∃ text owners level, p = ⟨text, .reading owners level⟩ := by
  have placed := placed_of_run run
  rcases p with ⟨text, phase⟩
  cases phase with
  | complete parsed => exact placed.elim
  | reading owners level => exact ⟨text, owners, level, rfl⟩

/-- The tokens that a parser takes are a beginning of what can be parsed, and nothing else is. -/
theorem exists_run_iff :
    (∃ p, start.addAll d ts = .ok p) ↔ ∃ us tree, parse d (ts ++ us) = .ok tree := by
  constructor
  · rintro ⟨p, run⟩
    obtain ⟨text, owners, level, rfl⟩ := exists_reading_of_run run
    obtain ⟨q, tree, ending, completed⟩ := exists_complete_ending (d := d) text owners level
    exact ⟨_, tree, parse_eq_ok.2 ⟨q, addAll_append_eq_ok.2 ⟨_, run, ending⟩, completed⟩⟩
  · rintro ⟨us, tree, parsed⟩
    obtain ⟨q, run, _⟩ := parse_eq_ok.1 parsed
    obtain ⟨p, run, _⟩ := addAll_append_eq_ok.1 run
    exact ⟨p, run⟩

/-- The end of the text is to blame only if all tokens have been taken. -/
theorem exists_run_of_unexpectedEnd {text : String}
    (h : parse d ts = .error (.unexpectedEnd text)) : ∃ p, start.addAll d ts = .ok p := by
  cases run : start.addAll d ts with
  | ok p => exact ⟨p, rfl⟩
  | error error =>
    have same : parse d ts = .error error := by
      unfold parse
      rw [run]
      rfl
    obtain ⟨before, t, after, q, _, taken, refused⟩ := addAll_eq_error.1 run
    obtain ⟨_, owners, level, rfl⟩ := exists_reading_of_run taken
    exact ((refuses_of_add refused).ne_unexpectedEnd text
      (Except.error.inj (same.symm.trans h))).elim

/-- The parser refuses at the earliest possible token: as long as it has refused none there are
tokens that bring it to a tree. So the end of the text is to blame only for rows of tokens that can
be continued to something that can be parsed; and a row that cannot be continued is refused at the
token that makes it so. -/
theorem takes_exactly_prefixes (d : Dialect) (ts : List Token) :
    (∀ p, start.addAll d ts = .ok p →
      ∃ us q tree, p.addAll d us = .ok q ∧ q.complete.1 = .ok (some tree)) ∧
    (∀ text, parse d ts = .error (.unexpectedEnd text) →
      ∃ us tree, us ≠ [] ∧ parse d (ts ++ us) = .ok tree) ∧
    ((∀ us tree, parse d (ts ++ us) ≠ .ok tree) →
      ∃ before t after p error, ts = before ++ t :: after ∧ start.addAll d before = .ok p ∧
        p.add d t = .error error ∧ (∃ us tree, parse d (before ++ us) = .ok tree) ∧
        ∀ us tree, parse d (before ++ t :: us) ≠ .ok tree) := by
  refine ⟨fun p run => ?_, fun text ended => ?_, fun deadEnd => ?_⟩
  · obtain ⟨text, owners, level, rfl⟩ := exists_reading_of_run run
    exact ⟨_, exists_complete_ending text owners level⟩
  · obtain ⟨us, tree, parsed⟩ := exists_run_iff.1 (exists_run_of_unexpectedEnd ended)
    refine ⟨us, tree, ?_, parsed⟩
    rintro rfl
    rw [List.append_nil] at parsed
    cases ended.symm.trans parsed
  · cases run : start.addAll d ts with
    | ok p =>
      obtain ⟨us, tree, parsed⟩ := exists_run_iff.1 ⟨p, run⟩
      exact (deadEnd us tree parsed).elim
    | error error =>
      obtain ⟨before, t, after, p, split, taken, refused⟩ := addAll_eq_error.1 run
      refine ⟨before, t, after, p, error, split, taken, refused, exists_run_iff.1 ⟨p, taken⟩,
        fun us tree parsed => ?_⟩
      -- Whatever follows, the parser has to take this token behind the same tokens.
      obtain ⟨q, whole, _⟩ := parse_eq_ok.1 parsed
      obtain ⟨p', taken', rest⟩ := addAll_append_eq_ok.1 whole
      cases taken.symm.trans taken'
      obtain ⟨r, added, _⟩ := addAll_cons_eq_ok.1 rest
      cases refused.symm.trans added

/-- The tokens of `[\x7bk: a ? f(b`. -/
def openBranch : List Token :=
  [⟨.openBracket, "[", .string "["⟩, ⟨.openCurl, "\x7b", .string "\x7b"⟩,
    ⟨.identifier, "k", .string "k"⟩, ⟨.colon, ": ", .string ":"⟩,
    ⟨.identifier, "a ", .string "a"⟩, ⟨.question, "? ", .string "?"⟩,
    ⟨.identifier, "f", .string "f"⟩, ⟨.openParen, "(", .string "("⟩,
    ⟨.identifier, "b", .string "b"⟩]

/-- The end comes too early here, and a brace does not help: it closes no argument. -/
theorem takes_exactly_prefixes_openBranch :
    (∃ us tree, us ≠ [] ∧ parse ⟨.standard, {}⟩ (openBranch ++ us) = .ok tree) ∧
      ∃ before t after p error, openBranch ++ [.closeCurl] = before ++ t :: after ∧
        start.addAll ⟨.standard, {}⟩ before = .ok p ∧ p.add ⟨.standard, {}⟩ t = .error error ∧
        ∃ us tree, parse ⟨.standard, {}⟩ (before ++ us) = .ok tree := by
  have ended : parse ⟨.standard, {}⟩ openBranch = .error (.unexpectedEnd _) := rfl
  have refused : start.addAll ⟨.standard, {}⟩ (openBranch ++ [.closeCurl]) = .error _ := rfl
  have deadEnd : ∀ us tree,
      parse ⟨.standard, {}⟩ (openBranch ++ [.closeCurl] ++ us) ≠ .ok tree := by
    intro us tree parsed
    obtain ⟨p, run⟩ := exists_run_iff.2 ⟨us, tree, parsed⟩
    cases refused.symm.trans run
  obtain ⟨_, early, _⟩ := takes_exactly_prefixes ⟨.standard, {}⟩ openBranch
  obtain ⟨_, _, late⟩ := takes_exactly_prefixes ⟨.standard, {}⟩ (openBranch ++ [.closeCurl])
  obtain ⟨before, t, after, p, error, split, taken, fails, continued, _⟩ := late deadEnd
  exact ⟨early _ ended, before, t, after, p, error, split, taken, fails, continued⟩

end Parser

end JsonExpr
