import JsonExpr.Proofs.Parser.Endings
import JsonExpr.Proofs.Parser.Machine

/-!
What a failed parse quotes. Each machine has a register of its own for the text, begun with that of
its owner at the first token inside, and begun anew behind each comma. All these copies are the text
of the tokens taken so far (`Machine.Represents.text_eq`), so it does not matter which of the
machines finds the fault.

A row of tokens fails at the first token that does not fit, or at its end, and the error quotes the
tokens up to there (`parse_error_excerpt`).
-/

namespace JsonExpr

/-- The text that a cause quotes. -/
def ParseError.excerpt? : ParseError → Option String
  | .unexpectedToken _ _ text | .unexpectedEnd text | .emptySubExpression _ text
  | .unknownOperator _ text | .invalidCall text => some text
  | .emptyExpression | .alreadyComplete _ => none

/-- The text that tokens were read from. -/
def Token.sourceText (ts : List Token) : String :=
  String.join (ts.map Token.raw)

theorem Token.sourceText_append (ts us : List Token) :
    sourceText (ts ++ us) = sourceText ts ++ sourceText us := by
  rw [sourceText, List.map_append, String.join_append]
  rfl

theorem Token.sourceText_singleton (t : Token) : sourceText [t] = t.raw := by
  rw [sourceText, List.map_singleton, String.join_cons, String.join_nil, String.append_empty]

open Token (sourceText sourceText_append sourceText_singleton)

/-- The cause is a token that does not fit. It names this token, where it names one, and quotes the
text up to it. -/
structure ParseError.Blames (t : Token) (text : String) (error : ParseError) : Prop where
  excerpt : error.excerpt? = some text
  unexpected : ∀ token kind quoted,
    error = .unexpectedToken token kind quoted → token = t.lexeme ∧ kind = t.kind
  missing : ∀ token quoted, error = .emptySubExpression token quoted → token = t.lexeme
  notEnd : ∀ quoted, error ≠ .unexpectedEnd quoted

variable {d : Dialect} {text : String} {t : Token} {ts : List Token} {error : ParseError}

theorem Refuses.blames (refuses : Refuses d text t error) : error.Blames t text := by
  cases refuses with
  | unexpected =>
    refine ⟨rfl, fun token kind quoted same => ?_, nofun, nofun⟩
    cases same
    exact ⟨rfl, rfl⟩
  | emptySubExpression =>
    refine ⟨rfl, nofun, fun token quoted same => ?_, nofun⟩
    cases same
    rfl
  | _ => exact ⟨rfl, nofun, nofun, nofun⟩

/-! ## The text of a parser -/

namespace Parser

theorem text_of_addAll {p q : Parser} (run : p.addAll d ts = .ok q) :
    q.text = p.text ++ sourceText ts := by
  induction ts generalizing p with
  | nil =>
    cases run
    exact String.append_empty.symm
  | cons t ts ih =>
    obtain ⟨r, first, rest⟩ := addAll_cons_eq_ok.1 run
    have own : r.text = p.text ++ t.raw := by
      rcases p with ⟨text, phase⟩
      cases phase with
      | complete parsed => cases first
      | reading owners level => exact text_of_add first
    rw [ih rest, own, String.append_assoc, ← sourceText_singleton t, ← sourceText_append]
    rfl

theorem text_of_run {p : Parser} (run : start.addAll d ts = .ok p) : p.text = sourceText ts :=
  (text_of_addAll run).trans String.empty_append

/-- Behind a token the parse does not end with nothing read. -/
theorem whole?_ne_none {p : Parser} {owners : List Owner} {level : Level} (nonempty : ts ≠ [])
    (run : start.addAll d ts = .ok p) (phase : p.phase = .reading owners level) :
    whole? owners level ≠ some none := by
  intro ended
  obtain ⟨rfl, rfl⟩ := of_whole?_eq_none ended
  have begin : start.phase.ReadsAs d [] := ⟨[], [], rfl, .nil, .fresh⟩
  have reads := begin.addAll run
  rw [phase] at reads
  obtain ⟨before, us, split, outer, inner⟩ := reads
  cases outer
  cases inner.eq_nil_of_fresh
  exact nonempty split

/-- A row of tokens fails at a token that is refused, or at its end. -/
theorem cases_of_parse_eq_error (nonempty : ts ≠ []) (failed : parse d ts = .error error) :
    (∃ before t after p, ts = before ++ t :: after ∧ start.addAll d before = .ok p ∧
      p.add d t = .error error) ∨
    ∃ p, start.addAll d ts = .ok p ∧ p.complete.1 = .error error ∧
      error = .unexpectedEnd p.text := by
  unfold parse at failed
  cases run : start.addAll d ts with
  | error cause =>
    rw [run] at failed
    cases failed
    exact .inl (addAll_eq_error.1 run)
  | ok p =>
    obtain ⟨text, owners, level, rfl⟩ := exists_reading_of_run run
    have begun := whole?_ne_none nonempty run rfl
    rw [run] at failed
    change ((complete ⟨text, .reading owners level⟩).1 >>= _) = _ at failed
    refine .inr ⟨_, rfl, ?_⟩
    rw [complete_eq] at failed ⊢
    cases whole : whole? owners level with
    | none =>
      rw [whole] at failed
      cases failed
      exact ⟨rfl, rfl⟩
    | some result =>
      rw [whole] at failed
      cases result with
      | none => exact (begun whole).elim
      | some tree => cases failed

end Parser

/-! ## The texts of machines -/

namespace Machine

/-- The registers of a machine and of those that read for it, the outermost first. -/
def all : Machine → List Registers
  | leaf r => [r]
  | nest r sub => r :: sub.all

theorem text_of_mem_outward {outer : List Owner} {level : Level} {ends : List Stop}
    {r : Registers} (mem : r ∈ (outward text ends outer level).all) : r.text = text := by
  induction outer generalizing ends with
  | nil =>
    cases List.mem_singleton.1 mem
    rfl
  | cons owner rest ih =>
    rw [outward] at mem
    split at mem
    · cases List.mem_singleton.1 mem
      rfl
    · rcases List.mem_cons.1 mem with rfl | inside
      · rfl
      · exact ih inside

variable {m : Machine} {p : Parser}

/-- All machines, however deep they are nested, keep the same text. -/
theorem Represents.text_eq (represents : Represents m p) {r : Registers} (mem : r ∈ m.all) :
    r.text = p.text := by
  cases represents with
  | reading tight => exact text_of_mem_outward mem
  | complete state started cursor =>
    cases List.mem_singleton.1 mem
    rfl

/-- A machine takes what the parser takes, and keeps its text. -/
theorem exists_feedAll (run : Parser.start.addAll d ts = .ok p) :
    ∃ m, start.feedAll d ts = .ok m ∧ Represents m p ∧ ∀ r ∈ m.all, r.text = sourceText ts := by
  obtain ⟨m, fed, represents⟩ := exists_represents run
  exact ⟨m, fed, represents, fun r mem =>
    (represents.text_eq mem).trans (Parser.text_of_run run)⟩

end Machine

/-- A parse that fails blames a token and quotes the text up to this token, or it blames the end
and quotes the whole text. At the fault every machine, at whatever depth, has in its text all tokens
taken before. -/
theorem parse_error_excerpt (d : Dialect) {ts : List Token} {error : ParseError}
    (nonempty : ts ≠ []) (failed : Machine.parse d ts = .error error) :
    Parser.parse d ts = .error error ∧
    ((∃ before t after m, ts = before ++ t :: after ∧
        Machine.start.feedAll d before = .ok m ∧ (∀ r ∈ m.all, r.text = sourceText before) ∧
        m.feed d t = .error error ∧ error.Blames t (sourceText (before ++ [t]))) ∨
      ∃ m, Machine.start.feedAll d ts = .ok m ∧ (∀ r ∈ m.all, r.text = sourceText ts) ∧
        m.complete.1 = .error error ∧ error = .unexpectedEnd (sourceText ts)) := by
  rw [Machine.parse_eq] at failed
  refine ⟨failed, ?_⟩
  rcases Parser.cases_of_parse_eq_error nonempty failed with
    ⟨before, t, after, p, split, run, refused⟩ | ⟨p, run, ended, cause⟩
  · obtain ⟨m, fed, represents, texts⟩ := Machine.exists_feedAll run
    have same := represents.feed (d := d) t
    rw [refused] at same
    refine .inl ⟨before, t, after, m, split, fed, texts, same, ?_⟩
    have taken := Parser.text_of_run run
    obtain ⟨text, owners, level, rfl⟩ := Parser.exists_reading_of_run run
    rw [sourceText_append, sourceText_singleton, ← taken]
    exact (Parser.refuses_of_add refused).blames
  · obtain ⟨m, fed, represents, texts⟩ := Machine.exists_feedAll run
    refine .inr ⟨m, fed, texts, represents.complete_eq.1.trans ended, ?_⟩
    rw [cause, Parser.text_of_run run]

/-- The tokens of `[1, f(a ? b : ) ]`. -/
def emptyBranch : List Token :=
  [⟨.openBracket, "[", .string "["⟩, ⟨.literal, "1", .int 1⟩, ⟨.comma, ", ", .string ","⟩,
    ⟨.identifier, "f", .string "f"⟩, ⟨.openParen, "(", .string "("⟩,
    ⟨.identifier, "a ", .string "a"⟩, ⟨.question, "? ", .string "?"⟩,
    ⟨.identifier, "b ", .string "b"⟩, ⟨.colon, ": ", .string ":"⟩,
    ⟨.closeParen, ") ", .string ")"⟩, ⟨.closeBracket, "]", .string "]"⟩]

/-- The parenthesis comes where the innermost of four machines has not begun. Quoted is the text
from the first token on. -/
theorem parse_error_excerpt_emptyBranch :
    emptyBranch ≠ [] ∧ Machine.parse ⟨.standard, {}⟩ emptyBranch =
        .error (.emptySubExpression ")" "[1, f(a ? b : ) ") ∧
      ∃ before t after m, emptyBranch = before ++ t :: after ∧
        Machine.start.feedAll ⟨.standard, {}⟩ before = .ok m ∧
        (∀ r ∈ m.all, r.text = sourceText before) ∧
        t.lexeme = ")" ∧ sourceText (before ++ [t]) = "[1, f(a ? b : ) " := by
  have nonempty : emptyBranch ≠ [] := List.cons_ne_nil _ _
  have failed : Machine.parse ⟨.standard, {}⟩ emptyBranch =
      .error (.emptySubExpression ")" "[1, f(a ? b : ) ") := by
    have refused : Parser.parse ⟨.standard, {}⟩ emptyBranch =
        .error (.emptySubExpression ")" "[1, f(a ? b : ) ") := rfl
    rw [Machine.parse_eq, refused]
  refine ⟨nonempty, failed, ?_⟩
  obtain ⟨_, blamed⟩ := parse_error_excerpt _ nonempty failed
  rcases blamed with ⟨before, t, after, m, split, fed, texts, _, blames⟩ | ⟨_, _, _, _, ended⟩
  · exact ⟨before, t, after, m, split, fed, texts, (blames.missing _ _ rfl).symm,
      (Option.some.inj blames.excerpt).symm⟩
  · cases ended

end JsonExpr
