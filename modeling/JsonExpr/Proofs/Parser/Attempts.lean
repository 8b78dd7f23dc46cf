import JsonExpr.Operators.Standard
import JsonExpr.Proofs.Parser.Endings
import JsonExpr.Proofs.Parser.Quotes
import JsonExpr.Proofs.Parser.Response

/-!
Attempts to complete a parser. One that fails leaves the parser as it was, unless the outermost
level is a choice in its second branch: of that branch nothing is kept, and the parser goes on as
one that has taken the tokens before it (`Parser.complete_failed`).

So an attempt that fails may show in what comes later (`Parser.outcome_ne_of_complete_failed`).
-/

namespace JsonExpr

variable {d : Dialect} {ts : List Token}

namespace Parser

/-- What comes of a parser that takes some more tokens and is then completed. -/
def outcome (d : Dialect) (p : Parser) (ts : List Token) : Except ParseError (Option Expr) := do
  let q ← p.addAll d ts
  q.complete.1

/-! ## What is left of a parser -/

theorem of_complete_eq_error {text : String} {owners : List Owner} {level : Level} {p : Parser}
    {error : ParseError} (h : complete ⟨text, .reading owners level⟩ = (.error error, p)) :
    error = .unexpectedEnd text ∧ p = ⟨text, afterFailure owners level⟩ := by
  rw [complete_eq] at h
  split at h
  · cases h
  · cases h
    exact ⟨rfl, rfl⟩

theorem afterFailure_cases (owners : List Owner) (level : Level) :
    afterFailure owners level = .reading owners level ∨
      ∃ inner spine test consequent, owners = inner ++ [⟨spine, .alternate test consequent⟩] ∧
        afterFailure owners level = .reading [⟨spine, .alternate test consequent⟩] .fresh := by
  unfold afterFailure
  split
  · rename_i spine test consequent outermost
    obtain ⟨inner, rfl⟩ := List.getLast?_eq_some_iff.1 outermost
    exact .inr ⟨inner, spine, test, consequent, rfl, rfl⟩
  · exact .inl rfl

end Parser

/-- The outermost owner has read the first tokens. -/
theorem Explains.outermost {inner : List Owner} {owner : Owner} {before : List Token}
    (explains : Explains d before (inner ++ [owner])) :
    ∃ first rest, before = first ++ rest ∧ Reads d first (.step (.enter owner)) := by
  induction inner generalizing before with
  | nil =>
    cases explains with
    | @cons ts us _ _ outer reads =>
      cases outer
      exact ⟨us, [], by simp, reads⟩
  | cons next inner ih =>
    cases explains with
    | @cons ts us _ _ outer reads =>
      obtain ⟨first, rest, rfl, reads⟩ := ih outer
      exact ⟨first, rest ++ us, List.append_assoc _ _ _, reads⟩

namespace Parser

/-- The tokens up to where the outermost owner began to wait lead there. -/
theorem exists_run_of_outermost {text : String} {inner : List Owner} {owner : Owner}
    {level : Level}
    (run : start.addAll d ts = .ok ⟨text, .reading (inner ++ [owner]) level⟩) :
    ∃ before us text', ts = before ++ us ∧
      start.addAll d before = .ok ⟨text', .reading [owner] .fresh⟩ := by
  have begin : start.phase.ReadsAs d [] := ⟨[], [], rfl, .nil, .fresh⟩
  obtain ⟨before, us, split, outer, _⟩ := begin.addAll run
  obtain ⟨first, rest, rfl, reads⟩ := outer.outermost
  obtain ⟨text', first⟩ := reads.runsAs [] ""
  exact ⟨_, rest ++ us, text', by rw [← List.append_assoc]; exact split, first⟩

/-! ## What comes later -/

theorem outcome_start_append {p : Parser} (run : start.addAll d ts = .ok p) (us : List Token) :
    start.outcome d (ts ++ us) = p.outcome d us := by
  have whole : start.addAll d (ts ++ us) = p.addAll d us := by
    unfold addAll at run ⊢
    rw [List.foldlM_append, run]
    rfl
  unfold outcome
  rw [whole]

/-- What comes later depends on the phase alone, but for the text that errors quote. -/
theorem unquote_outcome {p q : Parser} (same : p.phase = q.phase) (us : List Token) :
    unquote (p.outcome d us) = unquote (q.outcome d us) := by
  have alike : List.Forall₂ Token.Alike us us := List.forall₂_same.2 fun t _ => ⟨rfl, rfl, rfl⟩
  exact unquote_bind (unquote_addAll alike same) fun _ _ => unquote_complete

/-- After an attempt that fails the parser is as it was. Only if the outermost level is a choice, in
the second branch of which there are tokens, these are lost: the parser is then that of the tokens
before, but for the text that errors quote. -/
theorem complete_failed {p q : Parser} {error : ParseError} (run : start.addAll d ts = .ok p)
    (failed : p.complete = (.error error, q)) :
    error = .unexpectedEnd p.text ∧
      ((q = p ∧ ∀ us, q.outcome d us = start.outcome d (ts ++ us)) ∨
        ∃ before lost r spine test consequent, ts = before ++ lost ∧ lost ≠ [] ∧
          start.addAll d before = .ok r ∧
          r.phase = .reading [⟨spine, .alternate test consequent⟩] .fresh ∧
          q = ⟨p.text, r.phase⟩ ∧
          ∀ us, unquote (q.outcome d us) = unquote (start.outcome d (before ++ us))) := by
  obtain ⟨text, owners, level, rfl⟩ := exists_reading_of_run run
  obtain ⟨rfl, rfl⟩ := of_complete_eq_error failed
  refine ⟨rfl, ?_⟩
  rcases afterFailure_cases owners level with same | ⟨inner, spine, test, consequent, rfl, left⟩
  · rw [same]
    exact .inl ⟨rfl, fun us => (outcome_start_append run us).symm⟩
  · rw [left]
    obtain ⟨before, lost, text', split, first⟩ := exists_run_of_outermost run
    cases lost with
    | nil =>
      rw [List.append_nil] at split
      rw [split] at run
      obtain ⟨rfl, phase⟩ := Parser.mk.inj (Except.ok.inj (run.symm.trans first))
      rw [phase, split]
      exact .inl ⟨rfl, fun us => (outcome_start_append first us).symm⟩
    | cons t lost =>
      refine .inr ⟨before, t :: lost, _, spine, test, consequent, split, nofun, first, rfl, rfl,
        fun us => ?_⟩
      rw [outcome_start_append first]
      exact @unquote_outcome d ⟨text, _⟩ ⟨text', _⟩ rfl us

/-- The tokens of `a ? b : c.`. -/
def openProperty : List Token :=
  [⟨.identifier, "a ", .string "a"⟩, ⟨.question, "? ", .string "?"⟩,
    ⟨.identifier, "b ", .string "b"⟩, ⟨.colon, ": ", .string ":"⟩,
    ⟨.identifier, "c", .string "c"⟩, ⟨.dot, ".", .string "."⟩]

/-- The parser of `a ? b : c.` is left behind the colon, and what it quotes is still the whole. -/
theorem complete_failed_openProperty :
    ∃ p q error, start.addAll ⟨.standard, {}⟩ openProperty = .ok p ∧
      p.complete = (.error error, q) ∧
      error = .unexpectedEnd "a ? b : c." ∧ ∃ before lost r, openProperty = before ++ lost ∧
        start.addAll ⟨.standard, {}⟩ before = .ok r ∧ q = ⟨"a ? b : c.", r.phase⟩ := by
  have run : start.addAll ⟨.standard, {}⟩ openProperty = .ok ⟨"a ? b : c.", _⟩ := rfl
  obtain ⟨cause, left⟩ := complete_failed run rfl
  refine ⟨_, _, _, run, rfl, cause, ?_⟩
  rcases left with ⟨same, _⟩ | ⟨before, lost, r, _, _, _, split, _, first, _, left, _⟩
  · cases same
  · exact ⟨before, lost, r, split, first, left⟩

/-- An attempt that fails is not without effect: behind `a ? b : c.` the name `d` is a property of
`c`, but after an attempt it is the whole second branch. -/
theorem outcome_ne_of_complete_failed :
    ¬ ∀ (d : Dialect) (ts us : List Token) (p q : Parser) (error : ParseError),
      start.addAll d ts = .ok p → p.complete = (.error error, q) →
        q.outcome d us = start.outcome d (ts ++ us) := by
  intro neutral
  have same := neutral ⟨.standard, {}⟩ openProperty [⟨.identifier, "d", .string "d"⟩] _ _ _ rfl rfl
  cases same

end Parser

end JsonExpr
