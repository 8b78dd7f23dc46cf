import Mathlib.Data.List.Forall2
import JsonExpr.Proofs.Parser.Reads

/-!
What the parser makes of the white space around tokens: it quotes it in errors, and does nothing
else with it. Tokens that are alike up to white space lead to the same tree, or to errors that are
the same but for the text that they quote.
-/

namespace JsonExpr

/-- The cause, without the text read so far. -/
def ParseError.unquoted : ParseError → ParseError
  | .unexpectedToken token kind _ => .unexpectedToken token kind ""
  | .unexpectedEnd _ => .unexpectedEnd ""
  | .emptySubExpression token _ => .emptySubExpression token ""
  | .unknownOperator symbol _ => .unknownOperator symbol ""
  | .invalidCall _ => .invalidCall ""
  | .emptyExpression => .emptyExpression
  | .alreadyComplete token => .alreadyComplete token

/-- A result, or the cause without the text read so far. -/
def unquote {α : Type} (result : Except ParseError α) : Except ParseError α :=
  result.mapError ParseError.unquoted

/-- The tokens differ at most in the white space around them. -/
structure Token.Alike (t u : Token) : Prop where
  kind : t.kind = u.kind
  value : t.value = u.value
  lexeme : t.lexeme = u.lexeme

theorem Token.Alike.text {t u : Token} (alike : t.Alike u) : t.text = u.text := by
  unfold Token.text
  rw [alike.kind, alike.value, alike.lexeme]

variable {d : Dialect} {text text' : String} {t u : Token}

/-! ## One token -/

theorem unquote_acceptOperand? (alike : t.Alike u) (spine : Spine) :
    (Level.acceptOperand? d text spine t).map unquote =
      (Level.acceptOperand? d text' spine u).map unquote := by
  unfold Level.acceptOperand?
  rw [alike.kind, alike.value, alike.text]
  cases u.kind with
  | unaryOp => cases h : d.grammar.unary? u.text <;> rfl
  | _ => rfl

theorem unquote_acceptCall? (spine : Spine) (operand : Operand) :
    (Level.acceptCall? d text spine operand).map unquote =
      (Level.acceptCall? d text' spine operand).map unquote := by
  unfold Level.acceptCall?
  split
  · split <;> rfl
  · rfl
  · rfl
  · rfl

theorem unquote_acceptAfter? (alike : t.Alike u) (spine : Spine) (operand : Operand) :
    (Level.acceptAfter? d text spine operand t).map unquote =
      (Level.acceptAfter? d text' spine operand u).map unquote := by
  unfold Level.acceptAfter?
  rw [alike.kind, alike.text]
  cases u.kind with
  | binaryOp => cases h : d.grammar.binary? u.text <;> rfl
  | openParen => exact unquote_acceptCall? spine operand
  | _ => rfl

theorem unquote_acceptKey? (alike : t.Alike u) (spine : Spine) (entries : List (String × Expr)) :
    (Level.acceptKey? text spine entries t).map unquote =
      (Level.acceptKey? text' spine entries u).map unquote := by
  unfold Level.acceptKey? Level.unexpected
  rw [alike.kind, alike.value, alike.text, alike.lexeme]
  cases kind : u.kind with
  | literal => cases u.value <;> rfl
  | _ => rfl

theorem unquote_accept? (alike : t.Alike u) (level : Level) :
    (level.accept? d text t).map unquote = (level.accept? d text' u).map unquote := by
  rcases level with ⟨spine, mode⟩
  cases mode with
  | operand => exact unquote_acceptOperand? alike spine
  | after operand => exact unquote_acceptAfter? alike spine operand
  | key entries => exact unquote_acceptKey? alike spine entries
  | _ => simp only [Level.accept?, alike.kind, alike.text]

theorem unquote_ownerClose (alike : t.Alike u) (owner : Owner) (result : Option Expr) :
    unquote (owner.close text t result) = unquote (owner.close text' u result) := by
  rcases owner with ⟨spine, slot⟩
  unfold Owner.close
  rw [alike.kind, alike.lexeme]
  cases slot with
  | argument pool name args =>
    cases result with
    | some arg => rfl
    | none =>
      dsimp only
      by_cases bare : u.kind = .closeParen ∧ args.length = if pool = .transforms then 1 else 0
      · rw [if_pos bare, if_pos bare]
      · rw [if_neg bare, if_neg bare]
        rfl
  | item items =>
    cases result with
    | some item => rfl
    | none =>
      dsimp only
      by_cases bare : u.kind = .closeBracket ∧ items = []
      · rw [if_pos bare, if_pos bare]
      · rw [if_neg bare, if_neg bare]
        rfl
  | _ => cases result <;> rfl

theorem unquote_map {α β : Type} (f : α → β) (result : Except ParseError α) :
    unquote (result.map f) = (unquote result).map f := by
  cases result <;> rfl

theorem cases_of_unquote_eq {α : Type} {x y : Except ParseError α} (same : unquote x = unquote y) :
    (∃ a, x = .ok a ∧ y = .ok a) ∨
      ∃ left right, x = .error left ∧ y = .error right ∧ left.unquoted = right.unquoted := by
  cases x with
  | ok a =>
    cases y with
    | ok b =>
      cases same
      exact .inl ⟨a, rfl, rfl⟩
    | error right => cases same
  | error left =>
    cases y with
    | ok b => cases same
    | error right => exact .inr ⟨left, right, rfl, rfl, Except.error.inj same⟩

theorem unquote_bind {α β γ : Type} {x y : Except ParseError α} {h : α → β}
    {f g : α → Except ParseError γ} (same : unquote (x.map h) = unquote (y.map h))
    (next : ∀ a b, h a = h b → unquote (f a) = unquote (g b)) :
    unquote (x >>= f) = unquote (y >>= g) := by
  rcases cases_of_unquote_eq same with ⟨b, left, right⟩ | ⟨_, _, left, right, cause⟩
  · obtain ⟨a, rfl, first⟩ := map_eq_ok_iff.1 left
    obtain ⟨a', rfl, second⟩ := map_eq_ok_iff.1 right
    exact next a a' (first.trans second.symm)
  · cases map_eq_error_iff.1 left
    cases map_eq_error_iff.1 right
    exact congrArg Except.error cause

theorem unquote_close (alike : t.Alike u) (owners : List Owner) (result : Option Expr) :
    unquote (Parser.close text t owners result) = unquote (Parser.close text' u owners result) := by
  induction owners generalizing result with
  | nil =>
    rw [Parser.close, Parser.close, Level.unexpected, Level.unexpected, alike.kind, alike.lexeme]
    rfl
  | cons owner rest ih =>
    have own : unquote ((owner.close text t result).map (Parser.afterStep rest)) =
        unquote ((owner.close text' u result).map (Parser.afterStep rest)) := by
      rw [unquote_map, unquote_map, unquote_ownerClose alike]
    rcases owner with ⟨spine, slot⟩
    cases slot with
    | alternate test consequent =>
      cases result with
      | some alternate => exact ih _
      | none =>
        rw [Parser.close, Parser.close, alike.lexeme]
        rfl
    | _ => exact own

/-! ## Rows of tokens -/

variable {p q : Parser}

theorem unquote_add (same : p.phase = q.phase) (alike : t.Alike u) :
    unquote ((p.add d t).map Parser.phase) = unquote ((q.add d u).map Parser.phase) := by
  rcases p with ⟨text, phase⟩
  rcases q with ⟨text', _⟩
  cases same
  cases phase with
  | complete parsed => rw [Parser.add, Parser.add, alike.lexeme]
  | reading owners level =>
    have accepted : (level.accept? d (text ++ t.raw) t).map unquote =
        (level.accept? d (text' ++ u.raw) u).map unquote := unquote_accept? alike level
    have closed (result : Option Expr) :
        unquote (Parser.close (text ++ t.raw) t owners result) =
          unquote (Parser.close (text' ++ u.raw) u owners result) :=
      unquote_close alike owners result
    have unexpected : (Level.unexpected (text ++ t.raw) t).unquoted =
        (Level.unexpected (text' ++ u.raw) u).unquoted := by
      rw [Level.unexpected, Level.unexpected, alike.kind, alike.lexeme]
      rfl
    simp only [Parser.add, alike.kind]
    cases first : level.accept? d (text ++ t.raw) t with
    | some result =>
      cases second : level.accept? d (text' ++ u.raw) u with
      | some other =>
        rw [first, second] at accepted
        dsimp only
        rw [unquote_map, unquote_map, unquote_map, unquote_map, Option.some.inj accepted]
        cases unquote other <;> rfl
      | none =>
        rw [first, second] at accepted
        cases accepted
    | none =>
      cases second : level.accept? d (text' ++ u.raw) u with
      | some other =>
        rw [first, second] at accepted
        cases accepted
      | none =>
        cases Parser.closable owners u.kind with
        | false => exact congrArg Except.error unexpected
        | true =>
          cases level.result? with
          | none => exact congrArg Except.error unexpected
          | some result =>
            dsimp only
            rw [unquote_map, unquote_map, unquote_map, unquote_map, closed]
            cases unquote (Parser.close (text' ++ u.raw) u owners result) <;> rfl

theorem unquote_addAll {ts us : List Token} (alike : List.Forall₂ Token.Alike ts us)
    (same : p.phase = q.phase) :
    unquote ((p.addAll d ts).map Parser.phase) = unquote ((q.addAll d us).map Parser.phase) := by
  induction alike generalizing p q with
  | nil => exact congrArg Except.ok same
  | @cons t u ts us first _ ih =>
    have step (p : Parser) (t : Token) (ts : List Token) :
        (p.addAll d (t :: ts)).map Parser.phase =
          p.add d t >>= fun r => (r.addAll d ts).map Parser.phase := by
      unfold Parser.addAll
      rw [List.foldlM_cons]
      cases p.add d t <;> rfl
    rw [step, step]
    exact unquote_bind (unquote_add same first) fun _ _ => ih

theorem unquote_complete (same : p.phase = q.phase) :
    unquote p.complete.1 = unquote q.complete.1 := by
  rcases p with ⟨text, phase⟩
  rcases q with ⟨text', _⟩
  cases same
  cases phase with
  | complete parsed => cases parsed <;> rfl
  | reading owners level =>
    unfold Parser.complete
    dsimp only
    cases level.result? with
    | none => rfl
    | some result =>
      cases result with
      | none => cases owners <;> rfl
      | some tree =>
        dsimp only
        cases Parser.finish? owners tree <;> rfl

/-- The white space between tokens changes at most what an error quotes. -/
theorem unquote_parse {ts us : List Token} (alike : List.Forall₂ Token.Alike ts us) :
    unquote (Parser.parse d ts) = unquote (Parser.parse d us) := by
  have run : unquote ((Parser.start.addAll d ts).map Parser.phase) =
      unquote ((Parser.start.addAll d us).map Parser.phase) := unquote_addAll alike rfl
  refine unquote_bind run fun p q same => ?_
  have completed : unquote (p.complete.1.map id) = unquote (q.complete.1.map id) := by
    rw [unquote_map, unquote_map, unquote_complete same]
  refine unquote_bind completed fun tree other eq => ?_
  cases eq
  rfl

end JsonExpr
