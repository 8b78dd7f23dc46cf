import JsonExpr.Proofs.Parser.Reads

/-!
Why a token is refused. `Refuses d text t error` lists the causes, with the text that they quote and
with what has to hold for them; a parser that is not complete gives no others
(`Parser.refuses_of_add`). So the end of the text is never blamed as long as tokens come, and an
operator is unknown only to a grammar that does not have it.
-/

namespace JsonExpr

/-- The level has a use for such tokens, but not for this one. -/
inductive Rejects (d : Dialect) (text : String) : Level → Token → ParseError → Prop
  | unary {spine : Spine} {t : Token} :
    t.kind = .unaryOp → d.grammar.unary? t.text = none →
    Rejects d text ⟨spine, .operand⟩ t (.unknownOperator t.text text)
  | binary {spine : Spine} {operand : Operand} {t : Token} :
    t.kind = .binaryOp → d.grammar.binary? t.text = none →
    Rejects d text ⟨spine, .after operand⟩ t (.unknownOperator t.text text)
  | call {spine : Spine} {tree : Expr} {t : Token} :
    t.kind = .openParen → Level.calleeName? d.options tree = none →
    Rejects d text ⟨spine, .after (.named tree)⟩ t (.invalidCall text)
  | key {spine : Spine} {entries : List (String × Expr)} {t : Token} :
    t.kind = .literal → (∀ key, t.value ≠ .string key) →
    Rejects d text ⟨spine, .key entries⟩ t (Level.unexpected text t)

/-- The causes for which a token is refused; the text is that up to the token. -/
inductive Refuses (d : Dialect) (text : String) (t : Token) : ParseError → Prop
  | unexpected : Refuses d text t (Level.unexpected text t)
  | emptySubExpression : Refuses d text t (.emptySubExpression t.lexeme text)
  | unknownUnary :
    t.kind = .unaryOp → d.grammar.unary? t.text = none →
    Refuses d text t (.unknownOperator t.text text)
  | unknownBinary :
    t.kind = .binaryOp → d.grammar.binary? t.text = none →
    Refuses d text t (.unknownOperator t.text text)
  | invalidCall : t.kind = .openParen → Refuses d text t (.invalidCall text)

variable {d : Dialect} {text : String} {t : Token} {error : ParseError}

theorem Refuses.ne_unexpectedEnd (refuses : Refuses d text t error) (quoted : String) :
    error ≠ .unexpectedEnd quoted := by
  cases refuses <;> nofun

/-! ## Tokens that a level refuses -/

theorem Rejects.of_operand {spine : Spine}
    (h : Level.acceptOperand? d text spine t = some (.error error)) :
    Rejects d text ⟨spine, .operand⟩ t error := by
  unfold Level.acceptOperand? at h
  split at h
  case h_3 kind =>
    split at h
    · cases h
    · rename_i unknown
      cases h
      exact .unary kind unknown
  all_goals cases h

theorem Rejects.of_call {spine : Spine} {operand : Operand} (kind : t.kind = .openParen)
    (h : Level.acceptCall? d text spine operand = some (.error error)) :
    Rejects d text ⟨spine, .after operand⟩ t error := by
  unfold Level.acceptCall? at h
  split at h
  · split at h
    · cases h
    · rename_i nameless
      cases h
      exact .call kind nameless
  all_goals cases h

theorem Rejects.of_after {spine : Spine} {operand : Operand}
    (h : Level.acceptAfter? d text spine operand t = some (.error error)) :
    Rejects d text ⟨spine, .after operand⟩ t error := by
  unfold Level.acceptAfter? at h
  split at h
  case h_1 kind =>
    split at h
    · cases h
    · rename_i unknown
      cases h
      exact .binary kind unknown
  case h_6 kind => exact .of_call kind h
  all_goals cases h

theorem Rejects.of_key {spine : Spine} {entries : List (String × Expr)}
    (h : Level.acceptKey? text spine entries t = some (.error error)) :
    Rejects d text ⟨spine, .key entries⟩ t error := by
  unfold Level.acceptKey? at h
  split at h
  case h_2 kind =>
    split at h
    · cases h
    · rename_i noString
      cases h
      exact .key kind noString
  all_goals cases h

/-- Where only one kind of token goes on, no token is refused by the level itself. -/
theorem Level.ite_ne_error {p : Prop} [Decidable p] {step : Step} :
    (if p then some (Except.ok step) else none) ≠ some (Except.error error) := by
  split <;> nofun

theorem Rejects.of_accept {level : Level} (h : level.accept? d text t = some (.error error)) :
    Rejects d text level t error := by
  rcases level with ⟨spine, mode⟩
  cases mode with
  | operand => exact .of_operand h
  | after operand => exact .of_after h
  | key entries => exact .of_key h
  | relativeName | memberName subject | transformName subject | transformSegment name subject
  | colon entries key => exact (Level.ite_ne_error h).elim

theorem Rejects.refuses {level : Level} (rejects : Rejects d text level t error) :
    Refuses d text t error := by
  cases rejects with
  | unary kind unknown => exact .unknownUnary kind unknown
  | binary kind unknown => exact .unknownBinary kind unknown
  | call kind nameless => exact .invalidCall kind
  | key kind noString => exact .unexpected

/-! ## Tokens that close a level before it has begun -/

theorem Owner.ite_ne_error {p : Prop} [Decidable p] {left right : Step} :
    (if p then Except.ok left else .ok right) ≠ .error error := by
  split <;> nofun

theorem Owner.eq_of_ite_eq_error {p : Prop} [Decidable p] {step : Step} {missing : ParseError}
    (h : (if p then Except.ok step else .error missing) = .error error) : error = missing := by
  split at h
  · cases h
  · cases h
    rfl

theorem Refuses.of_ownerClose {owner : Owner} {result : Option Expr}
    (h : owner.close text t result = .error error) :
    error = .emptySubExpression t.lexeme text := by
  rcases owner with ⟨spine, slot⟩
  cases result with
  | some tree =>
    cases slot with
    | argument pool name args => exact (Owner.ite_ne_error h).elim
    | item items => exact (Owner.ite_ne_error h).elim
    | entry entries key => exact (Owner.ite_ne_error h).elim
    | alternate test consequent =>
      cases h
      rfl
    | _ => cases h
  | none =>
    cases slot with
    | argument pool name args => exact Owner.eq_of_ite_eq_error h
    | item items => exact Owner.eq_of_ite_eq_error h
    | consequent test => cases h
    | _ =>
      cases h
      rfl

/-- A token that closes a level finds an owner for it, so it is refused only where a tree is
missing. -/
theorem Refuses.of_close {owners : List Owner} {result : Option Expr}
    (closable : Parser.closable owners t.kind = true)
    (h : Parser.close text t owners result = .error error) :
    error = .emptySubExpression t.lexeme text := by
  induction owners generalizing result with
  | nil => cases closable
  | cons owner rest ih =>
    rcases Parser.closable_cons closable with closedBy | ⟨spine, test, consequent, rfl, outside⟩
    · rw [Parser.close_of_closedBy closedBy] at h
      exact of_ownerClose (map_eq_error_iff.1 h)
    · cases result with
      | some alternate => exact ih outside h
      | none =>
        cases h
        rfl

theorem Parser.refuses_of_add {owners : List Owner} {level : Level}
    (h : add d ⟨text, .reading owners level⟩ t = .error error) :
    Refuses d (text ++ t.raw) t error := by
  simp only [add] at h
  split at h
  · rename_i outcome accepted
    rw [map_eq_error_iff.1 h] at accepted
    exact (Rejects.of_accept accepted).refuses
  · split at h
    · rename_i result closable ends
      rw [Refuses.of_close closable (map_eq_error_iff.1 h)]
      exact .emptySubExpression
    · cases h
      exact .unexpected

/-! ## Runs that fail -/

/-- A row of tokens is refused at one of them, up to which the parser has taken all. -/
theorem Parser.addAll_eq_error {p : Parser} {ts : List Token} :
    p.addAll d ts = .error error ↔
      ∃ before t after q, ts = before ++ t :: after ∧ p.addAll d before = .ok q ∧
        q.add d t = .error error := by
  induction ts generalizing p with
  | nil => simp [addAll, pure, Except.pure]
  | cons t ts ih =>
    have first : p.addAll d (t :: ts) = p.add d t >>= fun q => q.addAll d ts := by
      simp only [addAll, List.foldlM_cons]
    cases added : p.add d t with
    | error cause =>
      rw [first, added]
      constructor
      · intro failed
        cases failed
        exact ⟨[], t, ts, p, rfl, rfl, added⟩
      · rintro ⟨before, u, after, q, split, run, refused⟩
        cases before with
        | nil =>
          cases split
          cases run
          exact added.symm.trans refused
        | cons u before =>
          cases split
          obtain ⟨r, taken, _⟩ := addAll_cons_eq_ok.1 run
          cases added.symm.trans taken
    | ok r =>
      rw [first, added]
      change r.addAll d ts = .error error ↔ _
      rw [ih]
      constructor
      · rintro ⟨before, u, after, q, rfl, run, refused⟩
        exact ⟨t :: before, u, after, q, rfl, addAll_cons_eq_ok.2 ⟨r, added, run⟩, refused⟩
      · rintro ⟨before, u, after, q, split, run, refused⟩
        cases before with
        | nil =>
          cases split
          cases run
          cases added.symm.trans refused
        | cons u before =>
          cases split
          obtain ⟨r', taken, rest⟩ := addAll_cons_eq_ok.1 run
          cases added.symm.trans taken
          exact ⟨before, u, after, q, rfl, rest, refused⟩

end JsonExpr
