import JsonExpr.Proofs.Parser.Registers

/-!
What a token that is taken does to the registers: each handler that succeeds changes few of them
(`binary_eq_ok`, `question_eq_ok`, `call_eq_ok`), and none changes the tokens that end the machine
(`ends_of_handle`).
-/

namespace JsonExpr

namespace Registers

variable {d : Dialect} {r after done : Registers} {t : Token} {next : State}

/-! ### Handlers -/

theorem takeCursor_eq_ok {operand : Expr} (h : r.takeCursor = .ok (operand, after)) :
    r.cursor = some operand ∧ after = { r with cursor := none } := by
  unfold takeCursor at h
  split at h
  · rename_i found
    cases h
    exact ⟨found, rfl⟩
  · cases h

theorem identifier_eq_ok {name : String} (h : r.identifier name = .ok after) :
    ∃ operand, after = { r with cursor := some operand, attachment := .plain } := by
  unfold identifier at h
  split at h
  · obtain ⟨⟨subject, rest⟩, taken, h⟩ := bind_eq_ok_iff.1 h
    obtain ⟨_, rfl⟩ := takeCursor_eq_ok taken
    cases h
    exact ⟨_, rfl⟩
  · cases h
    exact ⟨_, rfl⟩
  · rename_i plain
    cases h
    exact ⟨.ident name false, by rw [← plain]; rfl⟩

theorem binary_eq_ok (h : r.binary d t = .ok after) :
    ∃ (p : UInt32) (operand : Expr), after = { r with
      cursor := none
      spine := .binary t.text p (r.spine.climb p operand).1 :: (r.spine.climb p operand).2 } := by
  unfold binary at h
  split at h
  · cases h
  · obtain ⟨⟨operand, rest⟩, taken, h⟩ := bind_eq_ok_iff.1 h
    obtain ⟨_, rfl⟩ := takeCursor_eq_ok taken
    cases h
    exact ⟨_, operand, rfl⟩

theorem unary_eq_ok (h : r.unary d t = .ok after) :
    after = { r with spine := .unary t.text :: r.spine } := by
  unfold unary at h
  split at h
  · cases h
  · cases h
    rfl

theorem question_eq_ok (h : r.question = .ok after) :
    ∃ test, after = { r with cursor := none, spine := [], choice := some (test, none) } := by
  obtain ⟨⟨test, rest⟩, taken, h⟩ := bind_eq_ok_iff.1 h
  obtain ⟨⟨operand, inner⟩, cursor, tree⟩ := bind_eq_ok_iff.1 taken
  obtain ⟨_, rfl⟩ := takeCursor_eq_ok cursor
  cases tree
  cases h
  exact ⟨_, rfl⟩

theorem transform_eq_ok {name : String} (h : r.transform name = .ok after) :
    ∃ subject, after = r.place (.call .transforms name [subject]) := by
  obtain ⟨⟨subject, rest⟩, taken, h⟩ := bind_eq_ok_iff.1 h
  obtain ⟨_, rfl⟩ := takeCursor_eq_ok taken
  cases h
  exact ⟨subject, rfl⟩

theorem call_eq_ok (h : r.call d = .ok after) :
    ∃ name, after = r.place (.call .functions name []) := by
  obtain ⟨⟨callee, rest⟩, taken, h⟩ := bind_eq_ok_iff.1 h
  obtain ⟨_, rfl⟩ := takeCursor_eq_ok taken
  dsimp only at h
  split at h
  · cases h
    exact ⟨_, rfl⟩
  · cases h

/-! ### Tokens that do the same in every state -/

theorem act_binaryOp (kind : t.kind = .binaryOp) : r.act d t = r.binary d t := by
  unfold act
  rw [kind]
  cases r.state <;> rfl

theorem act_dot (kind : t.kind = .dot) : r.act d t = .ok r.dot := by
  unfold act
  rw [kind]
  cases r.state <;> rfl

theorem act_question (kind : t.kind = .question) : r.act d t = r.question := by
  unfold act
  rw [kind]
  cases r.state <;> rfl

theorem act_pipe (kind : t.kind = .pipe) : r.act d t = .ok r := by
  unfold act
  rw [kind]
  cases r.state <;> rfl

theorem act_openBracket (kind : t.kind = .openBracket) (other : r.state ≠ .operand) :
    r.act d t = .ok r := by
  unfold act
  rw [kind]
  cases state : r.state with
  | operand => exact (other state).elim
  | _ => rfl

/-! ### The ends -/

theorem ends_of_act (acts : r.act d t = .ok done) : done.ends = r.ends := by
  unfold Registers.act at acts
  split at acts
  case h_4 | h_5 =>
    obtain ⟨_, rfl⟩ := identifier_eq_ok acts
    rfl
  case h_6 =>
    rw [unary_eq_ok acts]
  case h_7 =>
    obtain ⟨_, _, rfl⟩ := binary_eq_ok acts
    rfl
  case h_9 =>
    obtain ⟨_, rfl⟩ := transform_eq_ok acts
    rfl
  case h_10 =>
    cases acts
    unfold segment
    split <;> rfl
  case h_11 =>
    obtain ⟨_, rfl⟩ := call_eq_ok acts
    rfl
  case h_13 =>
    split at acts
    · cases acts
      rfl
    · cases acts
  case h_14 =>
    obtain ⟨_, rfl⟩ := question_eq_ok acts
    rfl
  all_goals
    cases acts
    rfl

theorem ends_of_handle (taken : r.handle d t next = .ok after) : after.ends = r.ends := by
  unfold Registers.handle at taken
  split at taken
  · cases taken
    rfl
  · obtain ⟨done, acts, rfl⟩ := map_eq_ok_iff.1 taken
    have same := ends_of_act acts
    exact same

end Registers

end JsonExpr
