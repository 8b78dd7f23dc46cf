import JsonExpr.Proofs.Parser.Response

/-!
What the registers of a machine hold while the parser is in a given mode, or waits for a given slot,
and that a token does the same to both: on a level (`Accepts.take`, `Rejects.take`,
`Level.take_of_none`) and where it gives the result of a nested level to its owner
(`Owner.endSub_registers`).
-/

namespace JsonExpr

/-! ## Registers for modes and slots -/

def Mode.cursor? : Mode → Option Expr
  | .operand | .relativeName => none
  | .memberName subject | .transformName subject => some subject
  | .after last => some last.tree
  | .transformSegment name subject => some (.call .transforms name [subject])
  | .key entries | .colon entries _ => some (.object entries)

def Mode.attachment : Mode → Attachment
  | .relativeName => .relative
  | .memberName _ => .member
  | _ => .plain

def Mode.key? : Mode → Option String
  | .colon _ name => some name
  | _ => none

def Slot.cursor? : Slot → Option Expr
  | .group | .consequent _ | .alternate _ _ => none
  | .bracket subject => some subject
  | .argument pool name args => some (.call pool name args)
  | .item items => some (.array items)
  | .entry entries _ => some (.object entries)

def Slot.choice? : Slot → Option (Expr × Option Expr)
  | .consequent test => some (test, none)
  | .alternate test first => some (test, first)
  | _ => none

def Slot.key? : Slot → Option String
  | .entry _ name => some name
  | _ => none

theorem Slot.isCompletable_of_ne {slot : Slot} (plain : slot.state ≠ .alternate) :
    slot.state.isCompletable = false := by
  cases slot with
  | alternate test first => exact (plain rfl).elim
  | _ => rfl

namespace Level

/-- The level has taken a token. -/
def begun (level : Level) : Bool :=
  match level.mode, level.spine with
  | .operand, [] => false
  | _, _ => true

def registers (text : String) (ends : List Stop) (level : Level) : Registers :=
  ⟨level.mode.state, level.begun, level.spine, level.mode.cursor?, none, level.mode.attachment,
    level.mode.key?, text, ends⟩

theorem eq_fresh_of_begun {level : Level} (h : level.begun = false) : level = .fresh := by
  rcases level with ⟨spine, mode⟩
  unfold begun at h
  split at h
  · rename_i isOperand isEmpty
    cases isOperand
    cases isEmpty
    rfl
  · cases h

theorem begun_of_ne_fresh {level : Level} (h : level ≠ .fresh) : level.begun = true := by
  cases begun : level.begun with
  | true => rfl
  | false => exact (h (eq_fresh_of_begun begun)).elim

end Level

def Owner.registers (text : String) (ends : List Stop) (owner : Owner) : Registers :=
  ⟨owner.slot.state, true, owner.spine, owner.slot.cursor?, owner.slot.choice?, .plain,
    owner.slot.key?, text, ends⟩

def Step.registers (text : String) (ends : List Stop) : Step → Registers
  | .stay level => level.registers text ends
  | .enter owner => owner.registers text ends

variable {d : Dialect} {text : String} {t : Token} {ends : List Stop}

/-! ## Tokens that a level takes -/

namespace Registers

theorem call_eq {r : Registers} {callee : Expr} {name : String} (cursor : r.cursor = some callee)
    (named : Level.calleeName? d.options callee = some name) :
    r.call d = .ok ({ r with cursor := none }.place (.call .functions name [])) := by
  simp only [call, takeCursor, cursor, bind, Except.bind, named]

theorem call_eq_error {r : Registers} {callee : Expr} (cursor : r.cursor = some callee)
    (nameless : Level.calleeName? d.options callee = none) :
    r.call d = .error (.invalidCall r.text) := by
  simp only [call, takeCursor, cursor, bind, Except.bind, nameless]

end Registers

theorem Accepts.take {level : Level} {step : Step} (accepts : Accepts d level t step) :
    (level.registers text ends).take d t = .ok (none, step.registers text ends) := by
  cases accepts with
  | unary kind registered =>
    simp only [Registers.take, Registers.handle, Registers.act, Registers.unary, kind, registered]
    rfl
  | @binary spine operand _ _ kind registered =>
    simp only [Registers.take, Registers.handle, Registers.act, Registers.binary, kind, registered]
    cases operand <;> rfl
  | @memberDot spine operand _ kind plain =>
    simp only [Registers.take, Registers.handle, Registers.act, kind]
    cases operand with
    | piped name subject =>
      simp only [plain name subject rfl]
      rfl
    | _ => rfl
  | segmentDot kind namespaced =>
    simp only [Registers.take, Registers.handle, Registers.act, kind, namespaced]
    rfl
  | @call spine tree _ _ kind named =>
    have called := Registers.call_eq (r := Level.registers text ends ⟨spine, .after (.named tree)⟩)
      rfl named
    simp only [Registers.take, Registers.handle, Registers.act, kind, called]
    rfl
  | stringKey kind value =>
    simp only [Registers.take, Registers.handle, Registers.act, kind, value]
    rfl
  | @pipe spine operand _ kind | @openBracket spine operand _ kind
  | @question spine operand _ kind =>
    simp only [Registers.take, Registers.handle, Registers.act, kind]
    cases operand <;> rfl
  | _ kind =>
    simp only [Registers.take, Registers.handle, Registers.act, kind]
    rfl

theorem Rejects.take {level : Level} {error : ParseError} (rejects : Rejects d text level t error) :
    (level.registers text ends).take d t = .error error := by
  cases rejects with
  | unary kind unknown =>
    simp only [Registers.take, Registers.handle, Registers.act, Registers.unary, kind, unknown]
    rfl
  | @binary spine operand _ kind unknown =>
    simp only [Registers.take, Registers.handle, Registers.act, Registers.binary, kind, unknown]
    cases operand <;> rfl
  | @call spine tree _ kind nameless =>
    have failed := Registers.call_eq_error
      (r := Level.registers text ends ⟨spine, .after (.named tree)⟩) rfl nameless
    simp only [Registers.take, Registers.handle, Registers.act, kind, failed]
    rfl
  | key kind noString =>
    cases value : t.value with
    | string key => exact (noString key value).elim
    | _ =>
      simp only [Registers.take, Registers.handle, Registers.act, kind, value]
      rfl

/-- A level has a use for the kinds of tokens that its state has in the table. -/
theorem Level.next?_eq_none {level : Level} (h : level.accept? d text t = none) :
    level.mode.state.next? t.kind = none := by
  rcases level with ⟨spine, mode⟩
  rcases t with ⟨kind, raw, value⟩
  cases mode with
  | operand =>
    cases kind with
    | unaryOp =>
      simp only [accept?, acceptOperand?] at h
      split at h <;> cases h
    | literal | identifier | openParen | openCurl | openBracket | dot => cases h
    | _ => rfl
  | after operand =>
    cases kind with
    | binaryOp =>
      simp only [accept?, acceptAfter?] at h
      split at h <;> cases h
    | openParen =>
      cases operand with
      | named tree =>
        simp only [accept?, acceptAfter?, acceptCall?] at h
        split at h <;> cases h
      | piped name subject => cases h
      | plain tree | called tree => rfl
    | pipe | dot | openBracket | question => cases h
    | _ => cases operand <;> rfl
  | key entries =>
    cases kind with
    | literal =>
      simp only [accept?, acceptKey?] at h
      split at h <;> cases h
    | identifier | closeCurl => cases h
    | _ => rfl
  | relativeName | memberName subject | transformName subject | transformSegment name subject =>
    cases kind with
    | identifier => cases h
    | _ => rfl
  | colon entries key =>
    cases kind with
    | colon => cases h
    | _ => rfl

/-- A level that has begun may end where its state says so. -/
theorem Level.isNone_result? (level : Level) :
    level.result?.isNone = (level.begun && !level.mode.state.isCompletable) := by
  rcases level with ⟨spine, mode⟩
  cases mode with
  | operand => cases spine <;> rfl
  | after operand => cases operand <;> rfl
  | _ => rfl

theorem Level.take_of_none {level : Level} (h : level.accept? d text t = none) :
    (level.registers text ends).take d t =
      match ends.find? fun stop => stop.1 == t.kind, level.result? with
      | some stop, some _ => .ok (some stop, level.registers text ends)
      | _, _ => .error (Level.unexpected text t) := by
  have noNext : (level.registers text ends).state.next? t.kind = none := next?_eq_none h
  have mayEnd : ((level.registers text ends).started &&
      !(level.registers text ends).state.isCompletable) = level.result?.isNone :=
    level.isNone_result?.symm
  have own : (level.registers text ends).ends = ends := rfl
  simp only [Registers.take, noNext, mayEnd, own]
  cases ends.find? (fun stop => stop.1 == t.kind) <;> cases level.result? <;> rfl

/-! ## Results that a token gives to an owner -/

namespace Owner

theorem endSub_registers {owner : Owner} {stop : Stop} (plain : owner.slot.state ≠ .alternate)
    (found : (owner.lent ends).find? (fun stop => stop.1 == t.kind) = some stop)
    (result : Option Expr) :
    (((owner.registers text ends).endSub result (some (stop.1, t.lexeme))).map fun r =>
        { r with state := stop.2, started := true }) =
      (owner.close text t result).map (Step.registers text ends) := by
  rcases owner with ⟨spine, slot⟩
  have mem := List.mem_of_find?_eq_some found
  have same := List.find?_some found
  have kind : t.kind = stop.1 := (beq_iff_eq.1 same).symm
  cases slot with
  | group =>
    cases List.mem_singleton.1 mem
    cases result <;> rfl
  | bracket subject =>
    cases List.mem_singleton.1 mem
    cases result <;> rfl
  | argument pool name args =>
    rcases List.mem_cons.1 mem with rfl | last
    · cases result <;> simp only [Owner.close, kind] <;> rfl
    · cases List.mem_singleton.1 last
      cases result with
      | some arg =>
        simp only [Owner.close, kind]
        rfl
      | none =>
        simp only [Owner.close, kind]
        change Except.map _ (ite _ _ _) = _
        by_cases bare : args.length = if pool = .transforms then 1 else 0
        · rw [if_pos ⟨rfl, bare⟩, if_pos ⟨trivial, bare⟩]
          rfl
        · rw [if_neg fun both => bare both.2, if_neg fun both => bare both.2]
          rfl
  | item items =>
    rcases List.mem_cons.1 mem with rfl | last
    · cases result <;> simp only [Owner.close, kind] <;> rfl
    · cases List.mem_singleton.1 last
      cases result with
      | some item =>
        simp only [Owner.close, kind]
        rfl
      | none =>
        simp only [Owner.close, kind]
        change Except.map _ (ite _ _ _) = _
        by_cases empty : items = []
        · rw [if_pos ⟨rfl, empty⟩, if_pos ⟨trivial, empty⟩, empty]
          rfl
        · rw [if_neg fun both => empty both.2, if_neg fun both => empty both.2]
          rfl
  | entry entries key =>
    rcases List.mem_cons.1 mem with rfl | last
    · cases result <;> simp only [Owner.close, kind] <;> rfl
    · cases List.mem_singleton.1 last
      cases result <;> simp only [Owner.close, kind] <;> rfl
  | consequent test =>
    cases List.mem_singleton.1 mem
    rfl
  | alternate test consequent => exact (plain rfl).elim

end Owner

end JsonExpr
