import JsonExpr.Parser.Registers
import JsonExpr.Proofs.Parser.Refusals

/-!
What a part of the owners does with a token. `Parser` goes through all the owners of its level from
the inside out, up to the one that the token closes. `Parser.respond` does so with some of them, the
innermost ones, where given kinds of tokens may end the outermost of these; then what they give is
for the owners outside. With all of the owners it is the step of the parser (`respond_eq_add`), and
one owner more has only to pass on what those inside have done (`respond_append`). In the same way
the end of the text goes from the inside out (`whole?_append`).
-/

namespace JsonExpr

variable {d : Dialect} {text : String} {t : Token} {ends : List Stop}

theorem Slot.alternate_or_ne (slot : Slot) :
    (∃ test first, slot = .alternate test first) ∨ slot.state ≠ .alternate := by
  cases slot with
  | alternate test first => exact .inl ⟨test, first, rfl⟩
  | _ => exact .inr nofun

/-- The tokens that end the level that the owner waits for. -/
def Owner.lent (ends : List Stop) (owner : Owner) : List Stop :=
  owner.slot.state.ends?.getD ends

/-! ## What owners do with a token -/

/-- What a level and its owners do with a token that may end the outermost of them. -/
inductive Response
  | goOn (phase : Phase)
  /-- The token has ended them; this is what they give. -/
  | stop (result : Option Expr)

/-- The same phase, with one owner more outside. -/
def Phase.within (owner : Owner) : Phase → Phase
  | .reading owners level => .reading (owners ++ [owner]) level
  | .complete parsed => .complete parsed

namespace Parser

/-- The tokens that end the innermost level. -/
def endsWithin (ends : List Stop) : List Owner → List Stop
  | [] => ends
  | owner :: rest => owner.lent (endsWithin ends rest)

/-- Gives the result of the innermost level to its owners, or outside if they all end with it. -/
def handOver (text : String) (t : Token) : List Owner → Option Expr → Except ParseError Response
  | [], result => .ok (.stop result)
  | owner :: rest, result =>
    match owner.slot with
    | .alternate test consequent =>
      match result with
      | some alternate => handOver text t rest (some (choice test consequent alternate))
      | none => .error (.emptySubExpression t.lexeme text)
    | _ => (owner.close text t result).map fun step => .goOn (afterStep rest step)

/-- Takes a token with a part of the owners only. -/
def respond (d : Dialect) (text : String) (ends : List Stop) (owners : List Owner) (level : Level)
    (t : Token) : Except ParseError Response :=
  match level.accept? d text t with
  | some outcome => outcome.map fun step => .goOn (afterStep owners step)
  | none =>
    match (endsWithin ends owners).find? fun stop => stop.1 == t.kind, level.result? with
    | some _, some result => handOver text t owners result
    | _, _ => .error (Level.unexpected text t)

theorem handOver_cons {owner : Owner} (plain : owner.slot.state ≠ .alternate) (rest : List Owner)
    (result : Option Expr) :
    handOver text t (owner :: rest) result =
      (owner.close text t result).map fun step => .goOn (afterStep rest step) := by
  rcases owner with ⟨spine, slot⟩
  cases slot with
  | alternate test consequent => exact (plain rfl).elim
  | _ => rfl

/-! ### All of the owners -/

theorem closable_eq (owners : List Owner) (kind : TokenKind) :
    closable owners kind = ((endsWithin [] owners).find? fun stop => stop.1 == kind).isSome := by
  induction owners with
  | nil => rfl
  | cons owner rest ih =>
    rcases owner with ⟨spine, slot⟩
    cases slot with
    | alternate test consequent => exact ih
    | _ =>
      rw [List.isSome_find?]
      rfl

theorem handOver_of_closable {owners : List Owner} (closes : closable owners t.kind = true)
    (result : Option Expr) :
    handOver text t owners result = (close text t owners result).map .goOn := by
  induction owners generalizing result with
  | nil => cases closes
  | cons owner rest ih =>
    rcases closable_cons closes with closedBy | ⟨spine, test, consequent, rfl, outside⟩
    · have plain : owner.slot.state ≠ .alternate := by
        rcases owner.slot.alternate_or_ne with ⟨test, first, isAlternate⟩ | plain
        · rw [isAlternate] at closedBy
          cases closedBy
        · exact plain
      rw [close_of_closedBy closedBy, handOver_cons plain]
      cases owner.close text t result <;> rfl
    · cases result with
      | some alternate => exact ih outside _
      | none => rfl

theorem respond_eq_add (owners : List Owner) (level : Level) :
    respond d (text ++ t.raw) [] owners level t =
      (add d ⟨text, .reading owners level⟩ t).map fun p => .goOn p.phase := by
  cases accepted : level.accept? d (text ++ t.raw) t with
  | some outcome =>
    simp only [respond, add, accepted]
    cases outcome <;> rfl
  | none =>
    have closes := closable_eq owners t.kind
    cases found : (endsWithin [] owners).find? (fun stop => stop.1 == t.kind) with
    | none =>
      rw [found] at closes
      simp only [respond, add, accepted, found, closes]
      rfl
    | some stop =>
      rw [found] at closes
      cases ends : level.result? with
      | none =>
        simp only [respond, add, accepted, found, closes, ends]
        rfl
      | some result =>
        simp only [respond, add, accepted, found, ends, closes, Option.isSome_some]
        rw [handOver_of_closable closes]
        cases close (text ++ t.raw) t owners result <;> rfl

/-! ### One owner more -/

/-- The owner outside goes on as those inside have done. -/
def pass (text : String) (t : Token) (owner : Owner) : Response → Except ParseError Response
  | .goOn phase => .ok (.goOn (phase.within owner))
  | .stop result => handOver text t [owner] result

theorem endsWithin_append (owners : List Owner) (owner : Owner) :
    endsWithin ends (owners ++ [owner]) = endsWithin (owner.lent ends) owners := by
  induction owners with
  | nil => rfl
  | cons first rest ih => rw [List.cons_append, endsWithin, ih, endsWithin]

theorem afterStep_append (owners : List Owner) (owner : Owner) (step : Step) :
    afterStep (owners ++ [owner]) step = (afterStep owners step).within owner := by
  cases step <;> rfl

theorem handOver_append (owners : List Owner) (owner : Owner) (result : Option Expr) :
    handOver text t (owners ++ [owner]) result =
      handOver text t owners result >>= pass text t owner := by
  induction owners generalizing result with
  | nil => rfl
  | cons first rest ih =>
    rcases first with ⟨spine, slot⟩
    rcases slot.alternate_or_ne with ⟨test, consequent, rfl⟩ | plain
    · cases result with
      | some alternate => exact ih _
      | none => rfl
    · rw [List.cons_append, handOver_cons plain, handOver_cons plain]
      cases Owner.close text t _ result with
      | error error => rfl
      | ok step =>
        simp only [Except.map, afterStep_append]
        rfl

theorem respond_append (owners : List Owner) (owner : Owner) (level : Level) :
    respond d text ends (owners ++ [owner]) level t =
      respond d text (owner.lent ends) owners level t >>= pass text t owner := by
  simp only [respond, endsWithin_append]
  cases level.accept? d text t with
  | some outcome =>
    cases outcome with
    | error error => rfl
    | ok step =>
      simp only [Except.map, afterStep_append]
      rfl
  | none =>
    cases (endsWithin (owner.lent ends) owners).find? (fun stop => stop.1 == t.kind) with
    | none => rfl
    | some stop =>
      cases level.result? with
      | none => rfl
      | some result => exact handOver_append owners owner result

end Parser

/-! ## The end of the text -/

namespace Parser

theorem finish?_append (owners : List Owner) (owner : Owner) (tree : Expr) :
    finish? (owners ++ [owner]) tree = (finish? owners tree).bind (finish? [owner]) := by
  induction owners generalizing tree with
  | nil => rfl
  | cons first rest ih =>
    rcases first with ⟨spine, slot⟩
    cases slot with
    | alternate test consequent => exact ih _
    | _ => rfl

/-- The result at the end of the text, if the text may end here. -/
def whole? (owners : List Owner) (level : Level) : Option (Option Expr) :=
  match level.result? with
  | none => none
  | some none => if owners.isEmpty then some none else none
  | some (some tree) => (finish? owners tree).map some

theorem complete_eq (owners : List Owner) (level : Level) :
    complete ⟨text, .reading owners level⟩ =
      match whole? owners level with
      | some result => (.ok result, ⟨text, .complete result.isSome⟩)
      | none => (.error (.unexpectedEnd text), ⟨text, afterFailure owners level⟩) := by
  simp only [complete, whole?]
  cases level.result? with
  | none => cases owners <;> rfl
  | some result =>
    cases result with
    | none => cases owners <;> rfl
    | some tree =>
      dsimp only
      cases finish? owners tree <;> rfl

theorem whole?_append (owners : List Owner) (owner : Owner) (level : Level) :
    whole? (owners ++ [owner]) level =
      (whole? owners level).bind fun result => (result.bind (finish? [owner])).map some := by
  simp only [whole?]
  cases level.result? with
  | none => rfl
  | some result =>
    cases result with
    | none => cases owners <;> rfl
    | some tree =>
      simp only [finish?_append]
      cases finish? owners tree <;> rfl

theorem of_whole?_eq_none {owners : List Owner} {level : Level}
    (h : whole? owners level = some none) : owners = [] ∧ level = .fresh := by
  unfold whole? at h
  split at h
  · cases h
  · rename_i ends
    split at h
    · rename_i isEmpty
      exact ⟨List.isEmpty_iff.1 isEmpty, Level.result?_eq_some_none ends⟩
    · cases h
  · rename_i tree _
    cases finished : finish? owners tree <;> rw [finished] at h <;> cases h

/-- Only the second branch of a choice ends with the text. -/
theorem complete_plain {owner : Owner} (plain : owner.slot.state ≠ .alternate)
    (owners : List Owner) (level : Level) :
    complete ⟨text, .reading (owners ++ [owner]) level⟩ =
      (.error (.unexpectedEnd text), ⟨text, .reading (owners ++ [owner]) level⟩) := by
  have unfinished : whole? (owners ++ [owner]) level = none := by
    rw [whole?_append]
    cases whole? owners level with
    | none => rfl
    | some result =>
      cases result with
      | none => rfl
      | some tree =>
        rcases owner with ⟨spine, slot⟩
        cases slot with
        | alternate test consequent => exact (plain rfl).elim
        | _ => rfl
  have stays : afterFailure (owners ++ [owner]) level = .reading (owners ++ [owner]) level := by
    rw [afterFailure, List.getLast?_concat]
    rcases owner with ⟨spine, slot⟩
    cases slot with
    | alternate test consequent => exact (plain rfl).elim
    | _ => rfl
  rw [complete_eq, unfinished, stays]

theorem complete_alternate (owners : List Owner) (level : Level) (spine : Spine) (test : Expr)
    (first : Option Expr) :
    complete ⟨text, .reading (owners ++ [⟨spine, .alternate test first⟩]) level⟩ =
      match whole? owners level with
      | some (some tree) => (.ok (some (choice test first tree)), ⟨text, .complete true⟩)
      | _ =>
        (.error (.unexpectedEnd text),
          ⟨text, .reading [⟨spine, .alternate test first⟩] .fresh⟩) := by
  have drops : afterFailure (owners ++ [⟨spine, .alternate test first⟩]) level =
      .reading [⟨spine, .alternate test first⟩] .fresh := by
    rw [afterFailure, List.getLast?_concat]
  rw [complete_eq, whole?_append, drops]
  cases whole? owners level with
  | none => rfl
  | some result => cases result <;> rfl

end Parser

/-! ## Choices stand alone on their level -/

/-- No operator waits outside of a choice, which takes all that is before it as its test. -/
def Owner.IsTight (owner : Owner) : Prop :=
  owner.slot.state = .consequent ∨ owner.slot.state = .alternate → owner.spine = []

theorem Accepts.tight {level : Level} {owner : Owner} (accepts : Accepts d level t (.enter owner)) :
    owner.IsTight := by
  cases accepts with
  | question kind => exact fun _ => rfl
  | _ => rintro (choice | choice) <;> cases choice

theorem Closes.tight {owner next : Owner} {result : Option Expr}
    (closes : Closes owner t result (.enter next)) (tight : owner.IsTight) : next.IsTight := by
  cases closes with
  | consequent kind => exact fun _ => tight (.inl rfl)
  | _ => rintro (choice | choice) <;> cases choice

def Phase.IsTight : Phase → Prop
  | .reading owners _ => ∀ owner ∈ owners, owner.IsTight
  | .complete _ => True

namespace Parser

theorem tight_afterStep {owners : List Owner} {step : Step}
    (tight : ∀ owner ∈ owners, owner.IsTight) (own : ∀ owner, step = .enter owner → owner.IsTight) :
    (afterStep owners step).IsTight := by
  cases step with
  | stay level => exact tight
  | enter owner => exact List.forall_mem_cons.2 ⟨own owner rfl, tight⟩

theorem tight_close {owners : List Owner} {result : Option Expr} {phase : Phase}
    (tight : ∀ owner ∈ owners, owner.IsTight) (closes : closable owners t.kind = true)
    (h : close text t owners result = .ok phase) : phase.IsTight := by
  induction owners generalizing result with
  | nil => cases closes
  | cons owner rest ih =>
    obtain ⟨own, others⟩ := List.forall_mem_cons.1 tight
    rcases closable_cons closes with closedBy | ⟨spine, test, consequent, rfl, outside⟩
    · rw [close_of_closedBy closedBy] at h
      obtain ⟨step, closed, rfl⟩ := map_eq_ok_iff.1 h
      have closes := closes_iff.1 ⟨closedBy, closed⟩
      exact tight_afterStep others fun next enters => by
        rw [enters] at closes
        exact closes.tight own
    · cases result with
      | some alternate => exact ih others outside h
      | none => cases h

theorem tight_add {owners : List Owner} {level : Level} {q : Parser}
    (tight : ∀ owner ∈ owners, owner.IsTight)
    (h : add d ⟨text, .reading owners level⟩ t = .ok q) : q.phase.IsTight := by
  rcases add_eq_ok h with ⟨step, accepts, after⟩ | ⟨result, _, closes, closed⟩
  · rw [after]
    exact tight_afterStep tight fun owner enters => by
      rw [enters] at accepts
      exact accepts.tight
  · exact tight_close tight closes closed

theorem tight_complete {owners : List Owner} (tight : ∀ owner ∈ owners, owner.IsTight)
    (level : Level) : (complete ⟨text, .reading owners level⟩).2.phase.IsTight := by
  rw [complete_eq]
  cases whole? owners level with
  | some result => trivial
  | none =>
    change (afterFailure owners level).IsTight
    unfold afterFailure
    split
    · rename_i last
      exact List.forall_mem_singleton.2 (tight _ (List.mem_of_getLast? last))
    · exact tight

theorem text_of_add {owners : List Owner} {level : Level} {q : Parser}
    (h : add d ⟨text, .reading owners level⟩ t = .ok q) : q.text = text ++ t.raw := by
  simp only [add] at h
  split at h
  · obtain ⟨step, _, rfl⟩ := map_eq_ok_iff.1 h
    rfl
  · split at h
    · obtain ⟨phase, _, rfl⟩ := map_eq_ok_iff.1 h
      rfl
    · cases h

end Parser

end JsonExpr
