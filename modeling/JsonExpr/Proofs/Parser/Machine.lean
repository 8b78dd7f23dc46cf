import JsonExpr.Proofs.Parser.Registers

/-!
The machine of registers reads as the parser does. `Machine.outward` lays the owners of a parser and
its level out in registers, one machine for each owner around the machine of the level. A token does
the same to both (`Machine.feed_outward`), and so does the end of the text
(`Machine.complete_outward`). The induction goes through the machines from the outside in, with the
tokens that end the machine as a parameter.

So a machine that has been fed and completed stands where some parser does (`Machine.Represents`),
and it builds the same trees (`Machine.parse_eq`).
-/

namespace JsonExpr

/-- The machine for a level and its owners, the outermost first. Inside the last owner there is none
before the level has begun. -/
def Machine.outward (text : String) : List Stop → List Owner → Level → Machine
  | ends, [], level => .leaf (level.registers text ends)
  | ends, owner :: rest, level =>
    if rest.isEmpty && !level.begun then .leaf (owner.registers text ends)
    else .nest (owner.registers text ends) (outward text (owner.lent ends) rest level)

variable {d : Dialect} {text : String} {t : Token} {ends : List Stop}

/-! ## Levels at their end -/

namespace Machine

/-- Where the last owner has no machine inside. -/
theorem unread_iff {rest : List Owner} {level : Level} :
    (rest.isEmpty && !level.begun) = true ↔ rest = [] ∧ level = .fresh := by
  constructor
  · intro unread
    obtain ⟨isEmpty, notBegun⟩ := Bool.and_eq_true_iff.1 unread
    exact ⟨List.isEmpty_iff.1 isEmpty, Level.eq_fresh_of_begun (by simpa using notBegun)⟩
  · rintro ⟨rfl, rfl⟩
    rfl

/-- A level reads its tokens itself. -/
theorem plain_level (level : Level) :
    level.mode.state.delegates = false ∧ level.mode.state ≠ .complete := by
  rcases level with ⟨spine, mode⟩
  cases mode with
  | after operand => cases operand <;> exact ⟨rfl, nofun⟩
  | _ => exact ⟨rfl, nofun⟩

theorem complete_level (level : Level) :
    (leaf (level.registers text ends)).complete.1 =
      match level.result? with
      | some result => .ok result
      | none => .error (.unexpectedEnd text) := by
  rcases level with ⟨spine, mode⟩
  cases mode with
  | operand => cases spine <;> rfl
  | after operand => cases operand <;> rfl
  | _ => rfl

/-! ## Machines that wait -/

/-- The machine that takes the next token for this one. -/
def sub : Machine → Machine
  | leaf r => leaf (.fresh r.text r.lent)
  | nest _ sub => sub

theorem feed_leaf {r : Registers} (own : r.state.delegates = false) (going : r.state ≠ .complete) :
    (leaf r).feed d t =
      (Registers.take d { r with text := r.text ++ t.raw } t).map fun taken =>
        (taken.1, leaf taken.2) := by
  have goes : (leaf r).registers.state ≠ .complete := going
  rw [feed, if_neg goes]
  simp only [registers, own]
  rfl

theorem feed_of_delegates {m : Machine} (delegates : m.registers.state.delegates = true) :
    m.feed d t =
      m.sub.feed d t >>= goOn { m.registers with text := m.registers.text ++ t.raw } t := by
  have going : m.registers.state ≠ .complete := fun complete => by
    rw [complete] at delegates
    cases delegates
  rw [feed, if_neg going]
  cases m with
  | leaf r =>
    change r.state.delegates = true at delegates
    simp only [registers, delegates, if_true, sub]
    have begins : State.operand ≠ .complete := by decide
    rw [feed_leaf rfl begins]
    change Registers.take d (.fresh (r.text ++ t.raw) r.lent) t >>= _ =
      Except.map _ (Registers.take d (.fresh (r.text ++ t.raw) r.lent) t) >>= _
    cases Registers.take d (.fresh (r.text ++ t.raw) r.lent) t <;> rfl
  | nest r sub =>
    change r.state.delegates = true at delegates
    simp only [registers, delegates, if_true]
    rfl

theorem registers_outward (text : String) (ends : List Stop) (owner : Owner) (rest : List Owner)
    (level : Level) :
    (outward text ends (owner :: rest) level).registers = owner.registers text ends := by
  rw [outward]
  split <;> rfl

theorem sub_outward (text : String) (ends : List Stop) (owner : Owner) (rest : List Owner)
    (level : Level) :
    (outward text ends (owner :: rest) level).sub =
      outward text (owner.lent ends) rest level := by
  rw [outward]
  split
  · rename_i unread
    obtain ⟨rfl, rfl⟩ := unread_iff.1 unread
    rfl
  · rfl

/-! ## The same tokens -/

theorem delegates_owner (owner : Owner) : owner.slot.state.delegates = true := by
  rcases owner with ⟨spine, slot⟩
  cases slot <;> rfl

/-- The machine answers to a token as a level and its owners do. -/
inductive Answers (t : Token) (text : String) (ends : List Stop) :
    Except ParseError Response → Except ParseError (Option Stop × Machine) → Prop
  | error (error : ParseError) : Answers t text ends (.error error) (.error error)
  | goOn {owners : List Owner} {level : Level} :
    owners ≠ [] ∨ level.begun = true →
    Answers t text ends (.ok (.goOn (.reading owners level)))
      (.ok (none, outward text ends owners.reverse level))
  | stop {stop : Stop} {result : Option Expr} {m : Machine} :
    ends.find? (fun stop => stop.1 == t.kind) = some stop → m.complete.1 = .ok result →
    Answers t text ends (.ok (.stop result)) (.ok (some stop, m))

theorem answers_step {step : Step} (begun : ∀ level, step = .stay level → level ≠ .fresh) :
    Answers t text ends (.ok (.goOn (Parser.afterStep [] step)))
      (.ok (none, leaf (step.registers text ends))) := by
  cases step with
  | stay level => exact .goOn (.inr (Level.begun_of_ne_fresh (begun level rfl)))
  | enter owner => exact .goOn (.inl (List.cons_ne_nil owner []))

theorem answers_level (level : Level) :
    Answers t (text ++ t.raw) ends (Parser.respond d (text ++ t.raw) ends [] level t)
      ((leaf (level.registers text ends)).feed d t) := by
  obtain ⟨own, going⟩ := plain_level level
  rw [feed_leaf own going]
  change Answers _ _ _ _ (Except.map _ (Registers.take d (level.registers (text ++ t.raw) ends) t))
  cases accepted : level.accept? d (text ++ t.raw) t with
  | some outcome =>
    cases outcome with
    | error error =>
      rw [(Rejects.of_accept accepted).take]
      simp only [Parser.respond, accepted]
      exact .error error
    | ok step =>
      have accepts := accept?_eq_ok_iff.1 accepted
      rw [accepts.take]
      simp only [Parser.respond, accepted]
      exact answers_step fun level stay isFresh => by
        rw [stay, isFresh] at accepts
        exact accepts.not_fresh
  | none =>
    rw [Level.take_of_none accepted]
    simp only [Parser.respond, accepted, Parser.endsWithin]
    cases found : ends.find? fun stop => stop.1 == t.kind with
    | none => exact .error _
    | some stop =>
      cases ended : level.result? with
      | none => exact .error _
      | some result =>
        refine .stop found ?_
        rw [complete_level, ended]

/-- A token that the owner has named as an end. -/
theorem goOn_own {r : Registers} {stop : Stop} {m : Machine} {result : Option Expr}
    (own : r.state.ends?.isNone = false) (completes : m.complete.1 = .ok result) :
    goOn r t (some stop, m) =
      ((r.endSub result (some (stop.1, t.lexeme))).map fun after =>
        { after with state := stop.2, started := true }).map fun after => (none, leaf after) := by
  simp only [goOn, completes, own, bind, Except.bind]
  cases r.endSub result (some (stop.1, t.lexeme)) <;> rfl

/-- A token that ends the owner as well. -/
theorem goOn_inherited {r : Registers} {stop : Stop} {m : Machine} {result : Option Expr}
    (inherited : r.state.ends?.isNone = true) (completes : m.complete.1 = .ok result) :
    goOn r t (some stop, m) =
      (r.endSub result (some (stop.1, t.lexeme))).map fun after =>
        (some stop, leaf { after with state := .operator }) := by
  simp only [goOn, completes, inherited, bind, Except.bind]
  cases r.endSub result (some (stop.1, t.lexeme)) <;> rfl

end Machine

theorem Owner.closedBy_of_lent {owner : Owner} {stop : Stop}
    (plain : owner.slot.state ≠ .alternate)
    (found : (owner.lent ends).find? (fun stop => stop.1 == t.kind) = some stop) :
    owner.slot.state.ends?.isNone = false ∧ owner.slot.closedBy t.kind = true := by
  have any := congrArg Option.isSome found
  rw [List.isSome_find?] at any
  rcases owner with ⟨spine, slot⟩
  cases slot with
  | alternate test consequent => exact (plain rfl).elim
  | _ => exact ⟨rfl, any⟩

namespace Machine

theorem nest_outward {owners : List Owner} {level : Level}
    (nonempty : owners ≠ [] ∨ level.begun = true) (owner : Owner) :
    nest (owner.registers text ends) (outward text (owner.lent ends) owners.reverse level) =
      outward text ends (owners ++ [owner]).reverse level := by
  have inside : ¬ (owners.reverse.isEmpty && !level.begun) = true := by
    rcases nonempty with nonempty | begun
    · simp [nonempty]
    · simp [begun]
  rw [List.reverse_append, List.reverse_singleton, List.singleton_append, outward, if_neg inside]

theorem Answers.pass {owner : Owner} {response : Except ParseError Response}
    {answer : Except ParseError (Option Stop × Machine)}
    (answers : Answers t text (owner.lent ends) response answer) (tight : owner.IsTight) :
    Answers t text ends (response >>= Parser.pass text t owner)
      (answer >>= Machine.goOn (owner.registers text ends) t) := by
  cases answers with
  | error error => exact .error error
  | @goOn owners level nonempty =>
    change Answers t text ends (.ok (.goOn (.reading (owners ++ [owner]) level)))
      (.ok (none, nest (owner.registers text ends) _))
    rw [nest_outward nonempty]
    exact .goOn (.inl (by simp))
  | @stop stop result m found completes =>
    change Answers t text ends (Parser.handOver text t [owner] result)
      (Machine.goOn (owner.registers text ends) t (some stop, m))
    rcases owner.slot.alternate_or_ne with ⟨test, first, isAlternate⟩ | plain
    · rcases owner with ⟨spine, slot⟩
      cases isAlternate
      rw [goOn_inherited rfl completes]
      cases result with
      | none => exact .error _
      | some tree =>
        have empty : spine = [] := tight (.inr rfl)
        refine .stop found ?_
        rw [empty]
        rfl
    · obtain ⟨own, closedBy⟩ := Owner.closedBy_of_lent plain found
      rw [goOn_own own completes, Owner.endSub_registers plain found, Parser.handOver_cons plain]
      cases closed : owner.close text t result with
      | error error => exact .error error
      | ok step =>
        have closes := closes_iff.1 ⟨closedBy, closed⟩
        exact answers_step fun level stay isFresh => by
          rw [stay, isFresh] at closes
          exact closes.not_fresh

theorem feed_outward (outer : List Owner) (tight : ∀ owner ∈ outer, owner.IsTight)
    (ends : List Stop) (level : Level) :
    Answers t (text ++ t.raw) ends (Parser.respond d (text ++ t.raw) ends outer.reverse level t)
      ((outward text ends outer level).feed d t) := by
  induction outer generalizing ends with
  | nil => exact answers_level level
  | cons owner rest ih =>
    obtain ⟨own, others⟩ := List.forall_mem_cons.1 tight
    have waits : (outward text ends (owner :: rest) level).registers.state.delegates = true := by
      rw [registers_outward]
      exact delegates_owner owner
    rw [feed_of_delegates waits, registers_outward, sub_outward, List.reverse_cons,
      Parser.respond_append]
    exact (ih others (owner.lent ends)).pass own

end Machine

/-! ## The end of the text -/

namespace Machine

/-- The machine ends as the parser does. What is left of it is complete, or reads on as before. -/
inductive Ends (text : String) (ends : List Stop) :
    Except ParseError (Option Expr) × Parser → Except ParseError (Option Expr) × Machine → Prop
  | ok {result : Option Expr} {r : Registers} :
    r.state = .complete → r.text = text → r.started = result.isSome →
    (result.isSome = true → r.cursor = none) →
    Ends text ends (.ok result, ⟨text, .complete result.isSome⟩) (.ok result, leaf r)
  | error {owners : List Owner} {level : Level} :
    Ends text ends (.error (.unexpectedEnd text), ⟨text, .reading owners level⟩)
      (.error (.unexpectedEnd text), outward text ends owners.reverse level)

theorem Ends.fst_eq {expected : Except ParseError (Option Expr) × Parser}
    {answer : Except ParseError (Option Expr) × Machine} (same : Ends text ends expected answer) :
    answer.1 = expected.1 := by
  cases same <;> rfl

theorem complete_of_not_isCompletable {m : Machine} (started : m.registers.started = true)
    (waits : m.registers.state.isCompletable = false) :
    m.complete = (.error (.unexpectedEnd m.registers.text), m) := by
  cases m with
  | leaf r =>
    simp only [registers] at started waits
    simp [complete, registers, started, waits]
  | nest r sub =>
    simp only [registers] at started waits
    simp [complete, registers, started, waits]

/-- The second branch of a choice ends with its nested machine, or it is lost. -/
theorem complete_nest_alternate (test : Expr) (first : Option Expr) (sub : Machine) :
    (nest (Owner.registers text ends ⟨[], .alternate test first⟩) sub).complete =
      match sub.complete.1 with
      | .error error => (.error error, leaf (Owner.registers text ends ⟨[], .alternate test first⟩))
      | .ok result =>
        match (Owner.registers text ends ⟨[], .alternate test first⟩).endSub result none with
        | .error error =>
          (.error error, leaf (Owner.registers text ends ⟨[], .alternate test first⟩))
        | .ok r => r.finish.map id leaf := rfl

theorem complete_outward (outer : List Owner) (tight : ∀ owner ∈ outer, owner.IsTight)
    (ends : List Stop) (level : Level) :
    Ends text ends (Parser.complete ⟨text, .reading outer.reverse level⟩)
      (outward text ends outer level).complete := by
  induction outer generalizing ends with
  | nil =>
    rcases level with ⟨spine, mode⟩
    cases mode with
    | operand =>
      cases spine with
      | nil => exact .ok rfl rfl rfl nofun
      | cons op rest => exact .error
    | after operand => cases operand <;> exact .ok rfl rfl rfl fun _ => rfl
    | _ => exact .error
  | cons owner rest ih =>
    obtain ⟨own, others⟩ := List.forall_mem_cons.1 tight
    have back : (rest.reverse ++ [owner]).reverse = owner :: rest := by simp
    rw [List.reverse_cons]
    rcases owner.slot.alternate_or_ne with ⟨test, first, isAlternate⟩ | plain
    · rcases owner with ⟨spine, slot⟩
      cases isAlternate
      cases own (.inr rfl)
      have inner := (ih others (Owner.lent ends ⟨[], .alternate test first⟩)).fst_eq
      rw [Parser.complete_alternate, outward]
      by_cases unread : (rest.isEmpty && !level.begun) = true
      · obtain ⟨rfl, rfl⟩ := unread_iff.1 unread
        exact @Ends.error text ends [⟨[], .alternate test first⟩] .fresh
      · rw [if_neg unread, complete_nest_alternate, inner, Parser.complete_eq]
        cases whole : Parser.whole? rest.reverse level with
        | none => exact @Ends.error text ends [⟨[], .alternate test first⟩] .fresh
        | some result =>
          cases result with
          | none =>
            obtain ⟨none, isFresh⟩ := Parser.of_whole?_eq_none whole
            exact (unread (unread_iff.2 ⟨List.reverse_eq_nil_iff.1 none, isFresh⟩)).elim
          | some tree => exact .ok rfl rfl rfl fun _ => rfl
    · have registers := registers_outward text ends owner rest level
      rw [Parser.complete_plain plain, complete_of_not_isCompletable, registers]
      · have left := @Ends.error text ends (rest.reverse ++ [owner]) level
        rw [back] at left
        exact left
      · rw [registers]
        rfl
      · rw [registers]
        exact Slot.isCompletable_of_ne plain

end Machine

/-! ## Machines and parsers -/

namespace Machine

/-- The machine stands where the parser does. -/
inductive Represents : Machine → Parser → Prop
  | reading {text : String} {owners : List Owner} {level : Level} :
    (∀ owner ∈ owners, owner.IsTight) →
    Represents (outward text [] owners.reverse level) ⟨text, .reading owners level⟩
  | complete {r : Registers} {parsed : Bool} :
    r.state = .complete → r.started = parsed → (parsed = true → r.cursor = none) →
    Represents (leaf r) ⟨r.text, .complete parsed⟩

variable {m : Machine} {p : Parser}

theorem represents_start : Represents start .start :=
  @Represents.reading "" [] .fresh nofun

theorem Represents.eq_outward {owners : List Owner} {level : Level}
    (represents : Represents m ⟨text, .reading owners level⟩) :
    m = outward text [] owners.reverse level := by
  cases represents
  rfl

theorem Represents.feed (represents : Represents m p) (t : Token) :
    match p.add d t with
    | .error error => m.feed d t = .error error
    | .ok q => ∃ after, m.feed d t = .ok (none, after) ∧ Represents after q := by
  cases represents with
  | @reading text owners level tight =>
    have stands : ∀ owner ∈ owners.reverse, owner.IsTight := fun owner mem =>
      tight owner (List.mem_reverse.1 mem)
    have answers : Answers t (text ++ t.raw) [] _
        ((outward text [] owners.reverse level).feed d t) := feed_outward _ stands [] level
    rw [List.reverse_reverse, Parser.respond_eq_add] at answers
    generalize (outward text [] owners.reverse level).feed d t = answer at answers
    cases added : Parser.add d ⟨text, .reading owners level⟩ t with
    | error error =>
      rw [added] at answers
      cases answers
      rfl
    | ok q =>
      have stays := Parser.tight_add tight added
      have quoted := Parser.text_of_add added
      rw [added] at answers
      rcases q with ⟨text', phase⟩
      cases quoted
      cases answers with
      | goOn => exact ⟨_, rfl, .reading stays⟩
  | @complete r parsed state started cursor =>
    have completed : (leaf r).registers.state = .complete := state
    change (leaf r).feed d t = .error (.alreadyComplete t.lexeme)
    rw [Machine.feed, if_pos completed]

theorem Represents.complete_eq (represents : Represents m p) :
    m.complete.1 = p.complete.1 ∧ Represents m.complete.2 p.complete.2 := by
  cases represents with
  | @reading text owners level tight =>
    have stands : ∀ owner ∈ owners.reverse, owner.IsTight := fun owner mem =>
      tight owner (List.mem_reverse.1 mem)
    have ends : Ends text [] _ (outward text [] owners.reverse level).complete :=
      complete_outward _ stands [] level
    have stays : (Parser.complete ⟨text, .reading owners level⟩).2.phase.IsTight :=
      Parser.tight_complete tight level
    rw [List.reverse_reverse] at ends
    generalize (outward text [] owners.reverse level).complete = answer at ends
    generalize Parser.complete ⟨text, .reading owners level⟩ = expected at ends stays
    cases ends with
    | ok state quoted started cursor =>
      subst quoted
      exact ⟨rfl, .complete state started cursor⟩
    | error => exact ⟨rfl, .reading stays⟩
  | @complete r parsed state started cursor =>
    rcases r with ⟨_, begun, spine, operand, choice, attachment, key, text, ends⟩
    cases state
    cases started
    cases begun with
    | false => exact ⟨rfl, .complete rfl rfl nofun⟩
    | true =>
      cases cursor rfl
      exact ⟨rfl, .complete rfl rfl fun _ => rfl⟩

/-- The machines that come from feeding and completing, so long as no token is refused. -/
inductive Reached (d : Dialect) : Machine → Prop
  | start : Reached d start
  | feed {m after : Machine} {t : Token} {stop : Option Stop} :
    Reached d m → m.feed d t = .ok (stop, after) → Reached d after
  | complete {m : Machine} : Reached d m → Reached d m.complete.2

theorem Reached.exists_represents (reached : Reached d m) : ∃ p, Represents m p := by
  induction reached with
  | start => exact ⟨.start, represents_start⟩
  | @feed m after t stop _ fed ih =>
    obtain ⟨p, represents⟩ := ih
    have same := represents.feed (d := d) t
    cases added : p.add d t with
    | error error =>
      rw [added] at same
      cases same.symm.trans fed
    | ok q =>
      rw [added] at same
      obtain ⟨next, fed', represents⟩ := same
      cases fed'.symm.trans fed
      exact ⟨q, represents⟩
  | complete _ ih =>
    obtain ⟨p, represents⟩ := ih
    exact ⟨p.complete.2, represents.complete_eq.2⟩

/-! ## Rows of tokens -/

theorem Represents.feedAll (represents : Represents m p) (ts : List Token) :
    match p.addAll d ts with
    | .error error => m.feedAll d ts = .error error
    | .ok q => ∃ after, m.feedAll d ts = .ok after ∧ Represents after q := by
  induction ts generalizing m p with
  | nil => exact ⟨m, rfl, represents⟩
  | cons t ts ih =>
    have same := represents.feed (d := d) t
    have first : p.addAll d (t :: ts) = p.add d t >>= fun q => q.addAll d ts := by
      simp only [Parser.addAll, List.foldlM_cons]
    rw [first, Machine.feedAll]
    cases added : p.add d t with
    | error error =>
      rw [added] at same
      rw [same]
      rfl
    | ok q =>
      rw [added] at same
      obtain ⟨after, fed, represents⟩ := same
      rw [fed]
      exact ih represents

theorem exists_represents {ts : List Token} (run : Parser.start.addAll d ts = .ok p) :
    ∃ m, start.feedAll d ts = .ok m ∧ Represents m p := by
  have same := represents_start.feedAll (d := d) ts
  rwa [run] at same

/-- Tokens are taken or refused alike, and at the end there is the same result. -/
theorem completes_eq (ts : List Token) :
    (start.feedAll d ts).map (fun m => m.complete.1) =
      (Parser.start.addAll d ts).map fun p => p.complete.1 := by
  have same := represents_start.feedAll (d := d) ts
  cases run : Parser.start.addAll d ts with
  | error error =>
    rw [run] at same
    exact congrArg _ same
  | ok p =>
    rw [run] at same
    obtain ⟨after, fed, represents⟩ := same
    rw [fed]
    exact congrArg _ represents.complete_eq.1

/-- The machine of registers builds the tree that the parser builds, and fails as it does. -/
theorem parse_eq (ts : List Token) : parse d ts = Parser.parse d ts := by
  have same := completes_eq (d := d) ts
  unfold parse Parser.parse
  cases fed : start.feedAll d ts with
  | error error =>
    rw [fed] at same
    have run : Parser.start.addAll d ts = .error error := map_eq_error_iff.1 same.symm
    rw [run]
    rfl
  | ok m =>
    rw [fed] at same
    obtain ⟨p, run, completes⟩ := map_eq_ok_iff.1 same.symm
    rw [run]
    change (m.complete.1 >>= _) = (p.complete.1 >>= _)
    rewrite [completes]
    rfl

end Machine

end JsonExpr
