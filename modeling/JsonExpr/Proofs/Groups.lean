import JsonExpr.Proofs.Siblings

/-!
How a group of siblings ends, however often they suspend. `Joined` says it for groups of any size:
either all siblings have a value, and the group has the list of them and records what they record,
in some order; or the group fails as one of its siblings does.

Small groups are pairs of pairs, so `Paired` says the same of a pair. For a large group under way,
`UnderWay` is what every turn of its queue preserves.
-/

namespace JsonExpr.Run

variable {α β : Type}

/-! ## Outcome and log -/

@[simp] theorem outcome_map (f : α → β) (run : Run α) :
    (run.map f).outcome = run.outcome.map f := by
  induction run with
  | done outcome => rfl
  | record entry rest ih => exact ih
  | pause rest ih => exact ih

@[simp] theorem log_map (f : α → β) (run : Run α) : (run.map f).log = run.log := by
  induction run with
  | done outcome => rfl
  | record entry rest ih => rw [map, log, log, ih]
  | pause rest ih => exact ih

/-- Two functions make the same of a run if they make the same of its value. -/
theorem map_eq_map_iff {f h : α → β} {run : Run α} {value : α} (ends : run.outcome = .ok value) :
    run.map f = run.map h ↔ f value = h value := by
  induction run with
  | done outcome =>
    cases ends
    rw [map, map, Except.map, Except.map, done.injEq, Except.ok.injEq]
  | record entry rest ih => rw [map, map, record.injEq, ih ends, eq_self, true_and]
  | pause rest ih => rw [map, map, pause.injEq, ih ends]

@[simp] theorem outcome_mapError (f : EvalError → EvalError) (run : Run α) :
    (run.mapError f).outcome = run.outcome.mapError f := by
  induction run with
  | done outcome => rfl
  | record entry rest ih => exact ih
  | pause rest ih => exact ih

theorem outcome_bind (next : α → Run β) (run : Run α) :
    (run.bind next).outcome = run.outcome.bind fun value => (next value).outcome := by
  induction run with
  | done outcome => cases outcome <;> rfl
  | record entry rest ih => exact ih
  | pause rest ih => exact ih

theorem outcome_bind_of_ok {run : Run α} {value : α} (ends : run.outcome = .ok value)
    (next : α → Run β) : (run.bind next).outcome = (next value).outcome := by
  rw [outcome_bind, ends]
  rfl

theorem outcome_bind_of_error {run : Run α} {error : EvalError} (ends : run.outcome = .error error)
    (next : α → Run β) : (run.bind next).outcome = .error error := by
  rw [outcome_bind, ends]
  rfl

theorem outcome_map_eq_error_iff {f : α → β} {run : Run α} {error : EvalError} :
    (run.map f).outcome = .error error ↔ run.outcome = .error error := by
  rw [outcome_map]
  cases run.outcome <;> simp [Except.map]

/-- A run that goes on fails where it is, or later. -/
theorem of_outcome_bind_eq_error {run : Run α} {next : α → Run β} {error : EvalError}
    (fails : (run.bind next).outcome = .error error) :
    run.outcome = .error error ∨
      ∃ value, run.outcome = .ok value ∧ (next value).outcome = .error error := by
  rw [outcome_bind] at fails
  cases ends : run.outcome with
  | ok value =>
    rw [ends] at fails
    exact .inr ⟨value, rfl, fails⟩
  | error other =>
    rw [ends] at fails
    cases fails
    exact .inl rfl

theorem outcome_map_eq_ok_iff {f : α → β} {run : Run α} {result : β} :
    (run.map f).outcome = .ok result ↔ ∃ value, run.outcome = .ok value ∧ f value = result := by
  rw [outcome_map]
  cases run.outcome <;> simp [Except.map]

/-- A run that goes on has a value if it gets one, and then another. -/
theorem outcome_bind_eq_ok_iff {run : Run α} {next : α → Run β} {result : β} :
    (run.bind next).outcome = .ok result ↔
      ∃ value, run.outcome = .ok value ∧ (next value).outcome = .ok result := by
  rw [outcome_bind]
  cases run.outcome <;> simp [Except.bind]

theorem log_bind_of_ok {run : Run α} {value : α} (ends : run.outcome = .ok value)
    (next : α → Run β) : (run.bind next).log = run.log ++ (next value).log := by
  induction run with
  | done outcome => cases ends; rfl
  | record entry rest ih => rw [bind, log, log, ih ends, List.cons_append]
  | pause rest ih => exact ih ends

theorem log_bind_of_error {run : Run α} {error : EvalError} (ends : run.outcome = .error error)
    (next : α → Run β) : (run.bind next).log = run.log := by
  induction run with
  | done outcome => cases ends; rfl
  | record entry rest ih => rw [bind, log, log, ih ends]
  | pause rest ih => exact ih ends

@[simp] theorem outcome_recordAll (entries : List Value) (next : Run α) :
    (recordAll entries next).outcome = next.outcome := by
  induction entries with
  | nil => rfl
  | cons entry rest ih => exact ih

@[simp] theorem log_recordAll (entries : List Value) (next : Run α) :
    (recordAll entries next).log = entries ++ next.log := by
  induction entries with
  | nil => rfl
  | cons entry rest ih => exact congrArg (entry :: ·) ih

theorem of_advance_finished {run : Run α} {entries : List Value} {outcome : Except EvalError α}
    (h : run.advance = (entries, .finished outcome)) :
    run.outcome = outcome ∧ run.log = entries := by
  induction run generalizing entries with
  | done own => cases h; exact ⟨rfl, rfl⟩
  | record entry rest ih =>
    obtain ⟨rfl, ends⟩ := Prod.mk.inj h
    obtain ⟨same, all⟩ := ih (Prod.ext rfl ends)
    exact ⟨same, congrArg (entry :: ·) all⟩
  | pause rest => cases h

theorem of_advance_suspended {run rest : Run α} {entries : List Value}
    (h : run.advance = (entries, .suspended rest)) :
    run.outcome = rest.outcome ∧ run.log = entries ++ rest.log := by
  induction run generalizing entries with
  | done own => cases h
  | record entry next ih =>
    obtain ⟨rfl, ends⟩ := Prod.mk.inj h
    obtain ⟨same, all⟩ := ih (Prod.ext rfl ends)
    exact ⟨same, congrArg (entry :: ·) all⟩
  | pause next => cases h; exact ⟨rfl, rfl⟩

/-! ## Small groups -/

/-- How two runs side by side end that end with these outcomes and record these entries. -/
inductive Paired (left : Except EvalError α) (right : Except EvalError β) (entries : List Value)
    (whole : Run (α × β)) : Prop
  | values {a : α} {b : β} :
    left = .ok a → right = .ok b → whole.outcome = .ok (a, b) → whole.log.Perm entries →
    Paired left right entries whole
  | leftFails {error : EvalError} :
    left = .error error → whole.outcome = .error error → Paired left right entries whole
  | rightFails {error : EvalError} :
    right = .error error → whole.outcome = .error error → Paired left right entries whole

namespace Paired

variable {left : Except EvalError α} {right : Except EvalError β} {entries others : List Value}
  {whole : Run (α × β)}

theorem perm (paired : Paired left right entries whole) (same : entries.Perm others) :
    Paired left right others whole := by
  cases paired with
  | values first second both logs => exact .values first second both (logs.trans same)
  | leftFails fails whole => exact .leftFails fails whole
  | rightFails fails whole => exact .rightFails fails whole

theorem record (paired : Paired left right entries whole) (entry : Value) :
    Paired left right (entry :: entries) (.record entry whole) := by
  cases paired with
  | values first second both logs => exact .values first second both (logs.cons entry)
  | leftFails fails whole => exact .leftFails fails whole
  | rightFails fails whole => exact .rightFails fails whole

theorem pause (paired : Paired left right entries whole) :
    Paired left right entries (.pause whole) := by
  cases paired with
  | values first second both logs => exact .values first second both logs
  | leftFails fails whole => exact .leftFails fails whole
  | rightFails fails whole => exact .rightFails fails whole

/-- The right run has ended with a value. -/
theorem mapLeft (run : Run α) (b : β) :
    Paired run.outcome (.ok b) run.log (run.map fun a => (a, b)) := by
  cases ends : run.outcome with
  | error error => exact .leftFails rfl (by rw [outcome_map, ends]; rfl)
  | ok a =>
    refine .values rfl rfl (by rw [outcome_map, ends]; rfl) ?_
    rw [log_map]

/-- The left run has ended with a value. -/
theorem mapRight (a : α) (run : Run β) :
    Paired (.ok a) run.outcome run.log (run.map fun b => (a, b)) := by
  cases ends : run.outcome with
  | error error => exact .rightFails rfl (by rw [outcome_map, ends]; rfl)
  | ok b =>
    refine .values rfl rfl (by rw [outcome_map, ends]; rfl) ?_
    rw [log_map]

end Paired

/-- A suspended left run leaves the way the pair ends to what is resumed. -/
theorem paired_meanwhile {left : Run α} {resume : Run β → Run (α × β)}
    (resumed : ∀ right, Paired left.outcome right.outcome (left.log ++ right.log) (resume right))
    (right : Run β) :
    Paired left.outcome right.outcome (left.log ++ right.log) (meanwhile left resume right) := by
  induction right with
  | done outcome =>
    cases outcome with
    | error error => exact .rightFails rfl rfl
    | ok b => exact (Paired.mapLeft left b).pause.perm (.of_eq (List.append_nil _).symm)
  | record entry rest ih => exact (ih.record entry).perm List.perm_middle.symm
  | pause rest => exact (resumed rest).pause

theorem paired_both (left : Run α) (right : Run β) :
    Paired left.outcome right.outcome (left.log ++ right.log) (both left right) := by
  induction left generalizing right with
  | done outcome =>
    cases outcome with
    | error error => exact .leftFails rfl rfl
    | ok a => exact .mapRight a right
  | record entry rest ih => exact (ih right).record entry
  | pause rest ih => exact paired_meanwhile ih right

/-- How a group ends whose siblings end with these outcomes and record these entries. -/
inductive Joined (outcomes : List (Except EvalError α)) (entries : List Value)
    (whole : Run (List α)) : Prop
  | values {values : List α} :
    outcomes = values.map .ok → whole.outcome = .ok values → whole.log.Perm entries →
    Joined outcomes entries whole
  | failure {error : EvalError} :
    .error error ∈ outcomes → whole.outcome = .error error → Joined outcomes entries whole

theorem joined_joinFew (runs : List (Run α)) :
    Joined (runs.map outcome) (runs.flatMap log) (joinFew runs) := by
  induction runs with
  | nil => exact @Joined.values _ _ _ _ [] rfl rfl (.refl _)
  | cons run rest ih =>
    rw [List.map_cons, List.flatMap_cons]
    cases paired_both run (joinFew rest) with
    | leftFails fails whole =>
      refine .failure (List.mem_cons.2 (.inl fails.symm)) ?_
      rw [joinFew, outcome_map, whole]
      rfl
    | rightFails fails whole =>
      cases ih with
      | values _ ends => cases ends.symm.trans fails
      | failure mem ends =>
        cases ends.symm.trans fails
        refine .failure (List.mem_cons_of_mem _ mem) ?_
        rw [joinFew, outcome_map, whole]
        rfl
    | @values value values first second both logs =>
      cases ih with
      | failure _ ends => cases ends.symm.trans second
      | values outcomes ends restLogs =>
        cases ends.symm.trans second
        refine @Joined.values _ _ _ _ (value :: values) ?_ ?_ ?_
        · rw [first, outcomes, List.map_cons]
        · rw [joinFew, outcome_map, both]
          rfl
        · rw [joinFew, log_map]
          exact logs.trans (restLogs.append_left _)

/-! ## Large groups -/

namespace Joined

variable {outcomes : List (Except EvalError α)} {entries others : List Value}
  {whole : Run (List α)}

theorem perm (joined : Joined outcomes entries whole) (same : entries.Perm others) :
    Joined outcomes others whole := by
  cases joined with
  | values all ends logs => exact .values all ends (logs.trans same)
  | failure mem ends => exact .failure mem ends

theorem pause (joined : Joined outcomes entries whole) :
    Joined outcomes entries (.pause whole) := by
  cases joined with
  | values all ends logs => exact .values all ends logs
  | failure mem ends => exact .failure mem ends

theorem recordAll (joined : Joined outcomes entries whole) (before : List Value) :
    Joined outcomes (before ++ entries) (recordAll before whole) := by
  cases joined with
  | values all ends logs =>
    refine .values all ((outcome_recordAll before whole).trans ends) ?_
    rw [log_recordAll]
    exact logs.append_left before
  | failure mem ends => exact .failure mem ((outcome_recordAll before whole).trans ends)

end Joined

section Settled

variable {slots : List (Option (Except EvalError α))}

theorem none_mem_of_settled?_eq_none (h : settled? slots = none) : none ∈ slots := by
  induction slots with
  | nil => cases h
  | cons slot rest ih =>
    match slot, h with
    | none, _ => exact List.mem_cons_self
    | some (.ok value), h => exact List.mem_cons_of_mem _ (ih (Option.map_eq_none_iff.1 h))

theorem error_mem_of_settled? {error : EvalError} (h : settled? slots = some (.error error)) :
    some (.error error) ∈ slots := by
  induction slots with
  | nil => cases h
  | cons slot rest ih =>
    match slot, h with
    | some (.error _), h => cases h; exact List.mem_cons_self
    | some (.ok value), h =>
      obtain ⟨result, settled, mapped⟩ := Option.map_eq_some_iff.1 h
      cases result with
      | ok values => cases mapped
      | error other => cases mapped; exact List.mem_cons_of_mem _ (ih settled)

theorem eq_of_settled?_eq_ok {values : List α} (h : settled? slots = some (.ok values)) :
    slots = values.map fun value => some (.ok value) := by
  induction slots generalizing values with
  | nil => cases h; rfl
  | cons slot rest ih =>
    match slot, h with
    | some (.ok value), h =>
      obtain ⟨result, settled, mapped⟩ := Option.map_eq_some_iff.1 h
      cases result with
      | error error => cases mapped
      | ok others => cases mapped; rw [ih settled, List.map_cons]

end Settled

/-- What the siblings in the queue still record. -/
def entriesOf (queue : List (Nat × Run α)) : List Value :=
  queue.flatMap fun sibling => sibling.2.log

/-- A large group under way, whose siblings end with these outcomes: a settled slot holds the
outcome of its sibling, and the siblings of all others wait in the queue. -/
structure UnderWay (outcomes : List (Except EvalError α))
    (slots : List (Option (Except EvalError α))) (queue : List (Nat × Run α)) : Prop where
  length_eq : slots.length = outcomes.length
  settled : ∀ (position : Nat) outcome, slots[position]? = some (some outcome) →
    outcomes[position]? = some outcome
  waiting : ∀ position : Nat, slots[position]? = some none → position ∈ queue.map Prod.fst
  unsettled : ∀ position run, (position, run) ∈ queue →
    slots[position]? = some none ∧ outcomes[position]? = some run.outcome
  nodup : (queue.map Prod.fst).Nodup

namespace UnderWay

variable {outcomes : List (Except EvalError α)} {slots : List (Option (Except EvalError α))}
  {queue : List (Nat × Run α)} {position : Nat} {run : Run α}

/-- A result is that of the group, and with values there is nobody left in the queue. -/
theorem joined_done (underWay : UnderWay outcomes slots queue)
    {result : Except EvalError (List α)} (h : settled? slots = some result) :
    Joined outcomes (entriesOf queue) (.done result) := by
  cases result with
  | error error =>
    obtain ⟨position, found⟩ := List.mem_iff_getElem?.1 (error_mem_of_settled? h)
    exact .failure (List.mem_of_getElem? (underWay.settled _ _ found)) rfl
  | ok values =>
    have slotsEq := eq_of_settled?_eq_ok h
    have outcomesEq : outcomes = values.map .ok := by
      apply List.ext_getElem?
      intro position
      cases found : values[position]? with
      | none =>
        have short : values.length ≤ position := List.getElem?_eq_none_iff.1 found
        have length := underWay.length_eq
        rw [slotsEq, List.length_map] at length
        rw [List.getElem?_eq_none (length ▸ short),
          List.getElem?_eq_none (by rwa [List.length_map])]
      | some value =>
        rw [List.getElem?_map, found]
        apply underWay.settled
        rw [slotsEq, List.getElem?_map, found]
        rfl
    have empty : queue = [] := by
      cases queue with
      | nil => rfl
      | cons sibling rest =>
        obtain ⟨unsettled, _⟩ := underWay.unsettled _ _ List.mem_cons_self
        rw [slotsEq, List.getElem?_map] at unsettled
        obtain ⟨_, _, eq⟩ := Option.map_eq_some_iff.1 unsettled
        cases eq
    subst empty
    exact .values outcomesEq rfl (.refl _)

/-- The first sibling in the queue finishes. -/
theorem finish (underWay : UnderWay outcomes slots ((position, run) :: queue)) :
    UnderWay outcomes (slots.set position (some run.outcome)) queue := by
  obtain ⟨free, own⟩ := underWay.unsettled _ _ List.mem_cons_self
  obtain ⟨fresh, nodup⟩ := List.nodup_cons.1 underWay.nodup
  have inside : position < slots.length := (List.getElem?_eq_some_iff.1 free).1
  refine ⟨by rw [List.length_set, underWay.length_eq], ?_, ?_, ?_, nodup⟩
  · intro other outcome found
    by_cases same : position = other
    · subst same
      rw [List.getElem?_set_self inside] at found
      cases found
      exact own
    · rw [List.getElem?_set_ne same] at found
      exact underWay.settled _ _ found
  · intro other found
    by_cases same : position = other
    · subst same
      rw [List.getElem?_set_self inside] at found
      cases found
    · rw [List.getElem?_set_ne same] at found
      exact (List.mem_cons.1 (underWay.waiting _ found)).resolve_left (Ne.symm same)
  · intro other rest mem
    have different : position ≠ other := by
      rintro rfl
      exact fresh (List.mem_map.2 ⟨_, mem, rfl⟩)
    rw [List.getElem?_set_ne different]
    exact underWay.unsettled _ _ (List.mem_cons_of_mem _ mem)

/-- The first sibling in the queue suspends and goes to the end of it. -/
theorem rotate {rest : Run α} (underWay : UnderWay outcomes slots ((position, run) :: queue))
    (same : run.outcome = rest.outcome) :
    UnderWay outcomes slots (queue ++ [(position, rest)]) := by
  have names : ((queue ++ [(position, rest)]).map Prod.fst).Perm
      (((position, run) :: queue).map Prod.fst) := by
    rw [List.map_append]
    exact List.perm_append_singleton _ _
  refine ⟨underWay.length_eq, underWay.settled, ?_, ?_, names.nodup_iff.2 underWay.nodup⟩
  · intro other found
    exact names.mem_iff.2 (underWay.waiting _ found)
  · intro other run mem
    rcases List.mem_append.1 mem with mem | mem
    · exact underWay.unsettled _ _ (List.mem_cons_of_mem _ mem)
    · cases List.mem_singleton.1 mem
      rw [← same]
      exact underWay.unsettled _ _ List.mem_cons_self

end UnderWay

/-- A sibling that goes to the end of the queue records the rest there. -/
theorem entriesOf_rotate {position : Nat} {run rest : Run α} {queue : List (Nat × Run α)}
    {entries : List Value} (log : run.log = entries ++ rest.log) :
    (entries ++ entriesOf (queue ++ [(position, rest)])).Perm
      (entriesOf ((position, run) :: queue)) := by
  simp only [entriesOf, List.flatMap_append, List.flatMap_cons, List.flatMap_nil, List.append_nil,
    log, List.append_assoc]
  exact List.perm_append_comm.append_left entries

/-- Every turn of the queue keeps the group on its way to the end that its siblings have. -/
theorem joined_joinMany {outcomes : List (Except EvalError α)}
    {slots : List (Option (Except EvalError α))} {queue : List (Nat × Run α)} {again : Bool}
    (underWay : UnderWay outcomes slots queue) :
    Joined outcomes (entriesOf queue) (joinMany slots queue again) := by
  fun_induction joinMany slots queue again with
  | case1 slots again =>
    cases settled : settled? slots with
    | some result => exact underWay.joined_done settled
    | none =>
      obtain ⟨position, found⟩ := List.mem_iff_getElem?.1 (none_mem_of_settled?_eq_none settled)
      cases underWay.waiting position found
  | case2 slots again position run rest entries outcome advanced slots' result settled =>
    obtain ⟨rfl, rfl⟩ := of_advance_finished advanced
    exact (underWay.finish.joined_done settled).recordAll _
  | case3 slots again position run rest entries outcome advanced slots' settled ih =>
    obtain ⟨rfl, rfl⟩ := of_advance_finished advanced
    exact (ih underWay.finish).recordAll _
  | case4 slots again position run rest entries next advanced queue suspends ih =>
    obtain ⟨same, log⟩ := of_advance_suspended advanced
    exact ((ih (underWay.rotate same)).pause.recordAll _).perm (entriesOf_rotate log)
  | case5 slots again position run rest entries next advanced queue goesOn ih =>
    obtain ⟨same, log⟩ := of_advance_suspended advanced
    exact ((ih (underWay.rotate same)).recordAll _).perm (entriesOf_rotate log)

/-- A large group before its first turn. -/
theorem UnderWay.start (runs : List (Run α)) :
    UnderWay (runs.map outcome) (runs.map fun _ => none) ((List.range runs.length).zip runs) := by
  have names : ((List.range runs.length).zip runs).map Prod.fst = List.range runs.length :=
    List.map_fst_zip (by simp)
  refine ⟨by simp, ?_, ?_, ?_, by rw [names]; exact List.nodup_range⟩
  · intro position outcome found
    rw [List.getElem?_map] at found
    obtain ⟨_, _, eq⟩ := Option.map_eq_some_iff.1 found
    cases eq
  · intro position found
    rw [names, List.mem_range]
    simpa using (List.getElem?_eq_some_iff.1 found).1
  · intro position run mem
    obtain ⟨index, found⟩ := List.mem_iff_getElem?.1 mem
    obtain ⟨inRange, own⟩ := List.getElem?_zip_eq_some.1 found
    obtain ⟨_, rfl⟩ := List.getElem?_eq_some_iff.1 inRange
    rw [List.getElem_range] at own ⊢
    simp only [List.getElem?_map, own, Option.map_some, and_self]

theorem entriesOf_zip_range (runs : List (Run α)) :
    entriesOf ((List.range runs.length).zip runs) = runs.flatMap log := by
  have siblings : ((List.range runs.length).zip runs).map Prod.snd = runs :=
    List.map_snd_zip (by simp)
  calc entriesOf ((List.range runs.length).zip runs)
      = (((List.range runs.length).zip runs).map Prod.snd).flatMap log := by
        rw [List.flatMap_map, entriesOf]
    _ = runs.flatMap log := by rw [siblings]

/-! ## Groups of any size -/

theorem joined_joinAll (runs : List (Run α)) :
    Joined (runs.map outcome) (runs.flatMap log) (joinAll runs) := by
  unfold joinAll
  split
  · exact joined_joinFew runs
  · rw [← entriesOf_zip_range]
    exact joined_joinMany (UnderWay.start runs)

theorem exists_of_joinAll_eq_error {runs : List (Run α)} {error : EvalError}
    (fails : (joinAll runs).outcome = .error error) : ∃ run ∈ runs, run.outcome = .error error := by
  cases joined_joinAll runs with
  | values _ ends _ => cases ends.symm.trans fails
  | failure mem ends =>
    cases ends.symm.trans fails
    exact List.mem_map.1 mem

theorem outcomes_of_joinAll_eq_ok {runs : List (Run α)} {values : List α}
    (ends : (joinAll runs).outcome = .ok values) : runs.map outcome = values.map .ok := by
  cases joined_joinAll runs with
  | values outcomes own _ =>
    cases own.symm.trans ends
    exact outcomes
  | failure _ fails => cases fails.symm.trans ends

/-- A group has values exactly if each of its siblings has its own. -/
theorem outcome_joinAll_eq_ok_iff {runs : List (Run α)} {values : List α} :
    (joinAll runs).outcome = .ok values ↔ runs.map outcome = values.map .ok := by
  refine ⟨outcomes_of_joinAll_eq_ok, fun outcomes => ?_⟩
  cases joined_joinAll runs with
  | @values others own ends _ =>
    have same : others = values :=
      (List.map_inj_right fun _ _ => Except.ok.inj).1 (own.symm.trans outcomes)
    rw [ends, same]
  | failure mem _ =>
    rw [outcomes] at mem
    obtain ⟨value, _, eq⟩ := List.mem_map.1 mem
    cases eq

/-- The run ends with a value. -/
def Succeeds (run : Run α) : Prop :=
  ∃ value, run.outcome = .ok value

theorem exists_values_iff {runs : List (Run α)} :
    (∃ values : List α, runs.map outcome = values.map .ok) ↔ ∀ run ∈ runs, run.Succeeds := by
  constructor
  · rintro ⟨values, outcomes⟩ run mem
    have inMap := List.mem_map_of_mem (f := outcome) mem
    rw [outcomes] at inMap
    obtain ⟨value, _, ends⟩ := List.mem_map.1 inMap
    exact ⟨value, ends.symm⟩
  · intro succeed
    induction runs with
    | nil => exact ⟨[], rfl⟩
    | cons run rest ih =>
      obtain ⟨⟨value, ends⟩, others⟩ := List.forall_mem_cons.1 succeed
      obtain ⟨values, outcomes⟩ := ih others
      exact ⟨value :: values, by rw [List.map_cons, ends, outcomes, List.map_cons]⟩

theorem succeeds_joinAll_iff {runs : List (Run α)} :
    (joinAll runs).Succeeds ↔ ∀ run ∈ runs, run.Succeeds := by
  rw [← exists_values_iff]
  exact exists_congr fun values => outcome_joinAll_eq_ok_iff

end JsonExpr.Run
