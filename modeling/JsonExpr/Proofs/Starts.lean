import JsonExpr.Proofs.Groups

/-!
In which order the siblings of a group run, and how often. All of them are started before any is
resumed, and they are started as they stand: whatever the size of the group, it first records what
its siblings record before they suspend, one sibling after the other, up to the first that fails
there (`Run.exists_log_joinAll`). From then on it records what comes next of some sibling, so none
of them runs a second time (`Run.woven_joinAll`); and if none fails, all that they record is there.

Siblings that never suspend run to their ends where they are started (`Run.inSequence_append`).
`Run.RunsEach` collects all this.
-/

namespace JsonExpr.Run

variable {α β : Type}

/-- What a run records before it suspends or ends. -/
def opening (run : Run α) : List Value :=
  run.advance.1

/-- The run fails before it suspends. -/
def FailsAtOnce (run : Run α) : Prop :=
  ∃ error, run.advance.2 = .finished (.error error)

theorem exists_log_eq (run : Run α) : ∃ later, run.log = run.opening ++ later := by
  induction run with
  | done outcome => exact ⟨[], rfl⟩
  | record entry rest ih =>
    obtain ⟨later, eq⟩ := ih
    exact ⟨later, congrArg (entry :: ·) eq⟩
  | pause rest => exact ⟨rest.log, rfl⟩

theorem opening_map (f : α → β) (run : Run α) : (run.map f).opening = run.opening := by
  induction run with
  | done outcome => rfl
  | record entry rest ih => exact congrArg (entry :: ·) ih
  | pause rest => rfl

/-! ## Rows woven together -/

/-- The entries are taken from the rows, always the next entry of some row. What is not taken is
left at the ends of the rows. -/
inductive Woven : List (List Value) → List Value → Prop
  | nil {rows : List (List Value)} : Woven rows []
  | cons {rows others : List (List Value)} {row entries : List Value} {entry : Value} :
    rows.Perm ((entry :: row) :: others) → Woven (row :: others) entries →
    Woven rows (entry :: entries)

namespace Woven

variable {rows others : List (List Value)} {row entries : List Value}

theorem perm (woven : Woven rows entries) (same : others.Perm rows) : Woven others entries := by
  cases woven with
  | nil => exact .nil
  | cons split rest => exact .cons (same.trans split) rest

/-- A row of which nothing is taken. -/
theorem leave (woven : Woven rows entries) (row : List Value) : Woven (row :: rows) entries := by
  induction woven with
  | nil => exact .nil
  | cons split _ ih => exact .cons ((split.cons row).trans (.swap ..)) (ih.perm (.swap ..))

/-- The beginning of a row is taken first. -/
theorem take (own : List Value) (woven : Woven (row :: rows) entries) :
    Woven ((own ++ row) :: rows) (own ++ entries) := by
  induction own with
  | nil => exact woven
  | cons entry rest ih => exact .cons (.refl _) ih

theorem whole (row : List Value) (rows : List (List Value)) : Woven (row :: rows) row := by
  have taken := Woven.take row (.nil : Woven ([] :: rows) [])
  rwa [List.append_nil] at taken

end Woven

/-! ## Small groups -/

theorem woven_meanwhile {left : Run α} {resume : Run β → Run (α × β)}
    (resumed : ∀ {right : Run β} {rows : List (List Value)}, Woven rows right.log →
      Woven (left.log :: rows) (resume right).log)
    {right : Run β} {rows : List (List Value)} (woven : Woven rows right.log) :
    Woven (left.log :: rows) (meanwhile left resume right).log := by
  induction right generalizing rows with
  | done outcome =>
    cases outcome with
    | error error => exact .nil
    | ok b =>
      rw [meanwhile, log, log_map]
      exact .whole left.log rows
  | record entry rest ih =>
    cases woven with
    | cons split rest =>
      exact .cons ((split.cons left.log).trans (.swap ..)) ((ih rest).perm (.swap ..))
  | pause rest => exact resumed woven

theorem woven_both (left : Run α) {right : Run β} {rows : List (List Value)}
    (woven : Woven rows right.log) : Woven (left.log :: rows) (both left right).log := by
  induction left generalizing right rows with
  | done outcome =>
    cases outcome with
    | error error => exact .nil
    | ok a =>
      rw [both, log_map]
      exact woven.leave []
  | record entry rest ih => exact .cons (.refl _) (ih woven)
  | pause rest ih => exact woven_meanwhile ih woven

theorem woven_joinFew (runs : List (Run α)) : Woven (runs.map log) (joinFew runs).log := by
  induction runs with
  | nil => exact .nil
  | cons run rest ih =>
    rw [joinFew, log_map]
    exact woven_both run ih

theorem opening_meanwhile (left : Run α) (resume : Run β → Run (α × β)) (right : Run β) :
    (meanwhile left resume right).opening = right.opening := by
  induction right with
  | done outcome => cases outcome <;> rfl
  | record entry rest ih => exact congrArg (entry :: ·) ih
  | pause rest => rfl

theorem opening_both {left : Run α} (goesOn : ¬ left.FailsAtOnce) (right : Run β) :
    (both left right).opening = left.opening ++ right.opening := by
  induction left with
  | done outcome =>
    cases outcome with
    | ok value => exact opening_map _ right
    | error error => exact (goesOn ⟨error, rfl⟩).elim
  | record entry rest ih => exact congrArg (entry :: ·) (ih goesOn)
  | pause rest => exact opening_meanwhile rest (both rest) right

theorem exists_opening_both (left : Run α) (right : Run β) :
    ∃ later, (both left right).opening = left.opening ++ later := by
  by_cases fails : left.FailsAtOnce
  · induction left with
    | done outcome =>
      obtain ⟨error, ends⟩ := fails
      cases ends
      exact ⟨[], rfl⟩
    | record entry rest ih =>
      obtain ⟨later, eq⟩ := ih fails
      exact ⟨later, congrArg (entry :: ·) eq⟩
    | pause rest =>
      obtain ⟨error, ends⟩ := fails
      cases ends
  · exact ⟨right.opening, opening_both fails right⟩

theorem exists_opening_joinFew {before : List (Run α)} (goOn : ∀ run ∈ before, ¬ run.FailsAtOnce)
    (run : Run α) (after : List (Run α)) :
    ∃ later, (joinFew (before ++ run :: after)).opening =
      before.flatMap opening ++ run.opening ++ later := by
  induction before with
  | nil =>
    obtain ⟨later, eq⟩ := exists_opening_both run (joinFew after)
    exact ⟨later, (opening_map _ _).trans eq⟩
  | cons first rest ih =>
    obtain ⟨goesOn, others⟩ := List.forall_mem_cons.1 goOn
    obtain ⟨later, eq⟩ := ih others
    refine ⟨later, ?_⟩
    rw [List.cons_append, joinFew, opening_map, opening_both goesOn, eq, List.flatMap_cons]
    simp only [List.append_assoc]

/-! ## Large groups -/

/-- What the siblings in the queue still record, sibling by sibling. -/
def rowsOf (queue : List (Nat × Run α)) : List (List Value) :=
  queue.map fun sibling => sibling.2.log

theorem rowsOf_rotate {position : Nat} {rest : Run α} (queue : List (Nat × Run α)) :
    (rest.log :: rowsOf queue).Perm (rowsOf (queue ++ [(position, rest)])) := by
  rw [rowsOf, rowsOf, List.map_append]
  exact (List.perm_append_singleton _ _).symm

theorem woven_joinMany (slots : List (Option (Except EvalError α)))
    (queue : List (Nat × Run α)) (again : Bool) :
    Woven (rowsOf queue) (joinMany slots queue again).log := by
  fun_induction joinMany slots queue again with
  | case1 slots again => exact .nil
  | case2 slots again position run rest entries outcome advanced slots' result settled =>
    obtain ⟨_, rfl⟩ := of_advance_finished advanced
    rw [log_recordAll, log, List.append_nil]
    exact .whole _ _
  | case3 slots again position run rest entries outcome advanced slots' settled ih =>
    obtain ⟨_, rfl⟩ := of_advance_finished advanced
    rw [log_recordAll]
    have taken := (ih.leave []).take run.log
    rwa [List.append_nil] at taken
  | case4 slots again position run rest entries next advanced queue suspends ih
  | case5 slots again position run rest entries next advanced queue goesOn ih =>
    obtain ⟨_, eq⟩ := of_advance_suspended advanced
    rw [log_recordAll, rowsOf, List.map_cons, eq]
    exact (ih.perm (rowsOf_rotate rest)).take entries

/-- A group is not settled as long as no sibling has failed and one has not finished. -/
theorem settled?_eq_none {slots : List (Option (Except EvalError α))}
    (calm : ∀ error, some (.error error) ∉ slots) (waiting : none ∈ slots) :
    settled? slots = none := by
  cases settled : settled? slots with
  | none => rfl
  | some result =>
    cases result with
    | error error => exact (calm error (error_mem_of_settled? settled)).elim
    | ok values =>
      rw [eq_of_settled?_eq_ok settled] at waiting
      obtain ⟨_, _, eq⟩ := List.mem_map.1 waiting
      cases eq

/-- The siblings at the front of the queue, none of which has been started, start in order. -/
theorem exists_log_joinMany {outcomes : List (Except EvalError α)}
    {slots : List (Option (Except EvalError α))} (calm : ∀ error, some (.error error) ∉ slots)
    {before others : List (Nat × Run α)} (goOn : ∀ sibling ∈ before, ¬ sibling.2.FailsAtOnce)
    {sibling : Nat × Run α} {again : Bool}
    (underWay : UnderWay outcomes slots (before ++ sibling :: others)) :
    ∃ later, (joinMany slots (before ++ sibling :: others) again).log =
      before.flatMap (fun sibling => sibling.2.opening) ++ sibling.2.opening ++ later := by
  induction before generalizing slots others again with
  | nil =>
    obtain ⟨position, run⟩ := sibling
    rw [List.nil_append, joinMany, List.flatMap_nil, List.nil_append]
    split
    · rename_i entries outcome advanced
      have opens : run.opening = entries := congrArg Prod.fst advanced
      dsimp only
      split <;> exact ⟨_, by rw [log_recordAll, opens]⟩
    · rename_i entries next advanced
      have opens : run.opening = entries := congrArg Prod.fst advanced
      dsimp only
      split <;> exact ⟨_, by rw [log_recordAll, opens]⟩
  | cons first rest ih =>
    obtain ⟨position, run⟩ := first
    obtain ⟨goesOn, rests⟩ := List.forall_mem_cons.1 goOn
    rw [List.cons_append] at underWay ⊢
    rw [joinMany, List.flatMap_cons]
    split
    · rename_i entries outcome advanced
      have opens : run.opening = entries := congrArg Prod.fst advanced
      obtain ⟨own, _⟩ := of_advance_finished advanced
      have finished := underWay.finish
      rw [own] at finished
      have stillCalm : ∀ error, some (.error error) ∉ slots.set position (some outcome) := by
        intro error mem
        rcases List.mem_or_eq_of_mem_set mem with mem | failed
        · exact calm error mem
        · cases failed
          exact goesOn ⟨error, congrArg Prod.snd advanced⟩
      have waiting : none ∈ slots.set position (some outcome) :=
        List.mem_of_getElem? (finished.unsettled sibling.1 sibling.2 (by simp)).1
      dsimp only
      rw [settled?_eq_none stillCalm waiting]
      obtain ⟨later, eq⟩ := ih stillCalm rests finished
      refine ⟨later, ?_⟩
      rw [log_recordAll, eq, opens]
      simp only [List.append_assoc]
    · rename_i entries next advanced
      have opens : run.opening = entries := congrArg Prod.fst advanced
      have rotated := underWay.rotate (of_advance_suspended advanced).1
      rw [List.append_assoc, List.cons_append] at rotated
      dsimp only
      rw [List.append_assoc, List.cons_append]
      split
      · obtain ⟨later, eq⟩ := ih calm rests rotated
        refine ⟨later, ?_⟩
        rw [log_recordAll, log, eq, opens]
        simp only [List.append_assoc]
      · obtain ⟨later, eq⟩ := ih calm rests rotated
        refine ⟨later, ?_⟩
        rw [log_recordAll, eq, opens]
        simp only [List.append_assoc]

/-! ## Groups of any size -/

theorem map_snd_zip_range (runs : List (Run α)) :
    ((List.range runs.length).zip runs).map Prod.snd = runs :=
  List.map_snd_zip (by simp)

/-- Of no sibling anything is recorded twice, or before what comes first there. -/
theorem woven_joinAll (runs : List (Run α)) : Woven (runs.map log) (joinAll runs).log := by
  unfold joinAll
  split
  · exact woven_joinFew runs
  · have woven := woven_joinMany (runs.map fun _ => none) ((List.range runs.length).zip runs) false
    have rows : rowsOf ((List.range runs.length).zip runs) = runs.map log := by
      rw [← congrArg (List.map log) (map_snd_zip_range runs), List.map_map]
      rfl
    rwa [rows] at woven

/-- As long as no sibling fails before it suspends, the next one is started. -/
theorem exists_log_joinAll {before : List (Run α)} (goOn : ∀ run ∈ before, ¬ run.FailsAtOnce)
    (run : Run α) (after : List (Run α)) :
    ∃ later, (joinAll (before ++ run :: after)).log =
      before.flatMap opening ++ run.opening ++ later := by
  unfold joinAll
  split
  · obtain ⟨more, whole⟩ := exists_log_eq (joinFew (before ++ run :: after))
    obtain ⟨later, eq⟩ := exists_opening_joinFew goOn run after
    refine ⟨later ++ more, ?_⟩
    rw [whole, eq, List.append_assoc]
  · have underWay := UnderWay.start (before ++ run :: after)
    obtain ⟨front, back, split, rfl, rest⟩ :=
      List.map_eq_append_iff.1 (map_snd_zip_range (before ++ run :: after))
    obtain ⟨sibling, others, rfl, rfl, rfl⟩ := List.map_eq_cons_iff.1 rest
    rw [split] at underWay ⊢
    rw [List.flatMap_map]
    exact exists_log_joinMany (by simp)
      (fun sibling mem => goOn sibling.2 (List.mem_map_of_mem mem)) underWay

theorem log_joinAll_perm {runs : List (Run α)} (succeed : ∀ run ∈ runs, run.Succeeds) :
    (joinAll runs).log.Perm (runs.flatMap log) := by
  cases joined_joinAll runs with
  | values _ _ logs => exact logs
  | failure mem _ =>
    obtain ⟨run, isRun, fails⟩ := List.mem_map.1 mem
    obtain ⟨value, ends⟩ := succeed run isRun
    cases fails.symm.trans ends

/-! ## Siblings that never suspend -/

/-- As long as no run fails, one runs after the other. -/
theorem inSequence_append {before : List (Run α)} (succeed : ∀ run ∈ before, run.Succeeds)
    (after : List (Run α)) :
    (inSequence (before ++ after)).log = before.flatMap log ++ (inSequence after).log ∧
      ∀ error, (inSequence after).outcome = .error error →
        (inSequence (before ++ after)).outcome = .error error := by
  induction before with
  | nil => exact ⟨rfl, fun _ fails => fails⟩
  | cons run rest ih =>
    obtain ⟨⟨value, ends⟩, others⟩ := List.forall_mem_cons.1 succeed
    obtain ⟨log, outcome⟩ := ih others
    rw [List.cons_append, inSequence]
    constructor
    · rw [log_bind_of_ok ends, log_map, log, List.flatMap_cons, List.append_assoc]
    · intro error fails
      rw [outcome_bind_of_ok ends, outcome_map, outcome error fails]
      rfl

/-- The first run that fails is the last one. -/
theorem inSequence_of_error {before after : List (Run α)} {run : Run α} {error : EvalError}
    (succeed : ∀ run ∈ before, run.Succeeds) (fails : run.outcome = .error error) :
    (inSequence (before ++ run :: after)).outcome = .error error ∧
      (inSequence (before ++ run :: after)).log = before.flatMap log ++ run.log := by
  obtain ⟨log, outcome⟩ := inSequence_append succeed (run :: after)
  rw [log, outcome error (outcome_bind_of_error fails _), inSequence, log_bind_of_error fails]
  exact ⟨rfl, rfl⟩

/-! ## How a group is run -/

/-- The runs are siblings of a group, each of which is run once. -/
structure RunsEach (runs : List (Run α)) (whole : Run β) : Prop where
  succeeds_iff : whole.Succeeds ↔ ∀ run ∈ runs, run.Succeeds
  /-- Nothing that a sibling records comes twice. -/
  woven : Woven (runs.map log) whole.log
  /-- If no sibling fails, all that they record is there. -/
  log_perm : whole.Succeeds → whole.log.Perm (runs.flatMap log)
  /-- The siblings are started in order, up to the first that fails before it suspends. -/
  started : ∀ before run after, runs = before ++ run :: after →
    (∀ other ∈ before, ¬ other.FailsAtOnce) →
    ∃ later, whole.log = before.flatMap opening ++ run.opening ++ later
  /-- Siblings that do not suspend come one after the other. -/
  log_eq : (∀ run ∈ runs, run.pauses = 0) → whole.Succeeds → whole.log = runs.flatMap log
  /-- Of siblings that do not suspend the first that fails is the last one. -/
  fails : (∀ run ∈ runs, run.pauses = 0) →
    ∀ before run after error, runs = before ++ run :: after →
    (∀ other ∈ before, other.Succeeds) → run.outcome = .error error →
    whole.outcome = .error error ∧ whole.log = before.flatMap log ++ run.log

theorem runsEach_joinAll (runs : List (Run α)) : RunsEach runs (joinAll runs) where
  succeeds_iff := succeeds_joinAll_iff
  woven := woven_joinAll runs
  log_perm succeeds := log_joinAll_perm (succeeds_joinAll_iff.1 succeeds)
  started before run after split goOn := by
    rw [split]
    exact exists_log_joinAll goOn run after
  log_eq steady succeeds := by
    obtain ⟨log, _⟩ := inSequence_append (succeeds_joinAll_iff.1 succeeds) []
    rw [List.append_nil] at log
    rw [joinAll_of_pauses steady, log]
    exact List.append_nil _
  fails steady before run after error split succeed fails := by
    rw [joinAll_of_pauses steady, split]
    exact inSequence_of_error succeed fails

theorem succeeds_map (f : α → β) (run : Run α) : (run.map f).Succeeds ↔ run.Succeeds := by
  constructor
  · rintro ⟨result, ends⟩
    obtain ⟨value, own, _⟩ := outcome_map_eq_ok_iff.1 ends
    exact ⟨value, own⟩
  · rintro ⟨value, ends⟩
    exact ⟨f value, outcome_map_eq_ok_iff.2 ⟨value, ends, rfl⟩⟩

/-- Whatever is made of the values. -/
theorem RunsEach.map {γ : Type} {runs : List (Run α)} {whole : Run β}
    (runsEach : RunsEach runs whole) (f : β → γ) : RunsEach runs (whole.map f) where
  succeeds_iff := (succeeds_map f whole).trans runsEach.succeeds_iff
  woven := by
    rw [log_map]
    exact runsEach.woven
  log_perm succeeds := by
    rw [log_map]
    exact runsEach.log_perm ((succeeds_map f whole).1 succeeds)
  started := by
    rw [log_map]
    exact runsEach.started
  log_eq steady succeeds := by
    rw [log_map]
    exact runsEach.log_eq steady ((succeeds_map f whole).1 succeeds)
  fails := by
    simp only [log_map, outcome_map_eq_error_iff]
    exact runsEach.fails

end JsonExpr.Run
