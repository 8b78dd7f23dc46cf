import JsonExpr.Run.Siblings

/-!
Groups whose siblings never suspend. Whatever the size of the group, its siblings then run one
after the other, and the first failure is the end: `joinAll` is `inSequence`.
-/

namespace JsonExpr.Run

variable {α β γ : Type}

/-- Runs all runs one after the other, up to the first failure. -/
def inSequence : List (Run α) → Run (List α)
  | [] => .ok []
  | run :: rest => run.bind fun value => (inSequence rest).map (value :: ·)

/-! ## Laws of runs -/

theorem map_map (f : α → β) (g : β → γ) (run : Run α) :
    (run.map f).map g = run.map fun value => g (f value) := by
  induction run with
  | done outcome => cases outcome <;> rfl
  | record entry rest ih => rw [map, map, map, ih]
  | pause rest ih => rw [map, map, map, ih]

theorem map_eq_bind (f : α → β) (run : Run α) :
    run.map f = run.bind fun value => .ok (f value) := by
  induction run with
  | done outcome => cases outcome <;> rfl
  | record entry rest ih => exact congrArg (Run.record entry) ih
  | pause rest ih => exact congrArg Run.pause ih

theorem map_id (run : Run α) : (run.map fun value => value) = run := by
  induction run with
  | done outcome => cases outcome <;> rfl
  | record entry rest ih => rw [map, ih]
  | pause rest ih => rw [map, ih]

theorem map_bind (f : β → γ) (next : α → Run β) (run : Run α) :
    (run.bind next).map f = run.bind fun value => (next value).map f := by
  induction run with
  | done outcome => cases outcome <;> rfl
  | record entry rest ih => rw [bind, map, bind, ih]
  | pause rest ih => rw [bind, map, bind, ih]

theorem bind_bind (next : α → Run β) (last : β → Run γ) (run : Run α) :
    (run.bind next).bind last = run.bind fun value => (next value).bind last := by
  induction run with
  | done outcome => cases outcome <;> rfl
  | record entry rest ih => rw [bind, bind, bind, ih]
  | pause rest ih => rw [bind, bind, bind, ih]

/-- A run that never suspends is its log and its outcome. -/
theorem advance_of_pauses {run : Run α} (steady : run.pauses = 0) :
    run.advance = (run.log, .finished run.outcome) := by
  induction run with
  | done outcome => rfl
  | record entry rest ih => rw [advance, ih steady, log, outcome]
  | pause rest => cases steady

theorem bind_of_pauses {run : Run α} (steady : run.pauses = 0) (next : α → Run β) :
    run.bind next = recordAll run.log
      (match run.outcome with
      | .ok value => next value
      | .error error => .fail error) := by
  induction run with
  | done outcome => cases outcome <;> rfl
  | record entry rest ih =>
    rw [bind, ih steady]
    rfl
  | pause rest => cases steady

/-! ## Small groups -/

theorem both_of_pauses {left : Run α} (steady : left.pauses = 0) (right : Run β) :
    both left right = left.bind fun a => right.map fun b => (a, b) := by
  induction left with
  | done outcome => cases outcome <;> rfl
  | record entry rest ih => rw [both, bind, ih steady]
  | pause rest => cases steady

theorem joinFew_of_pauses {runs : List (Run α)} (steady : ∀ run ∈ runs, run.pauses = 0) :
    joinFew runs = inSequence runs := by
  induction runs with
  | nil => rfl
  | cons run rest ih =>
    obtain ⟨first, others⟩ := List.forall_mem_cons.1 steady
    rw [joinFew, inSequence, both_of_pauses first, map_bind, ih others]
    simp only [map_map]

/-! ## Large groups -/

theorem settled?_append (before : List α) (slots : List (Option (Except EvalError α))) :
    settled? (before.map (fun value => some (.ok value)) ++ slots) =
      (settled? slots).map fun result => result.map (before ++ ·) := by
  induction before with
  | nil =>
    rw [List.map_nil, List.nil_append]
    cases settled? slots with
    | none => rfl
    | some result => cases result <;> rfl
  | cons value rest ih =>
    rw [List.map_cons, List.cons_append, settled?, ih]
    cases settled? slots with
    | none => rfl
    | some result => cases result <;> rfl

/-- The slots of a group whose first siblings have finished with these values. -/
def slotsAfter (before : List α) (rest : List (Run α)) : List (Option (Except EvalError α)) :=
  before.map (fun value => some (.ok value)) ++ rest.map fun _ => none

theorem set_slotsAfter (before : List α) (run : Run α) (rest : List (Run α))
    (outcome : Except EvalError α) :
    (slotsAfter before (run :: rest)).set before.length (some outcome) =
      before.map (fun value => some (.ok value)) ++ some outcome :: rest.map fun _ => none := by
  simp [slotsAfter]

theorem slotsAfter_snoc (before : List α) (value : α) (rest : List (Run α)) :
    slotsAfter (before ++ [value]) rest =
      before.map (fun value => some (.ok value)) ++ some (.ok value) :: rest.map fun _ => none := by
  simp [slotsAfter]

/-- With the first siblings finished, the others finish one after the other. -/
theorem joinMany_of_pauses {runs : List (Run α)} (steady : ∀ run ∈ runs, run.pauses = 0)
    (before : List α) (again : Bool) :
    joinMany (slotsAfter before runs) ((List.range' before.length runs.length).zip runs) again =
      (inSequence runs).map (before ++ ·) := by
  induction runs generalizing before again with
  | nil =>
    rw [List.length_nil, List.range'_zero, List.zip_nil_left, joinMany, slotsAfter, List.map_nil,
      settled?_append]
    rfl
  | cons run rest ih =>
    obtain ⟨first, others⟩ := List.forall_mem_cons.1 steady
    rw [List.length_cons, List.range'_succ, List.zip_cons_cons, joinMany, inSequence, map_bind,
      bind_of_pauses first]
    split
    · rename_i entries outcome advanced
      rw [advance_of_pauses first] at advanced
      cases advanced
      simp only [set_slotsAfter]
      rw [settled?_append]
      cases run.outcome with
      | error error => rfl
      | ok value =>
        cases rest with
        | nil => rfl
        | cons next rest =>
          have longer := ih others (before ++ [value]) false
          rw [slotsAfter_snoc, List.length_append, List.length_singleton] at longer
          have unsettled : settled? (some (Except.ok value) :: (next :: rest).map fun _ => none) =
            none := rfl
          rw [unsettled, Option.map_none]
          simp only [map_map]
          rw [longer]
          simp only [List.append_assoc, List.singleton_append]
    · rename_i entries next advanced
      rw [advance_of_pauses first] at advanced
      cases advanced

/-! ## Groups of any size -/

/-- Siblings that never suspend run one after the other. -/
theorem joinAll_of_pauses {runs : List (Run α)} (steady : ∀ run ∈ runs, run.pauses = 0) :
    joinAll runs = inSequence runs := by
  unfold joinAll
  split
  · exact joinFew_of_pauses steady
  · have whole := joinMany_of_pauses steady [] false
    rw [List.length_nil, ← List.range_eq_range'] at whole
    exact whole.trans (map_id _)

/-- Runs that have ended with values end as one with the list of the values. -/
theorem joinAll_ok (values : List α) : joinAll (values.map Run.ok) = .ok values := by
  have steady : ∀ run ∈ values.map Run.ok, run.pauses = 0 := by
    intro run mem
    obtain ⟨value, _, rfl⟩ := List.mem_map.1 mem
    rfl
  rw [joinAll_of_pauses steady]
  induction values with
  | nil => rfl
  | cons value rest ih =>
    rw [List.map_cons, inSequence, ih fun run mem => steady run (List.mem_cons_of_mem _ mem)]
    rfl

end JsonExpr.Run
