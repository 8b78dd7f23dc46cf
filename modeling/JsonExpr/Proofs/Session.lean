import JsonExpr.Proofs.Errors
import JsonExpr.Session

/-!
The cache of a session and the sharing of its grammars do not show. `Direct` is a session that has
neither: it reads every source anew, and keeps with each expression what its evaluation gives. The
answers of a session are those of the direct one.

Two invariants carry this. The cache is in step with the present grammar (`Engine.Faithful`), and
the counts of holders are exact (`Shared.Counts`), so a grammar that is changed in place is not held
by any expression.
-/

namespace JsonExpr

/-! ## Sharing -/

namespace Shared

variable {α β : Type} {s : Shared α} {address other : Nat} {addresses : List Nat}

theorem assign_self (f : Nat → β) (address : Nat) (value : β) :
    assign f address value address = value :=
  if_pos rfl

theorem assign_of_ne (f : Nat → β) (different : other ≠ address) (value : β) :
    assign f address value other = f other :=
  if_neg different

theorem holders_hold (s : Shared α) (address : Nat) :
    (s.hold address).holders = assign s.holders address (s.holders address + 1) := rfl

theorem holders_release (s : Shared α) (address : Nat) :
    (s.release address).holders = assign s.holders address (s.holders address - 1) := rfl

theorem holders_allocate (s : Shared α) (value : α) :
    (s.allocate value).holders = assign s.holders s.next 1 := rfl

/-- The counts are those of the holders, whose addresses these are, and the holders use no free
address. -/
structure Counts (s : Shared α) (addresses : List Nat) : Prop where
  holders : ∀ address, s.holders address = addresses.count address
  used : ∀ address ∈ addresses, address < s.next

theorem counts_new (value : α) : (new value).Counts [0] := by
  refine ⟨fun address => ?_, List.forall_mem_singleton.2 Nat.zero_lt_one⟩
  by_cases zero : address = 0
  · subst zero
    rfl
  · rw [List.count_cons_of_ne (Ne.symm zero)]
    exact if_neg zero

namespace Counts

theorem perm {others : List Nat} (counts : s.Counts addresses) (same : addresses.Perm others) :
    s.Counts others :=
  ⟨fun address => (counts.holders address).trans (same.count_eq address),
    fun address mem => counts.used address (same.mem_iff.2 mem)⟩

theorem hold (counts : s.Counts addresses) (mem : address ∈ addresses) :
    (s.hold address).Counts (address :: addresses) := by
  refine ⟨fun other => ?_, List.forall_mem_cons.2 ⟨counts.used address mem, counts.used⟩⟩
  by_cases same : other = address
  · subst same
    rw [holders_hold, assign_self, List.count_cons_self, counts.holders]
  · rw [holders_hold, assign_of_ne _ same, List.count_cons_of_ne (Ne.symm same), counts.holders]

theorem release (counts : s.Counts (address :: addresses)) :
    (s.release address).Counts addresses := by
  refine ⟨fun other => ?_, fun other mem => counts.used other (List.mem_cons_of_mem _ mem)⟩
  by_cases same : other = address
  · subst same
    rw [holders_release, assign_self, counts.holders, List.count_cons_self, Nat.add_sub_cancel]
  · rw [holders_release, assign_of_ne _ same, counts.holders, List.count_cons_of_ne (Ne.symm same)]

theorem not_mem_next (counts : s.Counts addresses) : s.next ∉ addresses :=
  fun mem => Nat.lt_irrefl _ (counts.used _ mem)

theorem allocate (counts : s.Counts addresses) (value : α) :
    (s.allocate value).Counts (s.next :: addresses) := by
  refine ⟨fun other => ?_, List.forall_mem_cons.2 ⟨Nat.lt_succ_self _, fun other mem => ?_⟩⟩
  · by_cases same : other = s.next
    · subst same
      rw [holders_allocate, assign_self, List.count_cons_self,
        List.count_eq_zero.2 counts.not_mem_next]
    · rw [holders_allocate, assign_of_ne _ same, counts.holders,
        List.count_cons_of_ne (Ne.symm same)]
  · exact Nat.lt_succ_of_lt (counts.used other mem)

/-- The holder that changes the value goes on with the returned address. -/
theorem modify (counts : s.Counts (address :: addresses)) (change : α → α) :
    (s.modify address change).1.Counts ((s.modify address change).2 :: addresses) := by
  unfold Shared.modify
  split
  · exact ⟨counts.holders, counts.used⟩
  · exact counts.release.allocate _

end Counts

theorem contents_modify_self (s : Shared α) (address : Nat) (change : α → α) :
    (s.modify address change).1.contents (s.modify address change).2 =
      change (s.contents address) := by
  unfold modify
  split
  · exact assign_self _ _ _
  · exact assign_self _ _ _

/-- No other holder sees the change: a value that is changed in place has no other holder, and the
address of a copy was free. -/
theorem contents_modify_of_mem (counts : s.Counts (address :: addresses)) (change : α → α)
    (mem : other ∈ addresses) : (s.modify address change).1.contents other = s.contents other := by
  unfold modify
  split
  · rename_i alone
    refine assign_of_ne _ ?_ _
    rintro rfl
    have count := counts.holders other
    rw [alone, List.count_cons_self] at count
    have positive := List.count_pos_iff.2 mem
    omega
  · refine assign_of_ne _ ?_ _
    rintro rfl
    exact counts.not_mem_next (List.mem_cons_of_mem _ mem)

end Shared

/-! ## Sessions without a cache -/

/-- A session that reads every source anew. Of an expression it keeps what its evaluation in a
context gives. -/
structure Direct where
  dialect : Dialect
  behaviours : List (Option (Value → Run Value))

namespace Direct

def new (options : ParseOptions) : Direct :=
  ⟨⟨.standard, options⟩, []⟩

/-- The behaviour of that number. -/
def behaviour? (d : Direct) (number : Nat) : Option (Value → Run Value) :=
  d.behaviours[number]?.join

/-- What a step does and gives. -/
def step (d : Direct) : Session.Step → Direct × Session.Answer
  | .enableCache => (d, .done)
  | .setOptions options => ({ d with dialect := ⟨d.dialect.grammar, options⟩ }, .done)
  | .change change =>
    ({ d with dialect := ⟨change d.dialect.grammar, d.dialect.options⟩ }, .done)
  | .compile source =>
    match d.dialect.read source with
    | .ok tree =>
      (⟨d.dialect, d.behaviours ++ [some fun context => tree.evaluate d.dialect.grammar context]⟩,
        .compiled d.behaviours.length tree)
    | .error error => (⟨d.dialect, d.behaviours ++ [none]⟩, .failed error)
  | .evaluate source context =>
    match d.dialect.read source with
    | .ok tree => (d, .ran (tree.evaluate d.dialect.grammar context))
    | .error error => (d, .failed error)
  | .run number context =>
    match d.behaviour? number with
    | some behaviour => (d, .ran (behaviour context))
    | none => (d, .noSuchExpression)
  | .copy number =>
    match d.behaviour? number with
    | some behaviour =>
      (⟨d.dialect, d.behaviours ++ [some behaviour]⟩, .copied d.behaviours.length)
    | none => (d, .noSuchExpression)
  | .drop number =>
    match d.behaviour? number with
    | some _ => (⟨d.dialect, d.behaviours.set number none⟩, .done)
    | none => (d, .noSuchExpression)

/-- The session after some steps. -/
def after (d : Direct) (steps : List Session.Step) : Direct :=
  steps.foldl (fun d step => (d.step step).1) d

/-- The answers to some steps. -/
def answers (d : Direct) : List Session.Step → List Session.Answer
  | [] => []
  | step :: rest => (d.step step).2 :: answers (d.step step).1 rest

end Direct

namespace Session

variable {s : Session}

/-- The session as it looks from outside. -/
def direct (s : Session) : Direct :=
  ⟨s.engine.dialect, s.held.map (Option.map fun held => (s.expression held).evaluate)⟩

/-- The addresses of the grammar that the engine holds and of those that the expressions hold. -/
def addresses (s : Session) : List Nat :=
  s.grammar :: s.held.filterMap (Option.map Held.grammar)

/-- The cache is in step with the grammar, and the counts of holders are exact. -/
structure Sound (s : Session) : Prop where
  faithful : s.engine.Faithful
  counts : s.grammars.Counts s.addresses

theorem sound_new (options : ParseOptions) : (new options).Sound where
  faithful := Engine.Reachable.faithful (.new options)
  counts := Shared.counts_new Grammar.standard

/-! ## Steps -/

theorem behaviour?_direct (s : Session) (number : Nat) :
    s.direct.behaviour? number = (s.held? number).map fun held => (s.expression held).evaluate := by
  rw [Direct.behaviour?, direct, held?, List.getElem?_map]
  rcases s.held[number]? with _ | _ | held <;> rfl

/-- What the expressions do depends on the grammars at their addresses only. -/
theorem behaviours_congr {s t : Session} (same : ∀ held, some held ∈ s.held →
      t.grammars.contents held.grammar = s.grammars.contents held.grammar) :
    s.held.map (Option.map fun held => (t.expression held).evaluate) = s.direct.behaviours := by
  refine List.map_congr_left fun entry mem => ?_
  cases entry with
  | none => rfl
  | some held => rw [Option.map_some, Option.map_some, expression, expression, same held mem]

theorem grammar_mem_others {held : Held} (mem : some held ∈ s.held) :
    held.grammar ∈ s.held.filterMap (Option.map Held.grammar) :=
  List.mem_filterMap.2 ⟨some held, mem, rfl⟩

theorem mem_of_held? {number : Nat} {held : Held} (found : s.held? number = some held) :
    some held ∈ s.held := by
  rw [held?, Option.join_eq_some_iff] at found
  exact List.mem_of_getElem? found

/-- The step keeps the session sound, and it is that of the direct session, with the same answer. -/
def Mirrored (s : Session) (step : Step) : Prop :=
  (s.step step).1.Sound ∧ s.direct.step step = ((s.step step).1.direct, (s.step step).2)

/-- The change of a grammar is seen by the engine, and by no expression. -/
theorem Sound.mirrored_change (sound : s.Sound) (change : Grammar → Grammar) :
    s.Mirrored (.change change) := by
  have own := Shared.contents_modify_self s.grammars s.grammar change
  have engine : (s.step (.change change)).1.engine = s.engine.updateGrammar change := by
    rw [step, Session.engine]
    simp only [own]
    rfl
  have behaviours := behaviours_congr (s := s) (t := (s.step (.change change)).1)
    fun held mem => Shared.contents_modify_of_mem sound.counts change (grammar_mem_others mem)
  have direct : (s.step (.change change)).1.direct = (s.direct.step (.change change)).1 := by
    rw [Session.direct, engine]
    exact congrArg (Direct.mk _) behaviours
  refine ⟨⟨?_, sound.counts.modify change⟩, Prod.ext direct.symm rfl⟩
  rw [engine]
  exact sound.faithful.step (.updateGrammar change)

theorem engine_keep {e : Engine} (same : e.dialect = s.engine.dialect) : (s.keep e).engine = e := by
  obtain ⟨dialect, cache, nextId⟩ := e
  cases same
  rfl

/-- What the engine keeps after a compilation changes nothing else. -/
theorem Sound.keep (sound : s.Sound) (source : String) :
    (s.keep (s.engine.compile source).1).Sound ∧
      (s.keep (s.engine.compile source).1).direct = s.direct := by
  have engine := engine_keep (s.engine.dialect_compile source)
  refine ⟨⟨?_, sound.counts⟩, rfl⟩
  rw [engine]
  exact sound.faithful.compile source

theorem Sound.add (sound : s.Sound) {held : Held} (mem : held.grammar ∈ s.addresses) :
    (s.add held).Sound ∧
      (s.add held).direct =
        ⟨s.direct.dialect, s.direct.behaviours ++ [some (s.expression held).evaluate]⟩ := by
  have addresses : (held.grammar :: s.addresses).Perm (s.add held).addresses := by
    rw [Session.addresses, Session.addresses, Session.add, List.filterMap_append]
    exact (List.Perm.swap _ _ _).trans ((List.perm_append_singleton _ _).symm.cons _)
  refine ⟨⟨sound.faithful, (sound.counts.hold mem).perm addresses⟩, ?_⟩
  exact congrArg (Direct.mk _) List.map_append

theorem Sound.skip (sound : s.Sound) :
    s.skip.Sound ∧ s.skip.direct = ⟨s.direct.dialect, s.direct.behaviours ++ [none]⟩ := by
  have addresses : s.skip.addresses = s.addresses := by
    rw [Session.addresses, Session.addresses, Session.skip, List.filterMap_append]
    exact congrArg (s.grammar :: ·) (List.append_nil _)
  refine ⟨⟨sound.faithful, ?_⟩, ?_⟩
  · rw [addresses]
    exact sound.counts
  · exact congrArg (Direct.mk _) List.map_append

theorem length_behaviours (s : Session) : s.direct.behaviours.length = s.held.length :=
  List.length_map _

theorem Sound.mirrored_compile (sound : s.Sound) (source : String) :
    s.Mirrored (.compile source) := by
  obtain ⟨kept, same⟩ := sound.keep source
  rw [Mirrored, step, Direct.step]
  cases compiled : s.engine.compile source with
  | mk e result =>
    rw [compiled] at kept same
    cases result with
    | error error =>
      have read : s.direct.dialect.read source = .error error :=
        Engine.of_compile_eq_error (congrArg Prod.snd compiled)
      obtain ⟨skipped, direct⟩ := kept.skip
      simp only [read]
      exact ⟨skipped, Prod.ext direct.symm rfl⟩
    | ok expression =>
      have read : s.direct.dialect.read source = .ok expression.tree.expr :=
        (sound.faithful.of_compile_eq_ok (congrArg Prod.snd compiled)).1
      have own : s.grammar ∈ s.addresses := List.mem_cons_self
      obtain ⟨added, direct⟩ := @Sound.add _ kept ⟨source, expression.tree, s.grammar⟩ own
      simp only [read, length_behaviours]
      exact ⟨added, Prod.ext direct.symm rfl⟩

theorem Sound.mirrored_evaluate (sound : s.Sound) (source : String) (context : Value) :
    s.Mirrored (.evaluate source context) := by
  obtain ⟨kept, same⟩ := sound.keep source
  have answer := sound.faithful.evaluate_eq source context
  rw [← s.engine.engine_evaluate source context] at kept same
  rw [Mirrored, step, Direct.step]
  cases evaluated : s.engine.evaluate source context with
  | mk e result =>
    rw [evaluated] at kept same answer
    cases read : s.engine.dialect.read source with
    | error error =>
      rw [read] at answer
      cases answer
      simp only [direct, read]
      exact ⟨kept, Prod.ext same.symm rfl⟩
    | ok expr =>
      rw [read] at answer
      cases answer
      simp only [direct, read]
      exact ⟨kept, Prod.ext same.symm rfl⟩

theorem Sound.mirrored_run (sound : s.Sound) (number : Nat) (context : Value) :
    s.Mirrored (.run number context) := by
  rw [Mirrored, step, Direct.step, behaviour?_direct, expression?]
  cases s.held? number with
  | none => exact ⟨sound, rfl⟩
  | some held => exact ⟨sound, rfl⟩

theorem Sound.mirrored_copy (sound : s.Sound) (number : Nat) : s.Mirrored (.copy number) := by
  rw [Mirrored, step, Direct.step, behaviour?_direct]
  cases found : s.held? number with
  | none => exact ⟨sound, rfl⟩
  | some held =>
    obtain ⟨added, direct⟩ :=
      sound.add (List.mem_cons_of_mem _ (grammar_mem_others (mem_of_held? found)))
    simp only [Option.map_some, length_behaviours]
    exact ⟨added, Prod.ext direct.symm rfl⟩

/-- An expression that is given up is one holder less. -/
theorem filterMap_set_none {α β : Type} {f : α → β} {items : List (Option α)} {number : Nat}
    {item : α} (found : items[number]? = some (some item)) :
    (items.filterMap (Option.map f)).Perm
      (f item :: (items.set number none).filterMap (Option.map f)) := by
  induction items generalizing number with
  | nil => cases found
  | cons first rest ih =>
    cases number with
    | zero =>
      cases found
      exact .refl _
    | succ number =>
      have rest := @ih number found
      cases first with
      | none => exact rest
      | some value => exact (rest.cons (f value)).trans (.swap _ _ _)

theorem Sound.mirrored_drop (sound : s.Sound) (number : Nat) : s.Mirrored (.drop number) := by
  rw [Mirrored, step, Direct.step, behaviour?_direct]
  cases found : s.held? number with
  | none => exact ⟨sound, rfl⟩
  | some held =>
    have place := found
    rw [held?, Option.join_eq_some_iff] at place
    have addresses : s.addresses.Perm (held.grammar :: s.grammar ::
        (s.held.set number none).filterMap (Option.map Held.grammar)) :=
      ((filterMap_set_none place).cons s.grammar).trans (.swap _ _ _)
    refine ⟨⟨sound.faithful, (sound.counts.perm addresses).release⟩, Prod.ext ?_ rfl⟩
    have behaviours : (s.held.set number none).map
        (Option.map fun held => (s.expression held).evaluate) =
          s.direct.behaviours.set number none := List.map_set
    exact congrArg (Direct.mk _) behaviours.symm

/-- Every step of a session is that of the direct one. -/
theorem Sound.mirrored (sound : s.Sound) (step : Step) : s.Mirrored step := by
  cases step with
  | enableCache => exact ⟨⟨sound.faithful.step .enableCache, sound.counts⟩, rfl⟩
  | setOptions options => exact ⟨⟨sound.faithful.step (.setOptions options), sound.counts⟩, rfl⟩
  | change change => exact sound.mirrored_change change
  | compile source => exact sound.mirrored_compile source
  | evaluate source context => exact sound.mirrored_evaluate source context
  | run number context => exact sound.mirrored_run number context
  | copy number => exact sound.mirrored_copy number
  | drop number => exact sound.mirrored_drop number

/-! ## Whole sessions -/

theorem Sound.answers_eq (sound : s.Sound) (steps : List Step) :
    s.answers steps = s.direct.answers steps := by
  induction steps generalizing s with
  | nil => rfl
  | cons step rest ih =>
    obtain ⟨next, same⟩ := sound.mirrored step
    rw [answers, Direct.answers, same, ih next]

theorem Sound.after (sound : s.Sound) (steps : List Step) :
    (s.after steps).Sound ∧ (s.after steps).direct = s.direct.after steps := by
  induction steps generalizing s with
  | nil => exact ⟨sound, rfl⟩
  | cons step rest ih =>
    obtain ⟨next, same⟩ := sound.mirrored step
    obtain ⟨last, lastSame⟩ := ih next
    refine ⟨last, lastSame.trans ?_⟩
    rw [Direct.after, Direct.after, List.foldl_cons, same]

end Session

namespace Direct

variable {d : Direct} {number : Nat}

/-- What an expression does stays until it is given up. -/
theorem behaviour?_step (inside : number < d.behaviours.length) {step : Session.Step}
    (kept : step ≠ .drop number) :
    number < (d.step step).1.behaviours.length ∧
      (d.step step).1.behaviour? number = d.behaviour? number := by
  have snoc (behaviour : Option (Value → Run Value)) :
      number < (d.behaviours ++ [behaviour]).length ∧
        ((d.behaviours ++ [behaviour])[number]?).join = d.behaviour? number := by
    rw [List.length_append, List.getElem?_append_left inside]
    exact ⟨Nat.lt_add_right _ inside, rfl⟩
  cases step with
  | enableCache => exact ⟨inside, rfl⟩
  | setOptions options => exact ⟨inside, rfl⟩
  | change change => exact ⟨inside, rfl⟩
  | compile source =>
    rw [step]
    split
    · exact snoc _
    · exact snoc _
  | evaluate source context =>
    rw [step]
    split
    · exact ⟨inside, rfl⟩
    · exact ⟨inside, rfl⟩
  | run other context =>
    rw [step]
    split
    · exact ⟨inside, rfl⟩
    · exact ⟨inside, rfl⟩
  | copy other =>
    rw [step]
    split
    · exact snoc _
    · exact ⟨inside, rfl⟩
  | drop other =>
    have different : other ≠ number := by
      rintro rfl
      exact kept rfl
    rw [step]
    split
    · refine ⟨by rwa [List.length_set], ?_⟩
      rw [behaviour?, List.getElem?_set_ne different]
      rfl
    · exact ⟨inside, rfl⟩

theorem behaviour?_after (inside : number < d.behaviours.length) {steps : List Session.Step}
    (kept : .drop number ∉ steps) : (d.after steps).behaviour? number = d.behaviour? number := by
  induction steps generalizing d with
  | nil => rfl
  | cons step rest ih =>
    obtain ⟨first, others⟩ := List.ne_and_not_mem_of_not_mem_cons kept
    obtain ⟨inside, same⟩ := behaviour?_step inside (Ne.symm first)
    rw [after, List.foldl_cons]
    exact (ih inside others).trans same

theorem answer_run_congr {d e : Direct} (same : d.behaviour? number = e.behaviour? number)
    (context : Value) : (d.step (.run number context)).2 = (e.step (.run number context)).2 := by
  rw [step, step, same]
  cases e.behaviour? number <;> rfl

theorem length_step_compile (d : Direct) (source : String) :
    (d.step (.compile source)).1.behaviours.length = d.behaviours.length + 1 := by
  rw [step]
  split
  · exact List.length_append
  · exact List.length_append

end Direct

namespace Session

theorem Sound.answer_eq {s : Session} (sound : s.Sound) (step : Step) :
    (s.step step).2 = (s.direct.step step).2 := by
  rw [(sound.mirrored step).2]

theorem after_append (s : Session) (before after : List Step) :
    s.after (before ++ after) = (s.after before).after after :=
  List.foldl_append

/-- A compiled expression does what it did at first, unless it was given up. -/
theorem Sound.answer_run {s : Session} (sound : s.Sound) (source : String) {after : List Step}
    (kept : .drop s.held.length ∉ after) (context : Value) :
    (((s.step (.compile source)).1.after after).step (.run s.held.length context)).2 =
      ((s.step (.compile source)).1.step (.run s.held.length context)).2 := by
  obtain ⟨first, compiled⟩ := sound.mirrored (.compile source)
  obtain ⟨last, later⟩ := first.after after
  have inside : s.held.length < (s.step (.compile source)).1.direct.behaviours.length := by
    have length := s.direct.length_step_compile source
    rw [compiled, length_behaviours s] at length
    rw [length]
    exact Nat.lt_succ_self _
  rw [last.answer_eq, first.answer_eq, later]
  exact Direct.answer_run_congr (Direct.behaviour?_after inside kept) context

/-- Whatever a host does, it gets the answers of a session that reads every source anew, with the
grammar and the rules of that moment. And what a compiled expression does, under the number that it
got, is what it did at first, whatever happened since, unless it was given up. -/
theorem answers_eq_direct (options : ParseOptions) :
    (∀ steps, (new options).answers steps = (Direct.new options).answers steps) ∧
      ∀ before source after context number,
        number = ((new options).after before).held.length → .drop number ∉ after →
        (((new options).after (before ++ .compile source :: after)).step
            (.run number context)).2 =
          (((new options).after (before ++ [.compile source])).step (.run number context)).2 := by
  refine ⟨(sound_new options).answers_eq, ?_⟩
  rintro before source after context _ rfl kept
  rw [after_append, after_append]
  exact ((sound_new options).after before).1.answer_run source kept context

/-- From now on `refuse` gives null. -/
def pardon : Step :=
  .change fun g => g.addFunction "refuse" fun _ => .ok .null

/-- A call that was compiled before the change fails as it did then. -/
theorem answers_eq_direct_pardon :
    (new {}).answers [.change fun _ => Expr.noting, .enableCache, .compile "refuse(null)", pardon,
        .run 0 .null] =
      [.done, .done, .compiled 0 (.call .functions "refuse" [.literal .null]), .done,
        .ran (.record .null (.fail (.callable "refuse" (.custom "refused"))))] ∧
      (((new {}).after ([.change fun _ => Expr.noting] ++ .compile "refuse(null)" :: [pardon])).step
          (.run 0 .null)).2 =
        (((new {}).after ([.change fun _ => Expr.noting] ++ [.compile "refuse(null)"])).step
          (.run 0 .null)).2 := by
  obtain ⟨answers, runs⟩ := answers_eq_direct {}
  have kept : .drop 0 ∉ [pardon] := fun mem => nomatch List.mem_singleton.1 mem
  refine ⟨(answers _).trans ?_, runs _ _ _ _ _ rfl kept⟩
  simp only [Direct.answers, Direct.step, Direct.new, read_refusal]
  rfl

end Session

end JsonExpr
