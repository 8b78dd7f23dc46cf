import JsonExpr.Proofs.Parser.Steps

/-!
Whole runs of the parser in terms of levels. `Reads d ts reading` says what a row of tokens amounts
to when it is read from the start of a level: the level itself as far as it has come, the owner of
a nested level that is about to begin, or a tree. A nested level enters only through what it
amounts to, so there is no stack in it.

* `Explains` cuts the tokens read so far into one row for each owner; with it every successful run
  of the parser is a reading.
* `Parser.Leads` is a run from one phase to another; with it every reading is a run of the parser,
  whoever waits outside.

The main statement is `parse_eq_ok_iff`.
-/

namespace JsonExpr

/-- What a row of tokens amounts to, read from the start of a level. -/
inductive Reading
  /-- The level goes on, or it waits for a nested one. -/
  | step (step : Step)
  /-- The level is at its end and gives this tree. -/
  | tree (tree : Expr)

/-- A row of tokens, read from the start of a level. -/
inductive Reads (d : Dialect) : List Token → Reading → Prop
  | fresh : Reads d [] (.step (.stay .fresh))
  | accept {ts : List Token} {level : Level} {t : Token} {step : Step} :
    Reads d ts (.step (.stay level)) → Accepts d level t step → Reads d (ts ++ [t]) (.step step)
  | result {ts : List Token} {level : Level} {tree : Expr} :
    Reads d ts (.step (.stay level)) → level.result? = some (some tree) → Reads d ts (.tree tree)
  | choice {ts us : List Token} {spine : Spine} {test alternate : Expr}
      {consequent : Option Expr} :
    Reads d ts (.step (.enter ⟨spine, .alternate test consequent⟩)) →
    Reads d us (.tree alternate) →
    Reads d (ts ++ us) (.tree (Parser.choice test consequent alternate))
  | close {ts us : List Token} {owner : Owner} {tree : Expr} {t : Token} {step : Step} :
    Reads d ts (.step (.enter owner)) → Reads d us (.tree tree) →
    Closes owner t (some tree) step → Reads d (ts ++ us ++ [t]) (.step step)
  | closeEmpty {ts : List Token} {owner : Owner} {t : Token} {step : Step} :
    Reads d ts (.step (.enter owner)) → Closes owner t none step →
    Reads d (ts ++ [t]) (.step step)

variable {d : Dialect}

/-! ## One token and several -/

theorem map_eq_ok_iff {ε α β : Type} {f : α → β} {x : Except ε α} {b : β} :
    x.map f = .ok b ↔ ∃ a, x = .ok a ∧ f a = b := by
  cases x <;> simp [Except.map]

theorem bind_eq_ok_iff {ε α β : Type} {f : α → Except ε β} {x : Except ε α} {b : β} :
    (x >>= f) = .ok b ↔ ∃ a, x = .ok a ∧ f a = .ok b := by
  cases x <;> simp [bind, Except.bind]

theorem map_eq_error_iff {ε α β : Type} {f : α → β} {x : Except ε α} {error : ε} :
    x.map f = .error error ↔ x = .error error := by
  cases x <;> simp [Except.map]

/-- The second branch of a choice leaves the closing token to its owners. -/
theorem Parser.closable_cons {owner : Owner} {rest : List Owner} {kind : TokenKind}
    (h : closable (owner :: rest) kind = true) :
    owner.slot.closedBy kind = true ∨
      ∃ spine test consequent, owner = ⟨spine, .alternate test consequent⟩ ∧
        closable rest kind = true := by
  rcases owner with ⟨spine, slot⟩
  cases slot with
  | alternate test consequent => exact Or.inr ⟨spine, test, consequent, rfl, h⟩
  | _ => exact Or.inl h

theorem Parser.exists_closedBy_of_closable {owners : List Owner} {kind : TokenKind}
    (h : closable owners kind = true) : ∃ slot : Slot, slot.closedBy kind = true := by
  induction owners with
  | nil => cases h
  | cons owner rest ih =>
    rcases closable_cons h with closedBy | ⟨_, _, _, _, outside⟩
    · exact ⟨owner.slot, closedBy⟩
    · exact ih outside

theorem Parser.closable_of_closedBy {owner : Owner} {rest : List Owner} {kind : TokenKind}
    (closed : owner.slot.closedBy kind = true) : closable (owner :: rest) kind = true := by
  rcases owner with ⟨spine, slot⟩
  cases slot with
  | alternate test consequent => cases closed
  | _ => exact closed

theorem Parser.close_of_closedBy {text : String} {owner : Owner} {rest : List Owner} {t : Token}
    {result : Option Expr} (closed : owner.slot.closedBy t.kind = true) :
    close text t (owner :: rest) result =
      (owner.close text t result).map (afterStep rest) := by
  rcases owner with ⟨spine, slot⟩
  cases slot with
  | alternate test consequent => cases closed
  | _ => rfl

/-- A level that goes on has used the token; else the token has closed it. -/
theorem Parser.add_eq_ok {text : String} {owners : List Owner} {level : Level} {t : Token}
    {p : Parser} (h : Parser.add d ⟨text, .reading owners level⟩ t = .ok p) :
    (∃ step, Accepts d level t step ∧ p.phase = afterStep owners step) ∨
      ∃ result, level.result? = some result ∧ closable owners t.kind = true ∧
        close (text ++ t.raw) t owners result = .ok p.phase := by
  simp only [Parser.add] at h
  split at h
  · rename_i outcome accepted
    obtain ⟨step, rfl, rfl⟩ := map_eq_ok_iff.1 h
    exact Or.inl ⟨step, accept?_eq_ok_iff.1 accepted, rfl⟩
  · split at h
    · rename_i result closes ends
      obtain ⟨phase, closed, rfl⟩ := map_eq_ok_iff.1 h
      exact Or.inr ⟨result, ends, closes, closed⟩
    · cases h

theorem Parser.addAll_cons_eq_ok {p q : Parser} {t : Token} {ts : List Token} :
    p.addAll d (t :: ts) = .ok q ↔ ∃ r, p.add d t = .ok r ∧ r.addAll d ts = .ok q := by
  simp only [Parser.addAll, List.foldlM_cons]
  exact bind_eq_ok_iff

theorem Parser.addAll_append_eq_ok {p q : Parser} {ts us : List Token} :
    p.addAll d (ts ++ us) = .ok q ↔ ∃ r, p.addAll d ts = .ok r ∧ r.addAll d us = .ok q := by
  simp only [Parser.addAll, List.foldlM_append]
  exact bind_eq_ok_iff

/-! ## Every run is a reading -/

/-- The tokens are those that the owners have read, the outermost first. -/
inductive Explains (d : Dialect) : List Token → List Owner → Prop
  | nil : Explains d [] []
  | cons {ts us : List Token} {owner : Owner} {owners : List Owner} :
    Explains d ts owners → Reads d us (.step (.enter owner)) →
    Explains d (ts ++ us) (owner :: owners)

/-- The tokens are those that the owners and the innermost level have read. -/
def Phase.ReadsAs (d : Dialect) (ts : List Token) : Phase → Prop
  | .reading owners level =>
    ∃ before us, ts = before ++ us ∧ Explains d before owners ∧
      Reads d us (.step (.stay level))
  | .complete _ => False

theorem Explains.afterStep {before us : List Token} {owners : List Owner} {step : Step}
    (outer : Explains d before owners) (inner : Reads d us (.step step)) :
    (Parser.afterStep owners step).ReadsAs d (before ++ us) := by
  cases step with
  | stay level => exact ⟨before, us, rfl, outer, inner⟩
  | enter owner => exact ⟨before ++ us, [], by simp, .cons outer inner, .fresh⟩

/-- The level, whatever it has read, is followed by the token that closes it. -/
theorem Explains.close {text : String} {t : Token} {owners : List Owner} {phase : Phase} :
    ∀ {before us : List Token} {tree : Expr}, Parser.closable owners t.kind = true →
      Parser.close text t owners (some tree) = .ok phase →
      Explains d before owners → Reads d us (.tree tree) →
      phase.ReadsAs d (before ++ us ++ [t]) := by
  induction owners with
  | nil => intro before us tree closable; cases closable
  | cons owner rest ih =>
    intro before us tree closable closed outer inner
    cases outer with
    | @cons ts vs _ _ outer waiting =>
      rcases Parser.closable_cons closable with closedBy | ⟨spine, test, consequent, rfl, outside⟩
      · rw [Parser.close_of_closedBy closedBy] at closed
        obtain ⟨step, stepped, rfl⟩ := map_eq_ok_iff.1 closed
        have next := Reads.close waiting inner (closes_iff.1 ⟨closedBy, stepped⟩)
        simpa only [List.append_assoc] using outer.afterStep next
      · -- The choice is at its end too, and its tree goes to the owners outside.
        have whole := ih outside closed outer (.choice waiting inner)
        simpa only [List.append_assoc] using whole

/-- A token closes a level that has not begun. -/
theorem Explains.closeEmpty {text : String} {t : Token} {owners : List Owner} {phase : Phase}
    {before : List Token} (closable : Parser.closable owners t.kind = true)
    (closed : Parser.close text t owners none = .ok phase) (outer : Explains d before owners) :
    phase.ReadsAs d (before ++ [t]) := by
  cases outer with
  | nil => cases closable
  | @cons ts vs owner rest outer waiting =>
    rcases Parser.closable_cons closable with closedBy | ⟨spine, test, consequent, rfl, outside⟩
    · rw [Parser.close_of_closedBy closedBy] at closed
      obtain ⟨step, stepped, rfl⟩ := map_eq_ok_iff.1 closed
      have next := Reads.closeEmpty waiting (closes_iff.1 ⟨closedBy, stepped⟩)
      simpa only [List.append_assoc] using outer.afterStep next
    · cases closed

theorem Level.result?_eq_some_none {level : Level} (ends : level.result? = some none) :
    level = .fresh := by
  rcases level with ⟨spine, mode⟩
  cases mode with
  | operand =>
    cases spine with
    | nil => rfl
    | cons op rest => cases ends
  | _ => cases spine <;> cases ends

theorem Accepts.not_fresh {level : Level} {t : Token} :
    ¬ Accepts d level t (.stay .fresh) := by
  intro accepted
  cases accepted

theorem Closes.not_fresh {owner : Owner} {t : Token} {result : Option Expr} :
    ¬ Closes owner t result (.stay .fresh) := by
  intro closes
  cases closes

/-- A level has begun as soon as it has read a token. -/
theorem Reads.eq_nil_of_fresh {ts : List Token} (reads : Reads d ts (.step (.stay .fresh))) :
    ts = [] := by
  cases reads with
  | fresh => rfl
  | accept _ accepted => exact (Accepts.not_fresh accepted).elim
  | close _ _ closes => exact (Closes.not_fresh closes).elim
  | closeEmpty _ closes => exact (Closes.not_fresh closes).elim

/-- One more token is one more token read. -/
theorem Phase.ReadsAs.add {text : String} {phase : Phase} {ts : List Token} {t : Token}
    {p : Parser} (before : phase.ReadsAs d ts) (h : Parser.add d ⟨text, phase⟩ t = .ok p) :
    p.phase.ReadsAs d (ts ++ [t]) := by
  cases phase with
  | complete parsed => exact before.elim
  | reading owners level =>
    obtain ⟨before, us, rfl, outer, inner⟩ := before
    rcases Parser.add_eq_ok h with ⟨step, accepted, after⟩ | ⟨result, ends, closable, closed⟩
    · rw [after]
      simpa only [List.append_assoc] using outer.afterStep (.accept inner accepted)
    · cases result with
      | some tree => exact outer.close closable closed (.result inner ends)
      | none =>
        have fresh := Level.result?_eq_some_none ends
        subst fresh
        have empty := inner.eq_nil_of_fresh
        subst empty
        simpa only [List.append_nil] using outer.closeEmpty closable closed

theorem Phase.ReadsAs.addAll {us : List Token} :
    ∀ {p q : Parser} {ts : List Token}, p.phase.ReadsAs d ts → p.addAll d us = .ok q →
      q.phase.ReadsAs d (ts ++ us) := by
  induction us with
  | nil =>
    intro p q ts before h
    cases h
    simpa only [List.append_nil] using before
  | cons t us ih =>
    intro p q ts before h
    obtain ⟨r, first, rest⟩ := Parser.addAll_cons_eq_ok.1 h
    have next := ih (before.add first) rest
    simpa only [List.append_assoc, List.singleton_append] using next

/-- At the end of the text all owners are choices, and they end there too. -/
theorem Explains.finish {owners : List Owner} :
    ∀ {before us : List Token} {tree whole : Expr},
      Parser.finish? owners tree = some whole → Explains d before owners →
      Reads d us (.tree tree) → Reads d (before ++ us) (.tree whole) := by
  induction owners with
  | nil =>
    intro before us tree whole finished outer inner
    cases outer
    cases finished
    exact inner
  | cons owner rest ih =>
    intro before us tree whole finished outer inner
    cases outer with
    | @cons ts vs _ _ outer waiting =>
      rcases owner with ⟨spine, slot⟩
      cases slot with
      | alternate test consequent =>
        have rest := ih finished outer (.choice waiting inner)
        simpa only [List.append_assoc] using rest
      | _ => cases finished

/-- A tree at the end comes from a level that may end there. -/
theorem Parser.complete_eq_some {p : Parser} {tree : Expr}
    (h : p.complete.1 = .ok (some tree)) :
    ∃ owners level inner, p.phase = .reading owners level ∧
      level.result? = some (some inner) ∧ finish? owners inner = some tree := by
  rcases p with ⟨text, phase⟩
  cases phase with
  | complete parsed => cases parsed <;> cases h
  | reading owners level =>
    cases ends : level.result? with
    | none => simp [complete, ends] at h
    | some result =>
      cases result with
      | none => cases owners <;> simp [complete, ends] at h
      | some inner =>
        cases finished : finish? owners inner with
        | none => simp [complete, ends, finished] at h
        | some whole =>
          simp only [complete, ends, finished, Except.ok.injEq, Option.some.injEq] at h
          exact ⟨owners, level, inner, rfl, ends, h ▸ finished⟩

theorem Parser.parse_eq_ok {ts : List Token} {tree : Expr} :
    parse d ts = .ok tree ↔
      ∃ p, start.addAll d ts = .ok p ∧ p.complete.1 = .ok (some tree) := by
  unfold parse
  cases start.addAll d ts with
  | error error => simp [bind, Except.bind]
  | ok p =>
    cases completed : p.complete.1 with
    | error error => simp [bind, Except.bind, completed]
    | ok result => cases result <;> simp [bind, Except.bind, completed]

theorem Reads.of_parse {ts : List Token} {tree : Expr} (h : Parser.parse d ts = .ok tree) :
    Reads d ts (.tree tree) := by
  obtain ⟨p, run, completed⟩ := Parser.parse_eq_ok.1 h
  obtain ⟨owners, level, inner, phase, ends, finished⟩ := Parser.complete_eq_some completed
  have start : Parser.start.phase.ReadsAs d [] := ⟨[], [], rfl, .nil, .fresh⟩
  have reads := start.addAll run
  rw [phase] at reads
  obtain ⟨before, us, split, outer, level⟩ := reads
  rw [List.nil_append] at split
  rw [split]
  exact outer.finish finished (.result level ends)

/-! ## Every reading is a run -/

/-- The tokens lead from one phase to another, whatever text has been read before them. -/
def Parser.Leads (d : Dialect) (phase : Phase) (ts : List Token) (after : Phase) : Prop :=
  ∀ text, ∃ text', Parser.addAll d ⟨text, phase⟩ ts = .ok ⟨text', after⟩

theorem Parser.Leads.refl (phase : Phase) : Leads d phase [] phase :=
  fun text => ⟨text, rfl⟩

theorem Parser.Leads.trans {phase middle after : Phase} {ts us : List Token}
    (left : Leads d phase ts middle) (right : Leads d middle us after) :
    Leads d phase (ts ++ us) after := by
  intro text
  obtain ⟨text', left⟩ := left text
  obtain ⟨text'', right⟩ := right text'
  exact ⟨text'', addAll_append_eq_ok.2 ⟨_, left, right⟩⟩

theorem Parser.Leads.single {phase after : Phase} {t : Token}
    (h : ∀ text, add d ⟨text, phase⟩ t = .ok ⟨text ++ t.raw, after⟩) :
    Leads d phase [t] after :=
  fun text => ⟨text ++ t.raw, addAll_cons_eq_ok.2 ⟨_, h text, rfl⟩⟩

theorem Accepts.leads {level : Level} {t : Token} {step : Step} {owners : List Owner}
    (accepted : Accepts d level t step) :
    Parser.Leads d (.reading owners level) [t] (Parser.afterStep owners step) := by
  refine .single fun text => ?_
  simp only [Parser.add, accept?_eq_ok_iff.2 accepted]
  rfl

/-- The phase needs only to end to give the tree to these owners: the innermost level may end, and
what stands between it and the owners are choices. -/
inductive Parser.Gives : List Owner → Expr → Phase → Prop
  | level {owners : List Owner} {level : Level} {tree : Expr} :
    level.result? = some (some tree) → Gives owners tree (.reading owners level)
  | choice {owners : List Owner} {spine : Spine} {test alternate : Expr}
      {consequent : Option Expr} {phase : Phase} :
    Gives (⟨spine, .alternate test consequent⟩ :: owners) alternate phase →
    Gives owners (choice test consequent alternate) phase

theorem Parser.Gives.add {owners : List Owner} {tree : Expr} {phase after : Phase} {t : Token}
    {text : String} (gives : Gives owners tree phase)
    (closable : closable owners t.kind = true)
    (closed : close (text ++ t.raw) t owners (some tree) = .ok after) :
    add d ⟨text, phase⟩ t = .ok ⟨text ++ t.raw, after⟩ := by
  induction gives with
  | @level owners level tree ends =>
    have unused : level.accept? d (text ++ t.raw) t = none := by
      obtain ⟨slot, closedBy⟩ := exists_closedBy_of_closable closable
      exact accept?_eq_none_of_closedBy closedBy ends
    simp only [Parser.add, unused, closable, ends, closed]
    rfl
  | choice _ ih => exact ih closable closed

/-- At the token that closes the level the tree goes to its owner. -/
theorem Closes.leads {owner : Owner} {owners : List Owner} {tree : Expr} {phase : Phase}
    {t : Token} {step : Step} (closes : Closes owner t (some tree) step)
    (gives : Parser.Gives (owner :: owners) tree phase) :
    Parser.Leads d phase [t] (Parser.afterStep owners step) := by
  refine .single fun text => ?_
  obtain ⟨closedBy, stepped⟩ : owner.slot.closedBy t.kind = true ∧
      owner.close (text ++ t.raw) t (some tree) = .ok step := closes_iff.2 closes
  refine gives.add (Parser.closable_of_closedBy closedBy) ?_
  rw [Parser.close_of_closedBy closedBy, stepped]
  rfl

theorem Closes.leads_of_fresh {owner : Owner} {owners : List Owner} {t : Token} {step : Step}
    (closes : Closes owner t none step) :
    Parser.Leads d (.reading (owner :: owners) .fresh) [t] (Parser.afterStep owners step) := by
  refine .single fun text => ?_
  obtain ⟨closedBy, stepped⟩ : owner.slot.closedBy t.kind = true ∧
      owner.close (text ++ t.raw) t none = .ok step := closes_iff.2 closes
  have ends : Level.fresh.result? = some none := rfl
  have unused : Level.fresh.accept? d (text ++ t.raw) t = none :=
    accept?_eq_none_of_closedBy closedBy ends
  simp only [Parser.add, unused, Parser.closable_of_closedBy closedBy, ends,
    Parser.close_of_closedBy closedBy, stepped]
  rfl

/-- What a reading is for the parser, whoever waits outside. -/
def Reading.RunsAs (d : Dialect) (ts : List Token) : Reading → Prop
  | .step next =>
    ∀ owners, Parser.Leads d (.reading owners .fresh) ts (Parser.afterStep owners next)
  | .tree result =>
    ∀ owners, ∃ phase, Parser.Leads d (.reading owners .fresh) ts phase ∧
      Parser.Gives owners result phase

theorem Reads.runsAs {ts : List Token} {reading : Reading} (reads : Reads d ts reading) :
    reading.RunsAs d ts := by
  induction reads with
  | fresh => exact fun owners => .refl _
  | accept _ accepted ih => exact fun owners => (ih owners).trans accepted.leads
  | result _ ends ih => exact fun owners => ⟨_, ih owners, .level ends⟩
  | choice _ _ left right =>
    intro owners
    obtain ⟨phase, run, gives⟩ := right (⟨_, .alternate _ _⟩ :: owners)
    exact ⟨phase, (left owners).trans run, .choice gives⟩
  | close _ _ closes left right =>
    intro owners
    obtain ⟨phase, run, gives⟩ := right (_ :: owners)
    exact ((left owners).trans run).trans (closes.leads gives)
  | closeEmpty _ closes ih => exact fun owners => (ih owners).trans closes.leads_of_fresh

theorem Parser.Gives.finish {owners : List Owner} {tree whole : Expr} {phase : Phase}
    {text : String} (gives : Gives owners tree phase)
    (finished : finish? owners tree = some whole) :
    (Parser.mk text phase).complete.1 = .ok (some whole) := by
  induction gives with
  | level ends => simp only [complete, ends, finished]
  | choice _ ih => exact ih finished

/-- The parser gives a tree for exactly the tokens that read as that tree. -/
theorem parse_eq_ok_iff {ts : List Token} {tree : Expr} :
    Parser.parse d ts = .ok tree ↔ Reads d ts (.tree tree) := by
  constructor
  · exact Reads.of_parse
  · intro reads
    obtain ⟨phase, run, gives⟩ := reads.runsAs []
    obtain ⟨text, run⟩ := run ""
    exact Parser.parse_eq_ok.2 ⟨_, run, gives.finish rfl⟩

/-- Tokens read as one tree at most. -/
theorem Reads.tree_unique {ts : List Token} {tree other : Expr} (left : Reads d ts (.tree tree))
    (right : Reads d ts (.tree other)) : tree = other :=
  Except.ok.inj ((parse_eq_ok_iff.2 left).symm.trans (parse_eq_ok_iff.2 right))

end JsonExpr
