import JsonExpr.Proofs.Parser.Reads
import JsonExpr.Proofs.Parser.Sentence

/-!
What the parser reads is a sentence. Each mode and each slot stands for a beginning of a part of
the grammar, `Mode.Spells` and `Slot.Spells`; in front of it stand the operators at the open edge,
whose tokens are followed by an operand, `Edge`. One lemma for the tokens that a level uses and one
for those that close a level carry these beginnings through a reading.
-/

namespace JsonExpr

variable {d : Dialect}

/-! ## Beginnings -/

/-- Together with an operand these tokens are a chain. -/
def Edge (d : Dialect) (spine : Spine) (ts : List Token) : Prop :=
  ∀ names us, Derives d (.operand names) us →
    Derives d (.chain (if spine = [] then names else none)) (ts ++ us)

/-- A list that has `count` elements, each followed by a comma. -/
def Pending (d : Dialect) (part : Phrase) (count : Nat) (ts : List Token) : Prop :=
  (count = 0 ∧ ts = []) ∨
    (0 < count ∧ ∃ us comma, Derives d part us ∧ comma.kind = .comma ∧ ts = us ++ [comma])

/-- An operand is a term; a chain of names that may be called ends in an identifier. -/
def Operand.Spells (d : Dialect) (ts : List Token) : Operand → Prop
  | .plain tree => Derives d (.term tree.names?) ts
  | .named tree =>
    Derives d (.term tree.names?) ts ∧
      ∀ n, tree.names? = some n → ∃ us t, ts = us ++ [t] ∧ t.kind = .identifier
  | .piped _ _ =>
    ∃ us pipe vs m, ts = us ++ [pipe] ++ vs ∧ Derives d (.term m) us ∧ pipe.kind = .pipe ∧
      Derives d .transform vs
  | .called tree => tree.names? = none ∧ Derives d (.term none) ts

/-- The beginning of a term that a mode stands for, or the whole term. -/
def Mode.Spells (d : Dialect) (ts : List Token) : Mode → Prop
  | .operand => ts = []
  | .relativeName => ∃ dot, ts = [dot] ∧ dot.kind = .dot
  | .memberName subject =>
    ∃ us dot, ts = us ++ [dot] ∧ Derives d (.term subject.names?) us ∧ dot.kind = .dot
  | .after last => last.Spells d ts
  | .transformName _ =>
    ∃ us pipe m, ts = us ++ [pipe] ∧ Derives d (.term m) us ∧ pipe.kind = .pipe
  | .transformSegment _ _ =>
    d.options.namespacedTransforms = true ∧
      ∃ us pipe vs dot m, ts = us ++ [pipe] ++ vs ++ [dot] ∧ Derives d (.term m) us ∧
        pipe.kind = .pipe ∧ Derives d .transform vs ∧ dot.kind = .dot
  | .key _ => ∃ opener us n, ts = [opener] ++ us ∧ opener.kind = .openCurl ∧ Pending d .entries n us
  | .colon _ _ =>
    ∃ opener us key n, ts = [opener] ++ us ++ [key] ∧ opener.kind = .openCurl ∧
      Pending d .entries n us ∧ key.IsKey

/-- The beginning of a term that a slot stands for; a choice has no term, but begins a sentence. -/
def Slot.Spells (d : Dialect) (ts : List Token) : Slot → Prop
  | .group => ∃ opener, ts = [opener] ∧ opener.kind = .openParen
  | .bracket _ =>
    ∃ us opener m, ts = us ++ [opener] ∧ Derives d (.term m) us ∧ opener.kind = .openBracket
  | .argument pool _ args =>
    ∃ us opener vs n, ts = us ++ [opener] ++ vs ∧ opener.kind = .openParen ∧
      args.length = (if pool = .transforms then 1 else 0) + n ∧ Pending d .list n vs ∧
      ∀ ws, Derives d .arguments ws → Derives d (.term none) (us ++ ws)
  | .item items =>
    ∃ opener us, ts = [opener] ++ us ∧ opener.kind = .openBracket ∧ Pending d .list items.length us
  | .entry _ _ =>
    ∃ opener us key colon n, ts = [opener] ++ us ++ [key] ++ [colon] ∧ opener.kind = .openCurl ∧
      Pending d .entries n us ∧ key.IsKey ∧ colon.kind = .colon
  | .consequent _ =>
    ∃ us question m, ts = us ++ [question] ∧ Derives d (.chain m) us ∧ question.kind = .question
  | .alternate _ branch =>
    ∃ us question vs colon m, ts = us ++ [question] ++ vs ++ [colon] ∧ Derives d (.chain m) us ∧
      question.kind = .question ∧ colon.kind = .colon ∧
      match branch with
      | some _ => ∃ k, Derives d (.sentence k) vs
      | none => vs = []

/-- Slots of choices begin at the start of a level, all others behind the open edge. -/
def Owner.Spells (d : Dialect) (ts : List Token) (owner : Owner) : Prop :=
  match owner.slot with
  | .consequent test => Slot.Spells d ts (.consequent test)
  | .alternate test branch => Slot.Spells d ts (.alternate test branch)
  | slot => ∃ before us, ts = before ++ us ∧ Edge d owner.spine before ∧ slot.Spells d us

/-- What a reading says about the tokens in terms of the grammar. -/
def Reading.Spells (d : Dialect) (ts : List Token) : Reading → Prop
  | .step (.stay level) =>
    ∃ before us, ts = before ++ us ∧ Edge d level.spine before ∧ level.mode.Spells d us
  | .step (.enter owner) => owner.Spells d ts
  | .tree result => Derives d (.sentence result.names?) ts

theorem Edge.nil : Edge d [] [] := by
  intro names us operand
  exact .operand operand

theorem Edge.unary {spine : Spine} {ts : List Token} {t : Token} {op : UnaryOp}
    (edge : Edge d spine ts) (kind : t.kind = .unaryOp)
    (registered : d.grammar.unary? t.text = some op) :
    Edge d (.unary t.text :: spine) (ts ++ [t]) := by
  intro names us operand
  have chain := edge none ([t] ++ us) (.unary kind registered operand)
  rw [List.append_assoc]
  simpa using chain

theorem Edge.binary {spine waiting : Spine} {ts us : List Token} {names : Option Nat} {t : Token}
    {op : BinaryOp} {left : Expr} (edge : Edge d spine ts) (term : Derives d (.term names) us)
    (kind : t.kind = .binaryOp) (registered : d.grammar.binary? t.text = some op) :
    Edge d (.binary t.text op.precedence left :: waiting) (ts ++ us ++ [t]) := by
  intro names vs operand
  exact .binary (edge _ us (.term term)) kind registered operand

theorem Pending.list {n : Nat} {k : Option Nat} {ts us : List Token}
    (pending : Pending d .list n ts) (sentence : Derives d (.sentence k) us) :
    Derives d .list (ts ++ us) := by
  rcases pending with ⟨_, rfl⟩ | ⟨_, vs, comma, list, kind, rfl⟩
  · exact .single sentence
  · exact .listComma list kind sentence

theorem Pending.entries {n : Nat} {k : Option Nat} {ts us : List Token} {key colon : Token}
    (pending : Pending d .entries n ts) (isKey : key.IsKey) (kind : colon.kind = .colon)
    (sentence : Derives d (.sentence k) us) :
    Derives d .entries (ts ++ [key] ++ [colon] ++ us) := by
  rcases pending with ⟨_, rfl⟩ | ⟨_, vs, comma, entries, commaKind, rfl⟩
  · exact .entry isKey kind sentence
  · exact .entriesComma entries commaKind isKey kind sentence

theorem Pending.comma {part : Phrase} {n : Nat} {ts : List Token} {comma : Token}
    (elements : Derives d part ts) (kind : comma.kind = .comma) :
    Pending d part (n + 1) (ts ++ [comma]) :=
  Or.inr ⟨n.succ_pos, ts, comma, elements, kind, rfl⟩

theorem Operand.Spells.term {operand : Operand} {ts : List Token} (spells : operand.Spells d ts) :
    Derives d (.term operand.tree.names?) ts := by
  cases operand with
  | plain tree => exact spells
  | named tree => exact spells.1
  | piped name subject =>
    obtain ⟨us, pipe, vs, m, rfl, term, kind, transform⟩ := spells
    exact .pipe term kind transform
  | called tree =>
    obtain ⟨names, term⟩ := spells
    simpa only [Operand.tree, names] using term

/-! ## Tokens that a level uses -/

theorem Accepts.spells {level : Level} {t : Token} {step : Step} {ts : List Token}
    (accepted : Accepts d level t step) (spells : (Reading.step (.stay level)).Spells d ts) :
    (Reading.step step).Spells d (ts ++ [t]) := by
  obtain ⟨before, us, rfl, edge, spells⟩ := spells
  cases accepted with
  | literal kind =>
    cases spells
    exact ⟨before, [t], by simp, edge, .literal kind⟩
  | identifier kind =>
    cases spells
    exact ⟨before, [t], by simp, edge, .name kind, fun _ _ => ⟨[], t, rfl, kind⟩⟩
  | unary kind registered =>
    cases spells
    exact ⟨before ++ [t], [], by simp, edge.unary kind registered, rfl⟩
  | openGroup kind =>
    cases spells
    exact ⟨before, [t], by simp, edge, t, rfl, kind⟩
  | openArray kind =>
    cases spells
    exact ⟨before, [t], by simp, edge, t, [], rfl, kind, Or.inl ⟨rfl, rfl⟩⟩
  | openObject kind =>
    cases spells
    exact ⟨before, [t], by simp, edge, t, [], 0, rfl, kind, Or.inl ⟨rfl, rfl⟩⟩
  | leadingDot kind =>
    cases spells
    exact ⟨before, [t], by simp, edge, t, rfl, kind⟩
  | relativeName kind =>
    obtain ⟨dot, rfl, dotKind⟩ := spells
    exact ⟨before, [dot] ++ [t], by simp, edge, .relative dotKind kind,
      fun _ _ => ⟨[dot], t, rfl, kind⟩⟩
  | binary kind registered =>
    exact ⟨before ++ us ++ [t], [], by simp, edge.binary spells.term kind registered, rfl⟩
  | pipe kind =>
    exact ⟨before, us ++ [t], by simp, edge, us, t, _, rfl, spells.term, kind⟩
  | memberDot kind plain =>
    exact ⟨before, us ++ [t], by simp, edge, us, t, rfl, spells.term, kind⟩
  | segmentDot kind namespaced =>
    obtain ⟨vs, pipe, ws, m, rfl, term, pipeKind, transform⟩ := spells
    exact ⟨before, vs ++ [pipe] ++ ws ++ [t], by simp, edge, namespaced, vs, pipe, ws, t, m, rfl,
      term, pipeKind, transform, kind⟩
  | openBracket kind =>
    exact ⟨before, us ++ [t], by simp, edge, us, t, _, rfl, spells.term, kind⟩
  | question kind =>
    exact ⟨before ++ us, t, _, rfl, edge _ us (.term spells.term), kind⟩
  | call kind callee =>
    obtain ⟨n, names, dotted⟩ := Expr.exists_calleeName?_iff.1 ⟨_, callee⟩
    obtain ⟨term, ends⟩ := spells
    obtain ⟨vs, last, rfl, lastKind⟩ := ends n names
    rw [names] at term
    exact ⟨before, vs ++ [last] ++ [t], by simp, edge, vs ++ [last], t, [], 0, by simp, kind, rfl,
      Or.inl ⟨rfl, rfl⟩, fun ws arguments => .call term lastKind dotted arguments⟩
  | transformCall kind =>
    obtain ⟨vs, pipe, ws, m, rfl, term, pipeKind, transform⟩ := spells
    exact ⟨before, vs ++ [pipe] ++ ws ++ [t], by simp, edge, vs ++ [pipe] ++ ws, t, [], 0, by simp,
      kind, rfl, Or.inl ⟨rfl, rfl⟩, fun _ arguments => .pipeCall term pipeKind transform arguments⟩
  | memberName kind =>
    obtain ⟨vs, dot, rfl, term, dotKind⟩ := spells
    refine ⟨before, vs ++ [dot] ++ [t], by simp, edge, ?_, fun _ _ => ⟨vs ++ [dot], t, rfl, kind⟩⟩
    rw [Expr.names?_member]
    exact .member term dotKind kind
  | transformName kind =>
    obtain ⟨vs, pipe, m, rfl, term, pipeKind⟩ := spells
    exact ⟨before, vs ++ [pipe] ++ [t], by simp, edge, vs, pipe, [t], m, rfl, term, pipeKind,
      .transformName kind⟩
  | transformSegment kind =>
    obtain ⟨namespaced, vs, pipe, ws, dot, m, rfl, term, pipeKind, transform, dotKind⟩ := spells
    exact ⟨before, vs ++ [pipe] ++ (ws ++ [dot] ++ [t]), by simp, edge, vs, pipe, _, m, rfl, term,
      pipeKind, .transformSegment namespaced transform dotKind kind⟩
  | nameKey kind =>
    obtain ⟨opener, vs, n, rfl, openerKind, pending⟩ := spells
    exact ⟨before, [opener] ++ vs ++ [t], by simp, edge, opener, vs, t, n, rfl, openerKind, pending,
      Or.inl kind⟩
  | stringKey kind value =>
    obtain ⟨opener, vs, n, rfl, openerKind, pending⟩ := spells
    exact ⟨before, [opener] ++ vs ++ [t], by simp, edge, opener, vs, t, n, rfl, openerKind, pending,
      Or.inr ⟨kind, _, value⟩⟩
  | closeObject kind =>
    obtain ⟨opener, vs, n, rfl, openerKind, pending⟩ := spells
    refine ⟨before, [opener] ++ vs ++ [t], by simp, edge, ?_⟩
    rcases pending with ⟨_, rfl⟩ | ⟨_, ws, comma, entries, commaKind, rfl⟩
    · exact .emptyObject openerKind kind
    · have object := Derives.objectComma openerKind entries commaKind kind
      simpa only [Mode.Spells, Operand.Spells, Expr.names?_object, List.append_assoc] using object
  | colon kind =>
    obtain ⟨opener, vs, key, n, rfl, openerKind, pending, isKey⟩ := spells
    exact ⟨before, [opener] ++ vs ++ [key] ++ [t], by simp, edge, opener, vs, key, t, n, rfl,
      openerKind, pending, isKey, kind⟩

/-! ## Tokens that close a level -/

theorem Closes.spells {owner : Owner} {t : Token} {tree : Expr} {step : Step} {ts us : List Token}
    (closes : Closes owner t (some tree) step) (outer : owner.Spells d ts)
    (inner : Derives d (.sentence tree.names?) us) :
    (Reading.step step).Spells d (ts ++ us ++ [t]) := by
  cases closes with
  | group kind =>
    obtain ⟨before, _, rfl, edge, opener, rfl, openerKind⟩ := outer
    exact ⟨before, [opener] ++ us ++ [t], by simp, edge, .group openerKind inner kind⟩
  | bracket kind =>
    obtain ⟨before, _, rfl, edge, vs, opener, m, rfl, term, openerKind⟩ := outer
    exact ⟨before, vs ++ [opener] ++ us ++ [t], by simp, edge,
      .bracket term openerKind inner kind, fun _ names => by cases names⟩
  | nextArgument kind =>
    obtain ⟨before, _, rfl, edge, vs, opener, ws, n, rfl, openerKind, length, pending, callee⟩ :=
      outer
    refine ⟨before, vs ++ [opener] ++ (ws ++ us ++ [t]), by simp, edge, vs, opener, _, n + 1, rfl,
      openerKind, ?_, .comma (pending.list inner) kind, callee⟩
    rw [List.length_append, length]
    rfl
  | lastArgument kind =>
    obtain ⟨before, _, rfl, edge, vs, opener, ws, n, rfl, openerKind, length, pending, callee⟩ :=
      outer
    exact ⟨before, vs ++ ([opener] ++ (ws ++ us) ++ [t]), by simp, edge, rfl,
      callee _ (.arguments openerKind (pending.list inner) kind)⟩
  | nextItem kind =>
    obtain ⟨before, _, rfl, edge, opener, vs, rfl, openerKind, pending⟩ := outer
    refine ⟨before, [opener] ++ (vs ++ us ++ [t]), by simp, edge, opener, _, rfl, openerKind, ?_⟩
    rw [List.length_append]
    exact .comma (pending.list inner) kind
  | lastItem kind =>
    obtain ⟨before, _, rfl, edge, opener, vs, rfl, openerKind, pending⟩ := outer
    exact ⟨before, [opener] ++ (vs ++ us) ++ [t], by simp, edge,
      .array openerKind (pending.list inner) kind⟩
  | nextEntry kind =>
    obtain ⟨before, _, rfl, edge, opener, vs, key, colon, n, rfl, openerKind, pending, isKey,
      colonKind⟩ := outer
    exact ⟨before, [opener] ++ (vs ++ [key] ++ [colon] ++ us ++ [t]), by simp, edge, opener, _,
      n + 1, rfl, openerKind, .comma (pending.entries isKey colonKind inner) kind⟩
  | lastEntry kind =>
    obtain ⟨before, _, rfl, edge, opener, vs, key, colon, n, rfl, openerKind, pending, isKey,
      colonKind⟩ := outer
    exact ⟨before, [opener] ++ (vs ++ [key] ++ [colon] ++ us) ++ [t], by simp, edge,
      .object openerKind (pending.entries isKey colonKind inner) kind⟩
  | consequent kind =>
    obtain ⟨vs, question, m, rfl, chain, questionKind⟩ := outer
    exact ⟨vs, question, us, t, m, by simp, chain, questionKind, kind, _, inner⟩

theorem Closes.spells_of_empty {owner : Owner} {t : Token} {step : Step} {ts : List Token}
    (closes : Closes owner t none step) (outer : owner.Spells d ts) :
    (Reading.step step).Spells d (ts ++ [t]) := by
  cases closes with
  | noArgument kind bare =>
    obtain ⟨before, _, rfl, edge, vs, opener, ws, n, rfl, openerKind, length, pending, callee⟩ :=
      outer
    -- As many arguments as stand before the parenthesis: none has been read behind it.
    rcases pending with ⟨_, rfl⟩ | ⟨positive, _⟩
    · exact ⟨before, vs ++ ([opener] ++ [t]), by simp, edge, rfl,
        callee _ (.noArguments openerKind kind)⟩
    · omega
  | noItem kind =>
    obtain ⟨before, _, rfl, edge, opener, vs, rfl, openerKind, pending⟩ := outer
    rcases pending with ⟨_, rfl⟩ | ⟨positive, _⟩
    · exact ⟨before, [opener] ++ [t], by simp, edge, .emptyArray openerKind kind⟩
    · cases positive
  | consequent kind =>
    obtain ⟨vs, question, m, rfl, chain, questionKind⟩ := outer
    exact ⟨vs, question, [], t, m, by simp, chain, questionKind, kind, rfl⟩

/-! ## Whole readings -/

/-- Where a level may end its tokens are a chain. -/
theorem Reading.Spells.result {level : Level} {tree : Expr} {ts : List Token}
    (spells : (Reading.step (.stay level)).Spells d ts)
    (ends : level.result? = some (some tree)) :
    Derives d (.chain tree.names?) ts := by
  obtain ⟨before, us, rfl, edge, spells⟩ := spells
  rcases level with ⟨spine, mode⟩
  cases mode with
  | after operand =>
    have tree : spine.closeAll operand.tree = tree := by simpa [Level.result?] using ends
    subst tree
    rw [Expr.names?_closeAll]
    exact edge _ us (.term spells.term)
  | operand => cases spine <;> cases ends
  | _ => cases ends

theorem Slot.Spells.choice {test : Expr} {consequent : Option Expr} {ts us : List Token}
    {k : Option Nat} (outer : Slot.Spells d ts (.alternate test consequent))
    (inner : Derives d (.sentence k) us) : Derives d (.sentence none) (ts ++ us) := by
  obtain ⟨vs, question, ws, colon, m, rfl, chain, questionKind, colonKind, branch⟩ := outer
  cases consequent with
  | some _ =>
    obtain ⟨l, yes⟩ := branch
    exact .cond chain questionKind yes colonKind inner
  | none =>
    subst branch
    simpa using Derives.elvis chain questionKind colonKind inner

/-- What a reading says about its tokens holds. -/
theorem Reads.spells {ts : List Token} {reading : Reading} (reads : Reads d ts reading) :
    reading.Spells d ts := by
  induction reads with
  | fresh => exact ⟨[], [], rfl, .nil, rfl⟩
  | accept _ accepted ih => exact accepted.spells ih
  | result _ ends ih => exact .chain (ih.result ends)
  | @choice ts us spine test alternate consequent _ _ outer inner =>
    have outer : Slot.Spells d ts (.alternate test consequent) := outer
    rw [Reading.Spells, Expr.names?_choice]
    exact outer.choice inner
  | close _ _ closes outer inner => exact closes.spells outer inner
  | closeEmpty _ closes ih => exact closes.spells_of_empty ih

/-- What the parser gives a tree for is a sentence. -/
theorem Derives.of_parse {ts : List Token} {tree : Expr} (h : Parser.parse d ts = .ok tree) :
    Derives d (.sentence tree.names?) ts :=
  (parse_eq_ok_iff.1 h).spells

end JsonExpr
