import JsonExpr.Proofs.Parser.Soundness
import JsonExpr.Proofs.Parser.Terms

/-!
Every sentence is read, and so the parser gives a tree for exactly the sentences. A part of the
grammar is read wherever it may stand: a term behind any open edge, a sentence at the start of a
level.
-/

namespace JsonExpr

variable {d : Dialect}

/-- A chain of names can only be followed by arguments when it is read as a name. -/
def Operand.IsNamed (ts : List Token) (operand : Operand) : Prop :=
  ∀ n us t, operand.tree.names? = some n → ts = us ++ [t] → t.kind = .identifier →
    ∃ tree, operand = .named tree

/-- What the grammar says about a part holds of its reading. -/
def Phrase.Reads (d : Dialect) (ts : List Token) : Phrase → Prop
  | .sentence names => ∃ tree : Expr, tree.names? = names ∧ JsonExpr.Reads d ts (.tree tree)
  | .chain names =>
    ∃ spine operand, JsonExpr.Reads d ts (.step (.stay ⟨spine, .after operand⟩)) ∧
      (if spine = [] then operand.tree.names? else none) = names
  | .operand names =>
    ∀ spine before, JsonExpr.Reads d before (.step (.stay ⟨spine, .operand⟩)) →
      ∃ signs operand, JsonExpr.Reads d (before ++ ts)
        (.step (.stay ⟨signs ++ spine, .after operand⟩)) ∧
          (if signs = [] then operand.tree.names? else none) = names
  | .term names =>
    ∃ operand, operand.tree.names? = names ∧ operand.IsNamed ts ∧ ReadsOperand d ts operand
  | .transform =>
    ∀ us subject pipe, ReadsOperand d us subject → pipe.kind = .pipe →
      ∃ name, ReadsOperand d (us ++ [pipe] ++ ts) (.piped name subject.tree)
  | .arguments => ∃ args, ReadsArguments d ts args
  | .list => ∃ trees, ReadsList d ts trees
  | .entries => ∃ entries, ReadsEntries d ts entries

theorem Token.IsKey.spells {t : Token} (isKey : t.IsKey) : ∃ key, t.SpellsKey key := by
  rcases isKey with kind | ⟨kind, key, value⟩
  · exact ⟨t.text, Or.inl ⟨kind, rfl⟩⟩
  · exact ⟨key, Or.inr ⟨kind, value⟩⟩

theorem Operand.IsNamed.of_last {ts : List Token} {t : Token} {operand : Operand}
    (kind : t.kind ≠ .identifier) : operand.IsNamed (ts ++ [t]) := by
  intro n us last _ split lastKind
  rw [(List.append_inj_right' split rfl : [t] = [last]) |> List.singleton_inj.1] at kind
  exact (kind lastKind).elim

theorem Operand.IsNamed.of_names {ts : List Token} {operand : Operand}
    (names : operand.tree.names? = none) : operand.IsNamed ts := by
  intro n us t some
  rw [names] at some
  cases some

theorem Operand.IsNamed.named {ts : List Token} {tree : Expr} : (Operand.named tree).IsNamed ts :=
  fun _ _ _ _ _ _ => ⟨tree, rfl⟩

/-- A dotted name behind a transform goes on with the name of the transform where that may be
dotted; everywhere else it is a member. -/
theorem ReadsOperand.dotted {ts : List Token} {dot t : Token} {operand : Operand}
    (subject : ReadsOperand d ts operand) (dotKind : dot.kind = .dot)
    (kind : t.kind = .identifier) :
    (Phrase.term (operand.tree.names?.map (· + 1))).Reads d (ts ++ [dot] ++ [t]) := by
  by_cases piped : ∃ name tree, operand = .piped name tree ∧ d.options.namespacedTransforms = true
  · obtain ⟨name, tree, rfl, namespaced⟩ := piped
    exact ⟨_, rfl, .of_names rfl, subject.segment namespaced dotKind kind⟩
  · have plain : ∀ name tree, operand = .piped name tree →
        d.options.namespacedTransforms = false := by
      intro name tree eq
      exact Bool.eq_false_iff.2 fun namespaced => piped ⟨name, tree, eq, namespaced⟩
    exact ⟨.named (.member operand.tree t.text false), Expr.names?_member .., .named,
      subject.member plain dotKind kind⟩

theorem Derives.reads {phrase : Phrase} {ts : List Token} (derives : Derives d phrase ts) :
    phrase.Reads d ts := by
  induction derives with
  | chain _ ih =>
    obtain ⟨spine, operand, reads, names⟩ := ih
    refine ⟨_, ?_, reads.chain⟩
    rw [Expr.names?_closeAll, names]
  | cond _ questionKind _ colonKind _ test yes no =>
    obtain ⟨spine, operand, test, _⟩ := test
    obtain ⟨tree, _, yes⟩ := yes
    obtain ⟨other, _, no⟩ := no
    exact ⟨_, rfl, test.cond questionKind yes colonKind no⟩
  | elvis _ questionKind colonKind _ test no =>
    obtain ⟨spine, operand, test, _⟩ := test
    obtain ⟨other, _, no⟩ := no
    exact ⟨_, rfl, test.elvis questionKind colonKind no⟩
  | operand _ ih =>
    obtain ⟨signs, operand, reads, names⟩ := ih [] [] .fresh
    rw [List.append_nil, List.nil_append] at reads
    exact ⟨signs, operand, reads, names⟩
  | binary _ kind registered _ left right =>
    obtain ⟨spine, operand, left, _⟩ := left
    obtain ⟨signs, last, reads, _⟩ := right _ _ (left.accept (.binary kind registered))
    exact ⟨_, last, reads, by simp⟩
  | term _ ih =>
    intro spine before outer
    obtain ⟨operand, names, _, reads⟩ := ih
    exact ⟨[], operand, reads outer, names⟩
  | @unary k t us op kind registered _ ih =>
    intro spine before outer
    obtain ⟨signs, operand, reads, _⟩ := ih _ _ (outer.accept (.unary kind registered))
    refine ⟨signs ++ [.unary t.text], operand, ?_, by simp⟩
    simpa only [List.append_assoc, List.singleton_append] using reads
  | literal kind => exact ⟨_, rfl, .of_names rfl, ReadsOperand.literal kind⟩
  | name kind => exact ⟨_, rfl, .named, ReadsOperand.name kind⟩
  | relative dotKind kind => exact ⟨_, rfl, .named, ReadsOperand.relative dotKind kind⟩
  | group openerKind _ closerKind ih =>
    obtain ⟨tree, names, reads⟩ := ih
    exact ⟨.plain tree, names, .of_last (by simp [closerKind]),
      ReadsOperand.group openerKind reads closerKind⟩
  | emptyArray openerKind closerKind =>
    exact ⟨_, rfl, .of_names rfl, ReadsOperand.emptyArray openerKind closerKind⟩
  | array openerKind _ closerKind ih =>
    obtain ⟨items, list⟩ := ih
    exact ⟨_, rfl, .of_names rfl, ReadsOperand.array openerKind list closerKind⟩
  | emptyObject openerKind closerKind =>
    exact ⟨_, rfl, .of_names rfl, ReadsOperand.emptyObject openerKind closerKind⟩
  | object openerKind _ closerKind ih =>
    obtain ⟨entries, list⟩ := ih
    exact ⟨_, rfl, .of_names rfl, ReadsOperand.object openerKind list closerKind⟩
  | objectComma openerKind _ commaKind closerKind ih =>
    obtain ⟨entries, list⟩ := ih
    exact ⟨_, rfl, .of_names rfl, ReadsOperand.objectComma openerKind list commaKind closerKind⟩
  | member _ dotKind kind ih =>
    obtain ⟨operand, rfl, _, reads⟩ := ih
    exact reads.dotted dotKind kind
  | bracket _ openerKind _ closerKind subject predicate =>
    obtain ⟨operand, _, _, subject⟩ := subject
    obtain ⟨tree, _, predicate⟩ := predicate
    exact ⟨_, rfl, .named, subject.bracket openerKind predicate closerKind⟩
  | pipe _ pipeKind _ subject transform =>
    obtain ⟨operand, _, _, subject⟩ := subject
    obtain ⟨name, piped⟩ := transform _ operand _ subject pipeKind
    exact ⟨_, rfl, .of_names rfl, piped⟩
  | pipeCall _ pipeKind _ _ subject transform arguments =>
    obtain ⟨operand, _, _, subject⟩ := subject
    obtain ⟨name, piped⟩ := transform _ operand _ subject pipeKind
    obtain ⟨args, arguments⟩ := arguments
    exact ⟨_, rfl, .of_names rfl, piped.transformCall arguments⟩
  | call _ kind dotted _ callee arguments =>
    obtain ⟨operand, names, isNamed, callee⟩ := callee
    obtain ⟨args, arguments⟩ := arguments
    obtain ⟨tree, rfl⟩ := isNamed _ _ _ names rfl kind
    obtain ⟨name, named⟩ := Expr.exists_calleeName?_iff.2 ⟨_, names, dotted⟩
    exact ⟨_, rfl, .of_names rfl, callee.call named arguments⟩
  | transformName kind =>
    intro us subject pipe reads pipeKind
    exact ⟨_, reads.pipe pipeKind kind⟩
  | transformSegment namespaced _ dotKind kind ih =>
    intro us subject pipe reads pipeKind
    obtain ⟨name, piped⟩ := ih us subject pipe reads pipeKind
    have whole := piped.segment namespaced dotKind kind
    simp only [List.append_assoc] at whole ⊢
    exact ⟨_, whole⟩
  | noArguments openerKind closerKind => exact ⟨_, .none openerKind closerKind⟩
  | arguments openerKind _ closerKind ih =>
    obtain ⟨trees, list⟩ := ih
    exact ⟨_, .list openerKind list closerKind⟩
  | single _ ih =>
    obtain ⟨tree, _, reads⟩ := ih
    exact ⟨_, .single reads⟩
  | listComma _ kind _ list last =>
    obtain ⟨trees, list⟩ := list
    obtain ⟨tree, _, last⟩ := last
    exact ⟨_, list.snoc kind last⟩
  | entry isKey kind _ ih =>
    obtain ⟨key, spells⟩ := isKey.spells
    obtain ⟨tree, _, reads⟩ := ih
    exact ⟨_, .single spells kind reads⟩
  | entriesComma _ kind isKey colonKind _ list last =>
    obtain ⟨key, spells⟩ := isKey.spells
    obtain ⟨entries, list⟩ := list
    obtain ⟨tree, _, last⟩ := last
    exact ⟨_, list.snoc kind spells colonKind last⟩

/-- The parser gives a tree for exactly the sentences of the grammar. -/
theorem exists_parse_eq_ok_iff (d : Dialect) (ts : List Token) :
    (∃ tree, Parser.parse d ts = .ok tree) ↔ ∃ names, Derives d (.sentence names) ts := by
  constructor
  · rintro ⟨tree, parsed⟩
    exact ⟨_, .of_parse parsed⟩
  · rintro ⟨names, derives⟩
    obtain ⟨tree, _, reads⟩ := derives.reads
    exact ⟨tree, parse_eq_ok_iff.2 reads⟩

end JsonExpr
