import JsonExpr.Proofs.Parser.Reads

/-!
Readings put together from their parts, with their trees. `ReadsOperand` is the reading of an
operand behind any open edge; `ReadsList` and `ReadsEntries` are the readings of what stands between
commas. Each lemma reads one construct from the readings of its parts.
-/

namespace JsonExpr

variable {d : Dialect}

/-- Where an operand is expected, the tokens are read as this one. -/
def ReadsOperand (d : Dialect) (ts : List Token) (operand : Operand) : Prop :=
  ∀ ⦃spine : Spine⦄ ⦃before : List Token⦄, Reads d before (.step (.stay ⟨spine, .operand⟩)) →
    Reads d (before ++ ts) (.step (.stay ⟨spine, .after operand⟩))

/-! ## Lists -/

/-- Trees with commas between them. -/
inductive ReadsList (d : Dialect) : List Token → List Expr → Prop
  | single {ts : List Token} {tree : Expr} :
    Reads d ts (.tree tree) → ReadsList d ts [tree]
  | cons {ts us : List Token} {tree : Expr} {trees : List Expr} {comma : Token} :
    Reads d ts (.tree tree) → comma.kind = .comma → ReadsList d us trees →
    ReadsList d (ts ++ [comma] ++ us) (tree :: trees)

theorem ReadsList.snoc {ts us : List Token} {trees : List Expr} {tree : Expr} {comma : Token}
    (list : ReadsList d ts trees) (kind : comma.kind = .comma) (last : Reads d us (.tree tree)) :
    ReadsList d (ts ++ [comma] ++ us) (trees ++ [tree]) := by
  induction list with
  | single first => exact .cons first kind (.single last)
  | cons first kind' _ ih =>
    have whole := ReadsList.cons first kind' ih
    simpa only [List.append_assoc, List.cons_append] using whole

/-- The token spells the key of an entry. -/
def Token.SpellsKey (t : Token) (key : String) : Prop :=
  t.kind = .identifier ∧ t.text = key ∨ t.kind = .literal ∧ t.value = .string key

/-- Entries with commas between them. -/
inductive ReadsEntries (d : Dialect) : List Token → List (String × Expr) → Prop
  | single {ts : List Token} {key : String} {tree : Expr} {t colon : Token} :
    t.SpellsKey key → colon.kind = .colon → Reads d ts (.tree tree) →
    ReadsEntries d ([t] ++ [colon] ++ ts) [(key, tree)]
  | cons {ts us : List Token} {key : String} {tree : Expr} {entries : List (String × Expr)}
      {t colon comma : Token} :
    t.SpellsKey key → colon.kind = .colon → Reads d ts (.tree tree) → comma.kind = .comma →
    ReadsEntries d us entries →
    ReadsEntries d ([t] ++ [colon] ++ ts ++ [comma] ++ us) ((key, tree) :: entries)

theorem ReadsEntries.snoc {ts us : List Token} {entries : List (String × Expr)} {key : String}
    {tree : Expr} {comma t colon : Token} (list : ReadsEntries d ts entries)
    (kind : comma.kind = .comma) (spells : t.SpellsKey key) (colonKind : colon.kind = .colon)
    (last : Reads d us (.tree tree)) :
    ReadsEntries d (ts ++ [comma] ++ [t] ++ [colon] ++ us) (entries ++ [(key, tree)]) := by
  induction list with
  | single spells' colonKind' first =>
    have whole := ReadsEntries.cons spells' colonKind' first kind (.single spells colonKind last)
    simpa only [List.append_assoc, List.cons_append, List.nil_append] using whole
  | cons spells' colonKind' first kind' _ ih =>
    have whole := ReadsEntries.cons spells' colonKind' first kind' ih
    simpa only [List.append_assoc, List.cons_append] using whole

/-- The elements of a list are added to those that the slot has; the token behind the list decides
what follows. -/
theorem ReadsList.close {spine : Spine} {t : Token} (slot : List Expr → Slot)
    (step : List Expr → Step)
    (next : ∀ {trees : List Expr} {tree : Expr} {comma : Token}, comma.kind = .comma →
      Closes ⟨spine, slot trees⟩ comma (some tree) (.enter ⟨spine, slot (trees ++ [tree])⟩))
    (last : ∀ {trees : List Expr} {tree : Expr},
      Closes ⟨spine, slot trees⟩ t (some tree) (step (trees ++ [tree])))
    {ts : List Token} {trees : List Expr} (list : ReadsList d ts trees) :
    ∀ {before : List Token} {others : List Expr},
      Reads d before (.step (.enter ⟨spine, slot others⟩)) →
      Reads d (before ++ ts ++ [t]) (.step (step (others ++ trees))) := by
  induction list with
  | single tree =>
    intro before others outer
    exact .close outer tree last
  | cons tree kind _ ih =>
    intro before others outer
    have rest := ih (.close outer tree (next kind))
    simpa only [List.append_assoc, List.singleton_append] using rest

theorem Reads.key {before : List Token} {spine : Spine} {entries : List (String × Expr)}
    {key : String} {t colon : Token} (outer : Reads d before (.step (.stay ⟨spine, .key entries⟩)))
    (spells : t.SpellsKey key) (kind : colon.kind = .colon) :
    Reads d (before ++ [t] ++ [colon]) (.step (.enter ⟨spine, .entry entries key⟩)) := by
  rcases spells with ⟨nameKind, rfl⟩ | ⟨literalKind, value⟩
  · exact .accept (.accept outer (.nameKey nameKind)) (.colon kind)
  · exact .accept (.accept outer (.stringKey literalKind value)) (.colon kind)

/-- The same for entries. -/
theorem ReadsEntries.close {spine : Spine} {t : Token} (step : List (String × Expr) → Step)
    (last : ∀ {entries : List (String × Expr)} {key : String} {tree : Expr},
      Closes ⟨spine, .entry entries key⟩ t (some tree) (step (entries ++ [(key, tree)])))
    {ts : List Token} {entries : List (String × Expr)} (list : ReadsEntries d ts entries) :
    ∀ {before : List Token} {others : List (String × Expr)},
      Reads d before (.step (.stay ⟨spine, .key others⟩)) →
      Reads d (before ++ ts ++ [t]) (.step (step (others ++ entries))) := by
  induction list with
  | single spells kind tree =>
    intro before others outer
    have whole := Reads.close (outer.key spells kind) tree last
    simpa only [List.append_assoc] using whole
  | cons spells kind tree commaKind _ ih =>
    intro before others outer
    have rest := ih (.close (outer.key spells kind) tree (.nextEntry commaKind))
    simpa only [List.append_assoc, List.singleton_append] using rest

/-! ## Operands -/

namespace ReadsOperand

variable {ts us : List Token} {t opener closer dot : Token} {operand : Operand} {tree : Expr}

theorem literal (kind : t.kind = .literal) :
    ReadsOperand d [t] (.plain (.literal t.value)) :=
  fun _ _ outer => .accept outer (.literal kind)

theorem name (kind : t.kind = .identifier) :
    ReadsOperand d [t] (.named (.ident t.text false)) :=
  fun _ _ outer => .accept outer (.identifier kind)

theorem relative (dotKind : dot.kind = .dot) (kind : t.kind = .identifier) :
    ReadsOperand d ([dot] ++ [t]) (.named (.ident t.text true)) := by
  intro spine before outer
  have whole := Reads.accept (outer.accept (.leadingDot dotKind)) (.relativeName kind)
  simpa only [List.append_assoc] using whole

theorem group (openerKind : opener.kind = .openParen) (inner : Reads d ts (.tree tree))
    (closerKind : closer.kind = .closeParen) :
    ReadsOperand d ([opener] ++ ts ++ [closer]) (.plain tree) := by
  intro spine before outer
  have whole := Reads.close (outer.accept (.openGroup openerKind)) inner (.group closerKind)
  simpa only [List.append_assoc] using whole

theorem emptyArray (openerKind : opener.kind = .openBracket)
    (closerKind : closer.kind = .closeBracket) :
    ReadsOperand d ([opener] ++ [closer]) (.plain (.array [])) := by
  intro spine before outer
  have whole := Reads.closeEmpty (outer.accept (.openArray openerKind)) (.noItem closerKind)
  simpa only [List.append_assoc] using whole

theorem array {items : List Expr} (openerKind : opener.kind = .openBracket)
    (list : ReadsList d ts items) (closerKind : closer.kind = .closeBracket) :
    ReadsOperand d ([opener] ++ ts ++ [closer]) (.plain (.array items)) := by
  intro spine before outer
  have whole := list.close .item (fun items => .stay ⟨spine, .after (.plain (.array items))⟩)
    .nextItem (.lastItem closerKind) (outer.accept (.openArray openerKind))
  simpa only [List.append_assoc, List.nil_append] using whole

theorem emptyObject (openerKind : opener.kind = .openCurl) (closerKind : closer.kind = .closeCurl) :
    ReadsOperand d ([opener] ++ [closer]) (.plain (.object [])) := by
  intro spine before outer
  have whole := Reads.accept (outer.accept (.openObject openerKind)) (.closeObject closerKind)
  simpa only [List.append_assoc] using whole

theorem object {entries : List (String × Expr)} (openerKind : opener.kind = .openCurl)
    (list : ReadsEntries d ts entries) (closerKind : closer.kind = .closeCurl) :
    ReadsOperand d ([opener] ++ ts ++ [closer]) (.plain (.object entries)) := by
  intro spine before outer
  have whole := list.close (fun entries => .stay ⟨spine, .after (.plain (.object entries))⟩)
    (.lastEntry closerKind) (outer.accept (.openObject openerKind))
  simpa only [List.append_assoc, List.nil_append] using whole

theorem objectComma {entries : List (String × Expr)} {comma : Token}
    (openerKind : opener.kind = .openCurl) (list : ReadsEntries d ts entries)
    (commaKind : comma.kind = .comma) (closerKind : closer.kind = .closeCurl) :
    ReadsOperand d ([opener] ++ ts ++ [comma] ++ [closer]) (.plain (.object entries)) := by
  intro spine before outer
  have rest := list.close (fun entries => .stay ⟨spine, .key entries⟩) (.nextEntry commaKind)
    (outer.accept (.openObject openerKind))
  have whole := rest.accept (.closeObject closerKind)
  simpa only [List.append_assoc, List.nil_append] using whole

theorem member (subject : ReadsOperand d ts operand)
    (plain : ∀ name tree, operand = .piped name tree → d.options.namespacedTransforms = false)
    (dotKind : dot.kind = .dot) (kind : t.kind = .identifier) :
    ReadsOperand d (ts ++ [dot] ++ [t]) (.named (.member operand.tree t.text false)) := by
  intro spine before outer
  have whole := ((subject outer).accept (.memberDot dotKind plain)).accept (.memberName kind)
  simpa only [List.append_assoc] using whole

theorem bracket {predicate : Expr} (subject : ReadsOperand d ts operand)
    (openerKind : opener.kind = .openBracket) (inner : Reads d us (.tree predicate))
    (closerKind : closer.kind = .closeBracket) :
    ReadsOperand d (ts ++ [opener] ++ us ++ [closer])
      (.named (.filter operand.tree predicate predicate.hasRelative)) := by
  intro spine before outer
  have whole := Reads.close ((subject outer).accept (.openBracket openerKind)) inner
    (.bracket closerKind)
  simpa only [List.append_assoc] using whole

theorem pipe {pipe : Token} (subject : ReadsOperand d ts operand) (pipeKind : pipe.kind = .pipe)
    (kind : t.kind = .identifier) :
    ReadsOperand d (ts ++ [pipe] ++ [t]) (.piped t.text operand.tree) := by
  intro spine before outer
  have whole := ((subject outer).accept (.pipe pipeKind)).accept (.transformName kind)
  simpa only [List.append_assoc] using whole

theorem segment {name : String} {subject : Expr} (piped : ReadsOperand d ts (.piped name subject))
    (namespaced : d.options.namespacedTransforms = true) (dotKind : dot.kind = .dot)
    (kind : t.kind = .identifier) :
    ReadsOperand d (ts ++ [dot] ++ [t]) (.piped (name ++ "." ++ t.text) subject) := by
  intro spine before outer
  have whole := ((piped outer).accept (.segmentDot dotKind namespaced)).accept
    (.transformSegment kind)
  simpa only [List.append_assoc] using whole

end ReadsOperand

/-! ## Arguments -/

/-- Arguments in parentheses, behind any callee. -/
inductive ReadsArguments (d : Dialect) : List Token → List Expr → Prop
  | none {opener closer : Token} :
    opener.kind = .openParen → closer.kind = .closeParen →
    ReadsArguments d ([opener] ++ [closer]) []
  | list {opener closer : Token} {ts : List Token} {args : List Expr} :
    opener.kind = .openParen → ReadsList d ts args → closer.kind = .closeParen →
    ReadsArguments d ([opener] ++ ts ++ [closer]) args

theorem ReadsArguments.close {level : Level} {spine : Spine} {pool : Pool} {name : String}
    {bare args : List Expr} {before ts : List Token} (arguments : ReadsArguments d ts args)
    (callee : Reads d before (.step (.stay level)))
    (opens : ∀ {t : Token}, t.kind = .openParen →
      Accepts d level t (.enter ⟨spine, .argument pool name bare⟩))
    (length : bare.length = if pool = .transforms then 1 else 0) :
    Reads d (before ++ ts)
      (.step (.stay ⟨spine, .after (.called (.call pool name (bare ++ args)))⟩)) := by
  cases arguments with
  | none openerKind closerKind =>
    have whole := Reads.closeEmpty (callee.accept (opens openerKind))
      (.noArgument closerKind length)
    simpa only [List.append_assoc, List.append_nil] using whole
  | list openerKind list closerKind =>
    have whole := list.close (.argument pool name)
      (fun args => .stay ⟨spine, .after (.called (.call pool name args))⟩) .nextArgument
      (.lastArgument closerKind) (callee.accept (opens openerKind))
    simpa only [List.append_assoc] using whole

theorem ReadsOperand.call {ts us : List Token} {tree : Expr} {name : String} {args : List Expr}
    (callee : ReadsOperand d ts (.named tree))
    (named : Level.calleeName? d.options tree = some name) (arguments : ReadsArguments d us args) :
    ReadsOperand d (ts ++ us) (.called (.call .functions name args)) := by
  intro spine before outer
  have whole := arguments.close (callee outer) (fun kind => .call kind named) rfl
  simpa only [List.append_assoc, List.nil_append] using whole

theorem ReadsOperand.transformCall {ts us : List Token} {name : String} {subject : Expr}
    {args : List Expr} (piped : ReadsOperand d ts (.piped name subject))
    (arguments : ReadsArguments d us args) :
    ReadsOperand d (ts ++ us) (.called (.call .transforms name (subject :: args))) := by
  intro spine before outer
  have whole := arguments.close (piped outer) (fun kind => .transformCall kind) rfl
  simpa only [List.append_assoc, List.singleton_append] using whole

/-! ## Sentences -/

section Sentences

variable {ts us yes no : List Token} {t question colon : Token} {operand : Operand} {spine : Spine}
  {tree other : Expr}

theorem ReadsOperand.reads (h : ReadsOperand d ts operand) :
    Reads d ts (.step (.stay ⟨[], .after operand⟩)) := by
  have whole := h .fresh
  rwa [List.nil_append] at whole

theorem Reads.chain (chain : Reads d ts (.step (.stay ⟨spine, .after operand⟩))) :
    Reads d ts (.tree (spine.closeAll operand.tree)) :=
  .result chain rfl

theorem Reads.cond (test : Reads d ts (.step (.stay ⟨spine, .after operand⟩)))
    (questionKind : question.kind = .question) (left : Reads d yes (.tree tree))
    (colonKind : colon.kind = .colon) (right : Reads d no (.tree other)) :
    Reads d (ts ++ [question] ++ yes ++ [colon] ++ no)
      (.tree (.cond (spine.closeAll operand.tree) tree other)) :=
  .choice (.close (test.accept (.question questionKind)) left (.consequent colonKind)) right

theorem Reads.elvis (test : Reads d ts (.step (.stay ⟨spine, .after operand⟩)))
    (questionKind : question.kind = .question) (colonKind : colon.kind = .colon)
    (right : Reads d no (.tree other)) :
    Reads d (ts ++ [question] ++ [colon] ++ no)
      (.tree (.elvis (spine.closeAll operand.tree) other)) :=
  .choice (.closeEmpty (test.accept (.question questionKind)) (.consequent colonKind)) right

/-- Two operands with an operator between them are a sentence. -/
theorem ReadsOperand.binary {right : Operand} {op : BinaryOp} (left : ReadsOperand d ts operand)
    (kind : t.kind = .binaryOp) (registered : d.grammar.binary? t.text = some op)
    (last : ReadsOperand d us right) :
    Reads d (ts ++ [t] ++ us) (.tree (.binary t.text operand.tree right.tree)) :=
  (last (left.reads.accept (.binary kind registered))).chain

theorem ReadsOperand.unary {op : UnaryOp} (kind : t.kind = .unaryOp)
    (registered : d.grammar.unary? t.text = some op) (right : ReadsOperand d us operand) :
    Reads d ([t] ++ us) (.tree (.unary t.text operand.tree)) :=
  (right (Reads.fresh.accept (.unary kind registered))).chain

end Sentences

end JsonExpr
