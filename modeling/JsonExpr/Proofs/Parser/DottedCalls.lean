import JsonExpr.Proofs.Parser.Completeness
import JsonExpr.Proofs.Parser.Endings

/-!
Dialects without dotted names of functions. Where a dialect does not have them, the parser goes in
step with that of the dialect that has them, up to the first parenthesis behind more than one name;
there it refuses the call. All else, refusals for other causes included, is the same.

`Token.CallsPath` says on the tokens alone that there is such a parenthesis.
-/

namespace JsonExpr

open Lexeme (operandExpected)

/-! ## Names joined by dots -/

namespace Token

/-- The tokens are that many names, joined by dots. What is before a dot may stand in
parentheses. -/
inductive Path : List Token → Nat → Prop
  | name {t : Token} : t.kind = .identifier → Path [t] 1
  | group {opener closer : Token} {ts : List Token} {n : Nat} :
    opener.kind = .openParen → Path ts n → closer.kind = .closeParen →
    Path ([opener] ++ ts ++ [closer]) n
  | member {dot t : Token} {ts : List Token} {n : Nat} :
    Path ts n → dot.kind = .dot → t.kind = .identifier → Path (ts ++ [dot] ++ [t]) (n + 1)

/-- A function is called by more than one name: where an operand may stand, there are names joined
by dots and a parenthesis behind them. -/
def CallsPath (ts : List Token) : Prop :=
  ∃ before callee dot t opener after n, ts = before ++ (callee ++ [dot] ++ [t]) ++ opener :: after ∧
    operandExpected (before.map Token.kind).getLast? = true ∧ Path callee n ∧ dot.kind = .dot ∧
    t.kind = .identifier ∧ opener.kind = .openParen

theorem Path.pos {ts : List Token} {n : Nat} (path : Path ts n) : 0 < n := by
  induction path with
  | name kind => exact Nat.one_pos
  | group _ _ _ ih => exact ih
  | member _ _ _ _ => exact Nat.succ_pos _

/-- More than one name ends in a dot and a name, unless it ends in a parenthesis. -/
theorem Path.eq_member {ts us : List Token} {t : Token} {n : Nat} (path : Path ts n) (lt : 1 < n)
    (split : ts = us ++ [t]) (kind : t.kind = .identifier) :
    ∃ callee dot m, ts = callee ++ [dot] ++ [t] ∧ Path callee m ∧ dot.kind = .dot := by
  cases path with
  | name _ => exact (Nat.lt_irrefl 1 lt).elim
  | group _ _ closerKind =>
    obtain ⟨_, same⟩ := List.append_inj' split rfl
    cases same
    cases kind.symm.trans closerKind
  | member callee dotKind _ =>
    obtain ⟨_, same⟩ := List.append_inj' split rfl
    cases same
    exact ⟨_, _, _, rfl, callee, dotKind⟩

end Token

open Token (Path CallsPath)

variable {d : Dialect} {ts : List Token} {t : Token} {n : Nat}

/-! ## What the parser makes of them -/

/-- A chain of names is no transform, so a dot behind it reads a member. -/
theorem Accepts.memberDot_of_names {spine : Spine} {operand : Operand}
    (names : operand.tree.names? = some n) (kind : t.kind = .dot) :
    Accepts d ⟨spine, .after operand⟩ t (.stay ⟨spine, .memberName operand.tree⟩) := by
  refine .memberDot kind fun name subject same => ?_
  rw [same] at names
  cases names

/-- A name behind a chain and a dot is a longer chain, which may be called. -/
theorem Parser.leads_member {owners : List Owner} {spine : Spine} {operand : Operand} {dot : Token}
    (names : operand.tree.names? = some n) (dotKind : dot.kind = .dot)
    (kind : t.kind = .identifier) :
    ∃ tree : Expr, tree.names? = some (n + 1) ∧
      Leads d (.reading owners ⟨spine, .after operand⟩) ([dot] ++ [t])
        (.reading owners ⟨spine, .after (.named tree)⟩) := by
  have dotted : Leads d (.reading owners ⟨spine, .after operand⟩) [dot]
      (.reading owners ⟨spine, .memberName operand.tree⟩) :=
    (Accepts.memberDot_of_names names dotKind).leads
  have named : Leads d (.reading owners ⟨spine, .memberName operand.tree⟩) [t]
      (.reading owners ⟨spine, .after (.named (.member operand.tree t.text false))⟩) :=
    (Accepts.memberName kind).leads
  refine ⟨_, ?_, dotted.trans named⟩
  rw [Expr.names?_member, names]
  rfl

/-- In any dialect the names lead from where an operand is expected to behind it. -/
theorem Token.Path.leads (path : Path ts n) (d : Dialect) (owners : List Owner) (spine : Spine) :
    ∃ operand : Operand, operand.tree.names? = some n ∧
      Parser.Leads d (.reading owners ⟨spine, .operand⟩) ts
        (.reading owners ⟨spine, .after operand⟩) := by
  induction path generalizing owners spine with
  | @name t kind =>
    exact ⟨.named (.ident t.text false), Expr.names?_name _, (Accepts.identifier kind).leads⟩
  | @group opener closer ts n openerKind _ closerKind ih =>
    obtain ⟨operand, names, inner⟩ := ih (⟨spine, .group⟩ :: owners) []
    have opens : Parser.Leads d (.reading owners ⟨spine, .operand⟩) [opener]
        (.reading (⟨spine, .group⟩ :: owners) ⟨[], .operand⟩) :=
      (Accepts.openGroup openerKind).leads
    have whole : Parser.Gives (⟨spine, .group⟩ :: owners) operand.tree
        (.reading (⟨spine, .group⟩ :: owners) ⟨[], .after operand⟩) :=
      .level rfl
    exact ⟨.plain operand.tree, names, (opens.trans inner).trans <|
      (Closes.group closerKind).leads whole⟩
  | member _ dotKind kind ih =>
    obtain ⟨operand, names, subject⟩ := ih owners spine
    obtain ⟨tree, longer, rest⟩ := Parser.leads_member names dotKind kind
    refine ⟨.named tree, longer, ?_⟩
    rw [List.append_assoc]
    exact subject.trans rest

/-- Where a key is expected, names with a dot behind them are refused. -/
theorem Token.Path.not_run_of_key (path : Path ts n) {owners : List Owner} {spine : Spine}
    {entries : List (String × Expr)} {text : String} {dot : Token} {p : Parser}
    (dotKind : dot.kind = .dot) :
    Parser.addAll d ⟨text, .reading owners ⟨spine, .key entries⟩⟩ (ts ++ [dot]) ≠ .ok p := by
  induction path generalizing dot p with
  | @name t kind =>
    intro run
    obtain ⟨⟨text', phase⟩, first, rest⟩ := Parser.addAll_cons_eq_ok.1 run
    obtain ⟨r, second, _⟩ := Parser.addAll_cons_eq_ok.1 rest
    rcases Parser.add_eq_ok first with ⟨step, accepts, after⟩ | ⟨_, ends, _⟩
    · cases accepts with
      | nameKey _ =>
        cases after
        rcases Parser.add_eq_ok second with ⟨_, accepts, _⟩ | ⟨_, ends, _⟩
        · cases accepts with
          | colon colonKind => cases dotKind.symm.trans colonKind
        · cases ends
      | stringKey literal _ => cases kind.symm.trans literal
      | closeObject curl => cases kind.symm.trans curl
    · cases ends
  | @group opener closer ts n openerKind _ _ _ =>
    intro run
    obtain ⟨r, first, _⟩ := Parser.addAll_cons_eq_ok.1 run
    rcases Parser.add_eq_ok first with ⟨step, accepts, _⟩ | ⟨_, ends, _⟩
    · cases accepts with
      | nameKey kind | stringKey kind _ | closeObject kind => cases openerKind.symm.trans kind
    · cases ends
  | member _ innerKind _ ih =>
    intro run
    rw [List.append_assoc] at run
    obtain ⟨r, inner, _⟩ := Parser.addAll_append_eq_ok.1 run
    exact ih innerKind inner

/-- The part is a path, as far as its tree is a chain of names. -/
def Phrase.WritesPath (ts : List Token) : Phrase → Prop
  | .sentence (some n) | .chain (some n) | .operand (some n) | .term (some n) => Path ts n
  | _ => True

theorem Derives.writesPath {phrase : Phrase} (derives : Derives d phrase ts) :
    phrase.WritesPath ts := by
  induction derives with
  | @chain names _ _ ih | @operand names _ _ ih | @term names _ _ ih =>
    cases names with
    | none => trivial
    | some n => exact ih
  | name kind => exact .name kind
  | @group names _ _ _ openerKind _ closerKind ih =>
    cases names with
    | none => trivial
    | some n => exact .group openerKind ih closerKind
  | @member names _ _ _ _ dotKind kind ih =>
    cases names with
    | none => trivial
    | some n => exact .member ih dotKind kind
  | _ => trivial

/-- A number may follow the open edge, so the kind of the token before asks for an operand. -/
theorem Edge.operandExpected {spine : Spine} (edge : Edge d spine ts) :
    operandExpected (ts.map Token.kind).getLast? = true := by
  have derives := edge none [⟨.literal, "0", .int 0⟩] (.term (.literal rfl))
  obtain ⟨tree, _, reads⟩ := (Derives.chain derives).reads
  obtain ⟨p, run, _⟩ := Parser.parse_eq_ok.1 (parse_eq_ok_iff.2 reads)
  obtain ⟨q, before, rest⟩ := Parser.addAll_append_eq_ok.1 run
  obtain ⟨r, number, _⟩ := Parser.addAll_cons_eq_ok.1 rest
  exact ((Parser.placed_of_run before).follows_of_number rfl rfl number).1

theorem Explains.leads {owners : List Owner} (explains : Explains d ts owners) :
    Parser.Leads d (.reading [] .fresh) ts (.reading owners .fresh) := by
  induction explains with
  | nil => exact .refl _
  | cons _ reads ih => exact ih.trans (reads.runsAs _)

/-- Where a level begins an operand is expected. -/
theorem Explains.operandExpected {owners : List Owner} (explains : Explains d ts owners) :
    operandExpected (ts.map Token.kind).getLast? = true := by
  obtain ⟨text, run⟩ := explains.leads ""
  exact (Parser.placed_of_run run).2.1

/-- Behind a chain of names the last tokens are a path. -/
theorem Parser.exists_path {p : Parser} {owners : List Owner} {spine : Spine} {tree : Expr}
    (run : start.addAll d ts = .ok p)
    (phase : p.phase = .reading owners ⟨spine, .after (.named tree)⟩)
    (names : tree.names? = some n) :
    ∃ before callee, ts = before ++ callee ∧
      operandExpected (before.map Token.kind).getLast? = true ∧ Path callee n ∧
      ∃ us t, callee = us ++ [t] ∧ t.kind = .identifier := by
  have begin : start.phase.ReadsAs d [] := ⟨[], [], rfl, .nil, .fresh⟩
  have reads := begin.addAll run
  rw [phase] at reads
  obtain ⟨outer, inner, split, explains, reads⟩ := reads
  obtain ⟨front, callee, rfl, edge, term, ends⟩ := reads.spells
  have path : Path callee n := by
    rw [names] at term
    exact term.writesPath
  refine ⟨outer ++ front, callee, by rw [List.append_assoc]; exact split, ?_, path, ends n names⟩
  cases front with
  | nil =>
    rw [List.append_nil]
    exact explains.operandExpected
  | cons first rest =>
    have own := edge.operandExpected
    rw [List.map_cons, List.getLast?_cons] at own
    rw [List.map_append, List.getLast?_append, List.map_cons, List.getLast?_cons, Option.some_or]
    exact own

/-! ## Two dialects in step -/

/-- The dialect with or without dotted names of functions, and otherwise the same. -/
def Dialect.dotting (d : Dialect) (dotted : Bool) : Dialect :=
  { d with options := { d.options with namespacedFunctions := dotted } }

/-- The token calls a chain of more than one name. -/
def Level.CallsChain (level : Level) (t : Token) : Prop :=
  ∃ spine tree n, level = ⟨spine, .after (.named tree)⟩ ∧ tree.names? = some n ∧ 1 < n ∧
    t.kind = .openParen

variable {text : String}

/-- A chain of more than one name is nothing that can be called. -/
theorem Level.calleeName?_undotted {tree : Expr} (names : tree.names? = some n) (lt : 1 < n) :
    calleeName? (d.dotting false).options tree = none := by
  cases found : calleeName? (d.dotting false).options tree with
  | none => rfl
  | some name =>
    obtain ⟨m, same, dotted | one⟩ := Expr.exists_calleeName?_iff.1 ⟨name, found⟩
    · cases dotted
    · cases names.symm.trans same
      omega

theorem Level.calleeName?_dotting (d : Dialect) (tree : Expr) :
    calleeName? (d.dotting false).options tree = calleeName? (d.dotting true).options tree ∨
      ∃ n, tree.names? = some n ∧ 1 < n := by
  unfold calleeName? Expr.names?
  match chain : chain? tree with
  | none => exact .inl rfl
  | some [] => exact (Expr.chain?_ne_nil tree chain).elim
  | some [_] => exact .inl rfl
  | some (_ :: _ :: rest) => exact .inr ⟨_, rfl, Nat.succ_lt_succ (Nat.succ_pos _)⟩

theorem Level.accept?_dotting (d : Dialect) (text : String) (level : Level) (t : Token) :
    level.accept? (d.dotting false) text t = level.accept? (d.dotting true) text t ∨
      level.CallsChain t := by
  rcases level with ⟨spine, mode⟩
  cases mode with
  | after operand =>
    cases kind : t.kind with
    | openParen =>
      cases operand with
      | named tree =>
        rcases calleeName?_dotting d tree with same | ⟨n, names, lt⟩
        · left
          simp only [accept?, acceptAfter?, kind, acceptCall?, same]
        · exact .inr ⟨spine, tree, n, rfl, names, lt, kind⟩
      | _ => exact .inl rfl
    | binaryOp | dot =>
      left
      simp only [accept?, acceptAfter?, kind]
      rfl
    | _ =>
      left
      simp only [accept?, acceptAfter?, kind]
  | _ => exact .inl rfl

namespace Parser

/-- Without dotted names the call of a chain is refused. -/
theorem add_undotted {owners : List Owner} {level : Level} (calls : level.CallsChain t) :
    add (d.dotting false) ⟨text, .reading owners level⟩ t =
      .error (.invalidCall (text ++ t.raw)) := by
  obtain ⟨spine, tree, n, rfl, names, lt, kind⟩ := calls
  have nameless : Level.calleeName? (d.dotting false).options tree = none :=
    Level.calleeName?_undotted names lt
  simp only [add, Level.accept?, Level.acceptAfter?, kind, Level.acceptCall?, nameless]
  rfl

/-- The parsers go in step, or one of them is about to refuse the call of a chain. -/
theorem add_dotting (d : Dialect) (p : Parser) (t : Token) :
    p.add (d.dotting false) t = p.add (d.dotting true) t ∨
      ∃ owners level, p.phase = .reading owners level ∧ level.CallsChain t := by
  rcases p with ⟨text, phase⟩
  cases phase with
  | complete parsed => exact .inl rfl
  | reading owners level =>
    rcases level.accept?_dotting d (text ++ t.raw) t with same | calls
    · left
      simp only [add, same]
    · exact .inr ⟨owners, level, rfl, calls⟩

theorem addAll_dotting (d : Dialect) (p : Parser) (ts : List Token) :
    p.addAll (d.dotting false) ts = p.addAll (d.dotting true) ts ∨
      ∃ before t after text owners level, ts = before ++ t :: after ∧
        p.addAll (d.dotting false) before = .ok ⟨text, .reading owners level⟩ ∧
        level.CallsChain t := by
  induction ts generalizing p with
  | nil => exact .inl rfl
  | cons t ts ih =>
    have first (d : Dialect) : p.addAll d (t :: ts) = p.add d t >>= fun q => q.addAll d ts := by
      simp only [addAll, List.foldlM_cons]
    rcases add_dotting d p t with same | ⟨owners, level, phase, calls⟩
    · cases added : p.add (d.dotting false) t with
      | error error =>
        rw [first, first, ← same, added]
        exact .inl rfl
      | ok q =>
        rcases ih q with rest | ⟨before, u, after, text, owners, level, rfl, run, calls⟩
        · rw [first, first, ← same, added]
          exact .inl rest
        · exact .inr ⟨t :: before, u, after, text, owners, level, rfl,
            addAll_cons_eq_ok.2 ⟨q, added, run⟩, calls⟩
    · rcases p with ⟨text, _⟩
      cases phase
      exact .inr ⟨[], t, ts, text, owners, level, rfl, rfl, calls⟩

theorem parse_of_addAll_error {error : ParseError} (failed : start.addAll d ts = .error error) :
    parse d ts = .error error := by
  unfold parse
  rw [failed]
  rfl

theorem parse_dotting (d : Dialect) (ts : List Token) :
    parse (d.dotting false) ts = parse (d.dotting true) ts ∨
      ∃ before t after text owners level, ts = before ++ t :: after ∧
        start.addAll (d.dotting false) before = .ok ⟨text, .reading owners level⟩ ∧
        level.CallsChain t ∧
        parse (d.dotting false) ts = .error (.invalidCall (text ++ t.raw)) := by
  rcases addAll_dotting d start ts with
    same | ⟨before, t, after, text, owners, level, rfl, run, calls⟩
  · left
    unfold parse
    rw [same]
  · refine .inr ⟨before, t, after, text, owners, level, rfl, run, calls, parse_of_addAll_error ?_⟩
    exact addAll_eq_error.2 ⟨before, t, after, _, rfl, run, add_undotted calls⟩

/-! ## Chains among the tokens -/

/-- The call of a chain shows in the tokens. -/
theorem callsPath_of_calls {before after : List Token} {owners : List Owner} {level : Level}
    (run : start.addAll d before = .ok ⟨text, .reading owners level⟩) (calls : level.CallsChain t) :
    CallsPath (before ++ t :: after) := by
  obtain ⟨spine, tree, n, rfl, names, lt, kind⟩ := calls
  obtain ⟨front, path, rfl, expected, isPath, us, last, split, lastKind⟩ :=
    exists_path run rfl names
  obtain ⟨callee, dot, m, rfl, isCallee, dotKind⟩ := isPath.eq_member lt split lastKind
  exact ⟨front, callee, dot, last, t, after, m, rfl, expected, isCallee, dotKind, lastKind, kind⟩

/-- Without dotted names the parser does not take the tokens of such a call. -/
theorem not_run_of_callsPath (calls : CallsPath ts) {p : Parser} :
    start.addAll (d.dotting false) ts ≠ .ok p := by
  intro run
  obtain ⟨before, callee, dot, last, opener, after, n, rfl, expected, path, dotKind, lastKind,
    openerKind⟩ := calls
  obtain ⟨q, called, rest⟩ := addAll_append_eq_ok.1 run
  obtain ⟨r, first, inner⟩ := addAll_append_eq_ok.1 called
  obtain ⟨text, owners, ⟨spine, mode⟩, rfl⟩ := exists_reading_of_run first
  have follows : mode.Follows (before.map Token.kind) := (placed_of_run first).2
  cases mode with
  | operand =>
    obtain ⟨operand, names, subject⟩ := path.leads (d.dotting false) owners spine
    obtain ⟨tree, longer, member⟩ := leads_member (d := d.dotting false) names dotKind lastKind
    obtain ⟨text', whole⟩ := (subject.trans member) text
    rw [List.append_assoc, whole] at inner
    cases inner
    obtain ⟨s, opened, _⟩ := addAll_cons_eq_ok.1 rest
    have chain : Level.CallsChain ⟨spine, .after (.named tree)⟩ opener :=
      ⟨spine, tree, n + 1, rfl, longer, Nat.succ_lt_succ path.pos, openerKind⟩
    cases (add_undotted chain).symm.trans opened
  | key entries =>
    rw [addAll_append_eq_ok] at inner
    obtain ⟨s, dotted, _⟩ := inner
    exact path.not_run_of_key dotKind dotted
  | _ => cases expected.symm.trans follows

end Parser

/-- Without dotted names of functions the parser does what it does with them, or it reports a call
that is not allowed. Of tokens that have a tree with dotted names it reports one exactly if some
function is called by more than one name. -/
theorem parse_undotted (d : Dialect) (ts : List Token) :
    (Parser.parse (d.dotting false) ts = Parser.parse (d.dotting true) ts ∨
      ∃ text, Parser.parse (d.dotting false) ts = .error (.invalidCall text)) ∧
    ∀ tree, Parser.parse (d.dotting true) ts = .ok tree →
      ((∃ text, Parser.parse (d.dotting false) ts = .error (.invalidCall text)) ↔
        CallsPath ts) := by
  have step := Parser.parse_dotting d ts
  refine ⟨?_, fun tree parsed => ⟨?_, fun calls => ?_⟩⟩
  · rcases step with same | ⟨_, _, _, _, _, _, _, _, _, refused⟩
    · exact .inl same
    · exact .inr ⟨_, refused⟩
  · rintro ⟨text, refused⟩
    rcases step with same | ⟨before, t, after, text, owners, level, rfl, run, calls, _⟩
    · cases refused.symm.trans (same.trans parsed)
    · exact Parser.callsPath_of_calls run calls
  · rcases step with same | ⟨_, _, _, _, _, _, _, _, _, refused⟩
    · obtain ⟨p, run, _⟩ := Parser.parse_eq_ok.1 (same.trans parsed)
      exact (Parser.not_run_of_callsPath calls run).elim
    · exact ⟨_, refused⟩

/-- The tokens of `[n|s.t(1), (a).b(2)]`. -/
def pipeAndCall : List Token :=
  [⟨.openBracket, "[", .string "["⟩, ⟨.identifier, "n", .string "n"⟩, ⟨.pipe, "|", .string "|"⟩,
    ⟨.identifier, "s", .string "s"⟩, ⟨.dot, ".", .string "."⟩, ⟨.identifier, "t", .string "t"⟩,
    ⟨.openParen, "(", .string "("⟩, ⟨.literal, "1", .int 1⟩, ⟨.closeParen, ")", .string ")"⟩,
    ⟨.comma, ", ", .string ","⟩, ⟨.openParen, "(", .string "("⟩,
    ⟨.identifier, "a", .string "a"⟩, ⟨.closeParen, ")", .string ")"⟩, ⟨.dot, ".", .string "."⟩,
    ⟨.identifier, "b", .string "b"⟩, ⟨.openParen, "(", .string "("⟩, ⟨.literal, "2", .int 2⟩,
    ⟨.closeParen, ")", .string ")"⟩, ⟨.closeBracket, "]", .string "]"⟩]

/-- The dotted name of the transform is no matter, that of the function is. -/
theorem parse_undotted_pipeAndCall :
    ∃ tree, Parser.parse (Dialect.dotting ⟨.standard, {}⟩ true) pipeAndCall = .ok tree ∧
      Parser.parse (Dialect.dotting ⟨.standard, {}⟩ false) pipeAndCall =
        .error (.invalidCall "[n|s.t(1), (a).b(") ∧
      CallsPath pipeAndCall := by
  have parsed : Parser.parse (Dialect.dotting ⟨.standard, {}⟩ true) pipeAndCall = .ok _ := rfl
  have refused : Parser.parse (Dialect.dotting ⟨.standard, {}⟩ false) pipeAndCall =
      .error (.invalidCall "[n|s.t(1), (a).b(") := rfl
  obtain ⟨_, called⟩ := parse_undotted ⟨.standard, {}⟩ pipeAndCall
  exact ⟨_, parsed, refused, (called _ parsed).1 ⟨_, refused⟩⟩

end JsonExpr
