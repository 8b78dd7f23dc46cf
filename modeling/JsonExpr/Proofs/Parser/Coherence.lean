import JsonExpr.Proofs.Parser.Actions
import JsonExpr.Proofs.Parser.Machine
import JsonExpr.Proofs.Parser.Precedence

/-!
# What the registers hold

The state of a machine says which of its registers are in use (`Registers.Holds`), and every token
that a machine takes, or that ends the machine inside, keeps it so (`Machine.Coherent.feed`). A
register that a step needs is therefore never empty, and an owner has a place for what a nested
machine has read (`Registers.Coherent.exists_endSub`).
-/

namespace JsonExpr

/-! ## The order of the spine -/

namespace Spine

/-- From the inside out there are first unary operators and then binary ones, each of which binds
tighter than those around it. -/
def IsOrdered (spine : Spine) : Prop :=
  ∃ unaries binaries : Spine, spine = unaries ++ binaries ∧
    (∀ op ∈ unaries, ∃ operator, op = .unary operator) ∧
    (∀ op ∈ binaries, ∃ operator precedence left, op = .binary operator precedence left) ∧
    binaries.Pairwise fun inner outer => outer.precedence < inner.precedence

theorem isOrdered_nil : IsOrdered [] :=
  ⟨[], [], rfl, nofun, nofun, .nil⟩

theorem IsOrdered.unary {spine : Spine} (ordered : spine.IsOrdered) (operator : String) :
    IsOrdered (.unary operator :: spine) := by
  obtain ⟨unaries, binaries, rfl, areUnary, areBinary, tighter⟩ := ordered
  exact ⟨.unary operator :: unaries, binaries, rfl,
    List.forall_mem_cons.2 ⟨⟨operator, rfl⟩, areUnary⟩, areBinary, tighter⟩

theorem climb_append {unaries : Spine} (areUnary : ∀ op ∈ unaries, ∃ operator, op = .unary operator)
    (p : UInt32) (tree : Expr) (spine : Spine) :
    ∃ closed, climb p tree (unaries ++ spine) = climb p closed spine := by
  induction unaries generalizing tree with
  | nil => exact ⟨tree, rfl⟩
  | cons op rest ih =>
    obtain ⟨⟨operator, rfl⟩, others⟩ := List.forall_mem_cons.1 areUnary
    obtain ⟨closed, eq⟩ := ih others (.unary operator tree)
    have closes : p ≤ (Open.unary operator).precedence := le_unaryPrecedence p
    refine ⟨closed, ?_⟩
    rw [List.cons_append, climb, if_pos closes]
    exact eq

/-- The operators that go on waiting bind less tight. -/
theorem lt_of_mem_climb {binaries : Spine}
    (tighter : binaries.Pairwise fun inner outer => outer.precedence < inner.precedence)
    (p : UInt32) (tree : Expr) :
    (climb p tree binaries).2.Sublist binaries ∧
      ∀ op ∈ (climb p tree binaries).2, op.precedence < p := by
  induction binaries generalizing tree with
  | nil => exact ⟨.refl _, nofun⟩
  | cons op rest ih =>
    obtain ⟨first, others⟩ := List.pairwise_cons.1 tighter
    rw [climb]
    split
    · obtain ⟨sublist, below⟩ := ih others (op.close tree)
      exact ⟨sublist.cons op, below⟩
    · rename_i waits
      have own : op.precedence < p := UInt32.not_le.1 waits
      exact ⟨.refl _, List.forall_mem_cons.2
        ⟨own, fun outer mem => UInt32.lt_trans (first outer mem) own⟩⟩

/-- A binary operator closes all that bind at least as tight. -/
theorem IsOrdered.binary {spine : Spine} (ordered : spine.IsOrdered) (operator : String)
    (p : UInt32) (left tree : Expr) :
    IsOrdered (.binary operator p left :: (spine.climb p tree).2) := by
  obtain ⟨unaries, binaries, rfl, areUnary, areBinary, tighter⟩ := ordered
  obtain ⟨closed, eq⟩ := climb_append areUnary p tree binaries
  obtain ⟨sublist, below⟩ := lt_of_mem_climb tighter p closed
  rw [eq]
  refine ⟨[], _, rfl, nofun, List.forall_mem_cons.2 ⟨⟨operator, p, left, rfl⟩, ?_⟩,
    List.pairwise_cons.2 ⟨below, tighter.sublist sublist⟩⟩
  exact fun op mem => areBinary op (sublist.subset mem)

end Spine

/-! ## Registers in use -/

namespace Registers

/-- What the registers hold in a state. -/
def Holds (r : Registers) : State → Prop
  | .operand => r.cursor = none
  | .operator | .named | .called | .bracket => ∃ operand, r.cursor = some operand
  | .piped | .segment => ∃ name args, r.cursor = some (.call .transforms name args)
  | .argument => ∃ pool name args, r.cursor = some (.call pool name args)
  | .item => ∃ items, r.cursor = some (.array items)
  | .key => ∃ entries, r.cursor = some (.object entries)
  | .colon | .entry => (∃ entries, r.cursor = some (.object entries)) ∧ ∃ key, r.key = some key
  | .consequent | .alternate => (∃ choice, r.choice = some choice) ∧ r.spine = []
  | .transform | .property | .group | .complete => True

/-- The registers are those that the state needs. -/
structure Coherent (r : Registers) : Prop where
  holds : r.Holds r.state
  /-- Only the name of a property is attached to something. -/
  attachment : r.attachment ≠ .plain ↔ r.state = .property
  spine : r.spine.IsOrdered

variable {d : Dialect} {r after done : Registers} {t : Token} {next : State}

theorem coherent_fresh (text : String) (ends : List Stop) : (fresh text ends).Coherent :=
  ⟨rfl, ⟨fun attached => (attached rfl).elim, nofun⟩, Spine.isOrdered_nil⟩

theorem Coherent.plain (coherent : r.Coherent) (other : r.state ≠ .property) :
    r.attachment = .plain :=
  Decidable.not_not.1 fun attached => other (coherent.attachment.1 attached)

/-- In any state but that of a property, no name is attached. -/
theorem coherent_of_plain (holds : r.Holds next) (plain : r.attachment = .plain)
    (other : next ≠ .property) (ordered : r.spine.IsOrdered) :
    Coherent { r with state := next } :=
  ⟨holds, ⟨fun attached => (attached plain).elim, fun property => (other property).elim⟩, ordered⟩

/-! ### Tokens -/

theorem coherent_dot (ordered : r.spine.IsOrdered) :
    Coherent { r.dot with state := .property } := by
  refine ⟨trivial, ⟨fun _ => rfl, fun _ => ?_⟩, ordered⟩
  change (if r.cursor.isSome then Attachment.member else .relative) ≠ .plain
  split <;> nofun

/-- Behind an operand. -/
theorem Coherent.act_after (coherent : r.Coherent) (operand : ∃ operand, r.cursor = some operand)
    (other : r.state ≠ .property) (leads : State.afterOperand? t.kind = some next)
    (acts : r.act d t = .ok done) : Coherent { done with state := next } := by
  have plain := coherent.plain other
  have behind : r.state ≠ .operand := fun state => by
    have holds := coherent.holds
    rw [state] at holds
    obtain ⟨tree, cursor⟩ := operand
    cases holds.symm.trans cursor
  unfold State.afterOperand? at leads
  split at leads
  case h_1 kind =>
    cases leads
    rw [act_binaryOp kind] at acts
    obtain ⟨p, tree, rfl⟩ := binary_eq_ok acts
    exact coherent_of_plain rfl plain nofun (coherent.spine.binary ..)
  case h_2 kind =>
    cases leads
    cases (act_pipe kind).symm.trans acts
    exact coherent_of_plain trivial plain nofun coherent.spine
  case h_3 kind =>
    cases leads
    cases (act_dot kind).symm.trans acts
    exact coherent_dot coherent.spine
  case h_4 kind =>
    cases leads
    cases (act_openBracket kind behind).symm.trans acts
    exact coherent_of_plain operand plain nofun coherent.spine
  case h_5 kind =>
    cases leads
    rw [act_question kind] at acts
    obtain ⟨test, rfl⟩ := question_eq_ok acts
    exact coherent_of_plain ⟨⟨_, rfl⟩, rfl⟩ plain nofun Spine.isOrdered_nil
  case h_6 => cases leads

/-- Each token that the table allows leaves the registers as the next state needs them. -/
theorem Coherent.act (coherent : r.Coherent) (leads : r.state.next? t.kind = some next)
    (acts : r.act d t = .ok done) : Coherent { done with state := next } := by
  rcases r with ⟨state, started, spine, cursor, choice, attachment, key, text, ends⟩
  rcases t with ⟨kind, raw, value⟩
  have ordered : spine.IsOrdered := coherent.spine
  cases state with
  | operand =>
    have plain : attachment = .plain := coherent.plain nofun
    cases kind with
    | literal =>
      cases leads
      cases acts
      exact coherent_of_plain ⟨_, rfl⟩ plain nofun ordered
    | identifier =>
      cases leads
      obtain ⟨operand, rfl⟩ := identifier_eq_ok acts
      exact coherent_of_plain ⟨_, rfl⟩ rfl nofun ordered
    | unaryOp =>
      cases leads
      have eq := unary_eq_ok acts
      subst eq
      exact coherent_of_plain coherent.holds plain nofun (ordered.unary _)
    | openParen =>
      cases leads
      cases acts
      exact coherent_of_plain trivial plain nofun ordered
    | openCurl =>
      cases leads
      cases acts
      exact coherent_of_plain ⟨_, rfl⟩ plain nofun ordered
    | openBracket =>
      cases leads
      cases acts
      exact coherent_of_plain ⟨_, rfl⟩ plain nofun ordered
    | dot =>
      cases leads
      cases acts
      exact coherent_dot ordered
    | _ => cases leads
  | operator => exact coherent.act_after coherent.holds nofun leads acts
  | named =>
    cases kind with
    | openParen =>
      cases leads
      obtain ⟨name, rfl⟩ := call_eq_ok acts
      exact coherent_of_plain ⟨_, _, _, rfl⟩ (coherent.plain nofun) nofun ordered
    | _ => exact coherent.act_after coherent.holds nofun (by exact leads) acts
  | piped =>
    obtain ⟨name, args, cursor⟩ := coherent.holds
    cases kind with
    | openParen =>
      cases leads
      cases acts
      exact coherent_of_plain ⟨_, _, _, cursor⟩ (coherent.plain nofun) nofun ordered
    | _ => exact coherent.act_after ⟨_, cursor⟩ nofun (by exact leads) acts
  | called => exact coherent.act_after coherent.holds nofun leads acts
  | transform =>
    cases kind with
    | identifier =>
      cases leads
      obtain ⟨subject, rfl⟩ := transform_eq_ok acts
      exact coherent_of_plain ⟨_, _, rfl⟩ (coherent.plain nofun) nofun ordered
    | _ => cases leads
  | segment =>
    obtain ⟨name, args, isCall⟩ := coherent.holds
    cases isCall
    cases kind with
    | identifier =>
      cases leads
      cases acts
      exact coherent_of_plain ⟨_, _, rfl⟩ (coherent.plain nofun) nofun ordered
    | _ => cases leads
  | property =>
    cases kind with
    | identifier =>
      cases leads
      obtain ⟨operand, rfl⟩ := identifier_eq_ok acts
      exact coherent_of_plain ⟨_, rfl⟩ rfl nofun ordered
    | _ => cases leads
  | key =>
    have object : ∃ entries, cursor = some (.object entries) := coherent.holds
    have plain : attachment = .plain := coherent.plain nofun
    cases kind with
    | identifier =>
      cases leads
      cases acts
      exact coherent_of_plain ⟨object, _, rfl⟩ plain nofun ordered
    | literal =>
      cases leads
      cases value with
      | string name =>
        cases acts
        exact coherent_of_plain ⟨object, _, rfl⟩ plain nofun ordered
      | _ => cases acts
    | closeCurl =>
      cases leads
      cases acts
      obtain ⟨entries, cursor⟩ := object
      exact coherent_of_plain ⟨_, cursor⟩ plain nofun ordered
    | _ => cases leads
  | colon =>
    cases kind with
    | colon =>
      cases leads
      cases acts
      exact coherent_of_plain coherent.holds (coherent.plain nofun) nofun ordered
    | _ => cases leads
  | _ => cases leads

theorem Coherent.handle (coherent : r.Coherent) (leads : r.state.next? t.kind = some next)
    (taken : r.handle d t next = .ok after) : after.Coherent := by
  unfold Registers.handle at taken
  split at taken
  · rename_i dotted
    cases taken
    obtain ⟨state, _⟩ := dotted
    have holds := coherent.holds
    rw [state] at holds
    exact coherent_of_plain holds (coherent.plain (by rw [state]; nofun)) nofun coherent.spine
  · obtain ⟨done, acts, rfl⟩ := map_eq_ok_iff.1 taken
    exact coherent.act leads acts

/-- What has been read, and whether anything has, is no matter. -/
theorem Coherent.update (coherent : r.Coherent) (text : String) (started : Bool) :
    Coherent { r with text := text, started := started } :=
  ⟨coherent.holds, coherent.attachment, coherent.spine⟩

/-! ### Results of nested machines -/

/-- Where the tree of a nested machine is kept. -/
inductive Keeps (r : Registers) (tree : Expr) : Registers → Prop
  | bracket {subject : Expr} :
    r.state = .bracket → r.cursor = some subject →
    Keeps r tree (r.place (.filter subject tree tree.hasRelative))
  | group : r.state = .group → Keeps r tree (r.place tree)
  | argument {pool : Pool} {name : String} {args : List Expr} :
    r.state = .argument → r.cursor = some (.call pool name args) →
    Keeps r tree (r.place (.call pool name (args ++ [tree])))
  | item {items : List Expr} :
    r.state = .item → r.cursor = some (.array items) →
    Keeps r tree (r.place (.array (items ++ [tree])))
  | entry {entries : List (String × Expr)} {key : String} :
    r.state = .entry → r.cursor = some (.object entries) → r.key = some key →
    Keeps r tree ({ r with key := none }.place (.object (entries ++ [(key, tree)])))
  | consequent {test : Expr} {first : Option Expr} :
    r.state = .consequent → r.choice = some (test, first) →
    Keeps r tree { r with choice := some (test, some tree) }
  | alternate {test : Expr} {first : Option Expr} :
    r.state = .alternate → r.choice = some (test, first) →
    Keeps r tree ({ r with choice := none }.place (Parser.choice test first tree))

/-- There is a place for the tree. -/
theorem Coherent.exists_endSub (coherent : r.Coherent) (waits : r.state.delegates = true)
    (tree : Expr) (closer : Option (TokenKind × String)) :
    ∃ after, r.endSub (some tree) closer = .ok after ∧ r.Keeps tree after := by
  rcases r with ⟨state, started, spine, cursor, choice, attachment, key, text, ends⟩
  cases state with
  | bracket =>
    obtain ⟨subject, isSubject⟩ := coherent.holds
    cases isSubject
    exact ⟨_, rfl, .bracket rfl rfl⟩
  | group => exact ⟨_, rfl, .group rfl⟩
  | argument =>
    obtain ⟨pool, name, args, isCall⟩ := coherent.holds
    cases isCall
    exact ⟨_, rfl, .argument rfl rfl⟩
  | item =>
    obtain ⟨items, isArray⟩ := coherent.holds
    cases isArray
    exact ⟨_, rfl, .item rfl rfl⟩
  | entry =>
    obtain ⟨⟨entries, isObject⟩, name, isKey⟩ := coherent.holds
    cases isObject
    cases isKey
    exact ⟨_, rfl, .entry rfl rfl rfl⟩
  | consequent =>
    obtain ⟨⟨⟨test, first⟩, isChoice⟩, _⟩ := coherent.holds
    cases isChoice
    exact ⟨_, rfl, .consequent rfl rfl⟩
  | alternate =>
    obtain ⟨⟨⟨test, first⟩, isChoice⟩, _⟩ := coherent.holds
    cases isChoice
    exact ⟨_, rfl, .alternate rfl rfl⟩
  | _ => cases waits

/-- The state that follows where a nested machine ends. -/
def behind (r : Registers) (stop : Stop) : State :=
  if r.state.ends?.isNone then .operator else stop.2

/-- What a nested machine gives, be it nothing, leaves the registers as the state behind it needs
them. -/
theorem Coherent.endSub {result : Option Expr} {closer : Option (TokenKind × String)} {stop : Stop}
    (coherent : r.Coherent) (waits : r.state.delegates = true) (mem : stop ∈ r.lent)
    (ended : r.endSub result closer = .ok after) :
    Coherent { after with state := r.behind stop } ∧ after.ends = r.ends := by
  rcases r with ⟨state, started, spine, cursor, choice, attachment, key, text, ends⟩
  have ordered : spine.IsOrdered := coherent.spine
  cases state with
  | bracket =>
    obtain ⟨subject, isSubject⟩ := coherent.holds
    cases isSubject
    cases List.mem_singleton.1 mem
    cases result with
    | none => cases ended
    | some tree =>
      cases ended
      exact ⟨coherent_of_plain ⟨_, rfl⟩ (coherent.plain nofun) nofun ordered, rfl⟩
  | group =>
    cases List.mem_singleton.1 mem
    cases result with
    | none => cases ended
    | some tree =>
      cases ended
      exact ⟨coherent_of_plain ⟨_, rfl⟩ (coherent.plain nofun) nofun ordered, rfl⟩
  | argument =>
    obtain ⟨pool, name, args, isCall⟩ := coherent.holds
    cases isCall
    obtain ⟨more, rfl⟩ : ∃ more, after = ⟨.argument, started, spine, some (.call pool name more),
        choice, attachment, key, text, ends⟩ := by
      cases result with
      | some arg =>
        cases ended
        exact ⟨_, rfl⟩
      | none =>
        change ite _ _ _ = _ at ended
        by_cases bare : closesList closer = true ∧
            args.length = if pool = .transforms then 1 else 0
        · rw [if_pos bare] at ended
          cases ended
          exact ⟨args, rfl⟩
        · rw [if_neg bare] at ended
          cases ended
    rcases List.mem_cons.1 mem with rfl | last
    · exact ⟨coherent_of_plain ⟨_, _, _, rfl⟩ (coherent.plain nofun) nofun ordered, rfl⟩
    · cases List.mem_singleton.1 last
      exact ⟨coherent_of_plain ⟨_, rfl⟩ (coherent.plain nofun) nofun ordered, rfl⟩
  | item =>
    obtain ⟨items, isArray⟩ := coherent.holds
    cases isArray
    obtain ⟨more, rfl⟩ : ∃ more, after = ⟨.item, started, spine, some (.array more), choice,
        attachment, key, text, ends⟩ := by
      cases result with
      | some item =>
        cases ended
        exact ⟨_, rfl⟩
      | none =>
        change ite _ _ _ = _ at ended
        split at ended
        · cases ended
          exact ⟨items, rfl⟩
        · cases ended
    rcases List.mem_cons.1 mem with rfl | last
    · exact ⟨coherent_of_plain ⟨_, rfl⟩ (coherent.plain nofun) nofun ordered, rfl⟩
    · cases List.mem_singleton.1 last
      exact ⟨coherent_of_plain ⟨_, rfl⟩ (coherent.plain nofun) nofun ordered, rfl⟩
  | entry =>
    obtain ⟨⟨entries, isObject⟩, name, isKey⟩ := coherent.holds
    cases isObject
    cases isKey
    cases result with
    | none => cases ended
    | some tree =>
      cases ended
      rcases List.mem_cons.1 mem with rfl | last
      · exact ⟨coherent_of_plain ⟨_, rfl⟩ (coherent.plain nofun) nofun ordered, rfl⟩
      · cases List.mem_singleton.1 last
        exact ⟨coherent_of_plain ⟨_, rfl⟩ (coherent.plain nofun) nofun ordered, rfl⟩
  | consequent =>
    obtain ⟨⟨⟨test, first⟩, isChoice⟩, empty⟩ := coherent.holds
    cases isChoice
    cases List.mem_singleton.1 mem
    cases ended
    exact ⟨coherent_of_plain ⟨⟨_, rfl⟩, empty⟩ (coherent.plain nofun) nofun ordered, rfl⟩
  | alternate =>
    obtain ⟨⟨⟨test, first⟩, isChoice⟩, empty⟩ := coherent.holds
    cases isChoice
    cases result with
    | none => cases ended
    | some tree =>
      cases ended
      exact ⟨coherent_of_plain ⟨_, rfl⟩ (coherent.plain nofun) nofun ordered, rfl⟩
  | _ => cases waits

end Registers

/-! ## Machines inside machines -/

namespace Machine

/-- The registers of all machines are coherent, and a machine inside another one has begun. -/
inductive Coherent : Machine → Prop
  | leaf {r : Registers} : r.Coherent → Coherent (.leaf r)
  | nest {r : Registers} {sub : Machine} : r.Coherent → r.state.delegates = true →
    sub.registers.started = true → sub.registers.ends = r.lent → Coherent sub →
    Coherent (.nest r sub)

variable {d : Dialect} {r : Registers} {m sub after : Machine} {t : Token} {stop : Option Stop}

theorem Coherent.registers (coherent : m.Coherent) : m.registers.Coherent := by
  cases coherent with
  | leaf own => exact own
  | nest own => exact own

/-- What becomes of a machine with these registers at a token. -/
structure Answered (r : Registers) (stop : Option Stop) (after : Machine) : Prop where
  coherent : after.Coherent
  ends_eq : after.registers.ends = r.ends
  started : stop = none → after.registers.started = true
  mem_ends : ∀ own, stop = some own → own ∈ r.ends

/-- A machine that reads the token itself. -/
theorem answered_leaf (coherent : r.Coherent) (own : r.state.delegates = false)
    (fed : (leaf r).feed d t = .ok (stop, after)) : Answered r stop after := by
  have going : r.state ≠ .complete := fun complete => by
    have refused : (leaf r).registers.state = .complete := complete
    rw [feed, if_pos refused] at fed
    cases fed
  rw [feed_leaf own going] at fed
  obtain ⟨⟨stop, rest⟩, taken, eq⟩ := map_eq_ok_iff.1 fed
  cases eq
  have same := coherent.update (r.text ++ t.raw) r.started
  unfold Registers.take at taken
  split at taken
  · rename_i next leads
    obtain ⟨done, handled, eq⟩ := map_eq_ok_iff.1 taken
    cases eq
    have ends := Registers.ends_of_handle handled
    have begun := (same.handle leads handled).update done.text true
    refine ⟨.leaf begun, ends, fun _ => rfl, fun other eq => ?_⟩
    cases eq
  · split at taken
    · rename_i own found
      split at taken
      · cases taken
      · cases taken
        refine ⟨.leaf same, rfl, fun going => ?_, fun other eq => ?_⟩
        · cases going
        · cases eq
          exact List.mem_of_find?_eq_some found
    · cases taken

/-- A machine that goes on as the one inside does. -/
theorem answered_goOn {inner : Registers} {next : Option Stop} (coherent : r.Coherent)
    (waits : r.state.delegates = true) (lent : inner.ends = r.lent)
    (answered : Answered inner stop sub) (went : goOn r t (stop, sub) = .ok (next, after)) :
    Answered r next after := by
  cases stop with
  | none =>
    cases went
    exact ⟨.nest (coherent.update r.text true) waits (answered.started rfl)
      (answered.ends_eq.trans lent) answered.coherent, rfl, fun _ => rfl, nofun⟩
  | some own =>
    have mem : own ∈ r.lent := lent ▸ answered.mem_ends own rfl
    obtain ⟨result, completes, ended⟩ := bind_eq_ok_iff.1 went
    obtain ⟨rest, ended, eq⟩ := bind_eq_ok_iff.1 ended
    obtain ⟨behind, ends⟩ := coherent.endSub waits mem ended
    unfold Registers.behind at behind
    split at eq
    · rename_i inherited
      cases eq
      rw [if_pos inherited] at behind
      refine ⟨.leaf behind, ends, nofun, fun other eq => ?_⟩
      cases eq
      rw [Registers.lent, Option.isNone_iff_eq_none.1 inherited] at mem
      exact mem
    · rename_i own
      cases eq
      rw [if_neg own] at behind
      exact ⟨.leaf (behind.update _ true), ends, fun _ => rfl, nofun⟩

theorem answered_waiting (coherent : m.registers.Coherent)
    (waits : m.registers.state.delegates = true) (lent : m.sub.registers.ends = m.registers.lent)
    (inside : ∀ {stop after}, m.sub.feed d t = .ok (stop, after) →
      Answered m.sub.registers stop after)
    (fed : m.feed d t = .ok (stop, after)) : Answered m.registers stop after := by
  rw [feed_of_delegates waits] at fed
  obtain ⟨⟨inner, rest⟩, first, went⟩ := bind_eq_ok_iff.1 fed
  have same := coherent.update (m.registers.text ++ t.raw) m.registers.started
  obtain ⟨coherent, ends, started, mem⟩ := answered_goOn same waits lent (inside first) went
  exact ⟨coherent, ends, started, mem⟩

/-- A token keeps all registers as the states need them, also where it ends the machine. -/
theorem Coherent.feed (coherent : m.Coherent) (fed : m.feed d t = .ok (stop, after)) :
    Answered m.registers stop after := by
  induction m generalizing stop after with
  | leaf r =>
    have own := coherent.registers
    cases waits : r.state.delegates with
    | false => exact answered_leaf own waits fed
    | true =>
      refine answered_waiting own waits rfl (fun first => ?_) fed
      exact answered_leaf (Registers.coherent_fresh r.text r.lent) rfl first
  | nest r sub ih =>
    cases coherent with
    | nest own waits _ lent inner => exact answered_waiting own waits lent (ih inner) fed

/-- The machines that come from feeding, so long as no token is refused: those that have been fed,
whatever ends them, and those that read inside of such a machine. -/
inductive Fed (d : Dialect) : Machine → Prop
  | fresh (text : String) (ends : List Stop) : Fed d (leaf (.fresh text ends))
  | feed {m after : Machine} {t : Token} {stop : Option Stop} :
    Fed d m → m.feed d t = .ok (stop, after) → Fed d after
  | sub {r : Registers} {sub : Machine} : Fed d (nest r sub) → Fed d sub

theorem Fed.coherent (fed : Fed d m) : m.Coherent := by
  induction fed with
  | fresh text ends => exact .leaf (Registers.coherent_fresh text ends)
  | feed _ fed ih => exact (ih.feed fed).coherent
  | sub _ ih =>
    cases ih with
    | nest _ _ _ _ inner => exact inner

theorem Fed.feedAll {ts : List Token} (fed : Fed d m) (run : m.feedAll d ts = .ok after) :
    Fed d after := by
  induction ts generalizing m with
  | nil =>
    cases run
    exact fed
  | cons t ts ih =>
    rw [Machine.feedAll] at run
    obtain ⟨⟨stop, next⟩, first, rest⟩ := bind_eq_ok_iff.1 run
    cases stop with
    | none => exact ih (fed.feed first) rest
    | some own => cases rest

/-- Whatever tokens the parser has taken, its machine is one of these. In every such machine, at
any depth, the state says what the registers hold. A machine stands inside another one only while
that one waits, and it has begun. Whatever tree it gives in the end, there is a place where the tree
is kept. -/
theorem registers_of_fed (d : Dialect) :
    (∀ ts p, Parser.start.addAll d ts = .ok p →
      ∃ m, start.feedAll d ts = .ok m ∧ Represents m p ∧ Fed d m) ∧
    ∀ m, Fed d m →
      m.registers.Coherent ∧
        (∀ r sub, m = nest r sub → r.state.delegates = true ∧ sub.registers.started = true) ∧
        (m.registers.state.delegates = true → ∀ text tree closer, ∃ after,
          Registers.endSub { m.registers with text := text } (some tree) closer = .ok after ∧
            Registers.Keeps { m.registers with text := text } tree after) := by
  constructor
  · intro ts p run
    obtain ⟨m, taken, represents⟩ := exists_represents run
    exact ⟨m, taken, represents, (Fed.fresh "" []).feedAll taken⟩
  · intro m fed
    have coherent := fed.coherent
    refine ⟨coherent.registers, ?_, fun waits text tree closer => ?_⟩
    · rintro r sub rfl
      cases coherent with
      | nest _ waits started _ _ => exact ⟨waits, started⟩
    · exact (coherent.registers.update text m.registers.started).exists_endSub waits tree closer

/-- `f({k: a ? b`. -/
def openEntry : List Token :=
  [⟨.identifier, "f", .string "f"⟩, ⟨.openParen, "(", .string "("⟩,
    ⟨.openCurl, "\x7b", .string "\x7b"⟩, ⟨.identifier, "k", .string "k"⟩,
    ⟨.colon, ":", .string ":"⟩, ⟨.identifier, "a", .string "a"⟩,
    ⟨.question, "?", .string "?"⟩, ⟨.identifier, "b", .string "b"⟩]

/-- The machine inside the call holds the key of the entry whose value is read, and has a place for
that value. -/
theorem registers_of_fed_openEntry :
    ∃ call object, start.feedAll ⟨.standard, {}⟩ openEntry = .ok (nest call object) ∧
      object.registers.state = .entry ∧ object.registers.Coherent ∧
      ∀ tree closer, ∃ after, object.registers.endSub (some tree) closer = .ok after ∧
        object.registers.Keeps tree after := by
  obtain ⟨reachable, holds⟩ := registers_of_fed ⟨.standard, {}⟩
  have run : Parser.start.addAll ⟨.standard, {}⟩ openEntry = .ok ⟨"f(\x7bk:a?b", _⟩ := rfl
  obtain ⟨m, taken, represents, fed⟩ := reachable _ _ run
  cases represents.eq_outward
  obtain ⟨coherent, _, keeps⟩ := holds _ fed.sub
  exact ⟨_, _, taken, rfl, coherent, keeps rfl _⟩

end Machine

end JsonExpr
