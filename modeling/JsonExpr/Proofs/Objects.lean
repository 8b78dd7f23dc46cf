import JsonExpr.Proofs.Parser.Machine
import JsonExpr.Proofs.Parser.Terms
import JsonExpr.Proofs.Sequential
import JsonExpr.Proofs.Starts

/-!
# Objects whose keys repeat

The parser keeps all entries of an object as they are written (`WrittenObject.leads`), since the key
that waits for its value belongs to the level outside and not to the one that reads the value. All
of them are evaluated, also those that a later entry replaces (`Expr.EvaluatesEntries`). Only the
object that is made of the values has each key once, where it first came and with the last value.
-/

namespace JsonExpr

/-! ## Entries as they are written -/

/-- An entry, with the comma behind it if there is one. -/
structure WrittenEntry (d : Dialect) where
  key : String
  value : Expr
  name : Token
  colon : Token
  tokens : List Token
  comma : Token
  spells : name.SpellsKey key
  isColon : colon.kind = .colon
  parses : Parser.parse d tokens = .ok value
  isComma : comma.kind = .comma

namespace WrittenEntry

variable {d : Dialect}

def entry (written : WrittenEntry d) : String × Expr :=
  (written.key, written.value)

/-- The tokens up to the end of the value. -/
def row (written : WrittenEntry d) : List Token :=
  written.name :: written.colon :: written.tokens

/-- The tokens of all entries; there may be a comma behind the last one as well. -/
def rows (trailing : Bool) : List (WrittenEntry d) → List Token
  | [] => []
  | [last] => last.row ++ if trailing then [last.comma] else []
  | first :: next :: rest => first.row ++ [first.comma] ++ rows trailing (next :: rest)

/-- At the end of the value the owner still has the key and the entries before. -/
theorem leads_row (written : WrittenEntry d) (owners : List Owner) (spine : Spine)
    (others : List (String × Expr)) :
    ∃ phase, Parser.Leads d (.reading owners ⟨spine, .key others⟩) written.row phase ∧
      Parser.Gives (⟨spine, .entry others written.key⟩ :: owners) written.value phase := by
  have key : Accepts d ⟨spine, .key others⟩ written.name
      (.stay ⟨spine, .colon others written.key⟩) := by
    rcases written.spells with ⟨isName, same⟩ | ⟨isLiteral, same⟩
    · rw [← same]
      exact .nameKey isName
    · exact .stringKey isLiteral same
  have colon : Accepts d ⟨spine, .colon others written.key⟩ written.colon
      (.enter ⟨spine, .entry others written.key⟩) := .colon written.isColon
  obtain ⟨phase, value, gives⟩ :=
    (parse_eq_ok_iff.1 written.parses).runsAs (⟨spine, .entry others written.key⟩ :: owners)
  exact ⟨phase, key.leads.trans (colon.leads.trans value), gives⟩

/-- Each value goes behind the entries that are there already. -/
theorem leads_rows (trailing : Bool) (entries : List (WrittenEntry d)) {closer : Token}
    (closes : closer.kind = .closeCurl) (owners : List Owner) (spine : Spine)
    (others : List (String × Expr)) :
    Parser.Leads d (.reading owners ⟨spine, .key others⟩) (rows trailing entries ++ [closer])
      (.reading owners ⟨spine, .after (.plain (.object (others ++ entries.map entry)))⟩) := by
  fun_induction rows trailing entries generalizing others with
  | case1 =>
    rw [List.map_nil, List.append_nil]
    exact (Accepts.closeObject closes).leads
  | case2 last =>
    obtain ⟨phase, value, gives⟩ := last.leads_row owners spine others
    rw [List.append_assoc]
    refine value.trans ?_
    cases trailing with
    | false => exact (Closes.lastEntry closes).leads gives
    | true =>
      exact ((Closes.nextEntry last.isComma).leads gives).trans (Accepts.closeObject closes).leads
  | case3 first next rest ih =>
    obtain ⟨phase, value, gives⟩ := first.leads_row owners spine others
    have more := ih (others ++ [first.entry])
    rw [List.append_assoc, List.singleton_append, ← List.map_cons] at more
    rw [List.append_assoc, List.append_assoc]
    exact value.trans (((Closes.nextEntry first.isComma).leads gives).trans more)

end WrittenEntry

/-- An object between its braces. -/
structure WrittenObject (d : Dialect) where
  entries : List (WrittenEntry d)
  trailing : Bool
  opener : Token
  closer : Token
  opens : opener.kind = .openCurl
  closes : closer.kind = .closeCurl

namespace WrittenObject

variable {d : Dialect}

def tokens (object : WrittenObject d) : List Token :=
  object.opener :: (WrittenEntry.rows object.trailing object.entries ++ [object.closer])

/-- The tree, with all entries. -/
def tree (object : WrittenObject d) : Expr :=
  .object (object.entries.map WrittenEntry.entry)

/-- Wherever an operand is expected, and whoever waits for it. -/
theorem leads (object : WrittenObject d) (owners : List Owner) (spine : Spine) :
    Parser.Leads d (.reading owners ⟨spine, .operand⟩) object.tokens
      (.reading owners ⟨spine, .after (.plain object.tree)⟩) :=
  (Accepts.openObject object.opens).leads.trans
    (WrittenEntry.leads_rows object.trailing object.entries object.closes owners spine [])

theorem parse_tokens (object : WrittenObject d) :
    Parser.parse d object.tokens = .ok object.tree := by
  obtain ⟨text, run⟩ := object.leads [] [] ""
  exact Parser.parse_eq_ok.2 ⟨_, run, rfl⟩

end WrittenObject

/-! ## Values of entries -/

namespace Expr

variable {g : Grammar} {scope : Scope} {entries : List (String × Expr)}

/-- How an object is evaluated, whatever its keys are. -/
structure EvaluatesEntries (g : Grammar) (scope : Scope) (entries : List (String × Expr)) :
    Prop where
  runsEach : Run.RunsEach (entries.map fun entry => eval g scope entry.2)
    (eval g scope (.object entries))
  /-- Each key is there once, where it first came. -/
  keys : ∀ value, (eval g scope (.object entries)).outcome = .ok value →
    ∃ fields, value = .object fields ∧ Fields.names fields = (entries.map Prod.fst).eraseDups ∧
      (Fields.names fields).Nodup
  /-- A key reads the value of its last entry, behind a dot and in brackets. -/
  reads : (eval g scope (.object entries)).Succeeds →
    ∀ before key last after, entries = before ++ (key, last) :: after →
    key ∉ after.map Prod.fst →
    (eval g scope (.member (.object entries) key false)).outcome = (eval g scope last).outcome ∧
      (eval g scope (.filter (.object entries) (.literal (.string key)) false)).outcome =
        (eval g scope last).outcome

theorem eval_object (entries : List (String × Expr)) :
    eval g scope (.object entries) =
      (Run.joinAll (entries.map fun entry => eval g scope entry.2)).map fun values =>
        .ofEntries ((entries.map Prod.fst).zip values) := by
  rw [eval, evalEntries_eq_map]

/-- The values of an object that has been evaluated, one for each entry. -/
theorem exists_values_of_object {value : Value}
    (ends : (eval g scope (.object entries)).outcome = .ok value) :
    ∃ values, entries.map (fun entry => (eval g scope entry.2).outcome) = values.map .ok ∧
      value = .ofEntries ((entries.map Prod.fst).zip values) := by
  rw [eval_object] at ends
  obtain ⟨values, whole, rfl⟩ := Run.outcome_map_eq_ok_iff.1 ends
  have outcomes := Run.outcomes_of_joinAll_eq_ok whole
  rw [List.map_map] at outcomes
  exact ⟨values, outcomes, rfl⟩

/-- What the fields have under a key is what its last entry gives. -/
theorem find?_of_last {before after : List (String × Expr)} {key : String} {last : Expr}
    {values : List Value} (isLast : key ∉ after.map Prod.fst)
    (outcomes : (before ++ (key, last) :: after).map (fun entry => (eval g scope entry.2).outcome) =
      values.map .ok) :
    ∃ value, (eval g scope last).outcome = .ok value ∧
      Fields.find? key
        (Fields.ofList (((before ++ (key, last) :: after).map Prod.fst).zip values)) =
        some value := by
  rw [List.map_append, List.map_cons] at outcomes ⊢
  obtain ⟨first, rest, rfl, firsts, rests⟩ := List.map_eq_append_iff.1 outcomes.symm
  obtain ⟨value, others, rfl, own, rests⟩ := List.map_eq_cons_iff.1 rests
  have firstLength : (before.map Prod.fst).length = first.length := by
    simpa using (congrArg List.length firsts).symm
  have otherLength : (after.map Prod.fst).length = others.length := by
    simpa using (congrArg List.length rests).symm
  refine ⟨value, own.symm, ?_⟩
  rw [List.zip_append firstLength, List.zip_cons_cons]
  refine Fields.find?_ofList_of_last ?_
  rwa [Fields.names, List.map_fst_zip (Nat.le_of_eq otherLength)]

theorem EvaluatesEntries.of_entries (g : Grammar) (scope : Scope) (entries : List (String × Expr)) :
    EvaluatesEntries g scope entries where
  runsEach := by
    rw [eval_object]
    exact (Run.runsEach_joinAll _).map _
  keys value ends := by
    obtain ⟨values, outcomes, rfl⟩ := exists_values_of_object ends
    have length : entries.length = values.length := by simpa using congrArg List.length outcomes
    refine ⟨_, rfl, ?_, Fields.nodup_ofList _⟩
    rw [Fields.names_ofList, Fields.names, List.map_fst_zip (by simp [length])]
  reads succeeds before key last after split isLast := by
    obtain ⟨value, ends⟩ := succeeds
    obtain ⟨values, outcomes, rfl⟩ := exists_values_of_object ends
    subst split
    obtain ⟨value, own, found⟩ := find?_of_last isLast outcomes
    have read : (Value.ofEntries
        (((before ++ (key, last) :: after).map Prod.fst).zip values)).get key = value := by
      rw [Value.ofEntries, Value.get, found]
      rfl
    rw [own]
    constructor
    · rw [eval, Run.outcome_map, ends]
      exact congrArg Except.ok read
    · rw [eval, Run.outcome_bind, ends]
      exact congrArg Except.ok read

end Expr

/-! ## Repeated keys -/

/-- The parser keeps all entries of an object, in order and whatever their keys are. All of them are
evaluated, once and in order, and of those with one key the last one counts. -/
theorem object_with_repeated_keys (d : Dialect) (object : WrittenObject d) (owners : List Owner)
    (spine : Spine) (g : Grammar) (scope : Scope) (entries : List (String × Expr)) :
    Parser.Leads d (.reading owners ⟨spine, .operand⟩) object.tokens
        (.reading owners
          ⟨spine, .after (.plain (.object (object.entries.map WrittenEntry.entry)))⟩) ∧
      Parser.parse d object.tokens = .ok (.object (object.entries.map WrittenEntry.entry)) ∧
      Machine.parse d object.tokens = .ok (.object (object.entries.map WrittenEntry.entry)) ∧
      Expr.EvaluatesEntries g scope entries := by
  refine ⟨object.leads owners spine, object.parse_tokens, ?_, .of_entries g scope entries⟩
  rw [Machine.parse_eq]
  exact object.parse_tokens

/-- The call `note(n)` under a key. -/
def notedEntry (key numeral : String) (n : Int64) : WrittenEntry ⟨Expr.noting, {}⟩ where
  key := key
  value := .call .functions "note" [.literal (.int n)]
  name := ⟨.literal, "\"" ++ key ++ "\"", .string key⟩
  colon := ⟨.colon, ":", .string ":"⟩
  tokens := [⟨.identifier, "note", .string "note"⟩, ⟨.openParen, "(", .string "("⟩,
    ⟨.literal, numeral, .int n⟩, ⟨.closeParen, ")", .string ")"⟩]
  comma := ⟨.comma, ",", .string ","⟩
  spells := .inr ⟨rfl, rfl⟩
  isColon := rfl
  parses := rfl
  isComma := rfl

/-- `{"a":note(1),"b":note(2),"a":note(3),}`. -/
def notedObject : WrittenObject ⟨Expr.noting, {}⟩ where
  entries := [notedEntry "a" "1" 1, notedEntry "b" "2" 2, notedEntry "a" "3" 3]
  trailing := true
  opener := ⟨.openCurl, "\x7b", .string "\x7b"⟩
  closer := ⟨.closeCurl, "\x7d", .string "\x7d"⟩
  opens := rfl
  closes := rfl

/-- All three calls are made, in order; the key of two of them reads what the last one gives. -/
theorem object_with_repeated_keys_noted :
    Machine.parse ⟨Expr.noting, {}⟩ notedObject.tokens = .ok notedObject.tree ∧
      (Expr.eval Expr.noting ⟨.null, none⟩ notedObject.tree).log = [.int 1, .int 2, .int 3] ∧
      (Expr.eval Expr.noting ⟨.null, none⟩ (.member notedObject.tree "a" false)).outcome =
        .ok (.int 3) := by
  obtain ⟨_, _, parses, evaluates⟩ := object_with_repeated_keys ⟨Expr.noting, {}⟩ notedObject [] []
    Expr.noting ⟨.null, none⟩ (notedObject.entries.map WrittenEntry.entry)
  have steady := Expr.pauses_eval Expr.isStandard_noting Expr.isSynchronous_noting
  have succeeds : (Expr.eval Expr.noting ⟨.null, none⟩ notedObject.tree).Succeeds :=
    ⟨.object [("a", .int 3), ("b", .int 2)], rfl⟩
  refine ⟨parses, ?_, ?_⟩
  · exact evaluates.runsEach.log_eq (List.forall_mem_map.2 fun entry _ => steady entry.2 _) succeeds
  · exact (evaluates.reads succeeds [_, _] "a" _ [] rfl List.not_mem_nil).1

end JsonExpr
