import JsonExpr.Eval
import JsonExpr.Operators.Standard
import JsonExpr.Proofs.Groups
import JsonExpr.Proofs.Text

/-!
Numbers in brackets. An integer and the numeral that it is written with get to what they read in
different ways. The integer is a position as it stands, where the numeral has to be read digit by
digit; and where a name is asked for the numeral is one already, while the integer has to be written
down first. From every value they read the same all the same, which is `Value.atNumber`.
-/

namespace JsonExpr

namespace Value

/-- What a value has at a number: the item or the character at that position, if there is one, or
the entry that is named by the numeral. -/
def atNumber (n : Int) : Value → Value
  | .array items => if 0 ≤ n then items.getD n.toNat .undefined else .undefined
  | .string s =>
    if 0 ≤ n then (s.toList[n.toNat]?.map fun c => .string (String.singleton c)).getD .undefined
    else .undefined
  | .object fields => (Fields.find? (String.ofList (Text.integer n)) fields).getD .undefined
  | .null => .null
  | _ => .undefined

/-! ## Positions -/

/-- An integer from zero on is a position. -/
theorem position?_int (n : Int64) :
    position? (.int n) = if 0 ≤ n.toInt then some n.toInt.toNat else none := rfl

/-- A row of digits is read as the position that it stands for. -/
theorem parseIndex?_digits {digits : List Char} (nonempty : digits ≠ [])
    (isDigit : ∀ c ∈ digits, c.isDigit = true) (fits : Text.ofDigits digits ≤ maxIndex) :
    parseIndex? (String.ofList digits) = some (Text.ofDigits digits) := by
  cases digits with
  | nil => exact (nonempty rfl).elim
  | cons c rest =>
    have noSign : c ≠ '+' := by
      rintro rfl
      exact absurd (isDigit _ List.mem_cons_self) (by decide)
    have all : (c :: rest).all Char.isDigit = true := List.all_eq_true.2 isDigit
    simp [parseIndex?, noSign, all, fits]

/-- A row of characters with a minus sign in front is read as no position. -/
theorem parseIndex?_minus (rest : List Char) :
    parseIndex? (String.ofList ('-' :: rest)) = none := by
  simp [parseIndex?]

/-- The numeral of an integer is read as the position that the integer is. -/
theorem position?_numeral (n : Int64) :
    position? (.string (String.ofList (Text.integer n.toInt))) = position? (.int n) := by
  rw [position?_int, position?, Text.integer]
  by_cases negative : n.toInt < 0
  · rw [if_pos negative, if_neg (Int.not_le.2 negative), parseIndex?_minus]
  · have below : n.toInt < 2 ^ 63 := n.toInt_lt
    have fits : Text.ofDigits (Text.natural n.toInt.natAbs) ≤ maxIndex := by
      rw [Text.ofDigits_natural, maxIndex, UInt64.size]
      omega
    rw [if_neg negative, if_pos (Int.not_lt.1 negative),
      parseIndex?_digits (Text.natural_ne_nil _) (fun _ => Text.isDigit_of_mem_natural) fits,
      Text.ofDigits_natural]
    congr 1
    omega

/-! ## Keys -/

theorem index_int (subject : Value) (n : Int64) :
    subject.index (.int n) = subject.atNumber n.toInt := by
  cases subject with
  | array items =>
    rw [index, position?_int, atNumber]
    · split
      · rw [Option.bind_some, List.getD_eq_getElem?_getD]
      · rfl
    · nofun
  | string s =>
    rw [index, position?_int, atNumber]
    · by_cases position : 0 ≤ n.toInt
      · simp only [if_pos position, Option.bind_some]
        cases s.toList[n.toInt.toNat]? <;> rfl
      · simp only [if_neg position, Option.bind_none]
    · nofun
  | _ => rfl

theorem index_numeral (subject : Value) (n : Int64) :
    subject.index (.string (String.ofList (Text.integer n.toInt))) = subject.index (.int n) := by
  cases subject with
  | array items =>
    rw [index, index, position?_numeral]
    · nofun
    · nofun
  | string s =>
    rw [index, index, position?_numeral]
    · nofun
    · nofun
  | _ => rfl

end Value

namespace Expr

/-- An integer and its numeral read the same in brackets, whatever stands before the brackets and
however the keys are computed. -/
theorem outcome_bracket_number (g : Grammar) (scope : Scope) (subject number numeral : Expr)
    {n : Int64} (isNumber : (eval g scope number).outcome = .ok (.int n))
    (isNumeral : (eval g scope numeral).outcome =
      .ok (.string (String.ofList (Text.integer n.toInt)))) :
    (eval g scope (.filter subject number false)).outcome =
        (eval g scope subject).outcome.map (Value.atNumber n.toInt) ∧
      (eval g scope (.filter subject numeral false)).outcome =
        (eval g scope subject).outcome.map (Value.atNumber n.toInt) := by
  rw [eval, eval, Run.outcome_bind, Run.outcome_bind]
  simp only [Run.outcome_map, isNumber, isNumeral]
  cases (eval g scope subject).outcome with
  | error error => exact ⟨rfl, rfl⟩
  | ok value =>
    have byNumeral := (value.index_numeral n).trans (value.index_int n)
    exact ⟨congrArg Except.ok (value.index_int n), congrArg Except.ok byNumeral⟩

/-- Rows and names by number, with an entry below zero. -/
def numbered : Value :=
  .object [("rows", .array [.null, .string "two"]), ("names", .object [("-1", .string "least")])]

/-- The last row is read by `2 - 1` and by its numeral, and `"-1"` is an entry but no position. -/
theorem outcome_bracket_number_numbered :
    (eval .standard ⟨numbered, none⟩ (.filter (.ident "rows" false)
        (.binary "-" (.literal (.int 2)) (.literal (.int 1))) false)).outcome =
      .ok (.string "two") ∧
      (eval .standard ⟨numbered, none⟩ (.filter (.ident "rows" false)
        (.literal (.string "1")) false)).outcome = .ok (.string "two") ∧
      (eval .standard ⟨numbered, none⟩ (.filter (.ident "names" false)
        (.literal (.int (-1))) false)).outcome = .ok (.string "least") ∧
      (eval .standard ⟨numbered, none⟩ (.filter (.ident "rows" false)
        (.literal (.string "-1")) false)).outcome = .ok .undefined := by
  have difference : (eval .standard ⟨numbered, none⟩
      (.binary "-" (.literal (.int 2)) (.literal (.int 1)))).outcome = .ok (.int 1) := rfl
  have below : (eval .standard ⟨numbered, none⟩ (.literal (.string "-1"))).outcome =
      .ok (.string (String.ofList (Text.integer (-1 : Int64).toInt))) := rfl
  have rows := outcome_bracket_number .standard ⟨numbered, none⟩ (.ident "rows" false) _
    (.literal (.string "1")) difference rfl
  have names := outcome_bracket_number .standard ⟨numbered, none⟩ (.ident "names" false)
    (.literal (.int (-1))) _ rfl below
  have outside := outcome_bracket_number .standard ⟨numbered, none⟩ (.ident "rows" false)
    (.literal (.int (-1))) _ rfl below
  exact ⟨rows.1, rows.2, names.1, outside.2⟩

end Expr

end JsonExpr
