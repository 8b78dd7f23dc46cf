import JsonExpr.Value.Basic

/-!
Two equalities of values. The strict one tells all kinds apart; the loose one compares integers
and doubles as numbers and does not tell null and undefined apart. Both look at the structure of
arrays and objects, for which the order of keys does not matter, and for both a NaN differs from
itself.
-/

namespace JsonExpr.Value

mutual

/-- Strict equality. -/
def beq : Value → Value → Bool
  | .undefined, .undefined => true
  | .null, .null => true
  | .bool a, .bool b => a == b
  | .int a, .int b => a == b
  | .float a, .float b => a == b
  | .string a, .string b => a == b
  | .array a, .array b => beqItems a b
  | .object a, .object b => a.length == b.length && beqFields a b
  | _, _ => false

/-- Strict equality of items, one by one. -/
def beqItems : List Value → List Value → Bool
  | [], [] => true
  | a :: as, b :: bs => beq a b && beqItems as bs
  | _, _ => false

/-- Every entry of the first list has a strictly equal one under its key in the second. -/
def beqFields : List (String × Value) → List (String × Value) → Bool
  | [], _ => true
  | (key, a) :: rest, other =>
    (match Fields.find? key other with
      | some b => beq a b
      | none => false) && beqFields rest other

end

instance : BEq Value := ⟨beq⟩

mutual

/-- Loose equality, which is that of the equality operator. -/
def looseEq : Value → Value → Bool
  | .int a, .float b => floatOfInt a.toInt == b
  | .float a, .int b => a == floatOfInt b.toInt
  | .undefined, .undefined => true
  | .undefined, .null => true
  | .null, .undefined => true
  | .null, .null => true
  | .bool a, .bool b => a == b
  | .int a, .int b => a == b
  | .float a, .float b => a == b
  | .string a, .string b => a == b
  | .array a, .array b => looseEqItems a b
  | .object a, .object b => a.length == b.length && looseEqFields a b
  | _, _ => false

/-- Loose equality of items, one by one. -/
def looseEqItems : List Value → List Value → Bool
  | [], [] => true
  | a :: as, b :: bs => looseEq a b && looseEqItems as bs
  | _, _ => false

/-- Every entry of the first list has a loosely equal one under its key in the second. -/
def looseEqFields : List (String × Value) → List (String × Value) → Bool
  | [], _ => true
  | (key, a) :: rest, other =>
    (match Fields.find? key other with
      | some b => looseEq a b
      | none => false) && looseEqFields rest other

end

end JsonExpr.Value
