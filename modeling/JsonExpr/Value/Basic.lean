import JsonExpr.Fields
import JsonExpr.Number.Binary64

/-!
The values of expressions: JSON data together with `undefined`, the result of reading what is not
there, which is not the same as an explicit null. Integers and doubles are kept apart. Objects
keep the order of their keys, and `Value.WellFormed` says that no object has a key twice.
-/

namespace JsonExpr

/-- A value of an expression. -/
inductive Value
  | undefined
  | null
  | bool (b : Bool)
  | int (n : Int64)
  | float (x : Float)
  | string (s : String)
  | array (items : List Value)
  | object (fields : List (String × Value))
deriving Inhabited

namespace Value

/-- The object with the given entries; of entries with one key the last value counts. -/
def ofEntries (entries : List (String × Value)) : Value :=
  .object (Fields.ofList entries)

mutual

/-- No object at any depth has a key twice. -/
def WellFormed : Value → Prop
  | .array items => WellFormedItems items
  | .object fields => (Fields.names fields).Nodup ∧ WellFormedFields fields
  | _ => True

/-- All items are well formed. -/
def WellFormedItems : List Value → Prop
  | [] => True
  | item :: rest => item.WellFormed ∧ WellFormedItems rest

/-- All entries are well formed. -/
def WellFormedFields : List (String × Value) → Prop
  | [] => True
  | (_, value) :: rest => value.WellFormed ∧ WellFormedFields rest

end

/-- What counts as true: everything but `undefined`, null, false, zero, NaN and the empty
string. -/
def isTruthy : Value → Bool
  | .undefined | .null => false
  | .bool b => b
  | .int n => n != 0
  | .float x => !(x == 0.0) && !x.isNaN
  | .string s => s != ""
  | .array _ | .object _ => true

/-- Null or undefined. -/
def isNullish : Value → Bool
  | .undefined | .null => true
  | _ => false

def isNumber : Value → Bool
  | .int _ | .float _ => true
  | _ => false

/-- The double for a number. -/
def asFloat? : Value → Option Float
  | .int n => some (floatOfInt n.toInt)
  | .float x => some x
  | _ => none

/-- Positions are counted in 64 bits; a larger one stands for the greatest. -/
def maxIndex : Nat := UInt64.size - 1

/-- The position that a number stands for: it has to be whole and not negative. -/
def asIndex? : Value → Option Nat
  | .int n => if 0 ≤ n.toInt then some n.toInt.toNat else none
  | .float x =>
    match Binary64.ofFloat? x with
    | some parts =>
      if parts.isWhole && (!parts.negative || parts.mantissa = 0) then
        some (min parts.truncated maxIndex)
      else none
    | none => none
  | _ => none

/-- The entry of an object under a key. Null has null under every key, and all else has
nothing. -/
def get (key : String) : Value → Value
  | .object fields => (Fields.find? key fields).getD .undefined
  | .null => .null
  | _ => .undefined

/-- The name of the kind of a value, as messages show it. -/
def typeName : Value → String
  | .undefined => "undefined"
  | .null => "null"
  | .bool _ => "boolean"
  | .int _ => "integer"
  | .float _ => "float"
  | .string _ => "string"
  | .array _ => "array"
  | .object _ => "object"

end Value

end JsonExpr
