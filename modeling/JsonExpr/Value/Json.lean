import JsonExpr.Json.Basic
import JsonExpr.Value.Basic

/-!
Values as JSON data and back. On the way out `undefined` and the doubles that are not finite become
null; on the way in an integer beyond 64 bits becomes a double. All else passes unchanged, the
order of keys included.

The text of a value is what concatenation appends, what names an entry of an object, and what
messages show. Arrays and objects are shown as JSON texts, a string as it is.
-/

namespace JsonExpr.Value

mutual

/-- The JSON data for a value. -/
def toJson : Value → Json
  | .undefined | .null => .null
  | .bool b => .bool b
  | .int n => .int n.toInt
  | .float x => if x.isFinite then .float x else .null
  | .string s => .string s
  | .array items => .array (toJsonItems items)
  | .object fields => .object (toJsonFields fields)

/-- The JSON data for items. -/
def toJsonItems : List Value → List Json
  | [] => []
  | item :: rest => item.toJson :: toJsonItems rest

/-- The JSON data for entries. -/
def toJsonFields : List (String × Value) → List (String × Json)
  | [] => []
  | (key, value) :: rest => (key, value.toJson) :: toJsonFields rest

end

/-- The value of a JSON integer. -/
def ofJsonInt (n : Int) : Value :=
  match narrow? n with
  | some k => .int k
  | none => .float (floatOfInt n)

mutual

/-- The value for JSON data. -/
def ofJson : Json → Value
  | .null => .null
  | .bool b => .bool b
  | .int n => ofJsonInt n
  | .float x => .float x
  | .string s => .string s
  | .array items => .array (ofJsonItems items)
  | .object fields => .object (ofJsonFields fields)

/-- The values for items. -/
def ofJsonItems : List Json → List Value
  | [] => []
  | item :: rest => ofJson item :: ofJsonItems rest

/-- The entries for members. -/
def ofJsonFields : List (String × Json) → List (String × Value)
  | [] => []
  | (key, value) :: rest => (key, ofJson value) :: ofJsonFields rest

end

/-! ## Texts -/

/-- The JSON text of a value. -/
def jsonText (value : Value) : String :=
  value.toJson.print

/-- The text of a value. -/
def text : Value → String
  | .undefined => "undefined"
  | .null => "null"
  | .bool b => if b then "true" else "false"
  | .int n => String.ofList (Text.integer n.toInt)
  | .float x => plainFloat x
  | .string s => s
  | value => value.jsonText

end JsonExpr.Value
