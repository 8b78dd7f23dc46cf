import JsonExpr.Proofs.Value

/-!
# Values as JSON data and back

JSON has neither `undefined` nor the doubles that are not finite. `Value.normalize` puts null in
their place and leaves all else as it is: the kinds of numbers, the order of keys, the structure.
On the way through JSON a value is normalized (`Value.ofJson_toJson`), and this is all that happens
to it. On the way through a value JSON data stays as it is, as long as its integers have 64 bits
(`Json.Fits.toJson_ofJson`); the data that values are written as is of this kind
(`Value.fits_toJson`).
-/

namespace JsonExpr

theorem map_eq_self_iff {α : Type} {f : α → α} {l : List α} :
    l.map f = l ↔ ∀ a ∈ l, f a = a := by
  induction l with
  | nil => exact iff_of_true rfl nofun
  | cons a rest ih => rw [List.map_cons, List.cons.injEq, ih, List.forall_mem_cons]

namespace Value

/-- What JSON has no form for: `undefined` and the doubles that are not finite. -/
def IsForeign : Value → Prop
  | .undefined => True
  | .float x => x.isFinite = false
  | _ => False

mutual

/-- The value with null in place of what JSON has no form for. -/
def normalize : Value → Value
  | .undefined => .null
  | .float x => if x.isFinite then .float x else .null
  | .array items => .array (normalizeItems items)
  | .object fields => .object (normalizeFields fields)
  | value => value

/-- The normalized items. -/
def normalizeItems : List Value → List Value
  | [] => []
  | item :: rest => item.normalize :: normalizeItems rest

/-- The normalized entries, under their keys. -/
def normalizeFields : List (String × Value) → List (String × Value)
  | [] => []
  | (key, value) :: rest => (key, value.normalize) :: normalizeFields rest

end

/-! ## Items and entries -/

theorem normalizeItems_eq_map (items : List Value) :
    normalizeItems items = items.map normalize := by
  induction items with
  | nil => rfl
  | cons item rest ih => rw [normalizeItems, ih, List.map_cons]

theorem normalizeFields_eq_map (fields : List (String × Value)) :
    normalizeFields fields = fields.map fun field => (field.1, field.2.normalize) := by
  induction fields with
  | nil => rfl
  | cons field rest ih => rw [normalizeFields, ih, List.map_cons]

theorem toJsonItems_eq_map (items : List Value) : toJsonItems items = items.map toJson := by
  induction items with
  | nil => rfl
  | cons item rest ih => rw [toJsonItems, ih, List.map_cons]

theorem toJsonFields_eq_map (fields : List (String × Value)) :
    toJsonFields fields = fields.map fun field => (field.1, field.2.toJson) := by
  induction fields with
  | nil => rfl
  | cons field rest ih => rw [toJsonFields, ih, List.map_cons]

theorem ofJsonItems_eq_map (items : List Json) : ofJsonItems items = items.map ofJson := by
  induction items with
  | nil => rfl
  | cons item rest ih => rw [ofJsonItems, ih, List.map_cons]

theorem ofJsonFields_eq_map (fields : List (String × Json)) :
    ofJsonFields fields = fields.map fun field => (field.1, ofJson field.2) := by
  induction fields with
  | nil => rfl
  | cons field rest ih => rw [ofJsonFields, ih, List.map_cons]

/-! ## From values and back -/

/-- Only what JSON has no form for changes. -/
theorem normalize_eq_self_iff {v : Value} : v.normalize = v ↔ ¬ v.Contains IsForeign := by
  induction v with
  | undefined => exact iff_of_false nofun fun none => none (.here (trivial : IsForeign .undefined))
  | null => exact iff_of_true rfl fun | .here foreign => foreign
  | bool b => exact iff_of_true rfl fun | .here foreign => foreign
  | int n => exact iff_of_true rfl fun | .here foreign => foreign
  | float x =>
    rw [normalize]
    cases finite : x.isFinite with
    | true => exact iff_of_true rfl fun | .here foreign => nomatch finite.symm.trans foreign
    | false => exact iff_of_false nofun fun none => none (.here (finite : IsForeign (.float x)))
  | string s => exact iff_of_true rfl fun | .here foreign => foreign
  | array items ih =>
    rw [normalize, array.injEq, normalizeItems_eq_map, map_eq_self_iff, not_contains_array_iff id]
    exact forall₂_congr ih
  | object fields ih =>
    rw [normalize, object.injEq, normalizeFields_eq_map, map_eq_self_iff,
      not_contains_object_iff id]
    refine forall₂_congr fun field mem => ?_
    rw [← ih field mem, Prod.ext_iff]
    exact and_iff_right rfl

/-- Through JSON a value comes back normalized. -/
theorem ofJson_toJson (v : Value) : ofJson v.toJson = v.normalize := by
  induction v with
  | undefined => rfl
  | null => rfl
  | bool b => rfl
  | int n =>
    rw [toJson, ofJson, ofJsonInt, narrow?_toInt]
    rfl
  | float x =>
    rw [toJson, normalize]
    cases x.isFinite <;> rfl
  | string s => rfl
  | array items ih =>
    rw [toJson, ofJson, normalize, toJsonItems_eq_map, ofJsonItems_eq_map, normalizeItems_eq_map,
      List.map_map]
    exact congrArg array (List.map_congr_left ih)
  | object fields ih =>
    rw [toJson, ofJson, normalize, toJsonFields_eq_map, ofJsonFields_eq_map,
      normalizeFields_eq_map, List.map_map]
    exact congrArg object (List.map_congr_left fun field mem => Prod.ext rfl (ih field mem))

end Value

/-! ## From JSON data and back -/

/-- The integers of the data have 64 bits. Its doubles are finite, which is so for all JSON data
since no text has a number that is not. -/
inductive Json.Fits : Json → Prop
  | null : Fits .null
  | bool (b : Bool) : Fits (.bool b)
  | int {n : Int} : Int64.minValue.toInt ≤ n → n ≤ Int64.maxValue.toInt → Fits (.int n)
  | float {x : Float} : x.isFinite = true → Fits (.float x)
  | string (s : String) : Fits (.string s)
  | array {items : List Json} : (∀ item ∈ items, Fits item) → Fits (.array items)
  | object {fields : List (String × Json)} : (∀ field ∈ fields, Fits field.2) →
    Fits (.object fields)

open Value

/-- Through a value JSON data comes back as it was. -/
theorem Json.Fits.toJson_ofJson {j : Json} (fits : j.Fits) : (ofJson j).toJson = j := by
  induction fits with
  | null => rfl
  | bool b => rfl
  | @int n low high =>
    have narrow : narrow? n = some (Int64.ofInt n) := if_pos ⟨low, high⟩
    rw [ofJson, ofJsonInt, narrow]
    exact congrArg Json.int (toInt_of_narrow? narrow)
  | float finite => exact if_pos finite
  | string s => rfl
  | array _ ih =>
    rw [ofJson, toJson, ofJsonItems_eq_map, toJsonItems_eq_map, List.map_map]
    exact congrArg Json.array (map_eq_self_iff.2 ih)
  | object _ ih =>
    rw [ofJson, toJson, ofJsonFields_eq_map, toJsonFields_eq_map, List.map_map]
    exact congrArg Json.object (map_eq_self_iff.2 fun field mem => Prod.ext rfl (ih field mem))

namespace Value

/-- The data of a value fits. -/
theorem fits_toJson (v : Value) : v.toJson.Fits := by
  induction v with
  | undefined => exact .null
  | null => exact .null
  | bool b => exact .bool b
  | int n => exact .int (Int64.minValue_le_toInt n) (Int64.toInt_le n)
  | float x =>
    rw [toJson]
    cases finite : x.isFinite with
    | true => exact .float finite
    | false => exact .null
  | string s => exact .string s
  | array items ih =>
    rw [toJson, toJsonItems_eq_map]
    exact .array (List.forall_mem_map.2 ih)
  | object fields ih =>
    rw [toJson, toJsonFields_eq_map]
    exact .object (List.forall_mem_map.2 ih)

/-- The conversions between values and JSON data are inverse to each other but for what JSON has no
form for. A value comes back normalized, so that going there and back a second time changes nothing
and the first time changes nothing just if the value has nothing foreign in it. JSON data with
integers of 64 bits comes back as it was. -/
theorem json_faithful :
    (∀ v : Value, ofJson v.toJson = v.normalize) ∧
    (∀ v : Value, ofJson (ofJson v.toJson).toJson = ofJson v.toJson) ∧
    (∀ v : Value, ofJson v.toJson = v ↔ ¬ v.Contains IsForeign) ∧
    ∀ j : Json, j.Fits → (ofJson j).toJson = j := by
  refine ⟨ofJson_toJson, fun v => ?_, fun v => ?_, fun j fits => fits.toJson_ofJson⟩
  · rw [(fits_toJson v).toJson_ofJson]
  · rw [ofJson_toJson, normalize_eq_self_iff]

/-- Data with an integer and a double that are the same number, and keys out of order. -/
def nestedData : Json :=
  .object [("z", .int 2), ("a", .array [.float 2, .object [("y", .null), ("b", .bool true)]])]

theorem json_faithful_nestedData :
    nestedData.Fits ∧ (ofJson nestedData).toJson = nestedData := by
  have integer : Json.Fits (.int 2) := .int (by decide) (by decide)
  have double : Json.Fits (.float 2) := .float (by decide +kernel)
  have inner : Json.Fits (.object [("y", .null), ("b", .bool true)]) :=
    .object (by simp [Json.Fits.null, Json.Fits.bool])
  have items : Json.Fits (.array [.float 2, .object [("y", .null), ("b", .bool true)]]) :=
    .array (by simp [double, inner])
  have fits : nestedData.Fits := .object (by simp [integer, items])
  exact ⟨fits, json_faithful.2.2.2 _ fits⟩

end Value

end JsonExpr
