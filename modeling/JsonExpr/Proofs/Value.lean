import JsonExpr.Proofs.Fields
import JsonExpr.Value.Json

/-!
Induction over values. A list of values stands for the values in it. `Value.Contains` is about the
parts of a value at every depth.
-/

namespace JsonExpr

section Induction

variable {motive : Value → Prop} (undefined : motive .undefined) (null : motive .null)
  (bool : ∀ b, motive (.bool b)) (int : ∀ n, motive (.int n)) (float : ∀ x, motive (.float x))
  (string : ∀ s, motive (.string s))
  (array : ∀ items, (∀ item ∈ items, motive item) → motive (.array items))
  (object : ∀ fields, (∀ field ∈ fields, motive field.2) → motive (.object fields))

include undefined null bool int float string array object

/-- Induction over a value, with a case for each kind of value. -/
@[induction_eliminator]
theorem Value.induction (value : Value) : motive value :=
  @Value.rec motive (fun items => ∀ item ∈ items, motive item)
    (fun fields => ∀ field ∈ fields, motive field.2) (fun field => motive field.2)
    undefined null bool int float string array object
    (fun _ none => nomatch none)
    (fun _ _ first rest => List.forall_mem_cons.2 ⟨first, rest⟩)
    (fun _ none => nomatch none)
    (fun _ _ first rest => List.forall_mem_cons.2 ⟨first, rest⟩)
    (fun _ _ value => value)
    value

end Induction

namespace Value

theorem wellFormedItems_iff {items : List Value} :
    WellFormedItems items ↔ ∀ item ∈ items, item.WellFormed := by
  induction items with
  | nil => simp [WellFormedItems]
  | cons item rest ih => rw [WellFormedItems, ih, List.forall_mem_cons]

theorem wellFormedFields_iff {fields : List (String × Value)} :
    WellFormedFields fields ↔ ∀ field ∈ fields, field.2.WellFormed := by
  induction fields with
  | nil => simp [WellFormedFields]
  | cons field rest ih => rw [WellFormedFields, ih, List.forall_mem_cons]

/-- The value or a part of it, at whatever depth, is of the kind. -/
inductive Contains (kind : Value → Prop) : Value → Prop
  | here {value : Value} : kind value → Contains kind value
  | item {items : List Value} {item : Value} : item ∈ items → Contains kind item →
    Contains kind (.array items)
  | entry {fields : List (String × Value)} {field : String × Value} : field ∈ fields →
    Contains kind field.2 → Contains kind (.object fields)

section Contains

variable {kind : Value → Prop}

theorem not_contains_array_iff {items : List Value} (no : ¬ kind (.array items)) :
    ¬ Contains kind (.array items) ↔ ∀ item ∈ items, ¬ item.Contains kind := by
  constructor
  · exact fun none item mem inside => none (.item mem inside)
  · intro none some
    cases some with
    | here holds => exact no holds
    | item mem inside => exact none _ mem inside

theorem not_contains_object_iff {fields : List (String × Value)} (no : ¬ kind (.object fields)) :
    ¬ Contains kind (.object fields) ↔ ∀ field ∈ fields, ¬ field.2.Contains kind := by
  constructor
  · exact fun none field mem inside => none (.entry mem inside)
  · intro none some
    cases some with
    | here holds => exact no holds
    | entry mem inside => exact none _ mem inside

end Contains

end Value

end JsonExpr
