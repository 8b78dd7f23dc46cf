/-!
Named entries in the order in which their names first came. `insert` replaces in place or adds at
the end, so a later entry of the same name keeps the position of the first and has the value of
the last. Objects are such lists; what an operation does is seen through `find?` and through the
list of names.

A registry has each name at most once. The order of its names is kept but never shows; two
registries are the same for their users when they find the same entries.
-/

namespace JsonExpr

/-- Entries under names. -/
abbrev Fields (α : Type) := List (String × α)

namespace Fields

variable {α : Type}

/-- The names in their order. -/
def names (fields : Fields α) : List String :=
  fields.map Prod.fst

/-- The first entry of that name. -/
def find? (name : String) : Fields α → Option α
  | [] => none
  | (key, value) :: rest => if key = name then some value else find? name rest

/-- Replaces the entry of that name, or adds one at the end. -/
def insert (name : String) (value : α) : Fields α → Fields α
  | [] => [(name, value)]
  | (key, old) :: rest =>
    if key = name then (key, value) :: rest else (key, old) :: insert name value rest

/-- Drops the entries of that name. -/
def erase (name : String) (fields : Fields α) : Fields α :=
  fields.filter fun entry => entry.1 ≠ name

/-- Inserts entries one after the other. -/
def ofList (entries : List (String × α)) : Fields α :=
  entries.foldl (fun fields entry => fields.insert entry.1 entry.2) []

@[simp] theorem find?_nil (name : String) : find? name ([] : Fields α) = none := rfl

theorem find?_insert_self (name : String) (value : α) (fields : Fields α) :
    find? name (fields.insert name value) = some value := by
  induction fields with
  | nil => simp [insert, find?]
  | cons entry rest ih =>
    by_cases same : entry.1 = name <;> simp [insert, find?, same, ih]

theorem find?_insert_of_ne {name other : String} (ne : other ≠ name) (value : α)
    (fields : Fields α) : find? other (fields.insert name value) = find? other fields := by
  induction fields with
  | nil => simp [insert, find?, Ne.symm ne]
  | cons entry rest ih =>
    by_cases same : entry.1 = name
    · simp [insert, find?, same, Ne.symm ne]
    · simp only [insert, if_neg same, find?, ih]

theorem names_insert (name : String) (value : α) (fields : Fields α) :
    names (fields.insert name value) =
      if name ∈ names fields then names fields else names fields ++ [name] := by
  induction fields with
  | nil => simp [insert, names]
  | cons entry rest ih =>
    by_cases same : entry.1 = name
    · simp [insert, names, same]
    · simp only [names] at ih
      simp only [insert, if_neg same, names, List.map_cons, List.mem_cons, Ne.symm same,
        false_or, ih]
      by_cases mem : name ∈ rest.map Prod.fst <;> simp [mem]

theorem nodup_insert {fields : Fields α} (nodup : (names fields).Nodup) (name : String)
    (value : α) : (names (fields.insert name value)).Nodup := by
  rw [names_insert]
  split
  · exact nodup
  · rename_i absent
    rw [List.nodup_append]
    exact ⟨nodup, by simp, fun a mem b one => by
      simp only [List.mem_singleton] at one
      subst one
      exact fun eq => absent (eq ▸ mem)⟩

theorem nodup_erase {fields : Fields α} (nodup : (names fields).Nodup) (name : String) :
    (names (fields.erase name)).Nodup :=
  nodup.sublist ((List.filter_sublist (l := fields)).map Prod.fst)

end Fields

/-! ## Registries -/

/-- Entries under names that are all different. -/
structure Registry (α : Type) where
  fields : Fields α
  nodup : (Fields.names fields).Nodup

namespace Registry

variable {α : Type}

def empty : Registry α :=
  ⟨[], List.nodup_nil⟩

/-- The names of the entries. -/
def names (registry : Registry α) : List String :=
  Fields.names registry.fields

/-- The entry of that name. -/
def find? (registry : Registry α) (name : String) : Option α :=
  Fields.find? name registry.fields

/-- Adds an entry, or replaces the one of that name. -/
def insert (registry : Registry α) (name : String) (value : α) : Registry α :=
  ⟨registry.fields.insert name value, Fields.nodup_insert registry.nodup name value⟩

/-- Drops the entry of that name. -/
def erase (registry : Registry α) (name : String) : Registry α :=
  ⟨registry.fields.erase name, Fields.nodup_erase registry.nodup name⟩

end Registry

end JsonExpr
