import JsonExpr.Fields
import Mathlib.Data.List.Induction

/-!
What is found in named entries after each operation. Of entries that are inserted one after the
other each name stays where it first came (`Fields.names_ofList`), with the value that came last
under it (`Fields.find?_ofList`).
-/

namespace JsonExpr.Fields

variable {α : Type}

theorem isSome_find?_iff {name : String} {fields : Fields α} :
    (find? name fields).isSome ↔ name ∈ names fields := by
  induction fields with
  | nil => simp [names]
  | cons entry rest ih =>
    rw [find?, names, List.map_cons, List.mem_cons]
    by_cases same : entry.1 = name
    · simp [same]
    · rw [if_neg same, ih, names]
      simp [Ne.symm same]

theorem find?_eq_none_iff {name : String} {fields : Fields α} :
    find? name fields = none ↔ name ∉ names fields := by
  rw [← isSome_find?_iff, Option.not_isSome_iff_eq_none]

theorem find?_append (name : String) (front back : Fields α) :
    find? name (front ++ back) = (find? name front).or (find? name back) := by
  induction front with
  | nil => rfl
  | cons entry rest ih =>
    rw [List.cons_append, find?, find?]
    split
    · rfl
    · exact ih

theorem names_append (front back : Fields α) : names (front ++ back) = names front ++ names back :=
  List.map_append

theorem names_reverse (fields : Fields α) : names (List.reverse fields) = (names fields).reverse :=
  List.map_reverse

/-! ## Entries that are replaced or added -/

theorem find?_insert (key name : String) (value : α) (fields : Fields α) :
    find? name (fields.insert key value) =
      (if key = name then some value else none).or (find? name fields) := by
  split
  · rename_i same
    rw [← same, find?_insert_self]
    rfl
  · rename_i different
    rw [find?_insert_of_ne (Ne.symm different)]
    rfl

/-- An entry with a new name goes to the end. -/
theorem insert_of_not_mem {fields : Fields α} {name : String} (fresh : name ∉ names fields)
    (value : α) : fields.insert name value = fields ++ [(name, value)] := by
  induction fields with
  | nil => rfl
  | cons entry rest ih =>
    rw [names, List.map_cons, List.mem_cons, not_or] at fresh
    obtain ⟨different, others⟩ := fresh
    rw [insert, if_neg (Ne.symm different), ih others, List.cons_append]

/-! ## Entries that are dropped -/

theorem erase_cons (name : String) (entry : String × α) (rest : Fields α) :
    erase name (entry :: rest) =
      if entry.1 = name then erase name rest else entry :: erase name rest := by
  by_cases same : entry.1 = name <;> simp [erase, same]

theorem find?_erase_self (name : String) (fields : Fields α) :
    find? name (fields.erase name) = none := by
  induction fields with
  | nil => rfl
  | cons entry rest ih =>
    rw [erase_cons]
    by_cases same : entry.1 = name
    · rw [if_pos same, ih]
    · rw [if_neg same, find?, if_neg same, ih]

theorem find?_erase_of_ne {name other : String} (ne : other ≠ name) (fields : Fields α) :
    find? other (fields.erase name) = find? other fields := by
  induction fields with
  | nil => rfl
  | cons entry rest ih =>
    rw [erase_cons, find?]
    by_cases same : entry.1 = name
    · rw [if_pos same, ih, if_neg fun eq => ne (eq.symm.trans same)]
    · rw [if_neg same, find?, ih]

/-! ## Entries inserted one after the other -/

theorem ofList_append_singleton (entries : List (String × α)) (entry : String × α) :
    ofList (entries ++ [entry]) = (ofList entries).insert entry.1 entry.2 := by
  rw [ofList, List.foldl_append]
  rfl

/-- Of entries with one name the last one counts. -/
theorem find?_ofList (name : String) (entries : List (String × α)) :
    find? name (ofList entries) = find? name entries.reverse := by
  induction entries using List.reverseRecOn with
  | nil => rfl
  | append_singleton entries entry ih =>
    rw [ofList_append_singleton, find?_insert, ih, List.reverse_concat, find?]
    split <;> rfl

theorem find?_ofList_of_last {name : String} {value : α} {before after : List (String × α)}
    (last : name ∉ names after) :
    find? name (ofList (before ++ (name, value) :: after)) = some value := by
  have absent : find? name after.reverse = none := by
    rw [find?_eq_none_iff, names_reverse, List.mem_reverse]
    exact last
  rw [find?_ofList, List.reverse_append, List.reverse_cons, List.append_assoc, find?_append, absent,
    Option.none_or, List.singleton_append, find?, if_pos rfl]

/-- Each name is there once, where it first came. -/
theorem names_ofList (entries : List (String × α)) :
    names (ofList entries) = (names entries).eraseDups := by
  induction entries using List.reverseRecOn with
  | nil => rfl
  | append_singleton entries entry ih =>
    have known : entry.1 ∈ names (ofList entries) ↔ entry.1 ∈ names entries := by
      rw [ih, List.mem_eraseDups]
    have one : names [entry] = [entry.1] := rfl
    rw [ofList_append_singleton, names_insert, names_append, List.eraseDups_append, ← ih, one]
    by_cases mem : entry.1 ∈ names entries
    · have nothing : [entry.1].removeAll (names entries) = [] := by
        simpa [List.removeAll] using mem
      rw [if_pos (known.2 mem), nothing, List.eraseDups_nil, List.append_nil]
    · have stays : [entry.1].removeAll (names entries) = [entry.1] := by
        simpa [List.removeAll] using mem
      rw [if_neg fun found => mem (known.1 found), stays]
      rfl

theorem nodup_ofList (entries : List (String × α)) : (names (ofList entries)).Nodup := by
  induction entries using List.reverseRecOn with
  | nil => exact List.nodup_nil
  | append_singleton entries entry ih =>
    rw [ofList_append_singleton]
    exact nodup_insert ih entry.1 entry.2

/-- Entries whose names all differ stay as they are. -/
theorem ofList_eq_self {entries : Fields α} (nodup : (names entries).Nodup) :
    ofList entries = entries := by
  have whole : ∀ before : Fields α, (names (before ++ entries)).Nodup →
      entries.foldl (fun fields entry => fields.insert entry.1 entry.2) before =
        before ++ entries := by
    clear nodup
    induction entries with
    | nil =>
      intro before _
      exact (List.append_nil before).symm
    | cons entry rest ih =>
      intro before nodup
      have split : before ++ entry :: rest = before ++ [entry] ++ rest := by
        rw [List.append_assoc, List.singleton_append]
      have fresh : entry.1 ∉ names before := by
        intro mem
        rw [names, List.map_append, List.nodup_append] at nodup
        exact nodup.2.2 _ mem _ (by simp) rfl
      rw [split] at nodup ⊢
      rw [List.foldl_cons, insert_of_not_mem fresh]
      exact ih _ nodup
  exact whole [] nodup

end JsonExpr.Fields
