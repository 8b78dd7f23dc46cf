import JsonExpr.Proofs.Value
import JsonExpr.Value.Equality
import Mathlib.Data.List.Perm.Subperm
import Mathlib.Logic.Relation

/-!
# Loose equality

`Value.looseEq` reads two values from the left: it goes through the items and entries of the first
and looks for theirs in the second. It is symmetric all the same (`looseEq_comm`): of two objects
with equally many keys, one of which has all keys of the other, each has all keys of the other. A
value is equal to itself unless there is a NaN somewhere in it (`looseEq_self_iff`). What makes no
difference is collected in `Value.Varies`: the order of the entries of an object, and whether null
or undefined stands somewhere.

Objects are those of well formed values, which have no key twice.
-/

namespace JsonExpr

/-! ## Doubles -/

section Double

open Float.Model (UnpackedFloat)

theorem swap_then_compare (m n : Nat) (e f : Int) :
    ((compare e f).then (compare m n)).swap = (compare f e).then (compare n m) := by
  rw [Ordering.swap_then, ← Std.OrientedCmp.eq_swap, ← Std.OrientedCmp.eq_swap]

theorem swap_compare_unpacked (x y : UnpackedFloat) :
    (x.compare y).map Ordering.swap = y.compare x := by
  rcases x with s | _ | s | ⟨s, m, e, _⟩ <;> rcases y with t | _ | t | ⟨t, n, f, _⟩
  case finite.finite =>
    cases s <;> cases t
    · exact congrArg some (Ordering.swap_swap.trans (swap_then_compare n m f e).symm)
    · rfl
    · rfl
    · exact congrArg some (swap_then_compare m n e f)
  all_goals (try cases s) <;> (try cases t) <;> rfl

theorem float_beq_comm (x y : Float) : (x == y) = (y == x) := by
  have swapped := swap_compare_unpacked y.toModel.unpack x.toModel.unpack
  change (x.toModel.unpack.compare y.toModel.unpack == some .eq) =
    (y.toModel.unpack.compare x.toModel.unpack == some .eq)
  rw [← swapped]
  rcases y.toModel.unpack.compare x.toModel.unpack with _ | _ | _ | _ <;> rfl

theorem float_beq_self (x : Float) : (x == x) = !x.isNaN := by
  change (x.toModel.unpack.compare x.toModel.unpack == some .eq) = !x.toModel.unpack.isNaN
  rcases x.toModel.unpack with s | _ | s | ⟨s, m, e, pos⟩
  · cases s <;> rfl
  · rfl
  · rfl
  · have same : (compare e e).then (compare m m) = .eq := by
      rw [(Std.ReflCmp.compare_self : compare e e = .eq), Ordering.eq_then]
      exact Std.ReflCmp.compare_self
    have whole : (UnpackedFloat.finite s m e pos).compare (.finite s m e pos) = some .eq := by
      cases s
      · exact congrArg (fun ordering => some (Ordering.swap ordering)) same
      · exact congrArg some same
    rw [whole]
    rfl

end Double

/-! ## Entries under different keys -/

namespace Fields

variable {α : Type} {fields other : Fields α} {name : String} {value : α}

theorem mem_of_find?_eq_some (found : find? name fields = some value) : (name, value) ∈ fields := by
  induction fields with
  | nil => cases found
  | cons entry rest ih =>
    rw [find?] at found
    split at found
    · rename_i same
      cases found
      rw [← same]
      exact List.mem_cons_self
    · exact List.mem_cons_of_mem entry (ih found)

theorem find?_eq_some_of_mem (nodup : (names fields).Nodup) (mem : (name, value) ∈ fields) :
    find? name fields = some value := by
  induction fields with
  | nil => cases mem
  | cons entry rest ih =>
    rw [names, List.map_cons, List.nodup_cons] at nodup
    obtain ⟨fresh, nodup⟩ := nodup
    rcases List.mem_cons.1 mem with rfl | mem
    · exact if_pos rfl
    · have different : entry.1 ≠ name := fun same =>
        fresh (same ▸ List.mem_map_of_mem (f := Prod.fst) mem)
      rw [find?, if_neg different, ih nodup mem]

theorem find?_eq_some_iff (nodup : (names fields).Nodup) :
    find? name fields = some value ↔ (name, value) ∈ fields :=
  ⟨mem_of_find?_eq_some, find?_eq_some_of_mem nodup⟩

theorem eq_of_mem {value' : α} (nodup : (names fields).Nodup) (mem : (name, value) ∈ fields)
    (mem' : (name, value') ∈ fields) : value = value' :=
  Option.some.inj <|
    (find?_eq_some_of_mem nodup mem).symm.trans (find?_eq_some_of_mem nodup mem')

/-- With equally many keys it is enough that one object has all keys of the other. -/
theorem mem_names_of_subset (nodup : (names fields).Nodup)
    (subset : names fields ⊆ names other) (length : fields.length = other.length)
    (mem : name ∈ names other) : name ∈ names fields := by
  have long : (names fields).length = (names other).length := by
    rw [names, names, List.length_map, List.length_map, length]
  have perm : (names fields).Perm (names other) :=
    (List.subperm_of_subset nodup subset).perm_of_length_le (Nat.le_of_eq long.symm)
  exact perm.mem_iff.2 mem

end Fields

namespace Value

/-! ## Items and entries -/

theorem looseEqItems_comm {as bs : List Value}
    (comm : ∀ a ∈ as, ∀ b ∈ bs, looseEq a b = looseEq b a) :
    looseEqItems as bs = looseEqItems bs as := by
  induction as generalizing bs with
  | nil => cases bs <;> rfl
  | cons a as ih =>
    cases bs with
    | nil => rfl
    | cons b bs =>
      rw [looseEqItems, looseEqItems, comm a List.mem_cons_self b List.mem_cons_self,
        ih fun x first y second => comm x (.tail a first) y (.tail b second)]

theorem looseEqItems_self_iff {items : List Value} :
    looseEqItems items items = true ↔ ∀ item ∈ items, looseEq item item = true := by
  induction items with
  | nil => exact iff_of_true rfl (fun _ none => nomatch none)
  | cons item rest ih => rw [looseEqItems, Bool.and_eq_true, ih, List.forall_mem_cons]

theorem looseEqItems_plug {a a' : Value} (same : ∀ b, looseEq a b = looseEq a' b)
    (before after items : List Value) :
    looseEqItems (before ++ a :: after) items = looseEqItems (before ++ a' :: after) items := by
  induction before generalizing items with
  | nil =>
    cases items with
    | nil => rfl
    | cons item rest =>
      rw [List.nil_append, List.nil_append, looseEqItems, looseEqItems, same]
  | cons first before ih =>
    cases items with
    | nil => rfl
    | cons item rest =>
      rw [List.cons_append, List.cons_append, looseEqItems, looseEqItems, ih]

theorem looseEqFields_eq_all (fields other : List (String × Value)) :
    looseEqFields fields other =
      fields.all fun field => (Fields.find? field.1 other).any (looseEq field.2) := by
  induction fields with
  | nil => rfl
  | cons field rest ih =>
    rw [looseEqFields, ih, List.all_cons]
    cases Fields.find? field.1 other <;> rfl

theorem looseEqFields_iff {fields other : List (String × Value)}
    (nodup : (Fields.names other).Nodup) :
    looseEqFields fields other = true ↔
      ∀ field ∈ fields, ∃ value, (field.1, value) ∈ other ∧ looseEq field.2 value = true := by
  rw [looseEqFields_eq_all, List.all_eq_true]
  refine forall₂_congr fun field _ => ?_
  rw [Option.any_eq_true]
  exact exists_congr fun value => and_congr_left fun _ => Fields.find?_eq_some_iff nodup

/-- The entries that are found from one side are found from the other side. -/
theorem looseEqFields_symm {fields other : List (String × Value)}
    (nodup : (Fields.names fields).Nodup) (nodup' : (Fields.names other).Nodup)
    (length : fields.length = other.length)
    (comm : ∀ field ∈ fields, ∀ entry ∈ other, looseEq field.2 entry.2 = looseEq entry.2 field.2)
    (equal : looseEqFields fields other = true) : looseEqFields other fields = true := by
  rw [looseEqFields_iff nodup'] at equal
  rw [looseEqFields_iff nodup]
  intro entry mem
  have subset : Fields.names fields ⊆ Fields.names other := by
    intro name named
    obtain ⟨field, mem, rfl⟩ := List.mem_map.1 named
    obtain ⟨value, found, _⟩ := equal field mem
    exact List.mem_map.2 ⟨(field.1, value), found, rfl⟩
  obtain ⟨field, mem', same⟩ := List.mem_map.1 <|
    Fields.mem_names_of_subset nodup subset length (List.mem_map_of_mem mem)
  obtain ⟨value, found, alike⟩ := equal field mem'
  -- the other object has the key once, so what was found under it is this entry
  obtain rfl : value = entry.2 := Fields.eq_of_mem nodup' (same ▸ found) mem
  refine ⟨field.2, same ▸ mem', ?_⟩
  rw [← comm field mem' entry mem, alike]

/-! ## Symmetry and reflexivity -/

/-- Loose equality does not depend on which value comes first. -/
theorem looseEq_comm {a b : Value} (ha : a.WellFormed) (hb : b.WellFormed) :
    looseEq a b = looseEq b a := by
  induction a generalizing b with
  | undefined => cases b <;> rfl
  | null => cases b <;> rfl
  | bool x =>
    cases b with
    | bool y => exact Bool.beq_comm
    | _ => rfl
  | int m =>
    cases b with
    | int n => exact BEq.comm
    | float y => exact float_beq_comm _ _
    | _ => rfl
  | float x =>
    cases b with
    | int n => exact float_beq_comm _ _
    | float y => exact float_beq_comm _ _
    | _ => rfl
  | string s =>
    cases b with
    | string t => exact BEq.comm
    | _ => rfl
  | array items ih =>
    cases b with
    | array others =>
      rw [WellFormed, wellFormedItems_iff] at ha hb
      rw [looseEq, looseEq]
      exact looseEqItems_comm fun a mem b mem' => ih a mem (ha a mem) (hb b mem')
    | _ => rfl
  | object fields ih =>
    cases b with
    | object others =>
      rw [WellFormed, wellFormedFields_iff] at ha hb
      obtain ⟨nodup, ha⟩ := ha
      obtain ⟨nodup', hb⟩ := hb
      have comm : ∀ field ∈ fields, ∀ entry ∈ others,
          looseEq field.2 entry.2 = looseEq entry.2 field.2 :=
        fun field mem entry mem' => ih field mem (ha field mem) (hb entry mem')
      rw [looseEq, looseEq, Bool.eq_iff_iff, Bool.and_eq_true, Bool.and_eq_true, beq_iff_eq,
        beq_iff_eq]
      constructor
      · rintro ⟨length, equal⟩
        exact ⟨length.symm, looseEqFields_symm nodup nodup' length comm equal⟩
      · rintro ⟨length, equal⟩
        exact ⟨length.symm, looseEqFields_symm nodup' nodup length
          (fun entry mem' field mem => (comm field mem entry mem').symm) equal⟩
    | _ => rfl

theorem looseEqFields_self_iff {fields : List (String × Value)}
    (nodup : (Fields.names fields).Nodup) :
    looseEqFields fields fields = true ↔ ∀ field ∈ fields, looseEq field.2 field.2 = true := by
  rw [looseEqFields_eq_all, List.all_eq_true]
  refine forall₂_congr fun field mem => ?_
  rw [Fields.find?_eq_some_of_mem nodup mem]
  rfl

/-- The value is a NaN. -/
def IsNaN : Value → Prop
  | .float x => x.isNaN = true
  | _ => False

/-- A value is equal to itself if there is no NaN in it. -/
theorem looseEq_self_iff {a : Value} (ha : a.WellFormed) :
    looseEq a a = true ↔ ¬ a.Contains IsNaN := by
  induction a with
  | undefined => exact iff_of_true rfl fun | .here nan => nan
  | null => exact iff_of_true rfl fun | .here nan => nan
  | bool b => exact iff_of_true (beq_self_eq_true b) fun | .here nan => nan
  | int n => exact iff_of_true (beq_self_eq_true n) fun | .here nan => nan
  | float x =>
    rw [looseEq, float_beq_self, Bool.not_eq_true', ← Bool.not_eq_true]
    exact not_congr ⟨fun nan => .here (nan : IsNaN (.float x)), fun | .here nan => nan⟩
  | string s => exact iff_of_true (beq_self_eq_true s) fun | .here nan => nan
  | array items ih =>
    rw [WellFormed, wellFormedItems_iff] at ha
    rw [looseEq, looseEqItems_self_iff, not_contains_array_iff id]
    exact forall₂_congr fun item mem => ih item mem (ha item mem)
  | object fields ih =>
    rw [WellFormed, wellFormedFields_iff] at ha
    rw [looseEq, beq_self_eq_true, Bool.true_and, looseEqFields_self_iff ha.1,
      not_contains_object_iff id]
    exact forall₂_congr fun field mem => ih field mem (ha.2 field mem)

example : looseEq (.array [.float (0 / 0)]) (.array [.float (0 / 0)]) = false := by
  decide +kernel

/-! ## What makes no difference -/

/-- One change that makes no difference, somewhere in a value. -/
inductive Alters : Value → Value → Prop
  /-- Null stands for undefined. -/
  | toNull : Alters .undefined .null
  /-- Undefined stands for null. -/
  | toUndefined : Alters .null .undefined
  /-- The entries of an object are in another order. -/
  | reorder {fields others : List (String × Value)} : fields.Perm others →
    Alters (.object fields) (.object others)
  | item (before after : List Value) {a a' : Value} : Alters a a' →
    Alters (.array (before ++ a :: after)) (.array (before ++ a' :: after))
  | entry (before after : List (String × Value)) (key : String) {a a' : Value} : Alters a a' →
    Alters (.object (before ++ (key, a) :: after)) (.object (before ++ (key, a') :: after))

/-- Any number of such changes, in any places of the value. -/
abbrev Varies : Value → Value → Prop :=
  Relation.ReflTransGen Alters

variable {a a' b b' : Value}

theorem Alters.wellFormed (alters : Alters a a') (ha : a.WellFormed) : a'.WellFormed := by
  induction alters with
  | toNull => trivial
  | toUndefined => trivial
  | reorder perm =>
    rw [WellFormed, wellFormedFields_iff] at ha ⊢
    exact ⟨(perm.map Prod.fst).nodup_iff.1 ha.1, fun field mem => ha.2 field (perm.mem_iff.2 mem)⟩
  | item before after _ ih =>
    rw [WellFormed, wellFormedItems_iff, List.forall_mem_append, List.forall_mem_cons] at ha ⊢
    exact ⟨ha.1, ih ha.2.1, ha.2.2⟩
  | entry before after key _ ih =>
    rw [WellFormed, wellFormedFields_iff, List.forall_mem_append, List.forall_mem_cons] at ha ⊢
    obtain ⟨nodup, first, value, last⟩ := ha
    rw [Fields.names, List.map_append, List.map_cons] at nodup ⊢
    exact ⟨nodup, first, ih value, last⟩

/-- A change on the left makes no difference. -/
theorem Alters.looseEq_eq (alters : Alters a a') (b : Value) : looseEq a b = looseEq a' b := by
  -- the other value is arbitrary, since a part meets another one in each place
  induction alters generalizing b with
  | toNull => cases b <;> rfl
  | toUndefined => cases b <;> rfl
  | reorder perm =>
    cases b with
    | object fields =>
      rw [looseEq, looseEq, looseEqFields_eq_all, looseEqFields_eq_all, perm.length_eq,
        perm.all_eq]
    | _ => rfl
  | item before after _ ih =>
    cases b with
    | array items => exact looseEqItems_plug ih before after items
    | _ => rfl
  | entry before after key _ ih =>
    cases b with
    | object fields =>
      rw [looseEq, looseEq, looseEqFields_eq_all, looseEqFields_eq_all]
      simp only [List.length_append, List.length_cons, List.all_append, List.all_cons, funext ih]
    | _ => rfl

theorem Varies.item (before after : List Value) (varies : Varies a a') :
    Varies (.array (before ++ a :: after)) (.array (before ++ a' :: after)) := by
  induction varies with
  | refl => exact .refl
  | tail _ alters ih => exact .tail ih (.item before after alters)

theorem Varies.entry (before after : List (String × Value)) (key : String)
    (varies : Varies a a') :
    Varies (.object (before ++ (key, a) :: after)) (.object (before ++ (key, a') :: after)) := by
  induction varies with
  | refl => exact .refl
  | tail _ alters ih => exact .tail ih (.entry before after key alters)

theorem Varies.wellFormed (varies : Varies a a') (ha : a.WellFormed) : a'.WellFormed := by
  induction varies with
  | refl => exact ha
  | tail _ alters ih => exact alters.wellFormed ih

theorem Varies.looseEq_eq (varies : Varies a a') (b : Value) : looseEq a b = looseEq a' b := by
  induction varies with
  | refl => rfl
  | tail _ alters ih => exact ih.trans (alters.looseEq_eq b)

/-- Loose equality is a symmetric comparison of structures. It does not depend on which value comes
first, holds of a value and itself unless a NaN is in it, and stays what it is when objects have
their entries in another order or null and undefined take the place of each other, however deep. -/
theorem looseEq_structural (ha : a.WellFormed) (hb : b.WellFormed) :
    looseEq a b = looseEq b a ∧ (looseEq a a = true ↔ ¬ a.Contains IsNaN) ∧
      ∀ a' b', Varies a a' → Varies b b' → looseEq a' b' = looseEq a b := by
  refine ⟨looseEq_comm ha hb, looseEq_self_iff ha, fun a' b' left right => ?_⟩
  have ha' := left.wellFormed ha
  -- a change on the right is one on the left of the swapped comparison
  calc looseEq a' b'
      = looseEq b' a' := looseEq_comm ha' (right.wellFormed hb)
    _ = looseEq b a' := (right.looseEq_eq a').symm
    _ = looseEq a' b := looseEq_comm hb ha'
    _ = looseEq a b := (left.looseEq_eq b).symm

/-- An object in an array in an object. -/
def parcel : Value :=
  .object [("to", .string "Emma"),
    ("items", .array [.undefined, .object [("weight", .float 1.5), ("note", .null)]])]

/-- The same parcel with its entries in another order, and null and undefined exchanged. -/
def repacked : Value :=
  .object [("items", .array [.null, .object [("note", .undefined), ("weight", .float 1.5)]]),
    ("to", .string "Emma")]

theorem parcel_varies : parcel.Varies repacked := by
  have content : Varies (.object [("weight", .float 1.5), ("note", .null)])
      (.object [("note", .undefined), ("weight", .float 1.5)]) :=
    .head (.entry [("weight", .float 1.5)] [] "note" .toUndefined) <|
      .single (.reorder (.swap _ _ _))
  have items := (Varies.item [.undefined] [] content).tail (.item [] [_] .toNull)
  exact (Varies.entry [("to", .string "Emma")] [] "items" items).tail (.reorder (.swap _ _ _))

theorem looseEq_structural_parcel :
    parcel.WellFormed ∧ parcel.Varies repacked ∧ looseEq parcel repacked = true ∧
      looseEq repacked parcel = true ∧ ¬ parcel.Contains IsNaN := by
  have wellFormed : parcel.WellFormed := by
    simp [parcel, WellFormed, WellFormedItems, WellFormedFields, Fields.names]
  have same : looseEq parcel parcel = true := by decide +kernel
  obtain ⟨_, self, stays⟩ := looseEq_structural wellFormed wellFormed
  exact ⟨wellFormed, parcel_varies, (stays _ _ .refl parcel_varies).trans same,
    (stays _ _ parcel_varies .refl).trans same, self.1 same⟩

end Value

end JsonExpr
