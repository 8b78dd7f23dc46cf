import JsonExpr.Proofs.View
import JsonExpr.Registration
import Mathlib.Data.List.Induction
import Mathlib.Data.List.Nodup
import Mathlib.Data.List.Pairwise

/-!
# Registration

Whatever a host has registered and removed, the list of symbols is that of the elements
(`Listed.Runs.symbols_eq`): a call that changes the elements makes the list anew, and which order
the keys of the table have then does not show. What is found afterwards is that of the last call for
each name (`Grammar.view_applyAll`), so calls for different names can change places, and a symbol
that was not there and is removed again leaves nothing behind.
-/

namespace JsonExpr

namespace Registration

/-- The names that a host registers under. -/
inductive Space
  | elements
  | functions
  | transforms
deriving DecidableEq

/-- The call removes an operator. -/
def isRemoval : Registration → Bool
  | .removeOperator _ => true
  | _ => false

/-- The names that the call registers. -/
def names : Registration → List (Space × String)
  | .addBinary symbol _ _ | .addDeferred symbol _ _ | .addUnary symbol _ => [(.elements, symbol)]
  | .removeOperator _ => []
  | .addFunction name _ => [(.functions, name)]
  | .addFunctions callables => callables.map fun entry => (.functions, entry.1)
  | .addTransform name _ => [(.transforms, name)]
  | .addTransforms callables => callables.map fun entry => (.transforms, entry.1)

/-- The calls with one entry each that the call stands for. -/
def singles : Registration → List Registration
  | .addFunctions callables => callables.map fun entry => .addFunction entry.1 entry.2
  | .addTransforms callables => callables.map fun entry => .addTransform entry.1 entry.2
  | call => [call]

/-- What the call registers under a symbol. -/
def element? (symbol : String) : Registration → Option Element
  | .addBinary own precedence apply =>
    if own = symbol then some (.binary ⟨precedence, .direct apply⟩) else none
  | .addDeferred own precedence apply =>
    if own = symbol then some (.binary ⟨precedence, .deferred apply⟩) else none
  | .addUnary own apply => if own = symbol then some (.unary ⟨apply⟩) else none
  | _ => none

/-- The function that the call registers under a name. -/
def function? (name : String) : Registration → Option Callable
  | .addFunction own callable => if own = name then some callable else none
  | .addFunctions callables => Fields.find? name (Fields.ofList callables)
  | _ => none

/-- The transform that the call registers under a name. -/
def transform? (name : String) : Registration → Option Callable
  | .addTransform own callable => if own = name then some callable else none
  | .addTransforms callables => Fields.find? name (Fields.ofList callables)
  | _ => none

/-- The call removes this element from under the symbol. -/
def removes (symbol : String) (element : Element) : Registration → Bool
  | .removeOperator own => own == symbol && element.isOperator
  | _ => false

end Registration

/-- What is found after a call: what it registers, else what was there and is not removed. -/
def Grammar.View.after (v : Grammar.View) (call : Registration) : Grammar.View where
  element? symbol :=
    (call.element? symbol).or
      ((v.element? symbol).filter fun element => !call.removes symbol element)
  function? name := (call.function? name).or (v.function? name)
  transform? name := (call.transform? name).or (v.transform? name)

/-! ## What is found after calls -/

/-- Inserts entries one after the other. -/
def Registry.insertAll {α : Type} (registry : Registry α) (entries : List (String × α)) :
    Registry α :=
  entries.foldl (fun registry entry => registry.insert entry.1 entry.2) registry

/-- Of entries that are inserted one after the other the last of a name counts. -/
theorem Registry.find?_insertAll {α : Type} (registry : Registry α)
    (entries : List (String × α)) (name : String) :
    (registry.insertAll entries).find? name =
      (Fields.find? name (Fields.ofList entries)).or (registry.find? name) := by
  unfold insertAll
  induction entries using List.reverseRecOn with
  | nil => rfl
  | append_singleton entries entry ih =>
    rw [Fields.ofList_append_singleton, List.foldl_append, Fields.find?_insert, Option.or_assoc]
    refine (Fields.find?_insert entry.1 name entry.2 _).trans ?_
    exact congrArg _ ih

namespace Grammar

theorem addFunctions_eq (g : Grammar) (callables : List (String × Callable)) :
    g.addFunctions callables = { g with functions := g.functions.insertAll callables } := by
  unfold addFunctions
  induction callables generalizing g with
  | nil => rfl
  | cons entry rest ih => exact ih (g.addFunction entry.1 entry.2)

theorem addTransforms_eq (g : Grammar) (callables : List (String × Callable)) :
    g.addTransforms callables = { g with transforms := g.transforms.insertAll callables } := by
  unfold addTransforms
  induction callables generalizing g with
  | nil => rfl
  | cons entry rest ih => exact ih (g.addTransform entry.1 entry.2)

theorem removeOperator_eq (g : Grammar) (own : String) :
    g.removeOperator own =
      if (g.element? own).any Element.isOperator then { g with elements := g.elements.erase own }
      else g := by
  unfold removeOperator element?
  cases g.elements.find? own <;> rfl

theorem filter_not_removes {symbol own : String} (different : own ≠ symbol)
    (found : Option Element) :
    found.filter (fun element =>
      !Registration.removes symbol element (.removeOperator own)) = found := by
  cases found <;> simp [Registration.removes, different]

theorem element?_removeOperator (g : Grammar) (symbol own : String) :
    (g.removeOperator own).element? symbol =
      (g.element? symbol).filter fun element =>
        !Registration.removes symbol element (.removeOperator own) := by
  rw [removeOperator_eq]
  by_cases same : own = symbol
  · subst same
    cases found : g.element? own with
    | none =>
      rw [if_neg (by simp)]
      exact found
    | some element =>
      cases operator : element.isOperator with
      | false =>
        rw [if_neg (by simp [operator]), found, Option.filter_some, Registration.removes, operator,
          Bool.and_false]
        rfl
      | true =>
        rw [if_pos (by simp [operator]), Option.filter_some, Registration.removes, operator,
          beq_self_eq_true]
        exact Fields.find?_erase_self own g.elements.fields
  · rw [filter_not_removes same]
    split
    · exact Fields.find?_erase_of_ne (Ne.symm same) g.elements.fields
    · rfl

/-- Without a removal nothing that was there is lost. -/
theorem View.after_eq {call : Registration} (v : View) (kept : call.isRemoval = false) :
    v.after call =
      ⟨fun symbol => (call.element? symbol).or (v.element? symbol),
        fun name => (call.function? name).or (v.function? name),
        fun name => (call.transform? name).or (v.transform? name)⟩ := by
  have all (symbol : String) : (v.element? symbol).filter
      (fun element => !call.removes symbol element) = v.element? symbol := by
    cases call with
    | removeOperator => cases kept
    | _ => cases v.element? symbol <;> rfl
  unfold View.after
  simp only [all]

theorem view_addElement (g : Grammar) (symbol : String) (element : Element) :
    (g.addElement symbol element).view =
      { g.view with
        element? := fun other =>
          (if symbol = other then some element else none).or (g.view.element? other) } :=
  View.ext (funext fun other => Fields.find?_insert symbol other element _) rfl rfl

theorem view_apply (g : Grammar) (call : Registration) :
    (call.apply g).view = g.view.after call := by
  cases call with
  | addBinary symbol | addDeferred symbol | addUnary symbol =>
    rw [View.after_eq _ rfl]
    exact view_addElement g symbol _
  | removeOperator own =>
    refine View.ext (funext fun symbol => element?_removeOperator g symbol own) ?_ ?_
    · change (g.removeOperator own).function? = g.function?
      rw [removeOperator_eq]
      split <;> rfl
    · change (g.removeOperator own).transform? = g.transform?
      rw [removeOperator_eq]
      split <;> rfl
  | addFunction name callable =>
    rw [View.after_eq _ rfl]
    exact View.ext rfl (funext fun other => Fields.find?_insert name other callable _) rfl
  | addTransform name callable =>
    rw [View.after_eq _ rfl]
    exact View.ext rfl rfl (funext fun other => Fields.find?_insert name other callable _)
  | addFunctions callables =>
    rw [Registration.apply, addFunctions_eq, View.after_eq _ rfl]
    exact View.ext rfl (funext fun name => g.functions.find?_insertAll callables name) rfl
  | addTransforms callables =>
    rw [Registration.apply, addTransforms_eq, View.after_eq _ rfl]
    exact View.ext rfl rfl (funext fun name => g.transforms.find?_insertAll callables name)

theorem view_applyAll (g : Grammar) (calls : List Registration) :
    (Registration.applyAll g calls).view = calls.foldl View.after g.view := by
  induction calls generalizing g with
  | nil => rfl
  | cons call rest ih =>
    rw [List.foldl_cons, ← view_apply]
    exact ih (call.apply g)

end Grammar

/-! ## The list of symbols -/

namespace Listed

variable {s t u : Listed} {call : Registration} {calls : List Registration}

theorem IsRebuilt.symbols_eq {g : Grammar} {symbols : List String}
    (rebuilt : IsRebuilt g.elements symbols) : symbols = g.symbols := by
  obtain ⟨keys, perm, rfl⟩ := rebuilt
  exact Grammar.sorted_congr perm

/-- A call that leaves the list leaves the elements as well. -/
theorem elements_apply {g : Grammar} (kept : call.rebuilds g = false) :
    (call.apply g).elements = g.elements := by
  cases call with
  | addBinary | addDeferred | addUnary => cases kept
  | removeOperator symbol =>
    have nothing : ¬(g.element? symbol).any Element.isOperator = true := by
      rw [show (g.element? symbol).any Element.isOperator = false from kept]
      exact Bool.false_ne_true
    rw [Registration.apply, Grammar.removeOperator_eq, if_neg nothing]
  | addFunction name callable | addTransform name callable => rfl
  | addFunctions callables => rw [Registration.apply, Grammar.addFunctions_eq]
  | addTransforms callables => rw [Registration.apply, Grammar.addTransforms_eq]

theorem Step.symbols_eq (step : Step s call t) (listed : s.symbols = s.grammar.symbols) :
    t.symbols = t.grammar.symbols := by
  obtain ⟨applied, list⟩ := step
  split at list
  · exact list.symbols_eq
  · rename_i kept
    have elements := elements_apply (Bool.eq_false_of_not_eq_true kept)
    rw [list, listed, applied, Grammar.symbols, Grammar.symbols, elements]

theorem Runs.symbols_eq (runs : Runs s calls t) (listed : s.symbols = s.grammar.symbols) :
    t.symbols = t.grammar.symbols := by
  induction runs with
  | nil => exact listed
  | cons step _ ih => exact ih (step.symbols_eq listed)

theorem Runs.grammar_eq (runs : Runs s calls t) :
    t.grammar = Registration.applyAll s.grammar calls := by
  induction runs with
  | nil => rfl
  | cons step _ ih =>
    rw [ih, step.1]
    rfl

theorem Start.symbols_eq (start : Start s) : s.symbols = s.grammar.symbols := by
  cases start with
  | empty => exact List.mergeSort_nil.symm
  | new _ rebuilt => exact rebuilt.symbols_eq

/-- The list computed where it is asked for is one that is kept. -/
theorem runs_symbols (g : Grammar) (calls : List Registration) :
    Runs ⟨g, g.symbols⟩ calls
      ⟨Registration.applyAll g calls, (Registration.applyAll g calls).symbols⟩ := by
  induction calls generalizing g with
  | nil => exact .nil
  | cons call rest ih =>
    refine .cons (t := ⟨call.apply g, (call.apply g).symbols⟩) ⟨rfl, ?_⟩ (ih (call.apply g))
    split
    · exact ⟨_, .refl _, rfl⟩
    · rename_i kept
      have elements := elements_apply (Bool.eq_false_of_not_eq_true kept)
      rw [Grammar.symbols, Grammar.symbols, elements]

/-- What the list was before a call that makes it anew does not matter. -/
theorem runs_of_rebuilds {g : Grammar} {rest : List Registration} (symbols : List String)
    (rebuilds : call.rebuilds g = true) :
    let after := Registration.applyAll g (call :: rest)
    Runs ⟨g, symbols⟩ (call :: rest) ⟨after, after.symbols⟩ := by
  refine .cons (t := ⟨call.apply g, (call.apply g).symbols⟩) ⟨rfl, ?_⟩
    (runs_symbols (call.apply g) rest)
  rw [if_pos rebuilds]
  exact ⟨_, .refl _, rfl⟩

/-- The standard grammar is one that a host begins with. -/
theorem start_standard : Start ⟨.standard, Grammar.standard.symbols⟩ := by
  have runs : Runs ⟨.punctuated, []⟩ Registration.builtIns
      ⟨Registration.applyAll .punctuated Registration.builtIns,
        (Registration.applyAll .punctuated Registration.builtIns).symbols⟩ :=
    runs_of_rebuilds [] rfl
  rw [Grammar.applyAll_builtIns] at runs
  exact .new runs ⟨_, .refl _, rfl⟩

end Listed

/-! ## Calls that change places -/

namespace Registration

theorem mem_names_ofList {α : Type} {entries : List (String × α)} {name : String}
    (found : (Fields.find? name (Fields.ofList entries)).isSome) :
    name ∈ entries.map Prod.fst := by
  rwa [Fields.isSome_find?_iff, Fields.names_ofList, List.mem_eraseDups] at found

theorem applyAll_singles (g : Grammar) (calls : List Registration) :
    applyAll g (calls.flatMap singles) = applyAll g calls := by
  induction calls generalizing g with
  | nil => rfl
  | cons call rest ih =>
    have one : applyAll g call.singles = call.apply g := by
      cases call with
      | addFunctions | addTransforms => exact List.foldl_map
      | _ => rfl
    rw [List.flatMap_cons, applyAll, List.foldl_append]
    exact (congrArg (applyAll · (rest.flatMap singles)) one).trans (ih (call.apply g))

variable {call other : Registration} {name : String}

theorem names_singles (call : Registration) : call.singles.flatMap names = call.names := by
  cases call with
  | addFunctions callables | addTransforms callables =>
    rw [singles, names, List.flatMap_map, List.map_eq_flatMap]
    rfl
  | _ => rfl

theorem isRemoval_of_mem_singles (mem : other ∈ call.singles) (kept : call.isRemoval = false) :
    other.isRemoval = false := by
  cases call with
  | addFunctions | addTransforms =>
    obtain ⟨entry, -, rfl⟩ := List.mem_map.1 mem
    rfl
  | _ =>
    rw [List.mem_singleton.1 mem]
    exact kept

theorem mem_names_of_element? (found : (call.element? name).isSome) :
    (Space.elements, name) ∈ call.names := by
  cases call with
  | addBinary own | addDeferred own | addUnary own =>
    obtain rfl : own = name := Option.isSome_ite.1 found
    exact List.mem_singleton_self _
  | _ => cases found

/-- What is registered can be removed. -/
theorem isOperator_of_element? {element : Element} (found : call.element? name = some element) :
    element.isOperator := by
  cases call with
  | addBinary own | addDeferred own | addUnary own =>
    cases (Option.ite_none_right_eq_some.1 found).2
    rfl
  | _ => cases found

theorem mem_names_of_function? (found : (call.function? name).isSome) :
    (Space.functions, name) ∈ call.names := by
  cases call with
  | addFunction own callable =>
    obtain rfl : own = name := Option.isSome_ite.1 found
    exact List.mem_singleton_self _
  | addFunctions callables =>
    obtain ⟨entry, mem, rfl⟩ := List.mem_map.1 (mem_names_ofList found)
    exact List.mem_map_of_mem mem
  | _ => cases found

theorem mem_names_of_transform? (found : (call.transform? name).isSome) :
    (Space.transforms, name) ∈ call.names := by
  cases call with
  | addTransform own callable =>
    obtain rfl : own = name := Option.isSome_ite.1 found
    exact List.mem_singleton_self _
  | addTransforms callables =>
    obtain ⟨entry, mem, rfl⟩ := List.mem_map.1 (mem_names_ofList found)
    exact List.mem_map_of_mem mem
  | _ => cases found

end Registration

namespace Grammar

theorem or_comm_of_disjoint {α : Type} {first second : Option α} (value : Option α)
    (disjoint : first.isSome → ¬second.isSome) :
    first.or (second.or value) = second.or (first.or value) := by
  cases first with
  | none => rfl
  | some _ =>
    cases second with
    | none => rfl
    | some _ => exact absurd rfl (disjoint rfl)

/-- Calls that register different names can change places. -/
theorem View.after_comm {first second : Registration} (v : View)
    (keptFirst : first.isRemoval = false) (keptSecond : second.isRemoval = false)
    (disjoint : first.names.Disjoint second.names) :
    (v.after first).after second = (v.after second).after first := by
  rw [View.after_eq _ keptSecond, View.after_eq _ keptFirst, View.after_eq _ keptFirst,
    View.after_eq _ keptSecond]
  refine View.ext (funext fun name => ?_) (funext fun name => ?_) (funext fun name => ?_)
  · exact or_comm_of_disjoint _ fun found found' => disjoint
      (Registration.mem_names_of_element? found') (Registration.mem_names_of_element? found)
  · exact or_comm_of_disjoint _ fun found found' => disjoint
      (Registration.mem_names_of_function? found') (Registration.mem_names_of_function? found)
  · exact or_comm_of_disjoint _ fun found found' => disjoint
      (Registration.mem_names_of_transform? found') (Registration.mem_names_of_transform? found)

theorem foldl_after_perm {calls others : List Registration} (v : View)
    (kept : ∀ call ∈ calls, call.isRemoval = false)
    (distinct : (calls.flatMap Registration.names).Nodup) (perm : calls.Perm others) :
    calls.foldl View.after v = others.foldl View.after v := by
  have disjoint := (List.nodup_flatMap.1 distinct).2
  have symmetric : Std.Symm (Function.onFun List.Disjoint Registration.names) :=
    ⟨fun _ _ apart _ mem mem' => apart mem' mem⟩
  refine perm.foldl_eq' (fun first mem second mem' v => ?_) v
  by_cases same : first = second
  · rw [same]
  · exact View.after_comm v (kept first mem) (kept second mem') (disjoint.forall mem mem' same)

/-- What different names are registered with can come in any order, in calls for one entry or for
many. -/
theorem foldl_after_singles_perm {calls others : List Registration} (g : Grammar)
    (kept : ∀ call ∈ calls, call.isRemoval = false)
    (distinct : (calls.flatMap Registration.names).Nodup)
    (perm : (calls.flatMap Registration.singles).Perm (others.flatMap Registration.singles)) :
    calls.foldl View.after g.view = others.foldl View.after g.view := by
  have expand (calls : List Registration) : calls.foldl View.after g.view =
      (calls.flatMap Registration.singles).foldl View.after g.view := by
    rw [← view_applyAll, ← view_applyAll, Registration.applyAll_singles]
  rw [expand calls, expand others]
  refine foldl_after_perm g.view (fun single mem => ?_) ?_ perm
  · obtain ⟨call, mem, within⟩ := List.mem_flatMap.1 mem
    exact Registration.isRemoval_of_mem_singles within (kept call mem)
  · rw [List.flatMap_assoc]
    simpa only [Registration.names_singles] using distinct

/-- A symbol that is not there is registered and removed again. -/
theorem View.after_removal {v : View} {call : Registration} {symbol : String}
    (fresh : v.element? symbol = none) (registers : call.names = [(.elements, symbol)]) :
    (v.after call).after (.removeOperator symbol) = v := by
  have only {entry : Registration.Space × String} (mem : entry ∈ call.names) :
      entry = (.elements, symbol) := by
    rw [registers] at mem
    exact List.mem_singleton.1 mem
  have kept : call.isRemoval = false := by
    cases call with
    | removeOperator => cases registers
    | _ => rfl
  rw [View.after_eq _ kept]
  refine View.ext (funext fun other => ?_) (funext fun name => ?_) (funext fun name => ?_)
  · change Option.filter _ ((call.element? other).or (v.element? other)) = v.element? other
    by_cases same : symbol = other
    · subst same
      rw [fresh, Option.or_none, Option.filter_eq_none_iff]
      intro element found
      simp [Registration.removes, Registration.isOperator_of_element? found]
    · have absent : call.element? other = none := by
        refine Option.not_isSome_iff_eq_none.1 fun found => same ?_
        exact (congrArg Prod.snd (only (Registration.mem_names_of_element? found))).symm
      rw [absent, Option.none_or]
      exact filter_not_removes same (v.element? other)
  · have absent : call.function? name = none := by
      refine Option.not_isSome_iff_eq_none.1 fun found => ?_
      cases only (Registration.mem_names_of_function? found)
    change (call.function? name).or _ = _
    rw [absent, Option.none_or]
  · have absent : call.transform? name = none := by
      refine Option.not_isSome_iff_eq_none.1 fun found => ?_
      cases only (Registration.mem_names_of_transform? found)
    change (call.transform? name).or _ = _
    rw [absent, Option.none_or]

end Grammar

namespace Listed

variable {start s t u : Listed} {calls others : List Registration}

theorem Runs.same_of_view (listed : s.symbols = s.grammar.symbols) (first : Runs s calls t)
    (second : Runs s others u)
    (same : calls.foldl Grammar.View.after s.grammar.view =
      others.foldl Grammar.View.after s.grammar.view) :
    t.symbols = u.symbols ∧ t.grammar.SameLanguage u.grammar := by
  have language : t.grammar.SameLanguage u.grammar := by
    refine Grammar.sameLanguage_of_view ?_
    rw [first.grammar_eq, second.grammar_eq, Grammar.view_applyAll, Grammar.view_applyAll, same]
  refine ⟨?_, language⟩
  rw [first.symbols_eq listed, second.symbols_eq listed, language.symbols]

/-- What holds after calls, whatever they are: the list has the symbols that are registered, and
the lexer goes by it. Of later calls it does not matter in what order they register different
names, nor whether a symbol that is new is registered and removed first. -/
structure IsCanonical (start : Listed) (calls : List Registration) (s : Listed) : Prop where
  registered : s.grammar.view = calls.foldl Grammar.View.after start.grammar.view
  mem_iff : ∀ symbol, symbol ∈ s.symbols ↔
    (s.grammar.element? symbol).isSome ∧ Grammar.looksLikeWord symbol = false
  nodup : s.symbols.Nodup
  ordered : s.symbols.Pairwise Grammar.Before
  listed : s.symbols = s.grammar.symbols
  longest : ∀ position c cs, s.grammar.MaximalMunch position c cs
  permuted : ∀ more others later t u, (∀ call ∈ more, call.isRemoval = false) →
    (more.flatMap Registration.names).Nodup →
    (more.flatMap Registration.singles).Perm (others.flatMap Registration.singles) →
    Runs s (more ++ later) t → Runs s (others ++ later) u →
    t.symbols = u.symbols ∧ t.grammar.SameLanguage u.grammar
  removed : ∀ call symbol later t u, s.grammar.element? symbol = none →
    call.names = [(.elements, symbol)] →
    Runs s (call :: .removeOperator symbol :: later) t → Runs s later u →
    t.symbols = u.symbols ∧ t.grammar.SameLanguage u.grammar

theorem registration_canonical (begin : Start start) (runs : Runs start calls s) :
    IsCanonical start calls s := by
  have listed : s.symbols = s.grammar.symbols := runs.symbols_eq begin.symbols_eq
  have ordered : s.symbols.Pairwise Grammar.Before := by
    rw [listed]
    exact s.grammar.pairwise_before_symbols
  constructor
  case registered => rw [runs.grammar_eq, Grammar.view_applyAll]
  case mem_iff =>
    intro symbol
    rw [listed]
    exact Grammar.mem_symbols_iff
  case nodup =>
    refine ordered.imp (S := (· ≠ ·)) fun before => ?_
    rintro rfl
    exact Grammar.Before.irrefl _ before
  case ordered => exact ordered
  case listed => exact listed
  case longest => exact s.grammar.maximalMunch
  case permuted =>
    intro more others later t u kept distinct perm first second
    refine first.same_of_view listed second ?_
    rw [List.foldl_append, List.foldl_append,
      Grammar.foldl_after_singles_perm s.grammar kept distinct perm]
  case removed =>
    intro call symbol later t u fresh registers first second
    refine first.same_of_view listed second ?_
    rw [List.foldl_cons, List.foldl_cons, Grammar.View.after_removal fresh registers]

/-- The power gets another symbol. -/
def powerRenamed : List Registration :=
  [.addBinary "**" 50 Value.power, .removeOperator "^"]

theorem registration_canonical_powerRenamed :
    ∃ s, Runs ⟨.standard, Grammar.standard.symbols⟩ powerRenamed s ∧
      IsCanonical ⟨.standard, Grammar.standard.symbols⟩ powerRenamed s ∧
      "**" ∈ s.symbols ∧ "^" ∉ s.symbols := by
  have runs := runs_symbols .standard powerRenamed
  have canonical := registration_canonical start_standard runs
  refine ⟨_, runs, canonical, (canonical.mem_iff "**").2 ⟨rfl, ?_⟩, fun mem => ?_⟩
  · decide
  · cases ((canonical.mem_iff "^").1 mem).1

end Listed

end JsonExpr
