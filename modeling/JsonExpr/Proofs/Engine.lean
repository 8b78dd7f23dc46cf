import JsonExpr.Engine

/-!
What an engine keeps does not show. A host can change an engine in a few ways, and after all of
them the kept trees are those that the sources have in the present grammar with the present rules.
So what comes out of `compile` and `evaluate` is what reading the source anew gives.
-/

namespace JsonExpr

namespace Dialect

variable {d : Dialect} {source : String}

theorem read_eq_ok_iff {tree : Expr} :
    d.read source = .ok tree ↔
      ∃ ts, tokenize d.grammar source = .ok ts ∧ Parser.parse d ts = .ok tree := by
  unfold read
  cases tokenize d.grammar source with
  | error error => simp
  | ok ts => cases parsed : Parser.parse d ts <;> simp [parsed]

theorem read_eq_error_iff {error : Error} :
    d.read source = .error error ↔
      (∃ cause, tokenize d.grammar source = .error cause ∧ error = .lex cause) ∨
        ∃ ts cause, tokenize d.grammar source = .ok ts ∧ Parser.parse d ts = .error cause ∧
          error = .parse cause := by
  unfold read
  cases tokenize d.grammar source with
  | error cause => simp [eq_comm]
  | ok ts => cases parsed : Parser.parse d ts <;> simp [parsed, eq_comm]

end Dialect

namespace Engine

/-- What a host can do to an engine; a registration is a change of the grammar. -/
inductive Step : Engine → Engine → Prop
  | enableCache {e : Engine} : Step e e.enableCache
  | setOptions {e : Engine} (options : ParseOptions) : Step e (e.setOptions options)
  | updateGrammar {e : Engine} (change : Grammar → Grammar) : Step e (e.updateGrammar change)
  | compile {e : Engine} (source : String) : Step e (e.compile source).1

/-- The engines that a host can get. -/
inductive Reachable : Engine → Prop
  | new (options : ParseOptions) : Reachable (new options)
  | step {e after : Engine} : Reachable e → Step e after → Reachable after

/-- Every kept tree is the one that its source has now. -/
def Faithful (e : Engine) : Prop :=
  ∀ source tree, e.cached? source = some tree → e.dialect.read source = .ok tree.expr

variable {e : Engine}

theorem cached?_new (options : ParseOptions) (source : String) :
    (new options).cached? source = none := rfl

theorem cached?_emptyCache (e : Engine) (source : String) :
    e.emptyCache.cached? source = none := by
  cases cache : e.cache with
  | none => rw [cached?, emptyCache, cache, Option.map_none, Option.bind_none]
  | some trees => rw [cached?, emptyCache, cache, Option.map_some, Option.bind_some]; rfl

theorem cached?_enableCache (e : Engine) (source : String) :
    e.enableCache.cached? source = e.cached? source := by
  cases cache : e.cache with
  | none => rw [cached?, cached?, enableCache, cache]; rfl
  | some trees => rw [cached?, cached?, enableCache, cache]; rfl

/-- Compiling keeps the tree that it has read. -/
theorem Faithful.compile (faithful : e.Faithful) (source : String) :
    (e.compile source).1.Faithful := by
  unfold Engine.compile
  split
  · exact faithful
  · split
    · exact faithful
    · rename_i expr read
      intro other tree found
      cases cache : e.cache with
      | none => simp [cached?, cache] at found
      | some trees =>
        simp only [cached?, cache, Option.map_some, Option.bind_some, Registry.find?,
          Registry.insert] at found
        by_cases same : other = source
        · rw [same, Fields.find?_insert_self] at found
          cases found
          rw [same]
          exact read
        · rw [Fields.find?_insert_of_ne same] at found
          apply faithful other tree
          rw [cached?, cache]
          exact found

theorem Faithful.step {after : Engine} (faithful : e.Faithful) (step : Step e after) :
    after.Faithful := by
  cases step with
  | enableCache =>
    intro source tree found
    rw [cached?_enableCache] at found
    exact faithful source tree found
  | setOptions options =>
    intro source tree found
    have none := cached?_emptyCache e source
    cases none.symm.trans found
  | updateGrammar change =>
    intro source tree found
    have none := cached?_emptyCache e source
    cases none.symm.trans found
  | compile source => exact faithful.compile source

/-- The cache of an engine is always in step with its grammar. -/
theorem Reachable.faithful (reachable : e.Reachable) : e.Faithful := by
  induction reachable with
  | new options =>
    intro source tree found
    cases (cached?_new options source).symm.trans found
  | step _ step ih => exact ih.step step

/-- A source whose tree is not kept is read. -/
theorem compile_of_read {source : String} {expr : Expr} (uncached : e.cached? source = none)
    (read : e.dialect.read source = .ok expr) :
    (e.compile source).2 = .ok (e.expression source ⟨e.nextId, expr⟩) := by
  rw [compile, uncached, read]

/-- What fails to compile fails to be read, whatever is kept. -/
theorem of_compile_eq_error {source : String} {error : Error}
    (compiled : (e.compile source).2 = .error error) : e.dialect.read source = .error error := by
  unfold compile at compiled
  split at compiled
  · cases compiled
  · split at compiled
    · rename_i cause read
      cases compiled
      exact read
    · cases compiled

theorem dialect_compile (e : Engine) (source : String) :
    (e.compile source).1.dialect = e.dialect := by
  unfold compile
  split
  · rfl
  · split <;> rfl

theorem engine_evaluate (e : Engine) (source : String) (context : Value) :
    (e.evaluate source context).1 = (e.compile source).1 := by
  unfold evaluate
  split <;> rename_i compiled <;> rw [compiled]

/-- Compiling gives the tree that the source has now, with the grammar of now. -/
theorem Faithful.compile_eq (faithful : e.Faithful) (source : String) :
    (e.compile source).2.map (fun expression => (expression.tree.expr, expression.grammar)) =
      (e.dialect.read source).map fun expr => (expr, e.dialect.grammar) := by
  unfold Engine.compile
  split
  · rename_i tree found
    rw [faithful source tree found]
    rfl
  · split
    · rename_i error read
      rw [read]
      rfl
    · rename_i expr read
      rw [read]
      rfl

theorem Faithful.of_compile_eq_ok (faithful : e.Faithful) {source : String}
    {expression : Expression} (compiled : (e.compile source).2 = .ok expression) :
    e.dialect.read source = .ok expression.tree.expr ∧
      expression.grammar = e.dialect.grammar := by
  have same := faithful.compile_eq source
  rw [compiled] at same
  cases read : e.dialect.read source with
  | error error =>
    rw [read] at same
    cases same
  | ok expr =>
    rw [read] at same
    obtain ⟨tree, grammar⟩ := Prod.mk.inj (Except.ok.inj same)
    exact ⟨congrArg Except.ok tree.symm, grammar⟩

theorem Faithful.compile_of_read_ok (faithful : e.Faithful) {source : String} {expr : Expr}
    (read : e.dialect.read source = .ok expr) :
    ∃ expression, (e.compile source).2 = .ok expression ∧ expression.tree.expr = expr := by
  cases compiled : (e.compile source).2 with
  | ok expression =>
    have own := (faithful.of_compile_eq_ok compiled).1
    exact ⟨expression, rfl, Except.ok.inj (own.symm.trans read)⟩
  | error error => cases (of_compile_eq_error compiled).symm.trans read

theorem Faithful.compile_of_read_error (faithful : e.Faithful) {source : String} {error : Error}
    (read : e.dialect.read source = .error error) : (e.compile source).2 = .error error := by
  cases compiled : (e.compile source).2 with
  | ok expression => cases (faithful.of_compile_eq_ok compiled).1.symm.trans read
  | error other =>
    exact congrArg _ (Except.error.inj ((of_compile_eq_error compiled).symm.trans read))

/-- Evaluating a source is reading it and evaluating its tree. -/
theorem Faithful.evaluate_eq (faithful : e.Faithful) (source : String) (context : Value) :
    (e.evaluate source context).2 =
      (e.dialect.read source).map (Expr.evaluate e.dialect.grammar context) := by
  have compiled := faithful.compile_eq source
  unfold Engine.evaluate
  generalize e.compile source = result at compiled
  obtain ⟨after, outcome⟩ := result
  cases outcome with
  | error error =>
    cases read : e.dialect.read source with
    | error other =>
      rw [read] at compiled
      cases compiled
      rfl
    | ok expr =>
      rw [read] at compiled
      cases compiled
  | ok expression =>
    cases read : e.dialect.read source with
    | error other =>
      rw [read] at compiled
      cases compiled
    | ok expr =>
      rw [read] at compiled
      obtain ⟨tree, grammar⟩ := Prod.mk.inj (Except.ok.inj compiled)
      simp only [Except.map, Expression.evaluate, tree, grammar]

end Engine

end JsonExpr
