import JsonExpr.Operators.Standard
import JsonExpr.Proofs.Fields

/-!
What a grammar shows of its elements: which symbols are tried, and that only the elements found
under the spellings matter for them, not their order.

A host gets its grammars by registering and removing (`Grammar.Reachable`). It cannot add
punctuation, so what is punctuation in such a grammar is punctuation of the language.
-/

namespace JsonExpr

namespace Grammar

variable {g : Grammar} {symbol : String}

theorem mem_symbols_iff :
    symbol ∈ g.symbols ↔ (g.element? symbol).isSome ∧ looksLikeWord symbol = false := by
  rw [symbols, List.mem_mergeSort, List.mem_filter, element?, Registry.find?,
    Fields.isSome_find?_iff, Registry.names]
  simp

/-- The grammar has the operators and the punctuation of the standard grammar and no others, in
whatever order they were added. -/
def IsStandard (g : Grammar) : Prop :=
  ∀ symbol, g.element? symbol = Grammar.standard.element? symbol

theorem isStandard_standard : IsStandard .standard := fun _ => rfl

theorem IsStandard.mem_symbols_iff (standard : g.IsStandard) :
    symbol ∈ g.symbols ↔ symbol ∈ Grammar.standard.symbols := by
  rw [Grammar.mem_symbols_iff, Grammar.mem_symbols_iff, standard]

theorem function?_addFunction_self (g : Grammar) (name : String) (callable : Callable) :
    (g.addFunction name callable).function? name = some callable :=
  Fields.find?_insert_self name callable g.functions.fields

theorem function?_addFunction_of_ne {name other : String} (ne : other ≠ name)
    {callable : Callable} : (g.addFunction name callable).function? other = g.function? other :=
  Fields.find?_insert_of_ne ne callable g.functions.fields

theorem names_standard : Grammar.standard.elements.names =
    [".", "[", "]", "|", "\x7b", "\x7d", ":", ",", "(", ")", "?", "||", "&&", "==", "!=", "<", "<=",
      ">", ">=", "in", "+", "-", "*", "/", "//", "%", "^", "!"] := rfl

/-! ## The grammars of a host -/

/-- What a host can do to a grammar. -/
inductive Step (g : Grammar) : Grammar → Prop
  | addBinary (symbol : String) (precedence : UInt32)
    (apply : Value → Value → Except EvalError Value) : Step g (g.addBinary symbol precedence apply)
  | addDeferred (symbol : String) (precedence : UInt32)
    (apply : Run Value → Run Value → Run Value) : Step g (g.addDeferred symbol precedence apply)
  | addUnary (symbol : String) (apply : Value → Except EvalError Value) :
    Step g (g.addUnary symbol apply)
  | removeOperator (symbol : String) : Step g (g.removeOperator symbol)
  | addFunction (name : String) (callable : Callable) : Step g (g.addFunction name callable)
  | addTransform (name : String) (callable : Callable) : Step g (g.addTransform name callable)

/-- The grammars that a host can get. -/
inductive Reachable : Grammar → Prop
  | empty : Reachable .empty
  | standard : Reachable .standard
  | step {g after : Grammar} : Reachable g → Step g after → Reachable after

/-- All punctuation is punctuation of the language. -/
def Regular (g : Grammar) : Prop :=
  ∀ symbol kind, g.element? symbol = some (.punctuation kind) → (symbol, kind) ∈ punctuation

theorem Regular.addElement (regular : g.Regular) {element : Element}
    (own : ∀ kind, element = .punctuation kind → (symbol, kind) ∈ punctuation) :
    (g.addElement symbol element).Regular := by
  intro other kind found
  by_cases same : other = symbol
  · subst same
    have inserted : (g.addElement other element).element? other = some element :=
      Fields.find?_insert_self other element g.elements.fields
    exact own kind (Option.some.inj (inserted.symm.trans found))
  · have kept : (g.addElement symbol element).element? other = g.element? other :=
      Fields.find?_insert_of_ne same element g.elements.fields
    exact regular other kind (kept.symm.trans found)

theorem Regular.removeOperator (regular : g.Regular) (symbol : String) :
    (g.removeOperator symbol).Regular := by
  unfold Grammar.removeOperator
  split
  · split
    · intro other kind found
      by_cases same : other = symbol
      · subst same
        cases (Fields.find?_erase_self other g.elements.fields).symm.trans found
      · exact regular other kind
          ((Fields.find?_erase_of_ne same g.elements.fields).symm.trans found)
    · exact regular
  · exact regular

theorem Regular.step {after : Grammar} (regular : g.Regular) (step : Step g after) :
    after.Regular := by
  cases step with
  | addBinary symbol precedence apply => exact regular.addElement nofun
  | addDeferred symbol precedence apply => exact regular.addElement nofun
  | addUnary symbol apply => exact regular.addElement nofun
  | removeOperator symbol => exact regular.removeOperator symbol
  | addFunction name callable => exact regular
  | addTransform name callable => exact regular

theorem Regular.addPunctuation (regular : g.Regular) {entries : List (String × TokenKind)}
    (proper : ∀ entry ∈ entries, entry ∈ punctuation) :
    (entries.foldl (fun g entry => g.addElement entry.1 (.punctuation entry.2)) g).Regular := by
  induction entries generalizing g with
  | nil => exact regular
  | cons entry rest ih =>
    obtain ⟨first, others⟩ := List.forall_mem_cons.1 proper
    refine ih (regular.addElement fun kind same => ?_) others
    cases same
    exact first

theorem regular_empty : Regular .empty := nofun

theorem regular_standard : Regular .standard := by
  unfold standard addOperators addTest
  repeat refine Regular.step ?_ (.addUnary _ _)
  repeat refine Regular.step ?_ (.addBinary _ _ _)
  repeat refine Regular.step ?_ (.addDeferred _ _ _)
  exact regular_empty.addPunctuation fun _ mem => mem

theorem Reachable.regular (reachable : g.Reachable) : g.Regular := by
  induction reachable with
  | empty => exact regular_empty
  | standard => exact regular_standard
  | step _ step ih => exact ih.step step

end Grammar

end JsonExpr
