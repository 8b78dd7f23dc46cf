import JsonExpr.Proofs.Errors
import JsonExpr.Proofs.Kinds
import JsonExpr.Proofs.Parser.Sentence

/-!
What trees show of the sources that they are read from. Literals are no collections, since arrays
and objects are nodes of their own, and a name has a dot only where the rules for names make one
name of its parts. With what holds of all trees of a grammar this gives the shape of each node
(`Dialect.fits_of_read`).
-/

namespace JsonExpr

/-- What a node has because it was written in a source. -/
def Expr.IsWritten (options : ParseOptions) : Expr → Prop
  | .literal value => value.IsScalar
  | .ident name _ | .member _ name _ => '.' ∉ name.toList
  | .call .functions name _ => options.namespacedFunctions = false → '.' ∉ name.toList
  | .call .transforms name _ => options.namespacedTransforms = false → '.' ∉ name.toList
  | _ => True

variable {d : Dialect}

/-- Without dotted names for functions only a name can be called. -/
theorem Level.eq_ident_of_calleeName? {options : ParseOptions} {callee : Expr} {name : String}
    (plain : options.namespacedFunctions = false) (h : calleeName? options callee = some name) :
    callee = .ident name false := by
  unfold calleeName? at h
  split at h
  · rename_i single chain
    cases h
    unfold chain? at chain
    split at chain
    · cases chain
      rfl
    · -- The subject of a property is a chain too, and it has a name.
      obtain ⟨names, subject, names_eq⟩ := Option.map_eq_some_iff.1 chain
      obtain ⟨rfl, _⟩ := List.append_eq_singleton_iff.1 names_eq |>.resolve_right
        fun ⟨_, other⟩ => List.cons_ne_nil _ _ other
      exact (Expr.chain?_ne_nil _ subject).elim
    · cases chain
  · rw [plain] at h
    cases h
  · cases h

theorem Parser.builds_isWritten (d : Dialect) :
    Builds d (Token.Suits d.grammar) (Expr.IsWritten d.options) where
  literal suits kind := suits.literal kind
  name _ suits kind := suits.identifier kind
  member _ suits kind := suits.identifier kind
  binary _ _ _ := trivial
  unary _ _ := trivial
  choice _ consequent _ := by cases consequent <;> trivial
  bracket _ _ := trivial
  array _ := trivial
  object _ := trivial
  function _ callee written plain := by
    rw [Level.eq_ident_of_calleeName? plain callee] at written
    exact written
  transform _ _ suits kind _ := suits.identifier kind
  segment _ _ _ namespaced plain := by
    rw [namespaced] at plain
    cases plain

/-- The nodes of a tree fit the grammar that it was read with, and they are as they can be written
under the rules for names. -/
theorem Dialect.fits_of_read (reachable : d.grammar.Reachable) {source : String} {tree : Expr}
    (h : d.read source = .ok tree) {node : Expr} (contains : tree.Contains node) :
    node.Fits d.grammar ∧ node.IsWritten d.options := by
  obtain ⟨ts, tokens, parsed⟩ := read_eq_ok_iff.1 h
  have suits := Token.suits_of_tokenize reachable.regular tokens
  exact ⟨(Parser.builds_fits d).everywhere parsed (fun _ _ => trivial) node contains,
    (Parser.builds_isWritten d).everywhere parsed suits node contains⟩

theorem Expr.reachable_noting : noting.Reachable :=
  .step (.step .standard (.addFunction _ _)) (.addFunction _ _)

/-- A call read under the rules that join no names. -/
theorem Dialect.fits_of_read_refusal :
    (⟨Expr.noting, ⟨false, false⟩⟩ : Dialect).read "refuse(null)" =
        .ok (.call .functions "refuse" [.literal .null]) ∧
      '.' ∉ "refuse".toList := by
  have read : (⟨Expr.noting, ⟨false, false⟩⟩ : Dialect).read "refuse(null)" =
      .ok (.call .functions "refuse" [.literal .null]) := by
    rw [Dialect.read, tokenize_refusal]
    rfl
  obtain ⟨_, written⟩ := fits_of_read Expr.reachable_noting read .self
  exact ⟨read, written rfl⟩

end JsonExpr
