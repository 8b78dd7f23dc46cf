import JsonExpr.Engine
import JsonExpr.Proofs.Operators
import JsonExpr.Proofs.Symbols
import JsonExpr.Proofs.Tree

/-!
# What shows of a grammar

A grammar is used through what it finds under a name (`Grammar.View`). Two grammars that find the
same have the same list of symbols, split every text into the same tokens, read the same tree from
it and evaluate every tree alike (`Grammar.SameLanguage`), in whatever order they keep their
entries.
-/

namespace JsonExpr

/-- The tokens from a cursor on, by what comes next. -/
theorem Cursor.tokens_eq (g : Grammar) (cursor : Cursor) (idle : Bool) :
    cursor.tokens g idle =
      match cursor.next g with
      | .error error => .error error
      | .ok none => .ok []
      | .ok (some (token, after)) =>
        if after.rest.length < cursor.rest.length then (after.tokens g false).map (token :: ·)
        else if idle then .error (.stalled cursor.position)
        else (after.tokens g true).map (token :: ·) := by
  rw [Cursor.tokens]
  split <;> rename_i next <;> rw [next]
  rfl

namespace Grammar

/-- What is found under a name. -/
@[ext]
structure View where
  element? : String → Option Element
  function? : String → Option Callable
  transform? : String → Option Callable

/-- What the grammar finds. -/
def view (g : Grammar) : View :=
  ⟨g.element?, g.function?, g.transform?⟩

/-- The two grammars cannot be told apart by a source, a tree or the list of symbols. -/
structure SameLanguage (g h : Grammar) : Prop where
  symbols : g.symbols = h.symbols
  tokenize : ∀ source, JsonExpr.tokenize g source = JsonExpr.tokenize h source
  read : ∀ options source, Dialect.read ⟨g, options⟩ source = Dialect.read ⟨h, options⟩ source
  eval : ∀ scope (e : Expr), e.eval g scope = e.eval h scope

variable {g h : Grammar}

section Elements

variable (same : g.element? = h.element?)
include same

theorem symbols_congr : g.symbols = h.symbols := by
  refine sorted_congr ((List.perm_ext_iff_of_nodup g.elements.nodup h.elements.nodup).2 ?_)
  intro symbol
  rw [← Fields.isSome_find?_iff, ← Fields.isSome_find?_iff]
  exact Bool.eq_iff_iff.1 (congrArg Option.isSome (congrFun same symbol))

theorem read_congr (last : Option TokenKind) (position : Nat) (c : Char) (cs : List Char) :
    Lexeme.read g last position c cs = Lexeme.read h last position c cs := by
  unfold Lexeme.read Lexeme.wordMeaning Lexeme.readSymbol matchSymbol?
  rw [same, symbols_congr same]

theorem next_congr : Cursor.next g = Cursor.next h := by
  funext cursor
  unfold Cursor.next
  simp only [read_congr same]

theorem tokens_congr (cursor : Cursor) (idle : Bool) :
    cursor.tokens g idle = cursor.tokens h idle := by
  have next := next_congr same
  fun_induction Cursor.tokens g cursor idle with
  | case1 cursor idle error failed => rw [Cursor.tokens_eq h, ← next, failed]
  | case2 cursor idle ended => rw [Cursor.tokens_eq h, ← next, ended]
  | case3 cursor idle token after found shorter ih =>
    rw [Cursor.tokens_eq h, ← next, found, ih]
    exact (if_pos shorter).symm
  | case4 cursor token after found same =>
    rw [Cursor.tokens_eq h, ← next, found]
    exact ((if_neg same).trans (if_pos rfl)).symm
  | case5 cursor idle token after found same busy ih =>
    rw [Cursor.tokens_eq h, ← next, found, ih]
    exact ((if_neg same).trans (if_neg busy)).symm

theorem binary?_congr : g.binary? = h.binary? := by
  funext symbol
  rw [binary?, binary?, same]

theorem unary?_congr : g.unary? = h.unary? := by
  funext symbol
  rw [unary?, unary?, same]

theorem add_congr (options : ParseOptions) : Parser.add ⟨g, options⟩ = Parser.add ⟨h, options⟩ := by
  funext p t
  unfold Parser.add Level.accept? Level.acceptOperand? Level.acceptAfter? Level.acceptCall?
    Level.afterDot
  simp only [binary?_congr same, unary?_congr same]

theorem dialectRead_congr (options : ParseOptions) (source : String) :
    Dialect.read ⟨g, options⟩ source = Dialect.read ⟨h, options⟩ source := by
  unfold Dialect.read Parser.parse Parser.addAll tokenize
  simp only [tokens_congr same, add_congr same]

end Elements

section View

variable (same : g.view = h.view)
include same

theorem element?_congr : g.element? = h.element? :=
  congrArg View.element? same

theorem callable_congr (pool : Pool) (name : String) :
    Expr.callable g pool name = Expr.callable h pool name := by
  have functions : g.function? = h.function? := congrArg View.function? same
  have transforms : g.transform? = h.transform? := congrArg View.transform? same
  unfold Expr.callable
  rw [functions, transforms]

theorem invoke_congr : Expr.invoke g = Expr.invoke h := by
  funext pool name args
  unfold Expr.invoke
  rw [callable_congr same]

theorem eval_congr (scope : Scope) (e : Expr) : e.eval g scope = e.eval h scope := by
  have binary := binary?_congr (element?_congr same)
  have unary := unary?_congr (element?_congr same)
  induction e generalizing scope with
  | literal value => rfl
  | ident name relative => rfl
  | member subject name relative ih => rw [Expr.eval, Expr.eval, ih]
  | binary operator left right first second =>
    rw [eval_binary, eval_binary, applyBinary, applyBinary, binary, first, second]
  | unary operator right ih => rw [eval_unary, eval_unary, applyUnary, applyUnary, unary, ih]
  | cond test yes no first second third => simp only [Expr.eval, first, second, third]
  | elvis test otherwise first second => simp only [Expr.eval, first, second]
  | filter subject predicate relative first second =>
    cases relative <;> simp only [Expr.eval, first, second]
  | array items ih =>
    rw [Expr.eval, Expr.eval, Expr.evalItems_eq_map, Expr.evalItems_eq_map,
      List.map_congr_left fun item mem => ih item mem scope]
  | object entries ih =>
    rw [Expr.eval, Expr.eval, Expr.evalEntries_eq_map, Expr.evalEntries_eq_map,
      List.map_congr_left fun entry mem => ih entry mem scope]
  | call pool name args ih =>
    rw [Expr.eval, Expr.eval, Expr.evalItems_eq_map, Expr.evalItems_eq_map,
      List.map_congr_left fun arg mem => ih arg mem scope, invoke_congr same]

end View

/-- What two grammars find decides everything. -/
theorem sameLanguage_of_view (same : g.view = h.view) : g.SameLanguage h where
  symbols := symbols_congr (element?_congr same)
  tokenize _ := tokens_congr (element?_congr same) _ _
  read := dialectRead_congr (element?_congr same)
  eval := eval_congr same

end Grammar

end JsonExpr
