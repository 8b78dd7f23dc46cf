import JsonExpr.Proofs.Grammar
import JsonExpr.Registration
import JsonExpr.Token.Lexer
import Mathlib.Data.String.Basic

/-!
# The list of symbols

The order in which symbols are tried is a total one (`Grammar.Before`), so the list is the same
from whatever order of the spellings it is made (`Grammar.sorted_congr`), and the first symbol in
it that a text starts with is the longest (`Grammar.MaximalMunch`).
-/

namespace JsonExpr.Grammar

/-- Comes earlier in the list: it is longer, or as long and less. -/
def Before (a b : String) : Prop :=
  b.utf8ByteSize < a.utf8ByteSize ∨ a.utf8ByteSize = b.utf8ByteSize ∧ a < b

variable {a b c : String}

theorem symbolLe_iff : symbolLe a b ↔ Before a b ∨ a = b := by
  unfold symbolLe Before
  split
  · rename_i same
    rw [Bool.not_eq_true', decide_eq_false_iff_not, not_lt, le_iff_lt_or_eq]
    simp [same]
  · rename_i different
    rw [decide_eq_true_iff]
    have ne : a ≠ b := fun eq => different (congrArg _ eq)
    simp [different, ne]

theorem Before.irrefl (a : String) : ¬Before a a :=
  fun before => before.elim (lt_irrefl _) fun less => lt_irrefl _ less.2

theorem Before.trans (first : Before a b) (second : Before b c) : Before a c := by
  rcases first with longer | ⟨same, less⟩
  · rcases second with longer' | ⟨same', -⟩
    · exact .inl (longer'.trans longer)
    · exact .inl (same' ▸ longer)
  · rcases second with longer' | ⟨same', less'⟩
    · exact .inl (same.symm ▸ longer')
    · exact .inr ⟨same.trans same', less.trans less'⟩

theorem Before.total (ne : a ≠ b) : Before a b ∨ Before b a := by
  rcases lt_trichotomy a.utf8ByteSize b.utf8ByteSize with lt | same | gt
  · exact .inr (.inl lt)
  · exact (lt_or_gt_of_ne ne).imp (fun less => .inr ⟨same, less⟩) fun less => .inr ⟨same.symm, less⟩
  · exact .inl (.inl gt)

theorem symbolLe_trans (a b c : String) (first : symbolLe a b) (second : symbolLe b c) :
    symbolLe a c := by
  rw [symbolLe_iff] at *
  rcases first with before | rfl
  · rcases second with before' | rfl
    · exact .inl (before.trans before')
    · exact .inl before
  · exact second

theorem symbolLe_total (a b : String) : symbolLe a b || symbolLe b a := by
  rw [Bool.or_eq_true, symbolLe_iff, symbolLe_iff]
  by_cases same : a = b
  · exact .inl (.inr same)
  · exact (Before.total same).imp .inl .inl

theorem symbolLe_antisymm (first : symbolLe a b) (second : symbolLe b a) : a = b := by
  rw [symbolLe_iff] at *
  rcases first with before | same
  · rcases second with before' | same
    · exact absurd (before.trans before') (Before.irrefl a)
    · exact same.symm
  · exact same

theorem pairwise_sorted (spellings : List String) :
    (sorted spellings).Pairwise fun a b => symbolLe a b := by
  unfold sorted
  exact List.pairwise_mergeSort symbolLe_trans symbolLe_total _

/-- The order in which the spellings come does not show. -/
theorem sorted_congr {spellings others : List String} (perm : spellings.Perm others) :
    sorted spellings = sorted others := by
  refine List.Perm.eq_of_pairwise (fun a b _ _ => symbolLe_antisymm) (pairwise_sorted _)
    (pairwise_sorted _) ?_
  exact (List.mergeSort_perm _ _).trans
    ((perm.filter _).trans (List.mergeSort_perm _ _).symm)

/-- No symbol is in the list twice, and each is in its place. -/
theorem pairwise_before_sorted {spellings : List String} (nodup : spellings.Nodup) :
    (sorted spellings).Pairwise Before := by
  have distinct : (sorted spellings).Nodup :=
    (List.mergeSort_perm _ _).nodup_iff.2 (nodup.filter _)
  refine (pairwise_sorted spellings).imp₂ (fun a b le ne => ?_) distinct
  exact (symbolLe_iff.1 le).resolve_right ne

variable {g : Grammar}

theorem pairwise_before_symbols (g : Grammar) : g.symbols.Pairwise Before :=
  pairwise_before_sorted g.elements.nodup

/-! ## The longest symbol -/

/-- A symbol of the grammar that the text starts with. -/
def Fits (g : Grammar) (symbol : String) (cs : List Char) : Prop :=
  (g.element? symbol).isSome ∧ looksLikeWord symbol = false ∧ symbol.toList <+: cs

/-- The symbol that fits and that all others that fit are a part of. -/
def IsLongest (g : Grammar) (symbol : String) (cs : List Char) : Prop :=
  g.Fits symbol cs ∧ ∀ other, g.Fits other cs → other.toList <+: symbol.toList

theorem isPrefix_of_size_le {cs : List Char} (first : a.toList <+: cs) (second : b.toList <+: cs)
    (size : a.utf8ByteSize ≤ b.utf8ByteSize) : a.toList <+: b.toList := by
  rcases List.prefix_or_prefix_of_prefix first second with within | ⟨more, split⟩
  · exact within
  · have whole : b ++ String.ofList more = a := by
      rw [← String.toList_inj, String.toList_append, String.toList_ofList, split]
    have empty : String.ofList more = "" := by
      rw [← String.utf8ByteSize_eq_zero_iff]
      rw [← whole, String.utf8ByteSize_append] at size
      omega
    have same : b = a := by rw [← whole, empty, String.append_empty]
    exact same ▸ List.prefix_rfl

variable {cs : List Char} {symbol : String}

theorem Fits.mem_symbols (fits : g.Fits symbol cs) : symbol ∈ g.symbols :=
  mem_symbols_iff.2 ⟨fits.1, fits.2.1⟩

theorem matchSymbol?_eq_none_iff : g.matchSymbol? cs = none ↔ ∀ symbol, ¬g.Fits symbol cs := by
  unfold matchSymbol?
  rw [List.find?_eq_none]
  constructor
  · intro none symbol fits
    exact none symbol fits.mem_symbols (List.isPrefixOf_iff_prefix.2 fits.2.2)
  · intro none symbol mem isPrefix
    obtain ⟨registered, noWord⟩ := mem_symbols_iff.1 mem
    exact none symbol ⟨registered, noWord, List.isPrefixOf_iff_prefix.1 isPrefix⟩

/-- The first symbol that fits is the longest: all others that fit come behind it. -/
theorem isLongest_of_matchSymbol? (found : g.matchSymbol? cs = some symbol) :
    g.IsLongest symbol cs := by
  obtain ⟨isPrefix, front, back, split, others⟩ := List.find?_eq_some_iff_append.1 found
  have within : symbol.toList <+: cs := List.isPrefixOf_iff_prefix.1 isPrefix
  have mem : symbol ∈ g.symbols := by
    rw [split]
    exact List.mem_append_right front List.mem_cons_self
  obtain ⟨registered, noWord⟩ := mem_symbols_iff.1 mem
  refine ⟨⟨registered, noWord, within⟩, fun other fits => ?_⟩
  have listed := fits.mem_symbols
  have order := g.pairwise_before_symbols
  rw [split] at listed order
  rcases List.mem_append.1 listed with early | late
  · have refused := others other early
    rw [List.isPrefixOf_iff_prefix.2 fits.2.2] at refused
    cases refused
  · rcases List.mem_cons.1 late with rfl | late
    · exact List.prefix_rfl
    · have before := (List.pairwise_cons.1 (List.pairwise_append.1 order).2.1).1 other late
      refine isPrefix_of_size_le fits.2.2 within ?_
      rcases before with longer | ⟨same, -⟩
      · exact longer.le
      · exact same.ge

theorem IsLongest.unique {other : String} (first : g.IsLongest symbol cs)
    (second : g.IsLongest other cs) : symbol = other := by
  have forward := second.2 symbol first.1
  have backward := first.2 other second.1
  exact String.toList_inj.1 (forward.eq_of_length_le backward.length_le)

/-- What the lexer makes of a place where it looks for a symbol: the longest that fits is the token,
unless it is a sign before a sign. -/
structure MaximalMunch (g : Grammar) (position : Nat) (c : Char) (cs : List Char) : Prop where
  exists_longest : ∀ symbol, g.Fits symbol (c :: cs) → ∃ longest, g.IsLongest longest (c :: cs)
  none : (∀ symbol, ¬g.Fits symbol (c :: cs)) →
    Lexeme.readSymbol g position c cs = .error (.unexpectedCharacter c position)
  longest : ∀ symbol element, g.IsLongest symbol (c :: cs) → g.element? symbol = some element →
    Lexeme.readSymbol g position c cs =
      let rest := (c :: cs).drop symbol.toList.length
      if (symbol = "+" ∨ symbol = "-") ∧ rest.head?.any (fun d => d == '+' || d == '-') then
        .error (.ambiguousSign (symbol ++ String.ofList (rest.take 1)) position)
      else .ok ⟨element.kind, .string symbol, symbol.toList, rest⟩

theorem maximalMunch (g : Grammar) (position : Nat) (c : Char) (cs : List Char) :
    g.MaximalMunch position c cs where
  exists_longest symbol fits := by
    cases found : g.matchSymbol? (c :: cs) with
    | none => exact absurd fits (matchSymbol?_eq_none_iff.1 found symbol)
    | some longest => exact ⟨longest, isLongest_of_matchSymbol? found⟩
  none none := by
    unfold Lexeme.readSymbol
    rw [matchSymbol?_eq_none_iff.2 none]
    rfl
  longest symbol element isLongest registered := by
    have found : g.matchSymbol? (c :: cs) = some symbol := by
      cases found : g.matchSymbol? (c :: cs) with
      | none => exact absurd isLongest.1 (matchSymbol?_eq_none_iff.1 found symbol)
      | some other => rw [(isLongest_of_matchSymbol? found).unique isLongest]
    unfold Lexeme.readSymbol
    rw [found, Option.bind_some, registered]
    rfl

end JsonExpr.Grammar
