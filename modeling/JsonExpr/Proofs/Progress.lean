import JsonExpr.Proofs.Lossless

/-!
# How far the lexer gets

Every token takes the lexer at least one byte further, with one exception: a host may register the
symbol without characters, and where no other symbol fits this one is read and nothing is passed
over. Either a signed number follows, or the symbol is read there again and again: the calls return
to the place where they are (`Cursor.Cycles`), and `tokenize` reports that place. Without that
symbol the calls come to an end, after as many tokens as there are bytes at most
(`lexing_progresses`).
-/

namespace JsonExpr

open Lexeme (Takes BeginsSymbol)

variable {g : Grammar} {last before : Option TokenKind} {idle : Bool} {kind : TokenKind}
  {value : Value} {text gap rest after cs : List Char} {t : Token} {ts : List Token}

/-- The token of the symbol without characters. -/
def Token.IsEmptySymbol (g : Grammar) (t : Token) : Prop :=
  ∃ element, g.element? "" = some element ∧ t = ⟨element.kind, "", .string ""⟩

namespace Cursor

/-- Calls one after the other, each of which returns a token. -/
inductive Steps (g : Grammar) : Cursor → List Token → Cursor → Prop
  | nil {cursor : Cursor} : Steps g cursor [] cursor
  | cons {cursor middle final : Cursor} {t : Token} {ts : List Token} :
    cursor.next g = .ok (some (t, middle)) → Steps g middle ts final →
    Steps g cursor (t :: ts) final

/-- The calls come to an end with this result, where all has been read or there is an error. -/
def Ends (g : Grammar) (cursor : Cursor) (result : Except LexError (List Token)) : Prop :=
  ∃ ts final, Steps g cursor ts final ∧
    (final.next g = .ok none ∧ result = .ok ts ∨
      ∃ error, final.next g = .error error ∧ result = .error error)

/-- The calls come to a place to which the next one returns, so they go on for ever. -/
def Cycles (g : Grammar) (cursor : Cursor) : Prop :=
  ∃ ts final t, Steps g cursor ts final ∧ final.next g = .ok (some (t, final))

end Cursor

/-! ## One call -/

/-- Only the symbol without characters is a token without characters. -/
theorem Lexeme.Takes.of_nil (takes : Takes g last [] after kind value) :
    BeginsSymbol last after ∧ g.matchSymbol? after = some "" ∧
      ∃ element, g.element? "" = some element ∧ kind = element.kind ∧ value = .string "" := by
  generalize none : ([] : List Char) = text at takes
  cases takes with
  | string => cases none
  | number proper =>
    obtain ⟨c, tail, chars, _⟩ := proper.exists_chars_eq_cons
    cases none.trans chars
  | signed => cases none
  | word => cases none
  | @symbol symbol element _ begins isMatch registered =>
    obtain rfl : symbol = "" := String.toList_eq_nil_iff.1 none.symm
    exact ⟨begins, isMatch, element, registered, rfl, rfl⟩

/-- Every character takes a byte at least. -/
theorem length_le_utf8Length (cs : List Char) : cs.length ≤ utf8Length cs := by
  induction cs with
  | nil => exact Nat.le_refl 0
  | cons c cs ih =>
    have positive := c.utf8Size_pos
    change cs.length + 1 ≤ c.utf8Size + utf8Length cs
    omega

theorem utf8Length_toList (s : String) : utf8Length s.toList = s.utf8ByteSize := by
  rw [← utf8ByteSize_ofList, String.ofList_toList]

namespace Cursor

variable {cursor middle final : Cursor}

theorem position_of_next (step : cursor.next g = .ok (some (t, final))) :
    final.position = cursor.position + t.raw.utf8ByteSize := by
  obtain ⟨text, gap, rest, kind, value, -, -, -, -, rfl, rfl⟩ := of_next_eq_some step
  rw [utf8ByteSize_ofList]

/-- What is left to read shrinks by the token. -/
theorem length_of_next (step : cursor.next g = .ok (some (t, final))) :
    t.raw.utf8ByteSize + utf8Length final.rest = utf8Length cursor.rest := by
  rw [← utf8Length_toList, ← utf8Length_append, next_append step]

/-- A call that passes over nothing returns the symbol without characters. -/
theorem isEmptySymbol_of_next (step : cursor.next g = .ok (some (t, final)))
    (none : t.raw = "") :
    t.IsEmptySymbol g ∧ final = ⟨cursor.rest, cursor.position, some t.kind⟩ := by
  obtain ⟨text, gap, rest, kind, value, split, takes, -, -, rfl, rfl⟩ := of_next_eq_some step
  obtain ⟨rfl, rfl⟩ := List.append_eq_nil_iff.1 (String.ofList_eq_empty_iff.1 none)
  obtain ⟨-, -, element, registered, rfl, rfl⟩ := takes.of_nil
  exact ⟨⟨element, registered, rfl⟩, by rw [split]; rfl⟩

theorem lt_or_isEmptySymbol (step : cursor.next g = .ok (some (t, final))) :
    cursor.position < final.position ∨ t.IsEmptySymbol g := by
  by_cases none : t.raw = ""
  · exact .inr (isEmptySymbol_of_next step none).1
  · have some : t.raw.utf8ByteSize ≠ 0 := mt String.utf8ByteSize_eq_zero_iff.1 none
    rw [position_of_next step]
    exact .inl (by omega)

/-! ## Calls one after the other -/

/-- Without the symbol without characters a token takes a byte at least. -/
theorem Steps.length_le (named : g.element? "" = none) (steps : Steps g cursor ts final) :
    ts.length ≤ utf8Length cursor.rest := by
  induction steps with
  | nil => exact Nat.zero_le _
  | cons step _ ih =>
    rcases lt_or_isEmptySymbol step with further | ⟨element, registered, -⟩
    · have position := position_of_next step
      have length := length_of_next step
      rw [List.length_cons]
      omega
    · cases named.symm.trans registered

theorem Ends.cons {result : Except LexError (List Token)}
    (step : cursor.next g = .ok (some (t, middle))) (ends : Ends g middle result) :
    Ends g cursor (result.map (t :: ·)) := by
  obtain ⟨ts, final, steps, ⟨ended, rfl⟩ | ⟨error, failed, rfl⟩⟩ := ends
  · exact ⟨_, final, .cons step steps, .inl ⟨ended, rfl⟩⟩
  · exact ⟨_, final, .cons step steps, .inr ⟨error, failed, rfl⟩⟩

theorem Cycles.cons (step : cursor.next g = .ok (some (t, middle))) (cycles : Cycles g middle) :
    Cycles g cursor := by
  obtain ⟨ts, final, u, steps, again⟩ := cycles
  exact ⟨_, final, u, .cons step steps, again⟩

theorem raw_eq_of_next (step : cursor.next g = .ok (some (t, final)))
    (same : ¬final.rest.length < cursor.rest.length) : t.raw = "" := by
  have whole := congrArg List.length (next_append step)
  rw [List.length_append] at whole
  have none : t.raw.toList.length = 0 := by omega
  exact String.toList_eq_nil_iff.1 (List.length_eq_zero_iff.1 none)

/-- The calls come to an end, or else they return to a place, which is reported. The flag says that
the token before was the symbol without characters. -/
theorem ends_or_cycles (cursor : Cursor) (idle : Bool)
    (again : idle = true →
      ∃ element, g.element? "" = some element ∧ cursor.last = some element.kind) :
    Ends g cursor (cursor.tokens g idle) ∨
      Cycles g cursor ∧ ∃ position, cursor.tokens g idle = .error (.stalled position) := by
  fun_induction tokens g cursor idle with
  | case1 cursor idle error failed =>
    exact .inl ⟨[], cursor, .nil, .inr ⟨error, failed, rfl⟩⟩
  | case2 cursor idle ended => exact .inl ⟨[], cursor, .nil, .inl ⟨ended, rfl⟩⟩
  | case3 cursor idle token after found shorter ih =>
    rcases ih fun busy => (Bool.false_ne_true busy).elim with ends | ⟨cycles, position, stalled⟩
    · exact .inl (ends.cons found)
    · exact .inr ⟨cycles.cons found, position, by rw [stalled]; rfl⟩
  | case4 cursor token after found same =>
    -- Behind this token the lexer is where it was, and the token before has the same kind.
    obtain ⟨⟨element, registered, rfl⟩, rfl⟩ :=
      isEmptySymbol_of_next found (raw_eq_of_next found same)
    obtain ⟨_, registered', before⟩ := again rfl
    cases registered.symm.trans registered'
    rw [← before] at found
    exact .inr ⟨⟨[], cursor, _, .nil, found⟩, _, rfl⟩
  | case5 cursor idle token after found same busy ih =>
    obtain ⟨⟨element, registered, rfl⟩, rfl⟩ :=
      isEmptySymbol_of_next found (raw_eq_of_next found same)
    rcases ih fun _ => ⟨element, registered, rfl⟩ with ends | ⟨cycles, position, stalled⟩
    · exact .inl (ends.cons found)
    · exact .inr ⟨cycles.cons found, position, by rw [stalled]; rfl⟩

end Cursor

/-! ## The number of tokens -/

/-- Where the symbol without characters fits, no other token has a single byte. -/
theorem Lexeme.Takes.two_le (takes : Takes g last text after kind value) (nonempty : text ≠ [])
    (begins : BeginsSymbol before (text ++ after))
    (isMatch : g.matchSymbol? (text ++ after) = some "") : 2 ≤ utf8Length text := by
  cases takes with
  | @string quote body _ isQuote =>
    have noQuote : (quote == '"' || quote == '\'') = false := begins.1
    rcases isQuote with rfl | rfl <;> cases noQuote
  | number proper =>
    obtain ⟨c, tail, chars, digit⟩ := proper.exists_chars_eq_cons
    rw [chars] at begins
    cases digit.symm.trans begins.2.1
  | @signed sign n _ _ _ proper =>
    obtain ⟨c, tail, chars, -⟩ := proper.exists_chars_eq_cons
    rw [chars]
    exact Nat.le_trans (by simp) (length_le_utf8Length (sign :: c :: tail))
  | word starts => cases starts.symm.trans begins.2.2.2
  | symbol _ isMatch' =>
    cases isMatch'.symm.trans isMatch
    exact (nonempty rfl).elim

/-- A token without characters is made up for by the next one, which has two bytes at least. -/
theorem Splits.length_le (splits : Splits g last idle cs ts) (solid : Text.IsSolid cs)
    (again : idle = true → ∃ before, BeginsSymbol before cs ∧ g.matchSymbol? cs = some "") :
    ts.length + idle.toNat ≤ utf8Length cs := by
  induction splits with
  | @nil last idle =>
    cases idle with
    | false => exact Nat.le_refl 0
    | true =>
      obtain ⟨before, begins, -⟩ := again rfl
      cases begins
  | @cons last idle text gap rest kind value ts takes blank inner busy _ ih =>
    by_cases none : text ++ gap = []
    · obtain ⟨rfl, rfl⟩ := List.append_eq_nil_iff.1 none
      obtain ⟨begins, isMatch, -⟩ := takes.of_nil
      rw [busy none]
      exact ih inner fun _ => ⟨last, begins, isMatch⟩
    · have others := ih inner fun empty => (none (List.isEmpty_iff.1 empty)).elim
      have bytes : 1 + idle.toNat ≤ utf8Length (text ++ gap) := by
        cases idle with
        | false => exact Nat.le_trans (List.length_pos_iff.2 none) (length_le_utf8Length _)
        | true =>
          obtain ⟨before, begins, isMatch⟩ := again rfl
          have nonempty : text ≠ [] := by
            rintro rfl
            obtain ⟨c, tail, rfl⟩ := List.exists_cons_of_ne_nil none
            cases (solid c rfl).symm.trans (blank c List.mem_cons_self)
          rw [utf8Length_append]
          exact Nat.le_add_right_of_le (takes.two_le nonempty begins isMatch)
      rw [← List.append_assoc, utf8Length_append, List.length_cons]
      omega

/-! ## Whole texts -/

/-- From the start of a source on every token takes the lexer further, and the calls end, after as
many tokens as there are bytes at most. -/
structure Progresses (g : Grammar) (source : String) : Prop where
  advances : ∀ ts cursor t final, Cursor.Steps g (.start source.toList) ts cursor →
    cursor.next g = .ok (some (t, final)) → cursor.position < final.position
  ends : Cursor.Ends g (.start source.toList) (tokenize g source)
  length_le : ∀ ts final, Cursor.Steps g (.start source.toList) ts final →
    ts.length ≤ source.utf8ByteSize

theorem utf8Length_dropWhile_le (source : String) :
    utf8Length (source.toList.dropWhile Text.isBlank) ≤ source.utf8ByteSize := by
  have parted := List.takeWhile_append_dropWhile (p := Text.isBlank) (l := source.toList)
  rw [← utf8Length_toList, ← congrArg utf8Length parted, utf8Length_append]
  exact Nat.le_add_left _ _

/-- A grammar without the symbol without characters is read with progress. In any other, too, only
that symbol takes the lexer no further, there are no more tokens than bytes, and the calls end
unless they return to one place, which is reported. -/
theorem lexing_progresses (g : Grammar) (source : String) :
    (g.element? "" = none → Progresses g source) ∧
      (∀ cursor t final, Cursor.next g cursor = .ok (some (t, final)) →
        cursor.position < final.position ∨ t.IsEmptySymbol g) ∧
      (∀ ts, tokenize g source = .ok ts → ts.length ≤ source.utf8ByteSize) ∧
      (Cursor.Ends g (.start source.toList) (tokenize g source) ∨
        Cursor.Cycles g (.start source.toList) ∧
          ∃ position, tokenize g source = .error (.stalled position)) := by
  have short := utf8Length_dropWhile_le source
  have endings := Cursor.ends_or_cycles (g := g) (.start source.toList) false nofun
  refine ⟨fun named => ?_, fun cursor t final => Cursor.lt_or_isEmptySymbol, fun ts h => ?_,
    endings⟩
  · have advances {cursor : Cursor} {t final} (step : cursor.next g = .ok (some (t, final))) :
        cursor.position < final.position := by
      rcases Cursor.lt_or_isEmptySymbol step with further | ⟨element, registered, -⟩
      · exact further
      · cases named.symm.trans registered
    refine ⟨fun _ _ _ _ _ step => advances step, ?_,
      fun ts final steps => Nat.le_trans (steps.length_le named) short⟩
    rcases endings with ends | ⟨⟨_, _, _, _, again⟩, _⟩
    · exact ends
    · exact (Nat.lt_irrefl _ (advances again)).elim
  · have solid := (Text.forall_mem_span Text.isBlank source.toList).2
    exact Nat.le_trans ((tokenize_eq_ok_iff.1 h).length_le solid nofun) short

theorem progresses_signs : Progresses .standard "a - -1" :=
  (lexing_progresses .standard "a - -1").1 rfl

/-- Operands may stand side by side: the operator between them has no characters. -/
def Grammar.juxtaposing : Grammar :=
  Grammar.empty.addBinary "" 1 fun left _ => .ok left

theorem Cursor.next_juxtaposing (begins : BeginsSymbol last cs) (solid : Text.IsSolid cs)
    (position : Nat) :
    next .juxtaposing ⟨cs, position, last⟩ =
      .ok (some (⟨.binaryOp, "", .string ""⟩, ⟨cs, position, some .binaryOp⟩)) := by
  have symbols : Grammar.juxtaposing.symbols = [""] := List.mergeSort_singleton ""
  have isMatch : Grammar.juxtaposing.matchSymbol? ("".toList ++ cs) = some "" := by
    rw [Grammar.matchSymbol?, symbols]
    rfl
  have takes : Takes .juxtaposing last "".toList ([] ++ cs) .binaryOp (.string "") :=
    .symbol begins isMatch rfl nofun
  exact next_of_takes takes nofun solid position

/-- Between two operands the operator is read without progress, and where no operand follows it is
read for ever. -/
theorem not_progresses_juxtaposing :
    Grammar.juxtaposing.Reachable ∧ ¬Progresses .juxtaposing "1-1" ∧
      Cursor.Cycles .juxtaposing (.start "~".toList) := by
  refine ⟨.step .empty (.addBinary "" 1 _), fun progress => ?_, ?_⟩
  · have one : (Cursor.start "1-1".toList).next .juxtaposing =
        .ok (some (⟨.literal, "1", .int 1⟩, ⟨['-', '1'], 1, some .literal⟩)) := rfl
    have minus : BeginsSymbol (some .literal) ['-', '1'] := ⟨rfl, rfl, rfl, rfl⟩
    have step := Cursor.next_juxtaposing minus (.cons rfl) 1
    exact Nat.lt_irrefl 1 (progress.advances _ _ _ _ (.cons one .nil) step)
  · have tilde (last : Option TokenKind) : BeginsSymbol last ['~'] := ⟨rfl, rfl, rfl, rfl⟩
    have first := Cursor.next_juxtaposing (tilde none) (.cons rfl) 0
    have again := Cursor.next_juxtaposing (tilde (some .binaryOp)) (.cons rfl) 0
    exact ⟨_, _, _, .cons first .nil, again⟩

end JsonExpr
