import JsonExpr.Proofs.Lexer

/-!
# Where a string ends

A backslash takes the next character along, so a string is closed by the first quote that no
backslash takes along (`Text.ClosesAt`). Such a string is read up to that quote and no further, with
one exception: if a backslash in it takes a line feed along, the string counts as open
(`closed_strings_are_read`). A text that is written with a backslash before each backslash and each
quote escapes nothing else, and is read back as it is (`escaped_strings_are_read`).
-/

namespace JsonExpr

variable {g : Grammar} {last : Option TokenKind} {quote c : Char}
  {chunk cs body rest after : List Char}

namespace Text

/-! ## The quote that closes -/

/-- The character behind this text is taken along by a backslash that is not taken along itself. -/
def takesNext (cs : List Char) : Bool :=
  cs.foldl (fun taken c => !taken && c == '\\') false

/-- Each quote of the text is taken along by a backslash. -/
def IsOpen (quote : Char) (cs : List Char) : Prop :=
  ∀ front back, front ++ quote :: back = cs → takesNext front = true

/-- The first quote of the text that is not taken along stands between these two parts. -/
structure ClosesAt (quote : Char) (cs body rest : List Char) : Prop where
  split : body ++ quote :: rest = cs
  free : takesNext body = false
  isOpen : IsOpen quote body

/-- A backslash of the text takes a line feed along. -/
def EscapesBreak (cs : List Char) : Prop :=
  ∃ front back, front ++ '\n' :: back = cs ∧ takesNext front = true

theorem not_isOpen_iff :
    ¬IsOpen quote cs ↔ ∃ front back, front ++ quote :: back = cs ∧ takesNext front = false := by
  simp [IsOpen]

theorem ClosesAt.not_isOpen (closes : ClosesAt quote cs body rest) : ¬IsOpen quote cs :=
  not_isOpen_iff.2 ⟨body, rest, closes.split, closes.free⟩

/-- Only one quote closes a text. -/
theorem ClosesAt.body_eq {body' rest' : List Char} (closes : ClosesAt quote cs body rest)
    (closes' : ClosesAt quote cs body' rest') : body = body' := by
  have shorter {body body' rest rest' : List Char} (free : takesNext body = false)
      (isOpen : IsOpen quote body')
      (split : ∃ middle, body' = body ++ middle ∧ quote :: rest = middle ++ quote :: rest') :
      body = body' := by
    obtain ⟨middle, rfl, behind⟩ := split
    cases middle with
    | nil => exact (List.append_nil body).symm
    | cons c middle =>
      cases behind
      cases free.symm.trans (isOpen body middle rfl)
  rcases List.append_eq_append_iff.1 (closes.split.trans closes'.split.symm) with split | split
  · exact shorter closes.free closes'.isOpen split
  · exact (shorter closes'.free closes.isOpen split).symm

/-- Some quote closes a text that is not open. -/
theorem exists_closesAt (notOpen : ¬IsOpen quote cs) :
    ∃ body rest, ClosesAt quote cs body rest := by
  obtain ⟨front, back, split, free⟩ := not_isOpen_iff.1 notOpen
  -- From a quote that is not taken along back to the first.
  induction h : front.length using Nat.strongRecOn generalizing front back with
  | _ n ih =>
    by_cases isOpen : IsOpen quote front
    · exact ⟨front, back, split, free, isOpen⟩
    · obtain ⟨front', back', rfl, free'⟩ := not_isOpen_iff.1 isOpen
      refine ih front'.length ?_ front' (back' ++ quote :: back) ?_ free' rfl
      · rw [← h, List.length_append, List.length_cons]
        omega
      · rw [← split, List.append_assoc]
        rfl

/-! ## Bodies of strings -/

theorem takesNext_chunk (isChunk : IsChunk quote chunk) (rest : List Char) :
    takesNext (chunk ++ rest) = takesNext rest := by
  cases isChunk with
  | pair => rfl
  | @plain c notBackslash =>
    have free : (!false && c == '\\') = false := by simpa using notBackslash
    change rest.foldl _ (!false && c == '\\') = takesNext rest
    rw [free]
    rfl

/-- The character can stand behind this text: a quote where it is taken along, a line feed where it
is not. -/
def Stands (quote : Char) (front : List Char) (c : Char) : Prop :=
  (c = quote → takesNext front = true) ∧ (takesNext front = true → c ≠ '\n')

theorem stands_chunk (isChunk : IsChunk quote chunk) {front : List Char} :
    Stands quote (chunk ++ front) c ↔ Stands quote front c := by
  rw [Stands, takesNext_chunk isChunk, Stands]

theorem IsBody.takesNext_eq_false (isBody : IsBody quote body) : takesNext body = false := by
  induction isBody with
  | nil => rfl
  | cons isChunk _ ih => rw [takesNext_chunk isChunk, ih]

theorem IsBody.stands (isBody : IsBody quote body) (notBackslash : quote ≠ '\\')
    {front back : List Char} (split : front ++ c :: back = body) : Stands quote front c := by
  induction isBody generalizing front with
  | nil => cases (List.append_eq_nil_iff.1 split).2
  | cons isChunk _ ih =>
    cases isChunk with
    | pair notBreak =>
      match front, split with
      | [], split =>
        cases split
        exact ⟨fun eq => (notBackslash eq.symm).elim, nofun⟩
      | [_], split =>
        cases split
        exact ⟨fun _ => rfl, fun _ => notBreak⟩
      | _ :: _ :: front, split =>
        cases split
        exact (stands_chunk (.pair notBreak)).2 (ih rfl)
    | plain notBackslash notQuote =>
      match front, split with
      | [], split =>
        cases split
        exact ⟨fun eq => (notQuote eq).elim, nofun⟩
      | _ :: front, split =>
        cases split
        exact (stands_chunk (.plain notBackslash notQuote)).2 (ih rfl)

theorem IsBody.of_stands (free : takesNext body = false)
    (stands : ∀ front c back, front ++ c :: back = body → Stands quote front c) :
    IsBody quote body := by
  fun_induction unescape quote body with
  | case1 => exact .nil
  | case2 c rest ih =>
    have isChunk : IsChunk quote ['\\', c] := .pair ((stands ['\\'] c rest rfl).2 rfl)
    refine .cons isChunk (ih free fun front d back split => ?_)
    exact (stands_chunk isChunk).1 (stands _ d back (congrArg (['\\', c] ++ ·) split))
  | case3 c rest noPair ih =>
    have notBackslash : c ≠ '\\' := by
      rintro rfl
      cases rest with
      | nil => cases free
      | cons d rest => exact noPair d rest rfl rfl
    have notQuote : c ≠ quote := fun eq => by cases (stands [] c rest rfl).1 eq
    have isChunk : IsChunk quote [c] := .plain notBackslash notQuote
    refine .cons isChunk (ih ?_ fun front d back split => ?_)
    · exact (takesNext_chunk isChunk rest).symm.trans free
    · exact (stands_chunk isChunk).1 (stands _ d back (congrArg ([c] ++ ·) split))

/-- The bodies of strings are what stands before the quote that closes, if no backslash takes a line
feed along. -/
theorem splitQuoted?_eq_some_iff_closesAt (notBackslash : quote ≠ '\\') :
    splitQuoted? quote cs = some (body, rest) ↔
      ClosesAt quote cs body rest ∧ ¬EscapesBreak body := by
  rw [splitQuoted?_eq_some_iff notBackslash]
  constructor
  · rintro ⟨isBody, split⟩
    refine ⟨⟨split, isBody.takesNext_eq_false, fun front back inner => ?_⟩, ?_⟩
    · exact (isBody.stands notBackslash inner).1 rfl
    · rintro ⟨front, back, inner, taken⟩
      exact (isBody.stands notBackslash inner).2 taken rfl
  · rintro ⟨⟨split, free, isOpen⟩, noBreak⟩
    refine ⟨.of_stands free fun front c back inner => ⟨?_, ?_⟩, split⟩
    · rintro rfl
      exact isOpen front back inner
    · rintro taken rfl
      exact noBreak ⟨front, back, inner, taken⟩

/-! ## Texts between quotes -/

/-- What is written for a character between quotes is read as this character. -/
theorem isChunk_escape (isQuote : quote = '"' ∨ quote = '\'') (c : Char) :
    IsChunk quote (if c == '\\' || c == quote then ['\\', c] else [c]) ∧
      unescape quote (if c == '\\' || c == quote then ['\\', c] else [c]) = [c] := by
  split
  · rename_i special
    simp only [Bool.or_eq_true, beq_iff_eq] at special
    rcases special with rfl | rfl
    · rcases isQuote with rfl | rfl <;> exact ⟨.pair (by decide), rfl⟩
    · rcases isQuote with rfl | rfl <;> exact ⟨.pair (by decide), rfl⟩
  · rename_i ordinary
    simp only [Bool.or_eq_true, beq_iff_eq, not_or] at ordinary
    obtain ⟨notBackslash, notQuote⟩ := ordinary
    exact ⟨.plain notBackslash notQuote, unescape_cons notBackslash []⟩

theorem isBody_escape (isQuote : quote = '"' ∨ quote = '\'') (text : List Char) :
    IsBody quote (escape quote text) :=
  isBody_flatMap fun c _ => (isChunk_escape isQuote c).1

/-- What is written between quotes is read back. -/
theorem unescape_escape (isQuote : quote = '"' ∨ quote = '\'') (text : List Char) :
    unescape quote (escape quote text) = text :=
  unescape_flatMap (fun c _ => (isChunk_escape isQuote c).1) fun c _ => (isChunk_escape isQuote c).2

end Text

/-! ## String literals -/

namespace Cursor

/-- The token of a string with this body, which stands for `text`, and the place behind it. -/
def literal (quote : Char) (body : List Char) (text : String) (after : List Char)
    (position : Nat) : Token × Cursor :=
  let raw := quote :: body ++ [quote] ++ after.takeWhile Text.isBlank
  (⟨.literal, String.ofList raw, .string text⟩,
    ⟨after.dropWhile Text.isBlank, position + utf8Length raw, some .literal⟩)

theorem next_string (isQuote : quote = '"' ∨ quote = '\'') (isBody : Text.IsBody quote body)
    (position : Nat) :
    next g ⟨quote :: (body ++ quote :: after), position, last⟩ =
      .ok (some
        (literal quote body (String.ofList (Text.unescape quote body)) after position)) := by
  have takes : Lexeme.Takes g last (quote :: body ++ [quote]) after .literal _ :=
    .string isQuote isBody
  have step := next_of_takes_append takes position
  rwa [List.append_assoc] at step

theorem next_closed (isQuote : quote = '"' ∨ quote = '\'')
    (closes : Text.ClosesAt quote cs body rest) (noBreak : ¬Text.EscapesBreak body)
    (position : Nat) :
    next g ⟨quote :: cs, position, last⟩ =
      .ok (some (literal quote body (String.ofList (Text.unescape quote body)) rest position)) := by
  have found := (Text.splitQuoted?_eq_some_iff_closesAt (Lexeme.ne_backslash isQuote)).2
    ⟨closes, noBreak⟩
  rw [← closes.split]
  exact next_string isQuote (.of_splitQuoted? found) position

theorem next_unterminated (isQuote : quote = '"' ∨ quote = '\'')
    (unclosed : Text.splitQuoted? quote cs = none) (position : Nat) :
    next g ⟨quote :: cs, position, last⟩ = .error (.unterminatedString position) := by
  have read : Lexeme.read g last position quote cs = .error (.unterminatedString position) := by
    rw [Lexeme.read, if_pos (by simpa using isQuote), Lexeme.readString, unclosed]
  rw [next]
  simp only [read]

end Cursor

/-- Where a quote stands next, a string is read exactly when it is closed, up to the quote that
closes it, unless a backslash in it takes a line feed along. -/
theorem closed_strings_are_read (g : Grammar) (last : Option TokenKind) (position : Nat)
    (cs : List Char) (isQuote : quote = '"' ∨ quote = '\'') :
    (Cursor.next g ⟨quote :: cs, position, last⟩ = .error (.unterminatedString position) ↔
        Text.IsOpen quote cs ∨
          ∃ body rest, Text.ClosesAt quote cs body rest ∧ Text.EscapesBreak body) ∧
      ∀ body rest, Text.ClosesAt quote cs body rest → ¬Text.EscapesBreak body →
        Cursor.next g ⟨quote :: cs, position, last⟩ =
          .ok (some (Cursor.literal quote body (String.ofList (Text.unescape quote body)) rest
            position)) := by
  refine ⟨⟨fun failed => ?_, fun unclosed => ?_⟩,
    fun body rest closes noBreak => Cursor.next_closed isQuote closes noBreak position⟩
  · by_cases isOpen : Text.IsOpen quote cs
    · exact .inl isOpen
    · obtain ⟨body, rest, closes⟩ := Text.exists_closesAt isOpen
      refine .inr ⟨body, rest, closes, Classical.byContradiction fun noBreak => ?_⟩
      cases failed.symm.trans (Cursor.next_closed isQuote closes noBreak position)
  · refine Cursor.next_unterminated isQuote (Option.eq_none_iff_forall_ne_some.2 ?_) position
    rintro ⟨body, rest⟩ found
    obtain ⟨closes, noBreak⟩ :=
      (Text.splitQuoted?_eq_some_iff_closesAt (Lexeme.ne_backslash isQuote)).1 found
    rcases unclosed with isOpen | ⟨body', rest', closes', escapes⟩
    · exact closes.not_isOpen isOpen
    · rw [closes.body_eq closes'] at noBreak
      exact noBreak escapes

/-- The quote behind one backslash does not close the string, but the quote behind two does. -/
theorem closed_strings_are_read_backslashes :
    Cursor.next .standard ⟨['"', '\\', '"', '\\', '\\', '"', ' ', '"'], 3, some .comma⟩ =
      .ok (some (⟨.literal, "\"\\\"\\\\\" ", .string "\"\\"⟩, ⟨['"'], 10, some .literal⟩)) := by
  have ends : Text.splitQuoted? '"' ['\\', '"', '\\', '\\', '"', ' ', '"'] =
      some (['\\', '"', '\\', '\\'], [' ', '"']) := rfl
  obtain ⟨closes, noBreak⟩ := (Text.splitQuoted?_eq_some_iff_closesAt (by decide)).1 ends
  exact (closed_strings_are_read .standard (some .comma) 3 _ (.inl rfl)).2 _ _ closes noBreak

/-- The last quote closes the text, but the line feed before it is taken along. -/
theorem not_read_of_escaped_break :
    ¬Text.IsOpen '"' ['\\', '\n', '"'] ∧
      Cursor.next .standard (.start ['"', '\\', '\n', '"']) = .error (.unterminatedString 0) := by
  refine ⟨fun isOpen => ?_, rfl⟩
  cases isOpen ['\\', '\n'] [] rfl

/-- A text that is written between quotes is read back, whatever it is and whatever follows, and the
lexer goes on behind it. -/
theorem escaped_strings_are_read (g : Grammar) (last : Option TokenKind) (position : Nat)
    (isQuote : quote = '"' ∨ quote = '\'') (text : String) (after : List Char) :
    Cursor.next g ⟨quote :: (Text.escape quote text.toList ++ quote :: after), position, last⟩ =
      .ok (some (Cursor.literal quote (Text.escape quote text.toList) text after position)) := by
  rw [Cursor.next_string isQuote (Text.isBody_escape isQuote _), Text.unescape_escape isQuote,
    String.ofList_toList]

theorem escaped_strings_are_read_mixed :
    Cursor.next .standard
        ⟨['"', '\\', '\\', '\n', '\\', '"', '\'', '\\', '\\', '"', ' ', 'n'], 0, none⟩ =
      .ok (some (⟨.literal, "\"\\\\\n\\\"'\\\\\" ", .string "\\\n\"'\\"⟩,
        ⟨['n'], 11, some .literal⟩)) :=
  escaped_strings_are_read .standard none 0 (.inl rfl) "\\\n\"'\\" [' ', 'n']

end JsonExpr
