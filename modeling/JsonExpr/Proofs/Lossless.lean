import JsonExpr.Proofs.Lexer
import JsonExpr.Proofs.Parser.Reads

/-!
What the lexer makes of a text. Token after token is taken from the front, with the white space
behind it, until the text ends or no token begins (`Cursor.scans`). `Splits` is a text that is read
to its end, without positions; the lexer gives exactly these splits (`tokens_eq_ok_iff`).

Nothing gets lost, whether splitting succeeds or not (`tokenize_lossless`): where it fails, the
tokens before are those of the text up to there, since no token looks at what is cut off
(`Lexeme.Takes.of_parts`).
-/

namespace JsonExpr

open Lexeme (Takes)

/-- The position that an error names. -/
def LexError.position : LexError → Nat
  | .unexpectedCharacter _ position | .unterminatedString position | .ambiguousSign _ position
  | .invalidNumber _ position | .stalled position => position

variable {g : Grammar} {last : Option TokenKind} {idle : Bool} {kind : TokenKind} {value : Value}
  {c : Char} {text gap rest cs : List Char} {position : Nat} {ts : List Token}

/-! ## Steps -/

namespace Lexeme

theorem readString_position {quote : Char} {error : LexError}
    (h : readString position quote cs = .error error) : error.position = position := by
  unfold readString at h
  split at h
  · cases h
  · cases h
    rfl

theorem readSymbol_position {error : LexError} (h : readSymbol g position c cs = .error error) :
    error.position = position := by
  unfold readSymbol at h
  split at h
  · cases h
    rfl
  · simp only at h
    split at h
    · cases h
      rfl
    · cases h

/-- Where a digit stands there is a number. -/
theorem readNumber_ne_error {sign : List Char} {negative : Bool} {error : LexError}
    (digit : cs.head?.any Char.isDigit = true) :
    readNumber position sign negative cs ≠ .error error := by
  cases cs with
  | nil => cases digit
  | cons c cs =>
    obtain ⟨n, after, split⟩ := Text.Numeral.exists_split?_of_isDigit digit cs
    rw [readNumber, split]
    intro failed
    cases failed

/-- A token that cannot be read is reported where it begins. -/
theorem read_position {error : LexError} (h : read g last position c cs = .error error) :
    error.position = position := by
  unfold read at h
  split at h
  · exact readString_position h
  · split at h
    · rename_i digit
      have front : (c :: cs).head?.any Char.isDigit = true := digit
      exact (readNumber_ne_error front h).elim
    · split at h
      · rename_i signed
        exact (readNumber_ne_error ((Bool.and_eq_true _ _).mp signed).2 h).elim
      · split at h
        · cases h
        · exact readSymbol_position h

end Lexeme

namespace Cursor

theorem of_next_eq_error {error : LexError} (h : next g ⟨cs, position, last⟩ = .error error) :
    cs ≠ [] ∧ error.position = position := by
  unfold next at h
  split at h
  · cases h
  · rename_i c tail front
    obtain rfl : cs = c :: tail := front
    split at h
    · rename_i failed
      cases h
      exact ⟨nofun, Lexeme.read_position failed⟩
    · cases h

theorem of_next_eq_none (h : next g ⟨cs, position, last⟩ = .ok none) : cs = [] := by
  unfold next at h
  split at h
  · rename_i ended
    exact ended
  · split at h
    · cases h
    · cases h

theorem of_next_eq_some {token : Token} {after : Cursor}
    (h : next g ⟨cs, position, last⟩ = .ok (some (token, after))) :
    ∃ text gap rest kind value, cs = text ++ (gap ++ rest) ∧
      Takes g last text (gap ++ rest) kind value ∧ (∀ c ∈ gap, Text.isBlank c = true) ∧
      Text.IsSolid rest ∧ token = ⟨kind, String.ofList (text ++ gap), value⟩ ∧
      after = ⟨rest, position + utf8Length (text ++ gap), some kind⟩ := by
  unfold next at h
  split at h
  · cases h
  · rename_i c tail front
    obtain rfl : cs = c :: tail := front
    split at h
    · cases h
    · rename_i lexeme found
      cases h
      obtain ⟨takes, split⟩ := Lexeme.read_eq_ok_iff.1 found
      obtain ⟨blank, solid⟩ := Text.forall_mem_span Text.isBlank lexeme.rest
      have parted := List.takeWhile_append_dropWhile (p := Text.isBlank) (l := lexeme.rest)
      exact ⟨_, _, _, _, _, by rw [parted, split], by rwa [parted], blank, solid, rfl, rfl⟩

end Cursor

/-! ## Whole texts -/

/-- What the lexer makes of a text, behind a token of the kind `last`, if any: one token after the
other, up to the end or to an error. The flag says that the token before had no characters. -/
inductive Scans (g : Grammar) :
    Option TokenKind → Bool → List Char → Nat → Except LexError (List Token) → Prop
  | nil {last : Option TokenKind} {idle : Bool} {position : Nat} :
    Scans g last idle [] position (.ok [])
  | error {last : Option TokenKind} {idle : Bool} {cs : List Char} {position : Nat}
      {error : LexError} :
    cs ≠ [] → error.position = position → Scans g last idle cs position (.error error)
  | cons {last : Option TokenKind} {idle : Bool} {text gap rest : List Char} {kind : TokenKind}
      {value : Value} {position : Nat} {result : Except LexError (List Token)} :
    Takes g last text (gap ++ rest) kind value → (∀ c ∈ gap, Text.isBlank c = true) →
    Text.IsSolid rest → (text ++ gap = [] → idle = false) →
    Scans g (some kind) (text ++ gap).isEmpty rest (position + utf8Length (text ++ gap)) result →
    Scans g last idle (text ++ (gap ++ rest)) position
      (result.map (⟨kind, String.ofList (text ++ gap), value⟩ :: ·))

theorem Cursor.scans (cursor : Cursor) (idle : Bool) :
    Scans g cursor.last idle cursor.rest cursor.position (cursor.tokens g idle) := by
  fun_induction Cursor.tokens g cursor idle with
  | case1 cursor idle error failed =>
    obtain ⟨nonempty, position⟩ := of_next_eq_error failed
    exact .error nonempty position
  | case2 cursor idle ended =>
    rw [of_next_eq_none ended]
    exact .nil
  | case3 cursor idle token after found shorter ih =>
    obtain ⟨text, gap, rest, kind, value, split, takes, blank, solid, rfl, rfl⟩ :=
      of_next_eq_some found
    rw [split] at shorter ⊢
    have some := length_lt_iff.1 shorter
    refine .cons takes blank solid (fun none => by rw [none] at some; cases some) ?_
    rw [some]
    exact ih
  | case4 cursor token after found same =>
    obtain ⟨text, gap, rest, kind, value, split, takes, _⟩ := of_next_eq_some found
    rw [split]
    exact .error takes.ne_nil rfl
  | case5 cursor idle token after found same busy ih =>
    obtain ⟨text, gap, rest, kind, value, split, takes, blank, solid, rfl, rfl⟩ :=
      of_next_eq_some found
    rw [split] at same ⊢
    have none := Bool.of_not_eq_false (mt length_lt_iff.2 same)
    refine .cons takes blank solid (fun _ => by simpa using busy) ?_
    rw [none]
    exact ih

/-! ## Texts that are read to their end -/

/-- Behind a token of the kind `last`, if any, a text falls into these tokens. The flag says that
the token before had no characters. -/
inductive Splits (g : Grammar) : Option TokenKind → Bool → List Char → List Token → Prop
  | nil {last : Option TokenKind} {idle : Bool} : Splits g last idle [] []
  | cons {last : Option TokenKind} {idle : Bool} {text gap rest : List Char} {kind : TokenKind}
      {value : Value} {ts : List Token} :
    Takes g last text (gap ++ rest) kind value → (∀ c ∈ gap, Text.isBlank c = true) →
    Text.IsSolid rest → (text ++ gap = [] → idle = false) →
    Splits g (some kind) (text ++ gap).isEmpty rest ts →
    Splits g last idle (text ++ (gap ++ rest)) (⟨kind, String.ofList (text ++ gap), value⟩ :: ts)

theorem Splits.of_scans {result : Except LexError (List Token)}
    (scans : Scans g last idle cs position result) (ends : result = .ok ts) :
    Splits g last idle cs ts := by
  induction scans generalizing ts with
  | nil =>
    cases ends
    exact .nil
  | error => cases ends
  | cons takes blank solid busy _ ih =>
    obtain ⟨us, inner, rfl⟩ := map_eq_ok_iff.1 ends
    exact .cons takes blank solid busy (ih inner)

theorem Splits.tokens (splits : Splits g last idle cs ts) (position : Nat) :
    Cursor.tokens g ⟨cs, position, last⟩ idle = .ok ts := by
  induction splits generalizing position with
  | nil => exact Cursor.tokens_nil position
  | cons takes blank solid busy _ ih =>
    rw [Cursor.tokens_of_takes takes blank solid busy, ih]
    rfl

/-- The lexer splits a text in exactly this way. -/
theorem tokens_eq_ok_iff :
    Cursor.tokens g ⟨cs, position, last⟩ idle = .ok ts ↔ Splits g last idle cs ts :=
  ⟨fun h => .of_scans (Cursor.scans ⟨cs, position, last⟩ idle) h,
    fun splits => splits.tokens position⟩

/-- A source splits into its tokens behind the white space at its front. -/
theorem tokenize_eq_ok_iff {source : String} :
    tokenize g source = .ok ts ↔
      Splits g none false (source.toList.dropWhile Text.isBlank) ts :=
  tokens_eq_ok_iff

theorem Splits.join (splits : Splits g last idle cs ts) :
    String.join (ts.map Token.raw) = String.ofList cs := by
  induction splits with
  | nil => rfl
  | cons _ _ _ _ _ ih =>
    rw [List.map_cons, String.join_cons, ih, ← String.ofList_append, List.append_assoc]

/-- The raw text of a token is what is taken as the token, and white space behind it. -/
def Token.IsTaken (g : Grammar) (t : Token) : Prop :=
  ∃ last after text gap, Takes g last text after t.kind t.value ∧
    (∀ c ∈ gap, Text.isBlank c = true) ∧ t.raw = String.ofList (text ++ gap)

theorem Splits.isTaken (splits : Splits g last idle cs ts) (solid : Text.IsSolid cs) :
    ∀ t ∈ ts, Text.IsSolid t.raw.toList ∧ t.IsTaken g := by
  induction splits with
  | nil => nofun
  | cons takes blank inner _ _ ih =>
    refine List.forall_mem_cons.2 ⟨⟨?_, _, _, _, _, takes, blank, rfl⟩, ih inner⟩
    rw [← List.append_assoc] at solid
    rw [String.toList_ofList]
    exact solid.of_append

/-! ## Places where the lexer fails -/

/-- So many bytes into the text, where a character stands that is not white space, what is before
splits into tokens by itself. -/
def Breaks (g : Grammar) (last : Option TokenKind) (idle : Bool) (cs : List Char) (offset : Nat) :
    Prop :=
  ∃ front c back ts, cs = front ++ c :: back ∧ Text.isBlank c = false ∧
    utf8Length front = offset ∧ Splits g last idle front ts

theorem utf8Length_append (front back : List Char) :
    utf8Length (front ++ back) = utf8Length front + utf8Length back := by
  induction front with
  | nil => simp [utf8Length]
  | cons c front ih =>
    change c.utf8Size + utf8Length (front ++ back) =
      c.utf8Size + utf8Length front + utf8Length back
    rw [ih, Nat.add_assoc]

theorem Breaks.here (solid : Text.IsSolid cs) (nonempty : cs ≠ []) : Breaks g last idle cs 0 := by
  obtain ⟨c, tail, rfl⟩ := List.exists_cons_of_ne_nil nonempty
  exact ⟨[], c, tail, [], rfl, solid c rfl, rfl, .nil⟩

/-- What stands behind a token does not matter to it, so long as the text is cut off behind it. -/
theorem Breaks.behind {offset : Nat} (takes : Takes g last text (gap ++ rest) kind value)
    (blank : ∀ c ∈ gap, Text.isBlank c = true) (solid : Text.IsSolid rest)
    (busy : text ++ gap = [] → idle = false)
    (breaks : Breaks g (some kind) (text ++ gap).isEmpty rest offset) :
    Breaks g last idle (text ++ (gap ++ rest)) (utf8Length (text ++ gap) + offset) := by
  obtain ⟨front, c, back, ts, rfl, notBlank, rfl, splits⟩ := breaks
  have whole : text ++ (gap ++ (front ++ c :: back)) = (text ++ (gap ++ front)) ++ c :: back := by
    simp only [List.append_assoc]
  have length : utf8Length (text ++ (gap ++ front)) =
      utf8Length (text ++ gap) + utf8Length front := by
    rw [← List.append_assoc, utf8Length_append]
  by_cases none : text ++ (gap ++ front) = []
  · -- A symbol without characters was taken only because of what has been cut off.
    rw [none] at whole length
    exact ⟨[], c, back, [], whole, notBlank, length, .nil⟩
  · rw [← List.append_assoc] at takes
    have alone := takes.of_parts none (Lexeme.parts_nil _)
    rw [List.append_nil] at alone
    exact ⟨_, c, back, _, whole, notBlank, length,
      .cons alone blank solid.of_append busy splits⟩

/-- Where the lexer fails, the text breaks. -/
theorem Breaks.of_scans {result : Except LexError (List Token)} {error : LexError}
    (scans : Scans g last idle cs position result) (solid : Text.IsSolid cs)
    (fails : result = .error error) :
    ∃ offset, error.position = position + offset ∧ Breaks g last idle cs offset := by
  induction scans with
  | nil => cases fails
  | error nonempty position =>
    cases fails
    exact ⟨0, position, .here solid nonempty⟩
  | cons takes blank inner busy _ ih =>
    obtain ⟨offset, position, breaks⟩ := ih inner (map_eq_error_iff.1 fails)
    refine ⟨_, ?_, breaks.behind takes blank inner busy⟩
    rw [position, Nat.add_assoc]

theorem utf8ByteSize_ofList (cs : List Char) :
    (String.ofList cs).utf8ByteSize = utf8Length cs := by
  induction cs with
  | nil => rfl
  | cons c cs ih =>
    rw [← List.singleton_append, String.ofList_append, String.utf8ByteSize_append, ih,
      utf8Length_append]
    simp [utf8Length]

/-- The raw texts of the tokens add up to the source behind its leading white space; each is a
token, with nothing but white space behind it. And an error names a place within the source, not at
white space, up to which it would have been split, again without a loss. -/
theorem tokenize_lossless (g : Grammar) (source : String) :
    (∀ ts, tokenize g source = .ok ts →
      String.join (ts.map Token.raw) = String.ofList (source.toList.dropWhile Text.isBlank) ∧
      ∀ t ∈ ts, Text.IsSolid t.raw.toList ∧ t.IsTaken g) ∧
    ∀ error, tokenize g source = .error error →
      ∃ front back ts, source = front ++ back ∧ front.utf8ByteSize = error.position ∧
        (∃ c ∈ back.toList.head?, Text.isBlank c = false) ∧ tokenize g front = .ok ts ∧
        String.ofList (source.toList.takeWhile Text.isBlank) ++ String.join (ts.map Token.raw) =
          front := by
  obtain ⟨blank, solid⟩ := Text.forall_mem_span Text.isBlank source.toList
  refine ⟨fun ts h => ?_, fun error h => ?_⟩
  · have splits := tokenize_eq_ok_iff.1 h
    exact ⟨splits.join, splits.isTaken solid⟩
  · obtain ⟨_, position, front, c, back, ts, split, notBlank, rfl, splits⟩ :=
      Breaks.of_scans (Cursor.scans (Cursor.start source.toList) false) solid h
    change source.toList.dropWhile Text.isBlank = front ++ c :: back at split
    rw [split] at solid
    obtain ⟨taken, dropped⟩ := Text.span_append blank (Text.IsSolid.of_append solid)
    refine ⟨String.ofList (source.toList.takeWhile Text.isBlank ++ front),
      String.ofList (c :: back), ts, ?_, ?_, ⟨c, ?_, notBlank⟩, ?_, ?_⟩
    · rw [← String.ofList_append, List.append_assoc, ← split, List.takeWhile_append_dropWhile,
        String.ofList_toList]
    · rw [utf8ByteSize_ofList, utf8Length_append, position]
      rfl
    · rw [String.toList_ofList]
      rfl
    · rw [tokenize_eq_ok_iff, String.toList_ofList, dropped]
      exact splits
    · rw [splits.join, String.ofList_append]

theorem tokenize_accented :
    tokenize .empty " é \"x" = .error (.unterminatedString 4) := by
  have word : Takes .empty none ['é'] ([' '] ++ ['"', 'x']) .identifier (.string "é") :=
    .word (by decide +kernel) nofun fun c mem => by cases mem; rfl
  have failed : Cursor.next .empty ⟨['"', 'x'], 4, some .identifier⟩ =
      .error (.unterminatedString 4) := rfl
  change Cursor.tokens .empty ⟨['é'] ++ ([' '] ++ ['"', 'x']), 1, none⟩ false = _
  rw [Cursor.tokens_of_takes word (List.all_eq_true.1 rfl) (.cons rfl) nofun]
  exact map_eq_error_iff.2 (Cursor.tokens_of_error failed)

/-- The string without an end begins behind four bytes, which are a token by themselves. -/
theorem tokenize_lossless_accented :
    ∃ front back ts, " é \"x" = front ++ back ∧ front.utf8ByteSize = 4 ∧
      tokenize .empty front = .ok ts ∧ " " ++ String.join (ts.map Token.raw) = front := by
  obtain ⟨_, failures⟩ := tokenize_lossless .empty " é \"x"
  obtain ⟨front, back, ts, split, length, _, splits, whole⟩ := failures _ tokenize_accented
  exact ⟨front, back, ts, split, length, splits, whole⟩

end JsonExpr
