import JsonExpr.Json.Basic
import JsonExpr.Text.Numeral
import JsonExpr.Text.Quoted
import JsonExpr.Text.Word
import JsonExpr.Token.Basic

/-!
Texts that are written and read back: quoted strings, numerals and words. What is cut off the front
of a text is what was written there, as long as what follows cannot belong to it.
-/

namespace JsonExpr

/-! ## Quoted strings -/

namespace Text

/-- A character of a quoted body: a backslash with what it takes along, or a character that neither
takes another along nor closes the string. -/
inductive IsChunk (quote : Char) : List Char → Prop
  | pair {c : Char} : c ≠ '\n' → IsChunk quote ['\\', c]
  | plain {c : Char} : c ≠ '\\' → c ≠ quote → IsChunk quote [c]

variable {quote : Char} {chunk : List Char}

theorem splitQuoted?_chunk (isChunk : IsChunk quote chunk) (rest : List Char) :
    splitQuoted? quote (chunk ++ rest) =
      (splitQuoted? quote rest).map fun split => (chunk ++ split.1, split.2) := by
  cases isChunk with
  | pair notBreak =>
    rw [List.cons_append, List.singleton_append, splitQuoted?]
    · rfl
    · exact notBreak
  | @plain c notBackslash notQuote =>
    rw [List.singleton_append, splitQuoted?, if_neg (by simpa using notQuote)]
    · rfl
    · intro tail eq
      exact (notBackslash eq).elim
    · intro next tail eq
      exact (notBackslash eq).elim

theorem splitQuoted?_close (notBackslash : quote ≠ '\\') (rest : List Char) :
    splitQuoted? quote (quote :: rest) = some ([], rest) := by
  rw [splitQuoted?, if_pos (by simp)]
  · intro tail eq
    exact (notBackslash eq).elim
  · intro next tail eq
    exact (notBackslash eq).elim

theorem unescape_cons {c : Char} (notBackslash : c ≠ '\\') (rest : List Char) :
    unescape quote (c :: rest) = c :: unescape quote rest := by
  rw [unescape]
  intro next tail eq
  exact (notBackslash eq).elim

theorem unescape_chunk (isChunk : IsChunk quote chunk) (rest : List Char) :
    unescape quote (chunk ++ rest) = unescape quote chunk ++ unescape quote rest := by
  cases isChunk with
  | pair => simp [unescape]
  | plain notBackslash =>
    rw [List.singleton_append, unescape_cons notBackslash, unescape_cons notBackslash]
    rfl

/-- A text that can stand between quotes. -/
inductive IsBody (quote : Char) : List Char → Prop
  | nil : IsBody quote []
  | cons {chunk body : List Char} :
    IsChunk quote chunk → IsBody quote body → IsBody quote (chunk ++ body)

theorem IsBody.of_splitQuoted? {cs body rest : List Char}
    (h : splitQuoted? quote cs = some (body, rest)) : IsBody quote body := by
  fun_induction splitQuoted? quote cs generalizing body with
  | case1 => cases h
  | case2 => cases h
  | case3 c tail notBreak ih =>
    obtain ⟨split, inner, eq⟩ := Option.map_eq_some_iff.1 h
    cases eq
    exact .cons (.pair fun eq => notBreak eq) (ih inner)
  | case4 c tail _ _ closes =>
    cases h
    exact .nil
  | case5 c tail _ noPair open' ih =>
    obtain ⟨split, inner, eq⟩ := Option.map_eq_some_iff.1 h
    cases eq
    have notBackslash : c ≠ '\\' := by
      rintro rfl
      cases tail with
      | nil => cases inner
      | cons next tail => exact noPair next tail rfl rfl
    exact .cons (.plain notBackslash (by simpa using open')) (ih inner)

/-- A body ends at the quote behind it. -/
theorem splitQuoted?_eq_some_iff (notBackslash : quote ≠ '\\') {cs body rest : List Char} :
    splitQuoted? quote cs = some (body, rest) ↔
      IsBody quote body ∧ body ++ quote :: rest = cs := by
  constructor
  · exact fun h => ⟨.of_splitQuoted? h, splitQuoted?_append h⟩
  · rintro ⟨isBody, rfl⟩
    induction isBody with
    | nil => exact splitQuoted?_close notBackslash rest
    | cons isChunk _ ih =>
      rw [List.append_assoc, splitQuoted?_chunk isChunk, ih]
      rfl

section Body

variable {encode : Char → List Char} {cs : List Char}

theorem isBody_flatMap (chunks : ∀ c ∈ cs, IsChunk quote (encode c)) :
    IsBody quote (cs.flatMap encode) := by
  induction cs with
  | nil => exact .nil
  | cons c cs ih =>
    obtain ⟨first, others⟩ := List.forall_mem_cons.1 chunks
    exact .cons first (ih others)

/-- A body of chunks stands for what its chunks stand for. -/
theorem unescape_flatMap (chunks : ∀ c ∈ cs, IsChunk quote (encode c))
    (meaning : ∀ c ∈ cs, unescape quote (encode c) = [c]) :
    unescape quote (cs.flatMap encode) = cs := by
  induction cs with
  | nil => rfl
  | cons c cs ih =>
    obtain ⟨first, others⟩ := List.forall_mem_cons.1 chunks
    obtain ⟨firstMeaning, otherMeanings⟩ := List.forall_mem_cons.1 meaning
    rw [List.flatMap_cons, unescape_chunk first, firstMeaning, ih others otherMeanings]
    rfl

end Body

end Text

/-- The character has no code in a JSON text: it is no control character, or a tab, a line feed or a
carriage return. -/
def Json.IsPlain (c : Char) : Prop :=
  0x20 ≤ c.toNat ∨ c = '\t' ∨ c = '\n' ∨ c = '\r'

instance (c : Char) : Decidable (Json.IsPlain c) :=
  inferInstanceAs (Decidable (0x20 ≤ c.toNat ∨ c = '\t' ∨ c = '\n' ∨ c = '\r'))

theorem Json.isPlain_of_all {cs : List Char} (all : cs.all (fun c => decide (IsPlain c)) = true) :
    ∀ c ∈ cs, IsPlain c := by
  intro c mem
  exact of_decide_eq_true (List.all_eq_true.1 all c mem)

/-- What a JSON text writes for a character is read as this character. -/
theorem Json.isChunk_escapeChar {c : Char} (plain : IsPlain c) :
    Text.IsChunk '"' (escapeChar c) ∧ Text.unescape '"' (escapeChar c) = [c] := by
  unfold escapeChar
  split
  · exact ⟨.pair (by decide), rfl⟩
  · exact ⟨.pair (by decide), rfl⟩
  · exact absurd plain (by decide)
  · exact absurd plain (by decide)
  · exact ⟨.pair (by decide), rfl⟩
  · exact ⟨.pair (by decide), rfl⟩
  · exact ⟨.pair (by decide), rfl⟩
  · rename_i notQuote notBackslash _ _ notBreak notReturn notTab
    have printable : 0x20 ≤ c.toNat := by
      rcases plain with printable | rfl | rfl | rfl
      · exact printable
      · exact (notTab rfl).elim
      · exact (notBreak rfl).elim
      · exact (notReturn rfl).elim
    rw [if_neg (Nat.not_lt.2 printable)]
    exact ⟨.plain notBackslash notQuote, Text.unescape_cons notBackslash []⟩

namespace Text

/-! ## Numerals -/

theorem natural_ne_nil (n : Nat) : natural n ≠ [] :=
  Nat.toDigits_ne_nil

theorem isDigit_of_mem_natural {n : Nat} {c : Char} (mem : c ∈ natural n) : c.isDigit = true :=
  Nat.isDigit_of_mem_toDigits (by decide) (by decide) mem

/-- The digits of a number stand for it. -/
theorem ofDigits_natural (n : Nat) : ofDigits (natural n) = n :=
  Nat.ofDigitChars_ten_toDigits

/-- A run of characters with the property is cut off where the property ends. -/
theorem span_append {p : Char → Bool} {run rest : List Char} (holds : ∀ c ∈ run, p c = true)
    (stops : ∀ c ∈ rest.head?, p c = false) :
    (run ++ rest).takeWhile p = run ∧ (run ++ rest).dropWhile p = rest := by
  rw [List.takeWhile_append_of_pos holds, List.dropWhile_append_of_pos holds]
  cases rest with
  | nil => exact ⟨List.append_nil run, rfl⟩
  | cons c rest =>
    have stop := stops c rfl
    rw [List.takeWhile_cons_of_neg (by simp [stop]), List.dropWhile_cons_of_neg (by simp [stop])]
    exact ⟨List.append_nil run, rfl⟩

/-- What is cut off has the property, and what is left does not begin with it. -/
theorem forall_mem_span (p : Char → Bool) (cs : List Char) :
    (∀ c ∈ cs.takeWhile p, p c = true) ∧ ∀ c ∈ (cs.dropWhile p).head?, p c = false := by
  refine ⟨List.all_eq_true.1 List.all_takeWhile, ?_⟩
  induction cs with
  | nil => nofun
  | cons c cs ih =>
    rw [List.dropWhile_cons]
    split
    · exact ih
    · rename_i fails
      intro front mem
      cases mem
      exact Bool.eq_false_iff.2 fails

namespace Numeral

/-- The numeral has a whole part, and only digits stand in its parts. -/
structure IsProper (n : Numeral) : Prop where
  whole_ne_nil : n.whole ≠ []
  whole : ∀ c ∈ n.whole, c.isDigit = true
  fraction : ∀ c ∈ n.fraction, c.isDigit = true

/-- What follows does not belong to the numeral: it begins neither with a digit nor with a first
fraction. -/
structure EndsAt (n : Numeral) (after : List Char) : Prop where
  noDigit : ∀ c ∈ after.head?, c.isDigit = false
  noFraction : n.fraction = [] → ∀ c rest, after = '.' :: c :: rest → c.isDigit = false

variable {n : Numeral} {cs after : List Char}

theorem IsProper.exists_chars_eq_cons (proper : n.IsProper) :
    ∃ c tail, n.chars = c :: tail ∧ c.isDigit = true := by
  rcases n with ⟨whole, fraction⟩
  obtain ⟨nonempty, digits, _⟩ := proper
  cases whole with
  | nil => exact (nonempty rfl).elim
  | cons c tail =>
    have digit := digits c List.mem_cons_self
    cases fraction with
    | nil => exact ⟨c, tail, rfl, digit⟩
    | cons place rest => exact ⟨c, tail ++ '.' :: place :: rest, rfl, digit⟩

theorem split?_chars (proper : n.IsProper) (ends : n.EndsAt after) :
    split? (n.chars ++ after) = some (n, after) := by
  rcases n with ⟨whole, fraction⟩
  obtain ⟨nonempty, digits, places⟩ := proper
  obtain ⟨noDigit, noFraction⟩ := ends
  have begun : ¬ whole.isEmpty = true := by simpa using nonempty
  cases fraction with
  | nil =>
    obtain ⟨taken, dropped⟩ := span_append digits noDigit
    change split? (whole ++ after) = some (⟨whole, []⟩, after)
    rw [split?]
    simp only [taken, dropped]
    rw [if_neg begun]
    split
    · rename_i rest
      cases rest with
      | nil => rfl
      | cons c rest =>
        have noPlace : ¬ c.isDigit = true := by simp [noFraction rfl c rest rfl]
        rw [List.takeWhile_cons_of_neg noPlace]
        rfl
    · rfl
  | cons place rest =>
    have stops : ∀ c ∈ ('.' :: (place :: rest ++ after)).head?, c.isDigit = false := by
      intro c mem
      cases mem
      rfl
    obtain ⟨taken, dropped⟩ := span_append digits stops
    obtain ⟨takenPlaces, droppedPlaces⟩ := span_append places noDigit
    change split? ((whole ++ '.' :: (place :: rest)) ++ after) = _
    rw [List.append_assoc, List.cons_append, split?]
    simp only [taken, dropped]
    rw [if_neg begun]
    simp only [takenPlaces, droppedPlaces]
    rfl

theorem of_split?_eq_some (h : split? cs = some (n, after)) : n.IsProper ∧ n.EndsAt after := by
  obtain ⟨digits, noDigit⟩ := forall_mem_span Char.isDigit cs
  unfold split? at h
  simp only at h
  split at h
  · cases h
  · rename_i begun
    have nonempty : cs.takeWhile Char.isDigit ≠ [] := by simpa using begun
    split at h
    · rename_i tail front
      obtain ⟨places, noPlace⟩ := forall_mem_span Char.isDigit tail
      split at h
      · rename_i noPlaces
        cases h
        rw [front] at noDigit
        refine ⟨⟨nonempty, digits, nofun⟩, noDigit, ?_⟩
        rintro _ c rest eq
        cases eq
        refine Bool.eq_false_iff.2 fun digit => ?_
        rw [List.takeWhile_cons_of_pos digit] at noPlaces
        cases noPlaces
      · rename_i somePlaces
        cases h
        exact ⟨⟨nonempty, digits, places⟩, noPlace,
          fun none => (somePlaces (List.isEmpty_iff.2 none)).elim⟩
    · rename_i noPoint
      cases h
      exact ⟨⟨nonempty, digits, nofun⟩, noDigit, fun _ c rest eq => (noPoint _ eq).elim⟩

/-- A numeral is cut off as far as it reaches. -/
theorem split?_eq_some_iff :
    split? cs = some (n, after) ↔ n.IsProper ∧ n.EndsAt after ∧ n.chars ++ after = cs := by
  constructor
  · intro h
    obtain ⟨proper, ends⟩ := of_split?_eq_some h
    exact ⟨proper, ends, split?_append h⟩
  · rintro ⟨proper, ends, rfl⟩
    exact split?_chars proper ends

end Numeral

/-- A numeral ends where neither a digit nor a point follows. -/
theorem Numeral.endsAt_of_stops {n : Numeral} {after : List Char}
    (stops : ∀ c ∈ after.head?, c.isDigit = false ∧ c ≠ '.') : n.EndsAt after where
  noDigit c mem := (stops c mem).1
  noFraction := by
    rintro _ c rest rfl
    exact ((stops '.' rfl).2 rfl).elim

/-- A numeral without a fraction that fits into 64 bits is this integer. -/
theorem Numeral.value_digits {digits : List Char} {negative : Bool} {n : Int64}
    (fits : n.toInt = if negative then -(ofDigits digits : Int) else ofDigits digits) :
    value ⟨digits, []⟩ negative = .int n := by
  unfold value
  simp only
  rw [if_neg (by simp), ← fits, narrow?_toInt]

/-- Where a digit stands a numeral begins. -/
theorem Numeral.exists_split?_of_isDigit {c : Char} (digit : c.isDigit = true) (cs : List Char) :
    ∃ n after, split? (c :: cs) = some (n, after) := by
  rw [split?]
  simp only [List.takeWhile_cons_of_pos digit]
  rw [if_neg (by simp)]
  split
  · split
    · exact ⟨_, _, rfl⟩
    · exact ⟨_, _, rfl⟩
  · exact ⟨_, _, rfl⟩

theorem Numeral.isNumber_value (n : Numeral) (negative : Bool) :
    (n.value negative).isNumber = true := by
  unfold value
  split
  · rfl
  · simp only
    split <;> rfl

/-! ## Words -/

theorem splitWord?_word {c : Char} {cs rest : List Char} (starts : isWordStart c = true)
    (holds : ∀ c ∈ cs, isWordPart c = true) (stops : ∀ c ∈ rest.head?, isWordPart c = false) :
    splitWord? (c :: cs ++ rest) = some (c :: cs, rest) := by
  obtain ⟨taken, dropped⟩ := span_append holds stops
  rw [List.cons_append, splitWord?, if_pos starts, taken, dropped]

theorem of_splitWord?_eq_some {cs word rest : List Char} (h : splitWord? cs = some (word, rest)) :
    ∃ c tail, word = c :: tail ∧ isWordStart c = true ∧ (∀ c ∈ tail, isWordPart c = true) ∧
      ∀ c ∈ rest.head?, isWordPart c = false := by
  cases cs with
  | nil => cases h
  | cons c cs =>
    obtain ⟨holds, stops⟩ := forall_mem_span isWordPart cs
    rw [splitWord?] at h
    split at h
    · rename_i starts
      cases h
      exact ⟨c, _, rfl, starts, holds, stops⟩
    · cases h

/-! ## White space -/

theorem isBlank_of_isDigit {c : Char} (digit : c.isDigit = true) : isBlank c = false := by
  simp only [Char.isDigit, Bool.and_eq_true, decide_eq_true_eq, UInt32.le_iff_toNat_le] at digit
  have low : 48 ≤ c.toNat := digit.1
  have high : c.toNat ≤ 57 := digit.2
  unfold isBlank
  simp
  omega

/-- No letter of ASCII comes before the first. -/
theorem isAlpha_of_lt {c : Char} (low : c.toNat < 65) : c.isAlpha = false := by
  have upper : ¬ 'A'.val ≤ c.val := fun le =>
    absurd (UInt32.le_iff_toNat_le.1 le) (Nat.not_le.2 low)
  have lower : ¬ 'a'.val ≤ c.val := fun le =>
    absurd (UInt32.le_iff_toNat_le.1 le) (Nat.not_le.2 (Nat.lt_trans low (by decide)))
  change (decide ('A'.val ≤ c.val ∧ c.val ≤ 'Z'.val) ||
    (decide ('a'.val ≤ c.val) && decide (c.val ≤ 'z'.val))) = false
  rw [decide_eq_false fun both => upper both.1, decide_eq_false lower]
  rfl

theorem isDigit_of_isBlank {c : Char} (blank : isBlank c = true) : c.isDigit = false :=
  Bool.eq_false_iff.2 fun digit => by cases blank.symm.trans (isBlank_of_isDigit digit)

/-- No character is in both sets. -/
def Ranges.apart (left right : Ranges) : Bool :=
  left.all fun a => right.all fun b => a.2 < b.1 || b.2 < a.1

theorem Ranges.contains_of_apart {left right : Ranges} {c : Char}
    (apart : left.apart right = true) (mem : right.contains c = true) :
    left.contains c = false := by
  obtain ⟨b, inRight, within⟩ := List.any_eq_true.1 mem
  refine List.any_eq_false.2 fun a inLeft => ?_
  have parted := List.all_eq_true.1 (List.all_eq_true.1 apart a inLeft) b inRight
  simp only [Bool.or_eq_true, Bool.and_eq_true, decide_eq_true_eq] at parted within ⊢
  omega

/-- The white space characters from U+0080 on. -/
def blankRanges : Ranges := [
  (0x85, 0x85), (0xA0, 0xA0), (0x1680, 0x1680), (0x2000, 0x200A), (0x2028, 0x2029),
  (0x202F, 0x202F), (0x205F, 0x205F), (0x3000, 0x3000)]

theorem contains_blankRanges {c : Char} (blank : isBlank c = true) (high : ¬ c.val < 0x80) :
    blankRanges.contains c = true := by
  have code : 0x80 ≤ c.toNat := by simpa [UInt32.lt_iff_toNat_lt] using high
  simp [isBlank] at blank
  simp [Ranges.contains, blankRanges]
  omega

/-- White space is in no word. -/
theorem isWordPart_of_isBlank {c : Char} (blank : isBlank c = true) : isWordPart c = false := by
  have ne_underscore : c ≠ '_' := fun e => absurd (e ▸ blank) (by decide)
  have ne_dollar : c ≠ '$' := fun e => absurd (e ▸ blank) (by decide)
  have noWord : (isAlphabetic c || isMark c || isNumeric c) = false := by
    unfold isAlphabetic isMark isNumeric
    by_cases low : c.val < 0x80
    · have code : c.toNat < 0x80 := UInt32.lt_iff_toNat_lt.1 low
      have small : c.toNat ≤ 0x20 := by
        simp [isBlank] at blank
        omega
      have noLetter : c.isAlpha = false := isAlpha_of_lt (by omega)
      simp only [if_pos low]
      simp [noLetter, isDigit_of_isBlank blank]
    · have isIn := contains_blankRanges blank low
      have outside (ranges : Ranges) (apart : ranges.apart blankRanges = true) :
          ranges.contains c = false := Ranges.contains_of_apart apart isIn
      simp only [if_neg low]
      rw [outside alphabeticLow (by decide +kernel), outside alphabeticMiddle (by decide +kernel),
        outside alphabeticHigh (by decide +kernel), outside markBasic (by decide +kernel),
        outside markHigh (by decide +kernel), outside numericBasic (by decide +kernel),
        outside numericHigh (by decide +kernel)]
      rfl
  simp [isWordPart, noWord, ne_underscore, ne_dollar]

end Text

end JsonExpr
