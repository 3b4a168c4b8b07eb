import Mathlib.Algebra.Order.Ring.Unbundled.Rat
import Mathlib.Data.Nat.Find
import Reckoner.Proofs.LiteralGrammar
import Reckoner.Proofs.Segments

/-!
# Which texts are numbers

Numbers are read with a reader of numerals that knows more than literals: it skips
blanks, takes a sign, hexadecimal digits, and words for infinity and NaN. It takes
the longest numeral at the start of a text and sees nothing behind a zero byte. A
text is tried only if it begins with a digit or a point, and not as hexadecimal
digits do, and it is a number only if the numeral is the whole of it. The texts that
pass are exactly the literals. No lexeme has a sign in it, so a lexeme is a number
exactly when it is a literal whose exponent has no sign.
-/

namespace Reckoner

namespace Byte

/-- Whether a byte can begin a literal. -/
def beginsLiteral (byte : UInt8) : Bool :=
  isDigit byte || byte == point

end Byte

/-! ## Numerals -/

namespace Grammar

/-- The bytes that are skipped before a numeral. -/
def blanks : List UInt8 :=
  [9, 10, 11, 12, 13, Byte.space]

/-- The letters of ASCII. -/
def letters : List UInt8 :=
  (List.range 26).flatMap fun index => [65 + index.toUInt8, 97 + index.toUInt8]

/-- The bytes `x` and `X`, which mark hexadecimal digits. -/
def hexMarks : List UInt8 :=
  [120, 88]

/-- The hexadecimal digits. -/
def hexDigits : List UInt8 :=
  digits ++ [65, 66, 67, 68, 69, 70] ++ [97, 98, 99, 100, 101, 102]

/-- The bytes `p` and `P`, which mark binary exponents. -/
def binaryMarkers : List UInt8 :=
  [112, 80]

/-- A word of small letters, in any case. -/
def anyCase : Text → RegularExpression UInt8
  | [] => 1
  | letter :: rest => oneOf [letter, letter - 32] * anyCase rest

/-- Hexadecimal digits behind their mark, with an optional binary exponent. -/
def hexadecimal : RegularExpression UInt8 :=
  oneOf [Byte.zero] *
    (oneOf hexMarks *
      (significand (oneOf hexDigits) * maybe (exponent binaryMarkers sign)))

/-- The words `inf` and `infinity`. -/
def infinity : RegularExpression UInt8 :=
  anyCase (Text.ofString "inf") * maybe (anyCase (Text.ofString "inity"))

/-- The word `nan`, with letters, digits and underscores in parentheses or without. -/
def notANumber : RegularExpression UInt8 :=
  anyCase (Text.ofString "nan") *
    maybe (oneOf [Byte.openParen] *
      ((oneOf (digits ++ letters ++ [95])).star * oneOf [Byte.closeParen]))

/-- The numerals that are not literals, without blanks and sign. -/
def special : RegularExpression UInt8 :=
  hexadecimal + (infinity + notANumber)

/-- A numeral: blanks, a sign, and a literal or a special numeral. -/
def numeral : RegularExpression UInt8 :=
  (oneOf blanks).star * (sign * (literal + special))

end Grammar

namespace Text

/-- Whether a text begins with a digit or a point. -/
def beginsLiteral (text : Text) : Bool :=
  text.head?.any Byte.beginsLiteral

/-- Whether a text begins with the mark of hexadecimal digits. -/
def beginsHexadecimal : Text → Bool
  | first :: mark :: _ => first == Byte.zero && Grammar.hexMarks.contains mark
  | _ => false

end Text

/-- The length of the longest numeral at the start of a text, zero without one. -/
def numeralLength (text : Text) : Nat :=
  Nat.findGreatest (fun count => Grammar.numeral.rmatch (text.take count) = true) text.length

/-- The value of a numeral: that of a literal, and for all others the one given `elsewhere`. -/
def numeralValue (elsewhere : Text → Binary64) (numeral : Text) : Binary64 :=
  (parseNumber? numeral).getD (elsewhere numeral)

/--
Read a text as a number into a place that holds a value. The answer tells whether
the text is a number, and what the place holds then.
-/
def readNumber (elsewhere : Text → Binary64) (text : Text) (place : Binary64) :
    Bool × Binary64 :=
  if text.beginsLiteral = false then
    (false, place)
  else if text.beginsHexadecimal then
    (false, place)
  else if numeralLength text.shown = text.length then
    (true, numeralValue elsewhere (text.shown.take (numeralLength text.shown)))
  else
    (false, place)

/-! ## Literals among the numerals -/

section Numerals

variable
  {text : Text}

/-- Bytes before a literal that cannot begin one are none. -/
theorem eq_nil_of_beginsLiteral_append
    {skipped rest : Text}
    (begins : Text.beginsLiteral (skipped ++ rest) = true)
    (apart : ∀ byte ∈ skipped, Byte.beginsLiteral byte = false) :
    skipped = [] := by
  cases skipped with
  | nil =>
      rfl
  | cons byte more =>
      have beginsSo : Byte.beginsLiteral byte = true := begins
      rw [apart byte List.mem_cons_self] at beginsSo
      cases beginsSo

/-- A literal begins with a digit or a point, and not as hexadecimal digits do. -/
theorem begins_of_mem_literal
    (isLiteral : text ∈ Grammar.literal.matches') :
    text.beginsLiteral = true ∧ text.beginsHexadecimal = false := by
  have firsts : ∀ byte ∈ Grammar.firsts Grammar.literal, Byte.beginsLiteral byte = true := by
    decide +kernel
  have noMark : ∀ byte ∈ Grammar.bytes Grammar.literal, byte ∉ Grammar.hexMarks := by
    decide +kernel
  have notEmpty : [] ∉ Grammar.literal.matches' := by
    rw [← RegularExpression.rmatch_iff_matches']
    decide +kernel
  rcases text with _ | ⟨first, rest⟩
  · exact absurd isLiteral notEmpty
  · refine ⟨firsts first (Grammar.mem_firsts_of_mem isLiteral), ?_⟩
    rcases rest with _ | ⟨mark, more⟩
    · rfl
    · have free := noMark mark (Grammar.mem_bytes_of_mem isLiteral mark (by simp))
      simp [Text.beginsHexadecimal, free]

/-- Among the texts that are tried, the numerals are the literals. -/
theorem mem_numeral_iff_mem_literal
    (begins : text.beginsLiteral = true)
    (notHexadecimal : text.beginsHexadecimal = false) :
    text ∈ Grammar.numeral.matches' ↔ text ∈ Grammar.literal.matches' := by
  have noBlank : ∀ byte ∈ Grammar.blanks, Byte.beginsLiteral byte = false := by
    decide +kernel
  have noWord :
      ∀ byte ∈ Grammar.firsts (Grammar.infinity + Grammar.notANumber),
        Byte.beginsLiteral byte = false := by
    decide +kernel
  rw [Grammar.numeral, RegularExpression.matches'_mul, Language.mem_mul]
  constructor
  · rintro ⟨blanks, blanksMatch, signed, signedMatches, rfl⟩
    have allBlank := Grammar.mem_star_oneOf.mp blanksMatch
    obtain rfl :=
      eq_nil_of_beginsLiteral_append begins fun byte member => noBlank byte (allBlank byte member)
    rw [List.nil_append] at begins notHexadecimal ⊢
    obtain ⟨sign, isSign, body, bodyMatches, rfl⟩ := Language.mem_mul.mp signedMatches
    have noSign : ∀ byte ∈ sign, Byte.beginsLiteral byte = false := by
      rcases Grammar.mem_sign.mp isSign with rfl | rfl | rfl <;> decide +kernel
    obtain rfl := eq_nil_of_beginsLiteral_append begins noSign
    rcases bodyMatches with isLiteral | isHexadecimal | isWord
    · exact isLiteral
    · obtain ⟨zero, isZero, marked, markedMatches, rfl⟩ :=
        Grammar.mem_oneOf_mul.mp isHexadecimal
      obtain ⟨mark, isMark, rest, -, rfl⟩ := Grammar.mem_oneOf_mul.mp markedMatches
      simp_all [Text.beginsHexadecimal]
    · rcases body with _ | ⟨first, rest⟩
      · cases begins
      · have beginsSo : Byte.beginsLiteral first = true := begins
        rw [noWord first (Grammar.mem_firsts_of_mem isWord)] at beginsSo
        cases beginsSo
  · intro isLiteral
    have unsigned : text ∈ (Grammar.sign * (Grammar.literal + Grammar.special)).matches' :=
      Language.mem_mul.mpr ⟨[], Grammar.mem_sign.mpr (.inl rfl), text, .inl isLiteral, rfl⟩
    exact ⟨[], Grammar.mem_star_oneOf.mpr (by simp), text, unsigned, rfl⟩

/-- No numeral has a zero byte in it. -/
theorem shown_of_mem_numeral
    (isNumeral : text ∈ Grammar.numeral.matches') :
    text.shown = text := by
  have noZero : ∀ byte ∈ Grammar.bytes Grammar.numeral, byte ≠ 0 := by
    decide +kernel
  exact Text.shown_eq_self fun byte member =>
    noZero byte (Grammar.mem_bytes_of_mem isNumeral byte member)

/-- The longest numeral is the whole of a text exactly when the text is a numeral. -/
theorem numeralLength_shown_eq_length_iff
    (notEmpty : text ≠ []) :
    numeralLength text.shown = text.length ↔ text ∈ Grammar.numeral.matches' := by
  constructor
  · intro whole
    have atMost : numeralLength text.shown ≤ text.shown.length := Nat.findGreatest_le _
    have beginning : text.shown <+: text := List.takeWhile_prefix _
    have allShown : text.shown = text := beginning.eq_of_length_le (whole ▸ atMost)
    rw [allShown] at whole
    have matching :=
      Nat.findGreatest_of_ne_zero whole (List.length_pos_iff.mpr notEmpty).ne'
    rwa [List.take_length, RegularExpression.rmatch_iff_matches'] at matching
  · intro isNumeral
    rw [shown_of_mem_numeral isNumeral]
    apply Nat.findGreatest_eq
    rwa [List.take_length, RegularExpression.rmatch_iff_matches']

-- An exponent that breaks off does not belong to the numeral, so `1e+` is no number.
example : numeralLength (Text.ofString "1e+") = 1 := by
  decide +kernel

/-- What is read as a number are the literals, with their values. -/
theorem readNumber_eq
    (elsewhere : Text → Binary64)
    (text : Text)
    (place : Binary64) :
    readNumber elsewhere text place =
      (parseNumber? text).elim (false, place) fun value => (true, value) := by
  by_cases isLiteral : text ∈ Grammar.literal.matches'
  · obtain ⟨value, reads⟩ := Option.isSome_iff_exists.mp (isSome_parseNumber?_iff.mpr isLiteral)
    obtain ⟨begins, notHexadecimal⟩ := begins_of_mem_literal isLiteral
    have notEmpty : text ≠ [] := by
      rintro rfl
      cases begins
    have isNumeral := (mem_numeral_iff_mem_literal begins notHexadecimal).mpr isLiteral
    have whole := (numeralLength_shown_eq_length_iff notEmpty).mpr isNumeral
    rw [readNumber, if_neg (by simp [begins]), if_neg (by simp [notHexadecimal]), if_pos whole,
      whole, shown_of_mem_numeral isNumeral, List.take_length, numeralValue, reads]
    rfl
  · have noValue : parseNumber? text = none := by
      rwa [← isSome_parseNumber?_iff, Option.not_isSome_iff_eq_none] at isLiteral
    rw [noValue, Option.elim_none, readNumber]
    split
    · rfl
    · next begins =>
        rw [Bool.not_eq_false] at begins
        split
        · rfl
        · next notHexadecimal =>
            rw [Bool.not_eq_true] at notHexadecimal
            have notEmpty : text ≠ [] := by
              rintro rfl
              cases begins
            rw [if_neg]
            rwa [numeralLength_shown_eq_length_iff notEmpty,
              mem_numeral_iff_mem_literal begins notHexadecimal]

end Numerals

/-! ## Lexemes -/

/-- The bytes of a lexeme neither separate nor delimit. -/
theorem isLexeme_of_mem_segmentsFrom
    (offset : Nat)
    (formula : Text) :
    ∀ text start,
      Segment.lexeme text start ∈ segmentsFrom offset formula →
        ∀ byte ∈ text, Byte.isLexeme byte = true := by
  induction formula using Text.induction generalizing offset with
  | empty =>
      simp
  | blank byte rest blank inductionHypothesis =>
      rw [segmentsFrom_blank offset blank]
      exact inductionHypothesis _
  | delimiter byte token rest delimits inductionHypothesis =>
      intro text start member
      rw [segmentsFrom_delimiter offset delimits] at member
      rcases List.mem_cons.mp member with isFirst | inRest
      · cases isFirst
      · exact inductionHypothesis _ text start inRest
  | lexeme lexeme ended notEmpty inLexeme ends inductionHypothesis =>
      intro text start member
      rw [segmentsFrom_lexeme offset notEmpty inLexeme ends] at member
      rcases List.mem_cons.mp member with isFirst | inRest
      · cases isFirst
        exact inLexeme
      · exact inductionHypothesis _ text start inRest

/-! ## The grammar of numbers -/

/-- A finite value without a sign is not below zero. -/
theorem Binary64.toRat?_nonneg
    {value : Binary64}
    {amount : Rat}
    (unsigned : value.isNegative = false)
    (finite : value.toRat? = some amount) :
    0 ≤ amount := by
  cases value with
  | nan =>
      cases finite
  | infinity negative =>
      cases finite
  | finite negative magnitude =>
      have positive : negative = false := unsigned
      subst positive
      obtain rfl : mkRat magnitude.units unitsPerOne = amount := by
        simpa [toRat?] using finite
      exact Rat.mkRat_nonneg (Int.natCast_nonneg _) _

/--
How a text is read as a number into a place: it is one exactly when it is a literal.
Its value is neither NaN nor negative and has no sign, and a text that is no number
leaves the place as it is.
-/
structure ReadByGrammar
    (elsewhere : Text → Binary64) (text : Text) (place : Binary64) : Prop where
  accepted :
    (readNumber elsewhere text place).1 = true ↔ text ∈ Grammar.literal.matches'
  stored :
    ∀ value,
      readNumber elsewhere text place = (true, value) →
      value.isNaN = false ∧
        value.isNegative = false ∧
        ∀ amount, value.toRat? = some amount → 0 ≤ amount
  kept :
    ∀ left, readNumber elsewhere text place = (false, left) → left = place

/--
How a lexeme is judged: it is a number exactly when it is a literal whose exponent has
no sign, malformed exactly when it starts with a digit and is no such literal, and a
name otherwise.
-/
structure JudgedByGrammar (text : Text) (offset : Nat) : Prop where
  noSign : ∀ byte ∈ text, byte ≠ Byte.plus ∧ byte ≠ Byte.minus
  number :
    (∃ value,
        (Segment.lexeme text offset).answer = .ok (.number text value) ∧
          ∀ elsewhere place, readNumber elsewhere text place = (true, value)) ↔
      text ∈ Grammar.unsignedLiteral.matches'
  malformed :
    (Segment.lexeme text offset).answer = .error (.malformedToken text offset) ↔
      text.startsWithDigit = true ∧ text ∉ Grammar.unsignedLiteral.matches'
  name :
    (Segment.lexeme text offset).answer = .ok (.name text (-1)) ↔
      text.startsWithDigit = false ∧ text ∉ Grammar.unsignedLiteral.matches'

/-- How a formula is tokenized: segment by segment, each lexeme judged by the grammar. -/
structure TokenizedByGrammar (formula : Text) : Prop where
  tokens : tokenize formula = (segments formula).mapM Segment.answer
  lexemes :
    ∀ text offset, .lexeme text offset ∈ segments formula → JudgedByGrammar text offset

theorem readByGrammar
    (elsewhere : Text → Binary64)
    (text : Text)
    (place : Binary64) :
    ReadByGrammar elsewhere text place := by
  have reads := readNumber_eq elsewhere text place
  have grammar : (parseNumber? text).isSome = true ↔ text ∈ Grammar.literal.matches' :=
    isSome_parseNumber?_iff
  cases parsed : parseNumber? text with
  | none =>
      rw [parsed] at reads grammar
      exact {
        accepted := by
          rw [← grammar, reads]
          simp
        stored := by
          intro value isValue
          cases reads.symm.trans isValue
        kept := by
          intro left isLeft
          exact (congrArg Prod.snd (reads.symm.trans isLeft)).symm
      }
  | some found =>
      rw [parsed] at reads grammar
      exact {
        accepted := by
          rw [← grammar, reads]
          simp
        stored := by
          intro value isValue
          cases reads.symm.trans isValue
          have unsigned := isNegative_parseNumber? parsed
          exact ⟨isNaN_parseNumber? parsed, unsigned,
            fun amount => Binary64.toRat?_nonneg unsigned⟩
        kept := by
          intro left isLeft
          cases reads.symm.trans isLeft
      }

theorem judgedByGrammar
    {text : Text}
    (inLexeme : ∀ byte ∈ text, Byte.isLexeme byte = true)
    (offset : Nat) :
    JudgedByGrammar text offset := by
  have noSign : ∀ byte ∈ text, byte ≠ Byte.plus ∧ byte ≠ Byte.minus := by
    intro byte member
    have plain := inLexeme byte member
    constructor <;> rintro rfl <;> revert plain <;> decide
  have grammar :
      text ∈ Grammar.unsignedLiteral.matches' ↔ (parseNumber? text).isSome = true := by
    rw [Grammar.mem_unsignedLiteral, isSome_parseNumber?_iff]
    exact and_iff_left noSign
  refine {
    noSign := noSign
    number := ?_
    malformed := ?_
    name := ?_
  }
  all_goals
    rw [grammar, Segment.answer]
    cases parsed : parseNumber? text with
    | none =>
        cases text.startsWithDigit <;> simp
    | some value =>
        simp [readNumber_eq, parsed]

/-- Numbers are read by the grammar of literals, alone and as lexemes of formulas. -/
theorem numbers_readByGrammar :
    (∀ elsewhere text place, ReadByGrammar elsewhere text place) ∧
      ∀ formula, TokenizedByGrammar formula := by
  refine ⟨readByGrammar, fun formula => ?_⟩
  exact {
    tokens := Scanner.tokensFrom_eq_mapM_segmentsFrom 0 formula
    lexemes := by
      intro text offset member
      exact judgedByGrammar (isLexeme_of_mem_segmentsFrom 0 formula text offset member) offset
  }

end Reckoner
