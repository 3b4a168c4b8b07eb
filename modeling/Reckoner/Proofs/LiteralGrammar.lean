import Mathlib.Computability.RegularExpressions
import Mathlib.Data.List.TakeWhile
import Reckoner.Decimal.Literal

/-!
# The grammar of literals

Which texts are literals is said by a regular expression: digits with an optional
point, or a point with digits, and then an optional exponent. The reader of
literals takes the digits at the start of a text, then a point and the digits
behind it, and asks whether the rest is an exponent. Since no exponent begins with
a digit or a point, it accepts exactly the texts that match the expression.
-/

namespace Reckoner

namespace Grammar

/-! ## Expressions over bytes -/

/-- One of the given bytes. -/
def oneOf : List UInt8 → RegularExpression UInt8
  | [] => 0
  | byte :: rest => .char byte + oneOf rest

/-- A match that may be left out. -/
def maybe (expression : RegularExpression UInt8) : RegularExpression UInt8 :=
  1 + expression

/-- One match or more, one after the other. -/
def repeated (expression : RegularExpression UInt8) : RegularExpression UInt8 :=
  expression * expression.star

/-- The bytes that an expression names. -/
def bytes : RegularExpression UInt8 → List UInt8
  | .zero => []
  | .epsilon => []
  | .char byte => [byte]
  | .plus left right => bytes left ++ bytes right
  | .comp left right => bytes left ++ bytes right
  | .star expression => bytes expression

/-- The bytes that a match may begin with. -/
def firsts : RegularExpression UInt8 → List UInt8
  | .zero => []
  | .epsilon => []
  | .char byte => [byte]
  | .plus left right => firsts left ++ firsts right
  | .comp left right => firsts left ++ if left.matchEpsilon then firsts right else []
  | .star expression => firsts expression

section Matching

variable
  {choices : List UInt8}
  {expression : RegularExpression UInt8}
  {text : Text}

theorem mem_oneOf :
    text ∈ (oneOf choices).matches' ↔ ∃ byte ∈ choices, text = [byte] := by
  induction choices with
  | nil =>
      simp [oneOf, RegularExpression.matches'_zero]
  | cons byte rest inductionHypothesis =>
      have single : text ∈ (RegularExpression.char byte).matches' ↔ text = [byte] :=
        Iff.rfl
      rw [oneOf, RegularExpression.matches'_add, Language.mem_add, single, inductionHypothesis]
      simp

theorem mem_maybe :
    text ∈ (maybe expression).matches' ↔ text = [] ∨ text ∈ expression.matches' := by
  rw [maybe, RegularExpression.matches'_add, RegularExpression.matches'_epsilon,
    Language.mem_add, Language.mem_one]

/-- A match of one byte and then of an expression begins with that byte. -/
theorem mem_oneOf_mul :
    text ∈ (oneOf choices * expression).matches' ↔
      ∃ byte ∈ choices, ∃ rest ∈ expression.matches', text = byte :: rest := by
  rw [RegularExpression.matches'_mul, Language.mem_mul]
  constructor
  · rintro ⟨first, firstMatches, rest, restMatches, rfl⟩
    obtain ⟨byte, member, rfl⟩ := mem_oneOf.mp firstMatches
    exact ⟨byte, member, rest, restMatches, rfl⟩
  · rintro ⟨byte, member, rest, restMatches, rfl⟩
    exact ⟨[byte], mem_oneOf.mpr ⟨byte, member, rfl⟩, rest, restMatches, rfl⟩

theorem mem_star_oneOf :
    text ∈ (oneOf choices).star.matches' ↔ ∀ byte ∈ text, byte ∈ choices := by
  rw [RegularExpression.matches'_star, Language.mem_kstar]
  constructor
  · rintro ⟨parts, rfl, matching⟩ byte member
    obtain ⟨part, isPart, inPart⟩ := List.mem_flatten.mp member
    obtain ⟨choice, isChoice, rfl⟩ := mem_oneOf.mp (matching part isPart)
    rw [List.mem_singleton.mp inPart]
    exact isChoice
  · intro chosen
    refine ⟨text.map fun byte => [byte], (List.flatMap_singleton' text).symm, ?_⟩
    intro part isPart
    obtain ⟨byte, member, rfl⟩ := List.mem_map.mp isPart
    exact mem_oneOf.mpr ⟨byte, chosen byte member, rfl⟩

theorem mem_repeated_oneOf :
    text ∈ (repeated (oneOf choices)).matches' ↔
      text ≠ [] ∧ ∀ byte ∈ text, byte ∈ choices := by
  rw [repeated, mem_oneOf_mul]
  constructor
  · rintro ⟨byte, member, rest, restMatches, rfl⟩
    exact ⟨List.cons_ne_nil _ _, List.forall_mem_cons.mpr ⟨member, mem_star_oneOf.mp restMatches⟩⟩
  · rintro ⟨notEmpty, chosen⟩
    obtain ⟨byte, rest, rfl⟩ := List.exists_cons_of_ne_nil notEmpty
    obtain ⟨member, restChosen⟩ := List.forall_mem_cons.mp chosen
    exact ⟨byte, member, rest, mem_star_oneOf.mpr restChosen, rfl⟩

/-- A text that matches an expression has only bytes that the expression names. -/
theorem mem_bytes_of_mem
    (matching : text ∈ expression.matches') :
    ∀ byte ∈ text, byte ∈ bytes expression := by
  induction expression generalizing text with
  | zero =>
      cases matching
  | epsilon =>
      rw [(Language.mem_one text).mp matching]
      simp
  | char byte =>
      rw [Set.mem_singleton_iff.mp matching]
      simp [bytes]
  | plus left right leftHypothesis rightHypothesis =>
      intro byte member
      rcases matching with isLeft | isRight
      · exact List.mem_append_left _ (leftHypothesis isLeft byte member)
      · exact List.mem_append_right _ (rightHypothesis isRight byte member)
  | comp left right leftHypothesis rightHypothesis =>
      obtain ⟨first, isLeft, second, isRight, rfl⟩ := Language.mem_mul.mp matching
      intro byte member
      rcases List.mem_append.mp member with inFirst | inSecond
      · exact List.mem_append_left _ (leftHypothesis isLeft byte inFirst)
      · exact List.mem_append_right _ (rightHypothesis isRight byte inSecond)
  | star inner innerHypothesis =>
      obtain ⟨parts, rfl, matchParts⟩ := Language.mem_kstar.mp matching
      intro byte member
      obtain ⟨part, isPart, inPart⟩ := List.mem_flatten.mp member
      exact innerHypothesis (matchParts part isPart) byte inPart

/-- A match begins with one of the bytes that it may begin with. -/
theorem mem_firsts_of_mem
    {byte : UInt8}
    {rest : Text}
    (matching : byte :: rest ∈ expression.matches') :
    byte ∈ firsts expression := by
  induction expression generalizing rest with
  | zero =>
      cases matching
  | epsilon =>
      cases (Language.mem_one _).mp matching
  | char choice =>
      rw [List.head_eq_of_cons_eq (Set.mem_singleton_iff.mp matching)]
      exact List.mem_singleton_self choice
  | plus left right leftHypothesis rightHypothesis =>
      rcases matching with isLeft | isRight
      · exact List.mem_append_left _ (leftHypothesis isLeft)
      · exact List.mem_append_right _ (rightHypothesis isRight)
  | comp left right leftHypothesis rightHypothesis =>
      obtain ⟨first, isLeft, second, isRight, same⟩ := Language.mem_mul.mp matching
      cases first with
      | nil =>
          have leftEmpty : left.matchEpsilon = true :=
            (left.rmatch_iff_matches' []).mpr isLeft
          cases same
          rw [firsts, if_pos leftEmpty]
          exact List.mem_append_right _ (rightHypothesis isRight)
      | cons head tail =>
          cases same
          exact List.mem_append_left _ (leftHypothesis isLeft)
  | star inner innerHypothesis =>
      obtain ⟨parts, same, matchParts⟩ := Language.mem_kstar_iff_exists_nonempty.mp matching
      cases parts with
      | nil =>
          cases same
      | cons part later =>
          obtain ⟨partMatches, notEmpty⟩ := matchParts part List.mem_cons_self
          obtain ⟨head, tail, rfl⟩ := List.exists_cons_of_ne_nil notEmpty
          cases same
          exact innerHypothesis partMatches

end Matching

/-! ## Literals -/

/-- The decimal digits. -/
def digits : List UInt8 :=
  [48, 49, 50, 51, 52, 53, 54, 55, 56, 57]

/-- A sign that may be left out. -/
def sign : RegularExpression UInt8 :=
  maybe (oneOf [Byte.plus, Byte.minus])

/-- Digits with an optional point, or a point with digits: `D+ [. D*]` or `. D+`. -/
def significand (digit : RegularExpression UInt8) : RegularExpression UInt8 :=
  repeated digit * maybe (oneOf [Byte.point] * digit.star) + oneOf [Byte.point] * repeated digit

/-- A marker, a sign and digits: `M sign D+`. -/
def exponent (markers : List UInt8) (sign : RegularExpression UInt8) : RegularExpression UInt8 :=
  oneOf markers * (sign * repeated (oneOf digits))

/-- The markers of decimal exponents. -/
def decimalMarkers : List UInt8 :=
  [Byte.lowerE, Byte.upperE]

/-- A significand and then an exponent with the given sign, or none. -/
def literalSigned (sign : RegularExpression UInt8) : RegularExpression UInt8 :=
  significand (oneOf digits) * maybe (exponent decimalMarkers sign)

/-- A literal: `D+ [. D*] [X]` or `. D+ [X]`, where `X` is `(e|E) [+|-] D+`. -/
def literal : RegularExpression UInt8 :=
  literalSigned sign

/-- A literal whose exponent, if it has one, has no sign. -/
def unsignedLiteral : RegularExpression UInt8 :=
  literalSigned 1

section Literals

variable
  {text : Text}

theorem mem_digits
    {byte : UInt8} :
    byte ∈ digits ↔ Byte.isDigit byte = true := by
  simp only [digits, List.mem_cons, List.not_mem_nil, or_false, Byte.isDigit, Bool.and_eq_true,
    decide_eq_true_eq, UInt8.le_iff_toNat_le, ← UInt8.toNat_inj, UInt8.reduceToNat]
  omega

theorem mem_star_digits :
    text ∈ (oneOf digits).star.matches' ↔ ∀ byte ∈ text, Byte.isDigit byte = true := by
  simp only [mem_star_oneOf, mem_digits]

theorem mem_repeated_digits :
    text ∈ (repeated (oneOf digits)).matches' ↔
      text ≠ [] ∧ ∀ byte ∈ text, Byte.isDigit byte = true := by
  simp only [mem_repeated_oneOf, mem_digits]

theorem mem_sign :
    text ∈ sign.matches' ↔ text = [] ∨ text = [Byte.plus] ∨ text = [Byte.minus] := by
  simp [sign, mem_maybe, mem_oneOf]

/-- A significand is digits, or a point with digits around it on one side at least. -/
theorem mem_significand_digits :
    text ∈ (significand (oneOf digits)).matches' ↔
      ∃ whole : Text,
        (∀ byte ∈ whole, Byte.isDigit byte = true) ∧
          (text = whole ∧ whole ≠ [] ∨
            ∃ fraction : Text,
              (∀ byte ∈ fraction, Byte.isDigit byte = true) ∧
                text = whole ++ Byte.point :: fraction ∧
                (whole ≠ [] ∨ fraction ≠ [])) := by
  rw [significand, RegularExpression.matches'_add, Language.mem_add,
    RegularExpression.matches'_mul, Language.mem_mul, mem_oneOf_mul]
  constructor
  · rintro (⟨whole, wholeMatches, pointed, pointedMatches, rfl⟩ |
      ⟨point, isPoint, fraction, fractionMatches, rfl⟩)
    · obtain ⟨notEmpty, wholeDigits⟩ := mem_repeated_digits.mp wholeMatches
      refine ⟨whole, wholeDigits, ?_⟩
      rcases mem_maybe.mp pointedMatches with rfl | pointedMatches
      · exact .inl ⟨List.append_nil whole, notEmpty⟩
      · obtain ⟨point, isPoint, fraction, fractionMatches, rfl⟩ := mem_oneOf_mul.mp pointedMatches
        cases List.mem_singleton.mp isPoint
        exact .inr ⟨fraction, mem_star_digits.mp fractionMatches, rfl, .inl notEmpty⟩
    · cases List.mem_singleton.mp isPoint
      obtain ⟨notEmpty, fractionDigits⟩ := mem_repeated_digits.mp fractionMatches
      exact ⟨[], by simp, .inr ⟨fraction, fractionDigits, rfl, .inr notEmpty⟩⟩
  · rintro ⟨whole, wholeDigits, ⟨rfl, notEmpty⟩ | ⟨fraction, fractionDigits, rfl, notEmpty⟩⟩
    · exact .inl ⟨_, mem_repeated_digits.mpr ⟨notEmpty, wholeDigits⟩, [],
        mem_maybe.mpr (.inl rfl), List.append_nil _⟩
    · by_cases wholeEmpty : whole = []
      · subst wholeEmpty
        exact .inr ⟨Byte.point, List.mem_singleton_self _, fraction,
          mem_repeated_digits.mpr ⟨notEmpty.resolve_left (by simp), fractionDigits⟩, rfl⟩
      · have pointed :
            Byte.point :: fraction ∈
              (maybe (oneOf [Byte.point] * (oneOf digits).star)).matches' :=
          mem_maybe.mpr (.inr (mem_oneOf_mul.mpr
            ⟨Byte.point, List.mem_singleton_self _, fraction,
              mem_star_digits.mpr fractionDigits, rfl⟩))
        exact .inl ⟨whole, mem_repeated_digits.mpr ⟨wholeEmpty, wholeDigits⟩, _, pointed, rfl⟩

/-- A literal is a significand, or one with a marker, a sign and digits behind it. -/
theorem mem_literalSigned
    {sign : RegularExpression UInt8} :
    text ∈ (literalSigned sign).matches' ↔
      ∃ first ∈ (significand (oneOf digits)).matches',
        text = first ∨
          ∃ marker ∈ decimalMarkers,
            ∃ mark ∈ sign.matches',
              ∃ power ∈ (repeated (oneOf digits)).matches',
                text = first ++ marker :: (mark ++ power) := by
  rw [literalSigned, RegularExpression.matches'_mul, Language.mem_mul]
  constructor
  · rintro ⟨first, firstMatches, tail, tailMatches, rfl⟩
    refine ⟨first, firstMatches, ?_⟩
    rcases mem_maybe.mp tailMatches with rfl | tailMatches
    · exact .inl (List.append_nil first)
    · obtain ⟨marker, isMarker, signed, signedMatches, rfl⟩ := mem_oneOf_mul.mp tailMatches
      obtain ⟨mark, isSign, power, powerMatches, rfl⟩ := Language.mem_mul.mp signedMatches
      exact .inr ⟨marker, isMarker, mark, isSign, power, powerMatches, rfl⟩
  · rintro ⟨first, firstMatches, rfl | ⟨marker, isMarker, mark, isSign, power, powerMatches, rfl⟩⟩
    · exact ⟨_, firstMatches, [], mem_maybe.mpr (.inl rfl), List.append_nil _⟩
    · have signedMatches : mark ++ power ∈ (sign * repeated (oneOf digits)).matches' :=
        Language.mem_mul.mpr ⟨mark, isSign, power, powerMatches, rfl⟩
      have tailMatches : marker :: (mark ++ power) ∈ (exponent decimalMarkers sign).matches' :=
        mem_oneOf_mul.mpr ⟨marker, isMarker, _, signedMatches, rfl⟩
      exact ⟨first, firstMatches, _, mem_maybe.mpr (.inr tailMatches), rfl⟩

/-- The literals whose exponents have no sign are those without a sign in them. -/
theorem mem_unsignedLiteral :
    text ∈ unsignedLiteral.matches' ↔
      text ∈ literal.matches' ∧ ∀ byte ∈ text, byte ≠ Byte.plus ∧ byte ≠ Byte.minus := by
  have noSign : ∀ byte ∈ bytes unsignedLiteral, byte ≠ Byte.plus ∧ byte ≠ Byte.minus := by
    decide +kernel
  constructor
  · intro isUnsigned
    refine ⟨?_, fun byte member => noSign byte (mem_bytes_of_mem isUnsigned byte member)⟩
    obtain ⟨first, firstMatches, parts⟩ := mem_literalSigned.mp isUnsigned
    refine mem_literalSigned.mpr ⟨first, firstMatches, parts.imp_right ?_⟩
    rintro ⟨marker, isMarker, mark, isEmpty, power, powerMatches, same⟩
    exact ⟨marker, isMarker, mark, mem_sign.mpr (.inl isEmpty), power, powerMatches, same⟩
  · rintro ⟨isLiteral, free⟩
    obtain ⟨first, firstMatches, parts⟩ := mem_literalSigned.mp isLiteral
    refine mem_literalSigned.mpr ⟨first, firstMatches, parts.imp_right ?_⟩
    rintro ⟨marker, isMarker, mark, isSign, power, powerMatches, rfl⟩
    refine ⟨marker, isMarker, mark, ?_, power, powerMatches, rfl⟩
    rcases mem_sign.mp isSign with rfl | rfl | rfl
    · exact (Language.mem_one _).mpr rfl
    · exact absurd rfl (free Byte.plus (by simp)).1
    · exact absurd rfl (free Byte.minus (by simp)).2

end Literals

end Grammar

/-! ## Reading literals -/

namespace Literal

section Reading

variable
  {text whole fraction rest : Text}

theorem isSome_digits?_iff :
    (digits? text).isSome = true ↔
      text ∈ (Grammar.repeated (Grammar.oneOf Grammar.digits)).matches' := by
  rw [Grammar.mem_repeated_digits, digits?]
  split <;> simp_all

/-- Neither its type nor its sign decides whether a number was read. -/
theorem isSome_map_cast
    (read : Option Nat)
    (signed : Int → Int) :
    (Option.map signed (do let value ← read; pure (value : Int))).isSome = read.isSome := by
  cases read <;> rfl

theorem isSome_signedDigits?_plus
    (text : Text) :
    (signedDigits? (Byte.plus :: text)).isSome = (digits? text).isSome :=
  isSome_map_cast (digits? text) _

theorem isSome_signedDigits?_minus
    (text : Text) :
    (signedDigits? (Byte.minus :: text)).isSome = (digits? text).isSome :=
  isSome_map_cast (digits? text) _

theorem isSome_signedDigits?_unsigned
    (noPlus : text.head? ≠ some Byte.plus)
    (noMinus : text.head? ≠ some Byte.minus) :
    (signedDigits? text).isSome = (digits? text).isSome := by
  unfold signedDigits?
  split
  · exact absurd rfl noPlus
  · exact absurd rfl noMinus
  · exact isSome_map_cast (digits? text) _

theorem isSome_signedDigits?_iff :
    (signedDigits? text).isSome = true ↔
      text ∈ (Grammar.sign * Grammar.repeated (Grammar.oneOf Grammar.digits)).matches' := by
  rw [RegularExpression.matches'_mul, Language.mem_mul]
  constructor
  · intro reads
    by_cases plus : text.head? = some Byte.plus
    · obtain ⟨digits, rfl⟩ := List.head?_eq_some_iff.mp plus
      rw [isSome_signedDigits?_plus, isSome_digits?_iff] at reads
      exact ⟨[Byte.plus], Grammar.mem_sign.mpr (by simp), digits, reads, rfl⟩
    · by_cases minus : text.head? = some Byte.minus
      · obtain ⟨digits, rfl⟩ := List.head?_eq_some_iff.mp minus
        rw [isSome_signedDigits?_minus, isSome_digits?_iff] at reads
        exact ⟨[Byte.minus], Grammar.mem_sign.mpr (by simp), digits, reads, rfl⟩
      · rw [isSome_signedDigits?_unsigned plus minus, isSome_digits?_iff] at reads
        exact ⟨[], Grammar.mem_sign.mpr (by simp), text, reads, rfl⟩
  · rintro ⟨sign, isSign, digits, digitsMatch, rfl⟩
    have reads := isSome_digits?_iff.mpr digitsMatch
    rcases Grammar.mem_sign.mp isSign with rfl | rfl | rfl
    · -- The first of the digits is not a sign, so no sign is taken off.
      have noSign
          {byte : UInt8}
          (noDigit : Byte.isDigit byte = false) :
          digits.head? ≠ some byte := by
        intro first
        have digit := (Grammar.mem_repeated_digits.mp digitsMatch).2 byte (List.mem_of_head? first)
        exact absurd (noDigit.symm.trans digit) (by decide)
      rw [List.nil_append, isSome_signedDigits?_unsigned (noSign rfl) (noSign rfl)]
      exact reads
    · exact (isSome_signedDigits?_plus digits).trans reads
    · exact (isSome_signedDigits?_minus digits).trans reads

theorem isSome_exponent?_iff :
    (exponent? text).isSome = true ↔
      text ∈
        (Grammar.maybe (Grammar.exponent Grammar.decimalMarkers Grammar.sign)).matches' := by
  rw [Grammar.mem_maybe, Grammar.exponent, Grammar.mem_oneOf_mul]
  cases text with
  | nil =>
      simp [exponent?]
  | cons marker rest =>
      have isMarker :
          marker ∈ Grammar.decimalMarkers ↔ marker = Byte.lowerE ∨ marker = Byte.upperE := by
        simp [Grammar.decimalMarkers]
      rw [exponent?]
      split
      · next marks =>
          rw [isSome_signedDigits?_iff]
          simp [isMarker, marks]
      · next noMarker =>
          simp [isMarker, noMarker]

/-- An exponent begins with its marker, neither with a digit nor with a point. -/
theorem of_isSome_exponent?
    (reads : (exponent? rest).isSome = true) :
    rest.startsWithDigit = false ∧ rest.head? ≠ some Byte.point := by
  cases rest with
  | nil =>
      exact ⟨rfl, by simp⟩
  | cons marker rest =>
      rw [exponent?] at reads
      split at reads
      · next isMarker =>
          rcases isMarker with rfl | rfl <;> exact ⟨rfl, by rw [List.head?_cons]; decide⟩
      · cases reads

theorem splitDigits_append
    (wholeDigits : ∀ byte ∈ whole, Byte.isDigit byte = true)
    (ends : rest.startsWithDigit = false) :
    splitDigits (whole ++ rest) = (whole, rest) := by
  rw [splitDigits, List.takeWhile_append_of_pos wholeDigits,
    List.dropWhile_append_of_pos wholeDigits]
  cases rest with
  | nil =>
      simp
  | cons byte later =>
      have noDigit : Byte.isDigit byte = false := ends
      simp [noDigit]

/-- Every text is digits and a rest that does not begin with one. -/
theorem exists_digits_append
    (text : Text) :
    ∃ whole rest : Text,
      text = whole ++ rest ∧
        (∀ byte ∈ whole, Byte.isDigit byte = true) ∧ rest.startsWithDigit = false := by
  refine ⟨text.takeWhile Byte.isDigit, text.dropWhile Byte.isDigit,
    List.takeWhile_append_dropWhile.symm, fun byte => List.mem_takeWhile_imp, ?_⟩
  have head := List.head?_dropWhile_not Byte.isDigit text
  cases left : text.dropWhile Byte.isDigit with
  | nil =>
      rfl
  | cons byte rest =>
      rw [left] at head
      simpa [Text.startsWithDigit] using head

theorem isSome_ofText?_plain
    (wholeDigits : ∀ byte ∈ whole, Byte.isDigit byte = true)
    (ends : rest.startsWithDigit = false)
    (noPoint : rest.head? ≠ some Byte.point) :
    (ofText? (whole ++ rest)).isSome = true ↔
      whole ≠ [] ∧ (exponent? rest).isSome = true := by
  rw [ofText?, splitDigits_append wholeDigits ends]
  simp only
  split
  · simp at noPoint
  · split <;> simp_all

theorem isSome_ofText?_pointed
    (wholeDigits : ∀ byte ∈ whole, Byte.isDigit byte = true)
    (fractionDigits : ∀ byte ∈ fraction, Byte.isDigit byte = true)
    (ends : rest.startsWithDigit = false) :
    (ofText? (whole ++ Byte.point :: (fraction ++ rest))).isSome = true ↔
      (whole ≠ [] ∨ fraction ≠ []) ∧ (exponent? rest).isSome = true := by
  rw [ofText?, splitDigits_append wholeDigits rfl]
  simp only
  split
  · next digits same =>
      obtain rfl : fraction ++ rest = digits := List.tail_eq_of_cons_eq same
      rw [splitDigits_append fractionDigits ends]
      split <;> simp_all [or_iff_not_imp_left]
  · next noPoint =>
      exact absurd rfl (noPoint (fraction ++ rest))

/-- A text is read as a literal exactly when it matches the grammar of literals. -/
theorem isSome_ofText?_iff :
    (ofText? text).isSome = true ↔ text ∈ Grammar.literal.matches' := by
  rw [Grammar.literal, Grammar.literalSigned, RegularExpression.matches'_mul, Language.mem_mul]
  constructor
  · intro reads
    obtain ⟨whole, rest, rfl, wholeDigits, ends⟩ := exists_digits_append text
    by_cases pointed : rest.head? = some Byte.point
    · obtain ⟨after, rfl⟩ := List.head?_eq_some_iff.mp pointed
      obtain ⟨fraction, tail, rfl, fractionDigits, tailEnds⟩ := exists_digits_append after
      obtain ⟨notEmpty, tailReads⟩ :=
        (isSome_ofText?_pointed wholeDigits fractionDigits tailEnds).mp reads
      exact ⟨whole ++ Byte.point :: fraction,
        Grammar.mem_significand_digits.mpr
          ⟨whole, wholeDigits, .inr ⟨fraction, fractionDigits, rfl, notEmpty⟩⟩,
        tail, isSome_exponent?_iff.mp tailReads, by simp⟩
    · obtain ⟨notEmpty, restReads⟩ := (isSome_ofText?_plain wholeDigits ends pointed).mp reads
      exact ⟨whole,
        Grammar.mem_significand_digits.mpr ⟨whole, wholeDigits, .inl ⟨rfl, notEmpty⟩⟩,
        rest, isSome_exponent?_iff.mp restReads, rfl⟩
  · rintro ⟨significand, significandMatches, tail, tailMatches, rfl⟩
    have tailReads := isSome_exponent?_iff.mpr tailMatches
    obtain ⟨tailEnds, tailNoPoint⟩ := of_isSome_exponent? tailReads
    obtain ⟨whole, wholeDigits, ⟨rfl, notEmpty⟩ | ⟨fraction, fractionDigits, rfl, notEmpty⟩⟩ :=
      Grammar.mem_significand_digits.mp significandMatches
    · exact (isSome_ofText?_plain wholeDigits tailEnds tailNoPoint).mpr ⟨notEmpty, tailReads⟩
    · rw [List.append_assoc, List.cons_append]
      exact (isSome_ofText?_pointed wholeDigits fractionDigits tailEnds).mpr
        ⟨notEmpty, tailReads⟩

end Reading

end Literal

/-- A text has a value exactly when it is a literal. -/
theorem isSome_parseNumber?_iff
    {text : Text} :
    (parseNumber? text).isSome = true ↔ text ∈ Grammar.literal.matches' := by
  rw [parseNumber?, Option.isSome_map, Literal.isSome_ofText?_iff]

end Reckoner
