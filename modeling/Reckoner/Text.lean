/-!
# Byte strings

A formula is a string of bytes, and so are its lexemes, its names and the
messages about it. Positions count bytes, and a byte outside ASCII has no
meaning of its own.
-/

namespace Reckoner

/-- A string of bytes. -/
abbrev Text := List UInt8

namespace Text

/-- The bytes that encode a string of characters. -/
def ofString (characters : String) : Text :=
  characters.toUTF8.data.toList

/-- The decimal digits of a natural number, without leading zeros. -/
def ofNat (number : Nat) : Text :=
  (Nat.toDigits 10 number).map Char.toUInt8

/--
The part of a text that a message shows: everything before its first zero
byte, which ends a message.
-/
def shown (text : Text) : Text :=
  text.takeWhile (· != 0)

/-- Put a separator between consecutive texts. -/
def joined (separator : Text) (texts : List Text) : Text :=
  (texts.intersperse separator).flatten

/-- A text without zero bytes is shown whole. -/
theorem shown_eq_self
    {text : Text}
    (zeroFree : ∀ byte ∈ text, byte ≠ 0) :
    text.shown = text := by
  induction text with
  | nil =>
      rfl
  | cons byte rest inductionHypothesis =>
      have restFree : ∀ later ∈ rest, later ≠ 0 :=
        fun later membership =>
          zeroFree later (List.mem_cons_of_mem byte membership)
      have nonzero : (byte != 0) = true := by
        simpa using zeroFree byte List.mem_cons_self
      rw [shown, List.takeWhile_cons, if_pos nonzero]
      exact congrArg (byte :: ·) (inductionHypothesis restFree)

end Text

/-! ## Classes of bytes -/

namespace Byte

/-- The space. -/
@[match_pattern] abbrev space : UInt8 := 32

/-- The character `%`. -/
@[match_pattern] abbrev percent : UInt8 := 37

/-- The character `(`. -/
@[match_pattern] abbrev openParen : UInt8 := 40

/-- The character `)`. -/
@[match_pattern] abbrev closeParen : UInt8 := 41

/-- The character `*`. -/
@[match_pattern] abbrev asterisk : UInt8 := 42

/-- The character `+`. -/
@[match_pattern] abbrev plus : UInt8 := 43

/-- The character `,`. -/
@[match_pattern] abbrev comma : UInt8 := 44

/-- The character `-`. -/
@[match_pattern] abbrev minus : UInt8 := 45

/-- The character `.`. -/
@[match_pattern] abbrev point : UInt8 := 46

/-- The character `/`. -/
@[match_pattern] abbrev slash : UInt8 := 47

/-- The digit `0`. -/
@[match_pattern] abbrev zero : UInt8 := 48

/-- The character `E`. -/
@[match_pattern] abbrev upperE : UInt8 := 69

/-- The character `^`. -/
@[match_pattern] abbrev caret : UInt8 := 94

/-- The character `e`. -/
@[match_pattern] abbrev lowerE : UInt8 := 101

/-- Space, tab, line feed, vertical tab, form feed and carriage return separate lexemes. -/
def isBlank (byte : UInt8) : Bool :=
  byte == 32 || (9 ≤ byte && byte ≤ 13)

/-- The ten decimal digits. -/
def isDigit (byte : UInt8) : Bool :=
  48 ≤ byte && byte ≤ 57

/-- The value of a digit. -/
def digitValue (byte : UInt8) : Nat :=
  byte.toNat - 48

/-- No digit is blank. -/
theorem isBlank_eq_false_of_isDigit
    {byte : UInt8}
    (digit : isDigit byte = true) :
    isBlank byte = false := by
  simp only [isDigit, Bool.and_eq_true, decide_eq_true_eq, UInt8.le_iff_toNat_le] at digit
  simp only [isBlank, Bool.or_eq_false_iff, beq_eq_false_iff_ne, Bool.and_eq_false_iff,
    decide_eq_false_iff_not, UInt8.le_iff_toNat_le, ne_eq, ← UInt8.toNat_inj]
  simp at digit ⊢
  omega

end Byte

/-- Whether a text starts with a digit. -/
def Text.startsWithDigit : Text → Bool
  | [] => false
  | byte :: _ => Byte.isDigit byte

end Reckoner
