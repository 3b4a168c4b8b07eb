import Mathlib.Data.List.Forall2
import Reckoner.Proofs.Blame

/-!
# Texts side by side

Texts with a blank or a delimiter between them are read apart. Past that byte a
scanner has no lexeme open and no token held back, so it goes on as it would
from the start of the text behind, only with its offsets moved. The tokens of
the whole are those of the texts and of what separates them, and the first
malformed lexeme among the texts is the one that is reported.
-/

namespace Reckoner

/-! ## Two texts -/

namespace Byte

theorem isLexeme_eq_false_of_isBlank
    {byte : UInt8}
    (blank : isBlank byte = true) :
    isLexeme byte = false := by
  rw [isLexeme, blank]
  rfl

theorem isLexeme_eq_false_of_isDelimiter
    {byte : UInt8}
    (delimiter : isDelimiter byte = true) :
    isLexeme byte = false := by
  rw [isLexeme, delimiter, Bool.not_true, Bool.and_false]

end Byte

/--
The tokens of two texts with a separator between them are those of the first,
the token of the separator, if it has one, and those of the second. A fault in
the first text is kept and comes before any fault in the second, which is moved.
-/
theorem tokenize_separated
    {separator : UInt8}
    (separates : Byte.isLexeme separator = false)
    (first second : Text) :
    tokenize (first ++ separator :: second) =
      tokenize first >>= fun left =>
        (tokenize second).mapError (.moved (first.length + 1)) >>= fun right =>
          .ok (left ++ ((Token.ofDelimiter? separator).toList ++ right)) := by
  have behind :
      Scanner.tokensFrom (first.length + 1) second =
        (tokenize second).mapError (.moved (first.length + 1)) :=
    Scanner.tokensFrom_add (first.length + 1) 0 second
  have cut := Scanner.tokensFrom_append_cons 0 separates first second
  rw [Nat.zero_add, Scanner.tokensFrom_cons_separator separates, behind] at cut
  cases read : tokenize second with
  | error fault =>
      rw [read] at cut
      exact cut
  | ok right =>
      rw [read] at cut
      exact cut

/-- A text that cannot be read has a malformed lexeme at the offset that is told. -/
theorem exists_malformed_of_tokenize
    {text : Text}
    {fault : ParseFault}
    (unread : tokenize text = .error fault) :
    ∃ lexeme before after,
      fault = .malformedToken lexeme before.length ∧ text = before ++ lexeme ++ after := by
  obtain ⟨lexeme, offset, rfl, member, -⟩ := Scanner.exists_malformed_of_tokensFrom unread
  obtain ⟨before, after, split, stands⟩ :=
    exists_append_of_mem_segmentsFrom 0 text _ member
  rw [Nat.zero_add] at stands
  refine ⟨lexeme, before, after, ?_, split⟩
  rw [stands]
  rfl

/--
How two texts with a byte between them are read, if it is a blank or a delimiter.
A malformed lexeme of the second text stands there at the offset that is told for
the second text alone, and behind the first text and the byte at one that is
greater by their length.
-/
structure ReadApart (first second : Text) (separator : UInt8) : Prop where
  delimiter :
    Byte.isDelimiter separator = true →
    ∃ token,
      Token.ofDelimiter? separator = some token ∧
        token.written = [separator] ∧
        ∀ left right,
          tokenize first = .ok left →
          tokenize second = .ok right →
          tokenize (first ++ separator :: second) = .ok (left ++ token :: right)
  blank :
    Byte.isBlank separator = true →
    ∀ left right,
      tokenize first = .ok left →
      tokenize second = .ok right →
      tokenize (first ++ separator :: second) = .ok (left ++ right)
  firstFails :
    ∀ fault,
      tokenize first = .error fault →
      tokenize (first ++ separator :: second) = .error fault
  secondFails :
    ∀ left fault,
      tokenize first = .ok left →
      tokenize second = .error fault →
      ∃ lexeme before after,
        fault = .malformedToken lexeme before.length ∧
          second = before ++ lexeme ++ after ∧
          tokenize (first ++ separator :: second) =
            .error (.malformedToken lexeme (first.length + 1 + before.length))

/-- Reading is a homomorphism: what stands on either side of a separator is read apart. -/
theorem tokenize_readApart
    {separator : UInt8}
    (separates : Byte.isBlank separator = true ∨ Byte.isDelimiter separator = true)
    (first second : Text) :
    ReadApart first second separator := by
  have noLexeme : Byte.isLexeme separator = false :=
    separates.elim Byte.isLexeme_eq_false_of_isBlank Byte.isLexeme_eq_false_of_isDelimiter
  have whole := tokenize_separated noLexeme first second
  constructor
  case delimiter =>
    intro isDelimiter
    rw [← Token.isSome_ofDelimiter?] at isDelimiter
    obtain ⟨token, delimits⟩ := Option.isSome_iff_exists.mp isDelimiter
    refine ⟨token, delimits, Token.written_of_ofDelimiter? delimits, ?_⟩
    intro left right readsFirst readsSecond
    rw [whole, readsFirst, readsSecond, delimits]
    rfl
  case blank =>
    intro isBlank left right readsFirst readsSecond
    rw [whole, readsFirst, readsSecond, Byte.ofDelimiter?_eq_none_of_isBlank isBlank]
    rfl
  case firstFails =>
    intro fault unread
    rw [whole, unread, Outcome.error_bind]
  case secondFails =>
    intro left fault readsFirst unread
    obtain ⟨lexeme, before, after, rfl, split⟩ := exists_malformed_of_tokenize unread
    refine ⟨lexeme, before, after, rfl, split, ?_⟩
    rw [whole, readsFirst, unread]
    rfl

/-- In `x,1z` the lexeme `1z` is malformed at offset 2, while alone it begins at offset 0. -/
theorem tokenize_name_comma_malformed :
    let first := Text.ofString "x"
    let second := Text.ofString "1z"
    Byte.isDelimiter Byte.comma = true ∧
      ReadApart first second Byte.comma ∧
      tokenize (first ++ Byte.comma :: second) = .error (.malformedToken second 2) := by
  intro first second
  have delimiter : Byte.isDelimiter Byte.comma = true := by
    decide
  have apart : ReadApart first second Byte.comma :=
    tokenize_readApart (.inr delimiter) first second
  have readsFirst : tokenize first = .ok [.bareName first] :=
    tokenize_of_answers rfl
  have unread : tokenize second = .error (.malformedToken second 0) :=
    Scanner.tokens_of_next_eq_error rfl
  obtain ⟨lexeme, before, after, same, -, whole⟩ := apart.secondFails _ _ readsFirst unread
  obtain ⟨rfl, atStart⟩ := ParseFault.malformedToken.inj same
  rw [← atStart] at whole
  exact ⟨delimiter, apart, whole⟩

/-! ## Any number of texts -/

/-- Blanks before a text are not read. -/
theorem tokenize_blanks_append
    {blanks text : Text}
    {tokens : List Token}
    (areBlank : ∀ byte ∈ blanks, Byte.isBlank byte = true)
    (reads : tokenize text = .ok tokens) :
    tokenize (blanks ++ text) = .ok tokens := by
  induction blanks with
  | nil =>
      exact reads
  | cons byte rest inductionHypothesis =>
      obtain ⟨blank, restBlank⟩ := List.forall_mem_cons.mp areBlank
      have behind := Scanner.tokensFrom_of_tokenize (inductionHypothesis restBlank) 1
      rw [← Scanner.tokensFrom_blank 0 blank] at behind
      exact behind

/--
Texts that are joined by a separator with blanks behind it have the tokens of
each of them in order, with the token of the separator, if it has one, between.
-/
theorem tokenize_joined
    {separator : UInt8}
    {blanks : Text}
    (separates : Byte.isLexeme separator = false)
    (areBlank : ∀ byte ∈ blanks, Byte.isBlank byte = true)
    {texts : List Text}
    {parts : List (List Token)}
    (read : List.Forall₂ (fun text tokens => tokenize text = .ok tokens) texts parts) :
    tokenize (Text.joined (separator :: blanks) texts) =
      .ok (parts.intersperse (Token.ofDelimiter? separator).toList).flatten := by
  induction read with
  | nil =>
      exact Scanner.tokensFrom_nil 0
  | @cons text tokens texts parts reads others inductionHypothesis =>
      cases others with
      | nil =>
          simpa [Text.joined] using reads
      | @cons next nextTokens later laterParts nextReads laterRead =>
          have behind := tokenize_blanks_append areBlank inductionHypothesis
          have sideBySide := tokenize_append_cons reads separates behind
          simpa [Text.joined] using sideBySide

end Reckoner
