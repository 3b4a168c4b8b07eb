import Reckoner.Fault

/-!
# Reading tokens one at a time

A `Scanner` walks over the bytes of a formula and delivers one token per step.
A lexeme ends at the next blank or delimiter. That byte is consumed with the
lexeme; a delimiter is then held back and delivered by the following step. A
malformed lexeme is reported with its byte offset, and the scanner goes on
after the byte that ended it, whether blank or delimiter.
-/

namespace Reckoner

/-- The unread bytes, the offset of the first of them, and a token held back. -/
structure Scanner where
  rest : Text
  offset : Nat
  held : Option Token
  deriving DecidableEq

namespace Scanner

/-- A scanner at the start of a formula. -/
def start (formula : Text) : Scanner where
  rest := formula
  offset := 0
  held := none

/-- Read the lexeme at the start of `text`, which begins at `offset`. -/
def readLexeme (text : Text) (offset : Nat) :
    Except ParseFault (Option Token) × Scanner :=
  let lexeme := text.takeWhile Byte.isLexeme
  let ended := text.dropWhile Byte.isLexeme
  let after := offset + lexeme.length + (ended.take 1).length
  match Token.ofLexeme? lexeme with
  | some token =>
      (.ok (some token), {
        rest := ended.drop 1
        offset := after
        held := ended.head?.bind Token.ofDelimiter?
      })
  | none =>
      (.error (.malformedToken lexeme offset), {
        rest := ended.drop 1
        offset := after
        held := none
      })

/--
Deliver the next token, if any is left. The result tells the token, the end of
the formula as `none`, or a malformed lexeme.
-/
def next (scanner : Scanner) : Except ParseFault (Option Token) × Scanner :=
  match scanner.held with
  | some token => (.ok (some token), { scanner with held := none })
  | none =>
      let blanks := scanner.rest.takeWhile Byte.isBlank
      let offset := scanner.offset + blanks.length
      match scanner.rest.dropWhile Byte.isBlank with
      | [] => (.ok none, { rest := [], offset := offset, held := none })
      | byte :: rest =>
          match Token.ofDelimiter? byte with
          | some token =>
              (.ok (some token), { rest := rest, offset := offset + 1, held := none })
          | none => readLexeme (byte :: rest) offset

/-- What is left to deliver; it bounds the number of steps before the end. -/
def remaining (scanner : Scanner) : Nat :=
  scanner.rest.length + scanner.held.isSome.toNat

/-- The answers of a number of steps, which go on after faults and after the end. -/
def answers : Nat → Scanner → List (Except ParseFault (Option Token))
  | 0, _ => []
  | count + 1, scanner =>
      let (answer, scanner) := scanner.next
      answer :: answers count scanner

/-- Reading a lexeme that is not empty leaves less than its text. -/
theorem remaining_readLexeme_lt
    {byte : UInt8}
    (rest : Text)
    (offset : Nat)
    (begins : Byte.isLexeme byte = true) :
    (readLexeme (byte :: rest) offset).2.remaining < rest.length + 1 := by
  have shorter :
      (rest.dropWhile Byte.isLexeme).length ≤ rest.length :=
    (List.dropWhile_sublist Byte.isLexeme).length_le
  unfold readLexeme remaining
  simp only [List.takeWhile_cons, List.dropWhile_cons, begins, if_true]
  split
  · cases ended : rest.dropWhile Byte.isLexeme with
    | nil =>
        simp
    | cons terminator after =>
        have atMostOne := Bool.toNat_le (Token.ofDelimiter? terminator).isSome
        rw [ended] at shorter
        simp only [List.length_cons] at shorter
        simp
        omega
  · simp
    omega

/-- A byte that is neither blank nor a delimiter begins a lexeme. -/
theorem isLexeme_of_dropWhile_isBlank
    {text rest : Text}
    {byte : UInt8}
    (left : text.dropWhile Byte.isBlank = byte :: rest)
    (plain : Token.ofDelimiter? byte = none) :
    Byte.isLexeme byte = true := by
  have notBlank : Byte.isBlank byte = false := by
    have head := List.head?_dropWhile_not Byte.isBlank text
    rw [left] at head
    simpa using head
  have notDelimiter : Byte.isDelimiter byte = false := by
    rw [← Token.isSome_ofDelimiter?, plain]
    rfl
  simp [Byte.isLexeme, notBlank, notDelimiter]

/-- Every step that does not answer the end leaves less to read. -/
theorem remaining_next_lt
    {scanner following : Scanner}
    {answer : Except ParseFault (Option Token)}
    (steps : scanner.next = (answer, following))
    (notEnd : answer ≠ .ok none) :
    following.remaining < scanner.remaining := by
  unfold next at steps
  split at steps
  · next token held =>
      cases steps
      simp [remaining, held]
  · next free =>
      have shorter :
          (scanner.rest.dropWhile Byte.isBlank).length ≤ scanner.rest.length :=
        (List.dropWhile_sublist Byte.isBlank).length_le
      split at steps
      · cases steps
        exact absurd rfl notEnd
      · next byte rest left =>
          rw [left] at shorter
          simp only [List.length_cons] at shorter
          split at steps
          · cases steps
            simp [remaining, free]
            omega
          · next plain =>
              have smaller :=
                remaining_readLexeme_lt rest
                  (scanner.offset + (scanner.rest.takeWhile Byte.isBlank).length)
                  (isLexeme_of_dropWhile_isBlank left plain)
              rw [steps] at smaller
              simp only [remaining, free] at smaller ⊢
              simp
              omega

/-- The tokens that are left, or the first malformed lexeme among them. -/
def tokens (scanner : Scanner) : Except ParseFault (List Token) :=
  match steps : scanner.next with
  | (.error fault, _) => .error fault
  | (.ok none, _) => .ok []
  | (.ok (some token), following) =>
      have : following.remaining < scanner.remaining :=
        remaining_next_lt steps (by simp)
      following.tokens.map (token :: ·)
  termination_by scanner.remaining

end Scanner

/-- The tokens of a formula. -/
def tokenize (formula : Text) : Except ParseFault (List Token) :=
  (Scanner.start formula).tokens

end Reckoner
