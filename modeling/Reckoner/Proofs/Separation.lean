import Reckoner.Scanner
import Reckoner.Proofs.Outcome

/-!
# Formulas are read piece by piece

A text is a sequence of blanks, delimiters and lexemes, and each of them is read
apart from the others. What is read up to a blank or a delimiter does not depend
on what follows, and offsets tell only where a malformed lexeme stands.
-/

namespace Reckoner

/-! ## The pieces of a text -/

namespace Byte

/-- No delimiter is blank. -/
theorem isBlank_eq_false_of_ofDelimiter?
    {byte : UInt8}
    {token : Token}
    (delimits : Token.ofDelimiter? byte = some token) :
    isBlank byte = false := by
  unfold Token.ofDelimiter? at delimits
  split at delimits
  · next opens =>
      rw [opens]
      rfl
  · split at delimits
    · next closes =>
        rw [closes]
        rfl
    · split at delimits
      · next separates =>
          rw [separates]
          rfl
      · split at delimits
        · next writes =>
            obtain ⟨operator, reads⟩ := Option.isSome_iff_exists.mp writes
            rw [← Operator.symbol_of_ofSymbol? reads]
            cases operator <;> rfl
        · cases delimits

/-- A byte of a lexeme is neither blank nor a delimiter. -/
theorem plain_of_isLexeme
    {byte : UInt8}
    (inLexeme : isLexeme byte = true) :
    isBlank byte = false ∧ Token.ofDelimiter? byte = none := by
  simp only [isLexeme, Bool.and_eq_true, Bool.not_eq_true'] at inLexeme
  have noDelimiter : (Token.ofDelimiter? byte).isSome = false := by
    rw [Token.isSome_ofDelimiter?]
    exact inLexeme.2
  exact ⟨inLexeme.1, by simpa using noDelimiter⟩

theorem ofDelimiter?_eq_none_of_isBlank
    {byte : UInt8}
    (blank : isBlank byte = true) :
    Token.ofDelimiter? byte = none := by
  cases delimits : Token.ofDelimiter? byte with
  | none =>
      rfl
  | some token =>
      rw [isBlank_eq_false_of_ofDelimiter? delimits] at blank
      cases blank

/-- Between lexemes stand blanks and delimiters. -/
theorem blank_or_delimiter_of_not_isLexeme
    {byte : UInt8}
    (separates : isLexeme byte = false) :
    isBlank byte = true ∨ ∃ token, Token.ofDelimiter? byte = some token := by
  rw [isLexeme, Bool.and_eq_false_iff, Bool.not_eq_false', Bool.not_eq_false'] at separates
  rcases separates with blank | delimiter
  · exact .inl blank
  · rw [← Token.isSome_ofDelimiter?] at delimiter
    exact .inr (Option.isSome_iff_exists.mp delimiter)

end Byte

namespace Text

/-- A text that does not go on with the lexeme before it. -/
def EndsLexeme (text : Text) : Prop :=
  ∀ byte, text.head? = some byte → Byte.isLexeme byte = false

namespace EndsLexeme

variable
  {text : Text}

theorem of_cons
    {byte : UInt8}
    (separates : Byte.isLexeme byte = false)
    (rest : Text) :
    EndsLexeme (byte :: rest) := by
  intro first head
  cases head
  exact separates

theorem append_cons
    (ends : EndsLexeme text)
    {byte : UInt8}
    (separates : Byte.isLexeme byte = false)
    (rest : Text) :
    EndsLexeme (text ++ byte :: rest) := by
  cases text with
  | nil =>
      exact of_cons separates rest
  | cons first more =>
      exact of_cons (ends first rfl) _

/-- A lexeme in front of a text that does not go on with it is taken exactly. -/
theorem takeWhile_append
    (ends : EndsLexeme text)
    {lexeme : Text}
    (inLexeme : ∀ byte ∈ lexeme, Byte.isLexeme byte = true) :
    (lexeme ++ text).takeWhile Byte.isLexeme = lexeme := by
  rw [List.takeWhile_append_of_pos inLexeme]
  cases text with
  | nil =>
      simp
  | cons first more =>
      simp [ends first rfl]

theorem dropWhile_append
    (ends : EndsLexeme text)
    {lexeme : Text}
    (inLexeme : ∀ byte ∈ lexeme, Byte.isLexeme byte = true) :
    (lexeme ++ text).dropWhile Byte.isLexeme = text := by
  rw [List.dropWhile_append_of_pos inLexeme]
  cases text with
  | nil =>
      rfl
  | cons first more =>
      simp [ends first rfl]

end EndsLexeme

/-- A text that begins with a byte of a lexeme begins with a whole lexeme. -/
theorem exists_lexeme_append
    {byte : UInt8}
    (begins : Byte.isLexeme byte = true)
    (rest : Text) :
    ∃ lexeme ended : Text,
      byte :: rest = lexeme ++ ended ∧
        lexeme ≠ [] ∧
        (∀ other ∈ lexeme, Byte.isLexeme other = true) ∧
        EndsLexeme ended := by
  refine ⟨byte :: rest.takeWhile Byte.isLexeme, rest.dropWhile Byte.isLexeme, ?_, ?_, ?_, ?_⟩
  · rw [List.cons_append, List.takeWhile_append_dropWhile]
  · simp
  · intro other member
    rcases List.mem_cons.mp member with isFirst | inRest
    · rw [isFirst]
      exact begins
    · exact List.all_eq_true.mp List.all_takeWhile other inRest
  · intro other head
    have stops := List.head?_dropWhile_not Byte.isLexeme rest
    rw [head] at stops
    simpa using stops

/--
Every text is built from its end by putting a blank, a delimiter or a whole
lexeme before it.
-/
theorem induction
    {holds : Text → Prop}
    (empty : holds [])
    (blank : ∀ byte rest, Byte.isBlank byte = true → holds rest → holds (byte :: rest))
    (delimiter :
      ∀ byte token rest,
        Token.ofDelimiter? byte = some token → holds rest → holds (byte :: rest))
    (lexeme :
      ∀ lexeme rest,
        lexeme ≠ [] →
        (∀ byte ∈ lexeme, Byte.isLexeme byte = true) →
        EndsLexeme rest →
        holds rest →
        holds (lexeme ++ rest))
    (text : Text) :
    holds text := by
  -- A lexeme is taken as a whole, so the recursion is on the length.
  induction size : text.length using Nat.strongRecOn generalizing text with
  | ind size inductionHypothesis =>
      subst size
      cases text with
      | nil =>
          exact empty
      | cons byte rest =>
          have restHolds : holds rest :=
            inductionHypothesis rest.length (by simp) rest rfl
          by_cases begins : Byte.isLexeme byte = true
          · obtain ⟨whole, ended, split, notEmpty, inLexeme, ends⟩ :=
              exists_lexeme_append begins rest
            have shorter : ended.length < (byte :: rest).length := by
              rw [split, List.length_append]
              have := List.length_pos_iff.mpr notEmpty
              omega
            rw [split]
            exact lexeme whole ended notEmpty inLexeme ends
              (inductionHypothesis ended.length shorter ended rfl)
          · rcases Byte.blank_or_delimiter_of_not_isLexeme (by simpa using begins) with
              isBlank | ⟨token, delimits⟩
            · exact blank byte rest isBlank restHolds
            · exact delimiter byte token rest delimits restHolds

end Text

/-! ## Reading the pieces -/

namespace Scanner

/-- The tokens of a text whose first byte has the given offset. -/
def tokensFrom (offset : Nat) (text : Text) : Except ParseFault (List Token) :=
  tokens { rest := text, offset := offset, held := none }

section Steps

variable
  {scanner other following : Scanner}

theorem tokens_of_next_eq_token
    {token : Token}
    (steps : scanner.next = (.ok (some token), following)) :
    scanner.tokens = following.tokens.map (token :: ·) := by
  rw [tokens]
  split <;> simp_all

theorem tokens_of_next_eq_end
    (steps : scanner.next = (.ok none, following)) :
    scanner.tokens = .ok [] := by
  rw [tokens]
  split <;> simp_all

theorem tokens_of_next_eq_error
    {fault : ParseFault}
    (steps : scanner.next = (.error fault, following)) :
    scanner.tokens = .error fault := by
  rw [tokens]
  split <;> simp_all

/-- The tokens are the answers up to the end, if none of them is a fault. -/
theorem tokens_of_answers
    {tokens : List Token}
    (delivered :
      scanner.answers (tokens.length + 1) =
        tokens.map (fun token => .ok (some token)) ++ [.ok none]) :
    scanner.tokens = .ok tokens := by
  induction tokens generalizing scanner with
  | nil =>
      have first : scanner.next.1 = .ok none :=
        (List.cons.inj delivered).1
      exact tokens_of_next_eq_end (Prod.ext first rfl)
  | cons token rest inductionHypothesis =>
      have first : scanner.next.1 = .ok (some token) :=
        (List.cons.inj delivered).1
      have steps : scanner.next = (.ok (some token), scanner.next.2) :=
        Prod.ext first rfl
      have later : scanner.next.2.tokens = .ok rest :=
        inductionHypothesis (List.cons.inj delivered).2
      rw [tokens_of_next_eq_token steps, later]
      rfl

/-- Scanners that step alike deliver the same tokens. -/
theorem tokens_eq_of_next_eq
    (same : scanner.next = other.next) :
    scanner.tokens = other.tokens := by
  match steps : other.next with
  | (.error fault, following) =>
      rw [tokens_of_next_eq_error steps, tokens_of_next_eq_error (same.trans steps)]
  | (.ok none, following) =>
      rw [tokens_of_next_eq_end steps, tokens_of_next_eq_end (same.trans steps)]
  | (.ok (some token), following) =>
      rw [tokens_of_next_eq_token steps, tokens_of_next_eq_token (same.trans steps)]

end Steps

/-- A scanner at the given offset of a formula, before a text that it has not read. -/
def unread (offset : Nat) (text : Text) : Scanner where
  rest := text
  offset := offset
  held := none

/-- A scanner that has just read a lexeme and with it the byte that ended it. -/
def afterLexeme (offset : Nat) (ended : Text) : Scanner where
  rest := ended.drop 1
  offset := offset + (ended.take 1).length
  held := ended.head?.bind Token.ofDelimiter?

section Pieces

variable
  (offset : Nat)

theorem next_unread_nil :
    (unread offset []).next = (.ok none, unread offset []) :=
  rfl

theorem next_unread_blank
    {byte : UInt8}
    (blank : Byte.isBlank byte = true)
    (rest : Text) :
    (unread offset (byte :: rest)).next = (unread (offset + 1) rest).next := by
  have moved :
      offset + (rest.takeWhile Byte.isBlank).length.succ =
        offset + 1 + (rest.takeWhile Byte.isBlank).length := by
    omega
  simp only [unread, next, List.takeWhile_cons, List.dropWhile_cons, blank, if_true,
    List.length_cons, moved]

theorem next_unread_delimiter
    {byte : UInt8}
    {token : Token}
    (delimits : Token.ofDelimiter? byte = some token)
    (rest : Text) :
    (unread offset (byte :: rest)).next = (.ok (some token), unread (offset + 1) rest) := by
  have notBlank := Byte.isBlank_eq_false_of_ofDelimiter? delimits
  simp [unread, next, notBlank, delimits]

/-- The byte after a lexeme is consumed with it, but a delimiter is not lost. -/
theorem next_afterLexeme
    {ended : Text}
    (ends : ended.EndsLexeme) :
    (afterLexeme offset ended).next = (unread offset ended).next := by
  cases ended with
  | nil =>
      rfl
  | cons stop later =>
      rcases Byte.blank_or_delimiter_of_not_isLexeme (ends stop rfl) with
        blank | ⟨token, delimits⟩
      · have free : afterLexeme offset (stop :: later) = unread (offset + 1) later := by
          simp [afterLexeme, unread, Byte.ofDelimiter?_eq_none_of_isBlank blank]
        rw [next_unread_blank offset blank, free]
      · rw [next_unread_delimiter offset delimits]
        simp [afterLexeme, next, delimits, unread]

section Lexeme

variable
  {lexeme ended : Text}
  (notEmpty : lexeme ≠ [])
  (inLexeme : ∀ byte ∈ lexeme, Byte.isLexeme byte = true)
  (ends : ended.EndsLexeme)

include notEmpty inLexeme ends

/-- A lexeme is taken as a whole. -/
theorem next_unread_lexeme :
    (unread offset (lexeme ++ ended)).next =
      match Token.ofLexeme? lexeme with
      | some token => (.ok (some token), afterLexeme (offset + lexeme.length) ended)
      | none =>
          (.error (.malformedToken lexeme offset),
            unread (offset + lexeme.length + (ended.take 1).length) (ended.drop 1)) := by
  have whole := ends.takeWhile_append inLexeme
  have left := ends.dropWhile_append inLexeme
  have reads :
      (unread offset (lexeme ++ ended)).next = readLexeme (lexeme ++ ended) offset := by
    obtain ⟨byte, more, rfl⟩ := List.exists_cons_of_ne_nil notEmpty
    have plain := Byte.plain_of_isLexeme (inLexeme byte List.mem_cons_self)
    simp [unread, next, plain]
  rw [reads, readLexeme]
  simp only [whole, left]
  rfl

end Lexeme

@[simp] theorem tokensFrom_nil :
    tokensFrom offset [] = .ok [] :=
  tokens_of_next_eq_end (next_unread_nil offset)

theorem tokensFrom_blank
    {byte : UInt8}
    (blank : Byte.isBlank byte = true)
    (rest : Text) :
    tokensFrom offset (byte :: rest) = tokensFrom (offset + 1) rest :=
  tokens_eq_of_next_eq (next_unread_blank offset blank rest)

theorem tokensFrom_delimiter
    {byte : UInt8}
    {token : Token}
    (delimits : Token.ofDelimiter? byte = some token)
    (rest : Text) :
    tokensFrom offset (byte :: rest) =
      (tokensFrom (offset + 1) rest).map (token :: ·) :=
  tokens_of_next_eq_token (next_unread_delimiter offset delimits rest)

/-- A lexeme is read as a whole, and what ended it is left to be read. -/
theorem tokensFrom_lexeme
    {lexeme rest : Text}
    (notEmpty : lexeme ≠ [])
    (inLexeme : ∀ byte ∈ lexeme, Byte.isLexeme byte = true)
    (ends : rest.EndsLexeme) :
    tokensFrom offset (lexeme ++ rest) =
      match Token.ofLexeme? lexeme with
      | some token => (tokensFrom (offset + lexeme.length) rest).map (token :: ·)
      | none => .error (.malformedToken lexeme offset) := by
  have reads := next_unread_lexeme offset notEmpty inLexeme ends
  cases read : Token.ofLexeme? lexeme with
  | none =>
      rw [read] at reads
      exact tokens_of_next_eq_error reads
  | some token =>
      rw [read] at reads
      have later :
          (afterLexeme (offset + lexeme.length) rest).tokens =
            tokensFrom (offset + lexeme.length) rest :=
        tokens_eq_of_next_eq (next_afterLexeme _ ends)
      have first := tokens_of_next_eq_token reads
      rw [later] at first
      exact first

/-- A blank or a delimiter cuts a text into two that are read apart. -/
theorem tokensFrom_append_cons
    {byte : UInt8}
    (separates : Byte.isLexeme byte = false)
    (first second : Text) :
    tokensFrom offset (first ++ byte :: second) =
      tokensFrom offset first >>= fun left =>
        tokensFrom (offset + first.length) (byte :: second) >>= fun right =>
          .ok (left ++ right) := by
  induction first using Text.induction generalizing offset with
  | empty =>
      rw [tokensFrom_nil]
      exact (bind_pure _).symm
  | blank blank rest isBlank inductionHypothesis =>
      have moved : offset + (blank :: rest).length = offset + 1 + rest.length := by
        rw [List.length_cons]
        omega
      rw [List.cons_append, tokensFrom_blank offset isBlank,
        tokensFrom_blank offset isBlank, inductionHypothesis, moved]
  | delimiter delimiter token rest delimits inductionHypothesis =>
      have moved : offset + (delimiter :: rest).length = offset + 1 + rest.length := by
        rw [List.length_cons]
        omega
      rw [List.cons_append, tokensFrom_delimiter offset delimits,
        tokensFrom_delimiter offset delimits, inductionHypothesis, moved,
        Outcome.map_bind_append]
  | lexeme lexeme rest notEmpty inLexeme ends inductionHypothesis =>
      have moved :
          offset + (lexeme ++ rest).length = offset + lexeme.length + rest.length := by
        rw [List.length_append]
        omega
      rw [List.append_assoc,
        tokensFrom_lexeme offset notEmpty inLexeme (ends.append_cons separates second),
        tokensFrom_lexeme offset notEmpty inLexeme ends]
      cases Token.ofLexeme? lexeme with
      | none =>
          rfl
      | some token =>
          simp only [inductionHypothesis, moved, Outcome.map_bind_append]

end Pieces

end Scanner

/-! ## Offsets -/

/-- A fault in a text that stands further to the right. -/
def ParseFault.moved (distance : Nat) : ParseFault → ParseFault
  | .malformedToken lexeme offset => .malformedToken lexeme (distance + offset)
  | fault => fault

namespace Scanner

/-- Further to the right a text has the same tokens, and faults there are moved. -/
theorem tokensFrom_add
    (distance offset : Nat)
    (text : Text) :
    tokensFrom (distance + offset) text =
      (tokensFrom offset text).mapError (.moved distance) := by
  induction text using Text.induction generalizing offset with
  | empty =>
      simp only [tokensFrom_nil]
      rfl
  | blank blank rest isBlank inductionHypothesis =>
      rw [tokensFrom_blank _ isBlank, tokensFrom_blank _ isBlank, Nat.add_assoc,
        inductionHypothesis]
  | delimiter delimiter token rest delimits inductionHypothesis =>
      rw [tokensFrom_delimiter _ delimits, tokensFrom_delimiter _ delimits, Nat.add_assoc,
        inductionHypothesis, Outcome.map_mapError]
  | lexeme lexeme rest notEmpty inLexeme ends inductionHypothesis =>
      rw [tokensFrom_lexeme _ notEmpty inLexeme ends,
        tokensFrom_lexeme _ notEmpty inLexeme ends, Nat.add_assoc]
      cases Token.ofLexeme? lexeme with
      | none =>
          rfl
      | some token =>
          simp only [inductionHypothesis, Outcome.map_mapError]

/-- A text that can be read has the same tokens wherever it stands. -/
theorem tokensFrom_of_tokenize
    {text : Text}
    {tokens : List Token}
    (reads : tokenize text = .ok tokens)
    (offset : Nat) :
    tokensFrom offset text = .ok tokens := by
  have atStart : tokensFrom 0 text = .ok tokens :=
    reads
  rw [← Nat.add_zero offset, tokensFrom_add, atStart]
  rfl

/-- A separator is read as its own token, if it has one, before what follows it. -/
theorem tokensFrom_cons_separator
    {byte : UInt8}
    (separates : Byte.isLexeme byte = false)
    (rest : Text)
    (offset : Nat) :
    tokensFrom offset (byte :: rest) =
      (tokensFrom (offset + 1) rest).map ((Token.ofDelimiter? byte).toList ++ ·) := by
  rcases Byte.blank_or_delimiter_of_not_isLexeme separates with
    blank | ⟨token, delimits⟩
  · rw [tokensFrom_blank offset blank, Byte.ofDelimiter?_eq_none_of_isBlank blank]
    cases tokensFrom (offset + 1) rest <;> rfl
  · rw [tokensFrom_delimiter offset delimits, delimits]
    rfl

theorem tokensFrom_separator
    {byte : UInt8}
    (separates : Byte.isLexeme byte = false)
    {rest : Text}
    {tokens : List Token}
    (reads : tokenize rest = .ok tokens)
    (offset : Nat) :
    tokensFrom offset (byte :: rest) =
      .ok ((Token.ofDelimiter? byte).toList ++ tokens) := by
  rw [tokensFrom_cons_separator separates, tokensFrom_of_tokenize reads, Outcome.map_ok]

end Scanner

/-- A formula is read by answering until its end. -/
theorem tokenize_of_answers
    {formula : Text}
    {tokens : List Token}
    (delivered :
      (Scanner.start formula).answers (tokens.length + 1) =
        tokens.map (fun token => .ok (some token)) ++ [.ok none]) :
    tokenize formula = .ok tokens :=
  Scanner.tokens_of_answers delivered

/-- Texts that can be read can be read side by side. -/
theorem tokenize_append_cons
    {first second : Text}
    {left right : List Token}
    (readsFirst : tokenize first = .ok left)
    {byte : UInt8}
    (separates : Byte.isLexeme byte = false)
    (readsSecond : tokenize second = .ok right) :
    tokenize (first ++ byte :: second) =
      .ok (left ++ ((Token.ofDelimiter? byte).toList ++ right)) := by
  have cut := Scanner.tokensFrom_append_cons 0 separates first second
  rw [Scanner.tokensFrom_of_tokenize readsFirst,
    Scanner.tokensFrom_separator separates readsSecond] at cut
  exact cut

/-- A whole lexeme is read as one token. -/
theorem tokenize_of_ofLexeme?
    {lexeme : Text}
    {token : Token}
    (notEmpty : lexeme ≠ [])
    (inLexeme : ∀ byte ∈ lexeme, Byte.isLexeme byte = true)
    (reads : Token.ofLexeme? lexeme = some token) :
    tokenize lexeme = .ok [token] := by
  have atEnd : Text.EndsLexeme [] := by
    simp [Text.EndsLexeme]
  have alone := Scanner.tokensFrom_lexeme 0 notEmpty inLexeme atEnd
  rw [List.append_nil, reads, Scanner.tokensFrom_nil] at alone
  exact alone

/-- An identifier is read as one name. -/
theorem tokenize_of_isIdentifier
    {name : Text}
    (identifier : isIdentifier name = true) :
    tokenize name = .ok [.bareName name] := by
  simp only [isIdentifier, Bool.and_eq_true, bne_iff_ne, ne_eq, Bool.not_eq_true',
    List.all_eq_true, Option.isNone_iff_eq_none] at identifier
  obtain ⟨⟨⟨notEmpty, noDigit⟩, inLexeme⟩, noNumber⟩ := identifier
  exact tokenize_of_ofLexeme? notEmpty inLexeme (by simp [Token.ofLexeme?, noDigit, noNumber])

/-- A delimiter is read as its own token. -/
theorem tokenize_of_ofDelimiter?
    {byte : UInt8}
    {token : Token}
    (delimits : Token.ofDelimiter? byte = some token) :
    tokenize [byte] = .ok [token] := by
  have alone := Scanner.tokensFrom_delimiter 0 delimits []
  rw [Scanner.tokensFrom_nil] at alone
  exact alone

end Reckoner
