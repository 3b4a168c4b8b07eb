import Reckoner.Proofs.Separation

/-!
# Written tokens are read back

Tokens written with spaces between them are read back unchanged exactly if each
of them could have been read from a formula (`Token.WellFormed`). So what has
been read once is written and read from then on without any change.
-/

namespace Reckoner

namespace Token

/--
Whether a token can be read from a formula: a number is the value of its text,
which is one lexeme, and a name is an identifier without a number of arguments.
-/
def WellFormed : Token → Prop
  | .number text value =>
      parseNumber? text = some value ∧ ∀ byte ∈ text, Byte.isLexeme byte = true
  | .name text arguments => arguments = -1 ∧ isIdentifier text = true
  | .operator symbol => Byte.isOperator symbol = true
  | .openParen => True
  | .closeParen => True
  | .comma => True

/-- The token of an operator is that of its byte. -/
theorem ofDelimiter?_of_isOperator
    {symbol : UInt8}
    (writes : Byte.isOperator symbol = true) :
    ofDelimiter? symbol = some (.operator symbol) := by
  obtain ⟨operator, reads⟩ := Option.isSome_iff_exists.mp writes
  rw [← Operator.symbol_of_ofSymbol? reads]
  cases operator <;> rfl

/-! ## What is read is well formed -/

theorem wellFormed_of_ofDelimiter?
    {byte : UInt8}
    {token : Token}
    (delimits : ofDelimiter? byte = some token) :
    token.WellFormed := by
  unfold ofDelimiter? at delimits
  split at delimits
  · cases delimits
    trivial
  · split at delimits
    · cases delimits
      trivial
    · split at delimits
      · cases delimits
        trivial
      · split at delimits
        · next writes =>
            cases delimits
            exact writes
        · cases delimits

theorem wellFormed_of_ofLexeme?
    {lexeme : Text}
    {token : Token}
    (notEmpty : lexeme ≠ [])
    (inLexeme : ∀ byte ∈ lexeme, Byte.isLexeme byte = true)
    (reads : ofLexeme? lexeme = some token) :
    token.WellFormed := by
  cases number : parseNumber? lexeme with
  | some value =>
      simp only [ofLexeme?, number, Option.some.injEq] at reads
      subst reads
      exact ⟨number, inLexeme⟩
  | none =>
      simp only [ofLexeme?, number, Option.ite_none_left_eq_some, Option.some.injEq] at reads
      obtain ⟨noDigit, rfl⟩ := reads
      refine ⟨rfl, ?_⟩
      simpa [isIdentifier, notEmpty, noDigit, number] using inLexeme

end Token

/-- Every token of a text is well formed. -/
theorem Scanner.wellFormed_of_tokensFrom
    {offset : Nat}
    {text : Text}
    {tokens : List Token}
    (reads : tokensFrom offset text = .ok tokens) :
    ∀ token ∈ tokens, token.WellFormed := by
  induction text using Text.induction generalizing offset tokens with
  | empty =>
      rw [tokensFrom_nil] at reads
      cases reads
      simp
  | blank byte rest blank inductionHypothesis =>
      rw [tokensFrom_blank offset blank] at reads
      exact inductionHypothesis reads
  | delimiter byte token rest delimits inductionHypothesis =>
      rw [tokensFrom_delimiter offset delimits] at reads
      obtain ⟨later, restReads, rfl⟩ := Outcome.map_eq_ok_iff.mp reads
      exact List.forall_mem_cons.mpr
        ⟨Token.wellFormed_of_ofDelimiter? delimits, inductionHypothesis restReads⟩
  | lexeme lexeme ended notEmpty inLexeme ends inductionHypothesis =>
      rw [tokensFrom_lexeme offset notEmpty inLexeme ends] at reads
      cases read : Token.ofLexeme? lexeme with
      | none =>
          rw [read] at reads
          cases reads
      | some token =>
          rw [read] at reads
          obtain ⟨later, restReads, rfl⟩ := Outcome.map_eq_ok_iff.mp reads
          exact List.forall_mem_cons.mpr
            ⟨Token.wellFormed_of_ofLexeme? notEmpty inLexeme read,
              inductionHypothesis restReads⟩

/-! ## What is well formed is read back -/

/-- A well-formed token is read back from what it writes. -/
theorem tokenize_written
    {token : Token}
    (wellFormed : token.WellFormed) :
    tokenize token.written = .ok [token] := by
  cases token with
  | number text value =>
      obtain ⟨number, inLexeme⟩ := wellFormed
      have notEmpty : text ≠ [] := by
        rintro rfl
        cases number
      exact tokenize_of_ofLexeme? notEmpty inLexeme (by
        simp [Token.ofLexeme?, Token.written, number])
  | name text arguments =>
      obtain ⟨rfl, identifier⟩ := wellFormed
      exact tokenize_of_isIdentifier identifier
  | operator symbol =>
      exact tokenize_of_ofDelimiter? (Token.ofDelimiter?_of_isOperator wellFormed)
  | openParen =>
      exact tokenize_of_ofDelimiter? rfl
  | closeParen =>
      exact tokenize_of_ofDelimiter? rfl
  | comma =>
      exact tokenize_of_ofDelimiter? rfl

theorem tokenize_writtenAll
    {tokens : List Token}
    (wellFormed : ∀ token ∈ tokens, token.WellFormed) :
    tokenize (Token.writtenAll tokens) = .ok tokens := by
  induction tokens with
  | nil =>
      exact Scanner.tokensFrom_nil 0
  | cons token rest inductionHypothesis =>
      obtain ⟨first, others⟩ := List.forall_mem_cons.mp wellFormed
      cases rest with
      | nil =>
          simpa [Token.writtenAll, Text.joined] using tokenize_written first
      | cons next later =>
          have writes :
              Token.writtenAll (token :: next :: later) =
                token.written ++ Byte.space :: Token.writtenAll (next :: later) := by
            simp [Token.writtenAll, Text.joined]
          rw [writes,
            tokenize_append_cons (tokenize_written first) rfl (inductionHypothesis others)]
          rfl

/-- A formula as its tokens write it. -/
def rewritten (formula : Text) : Except ParseFault Text :=
  (tokenize formula).map Token.writtenAll

/-- A formula that has been rewritten once is not changed by rewriting it again. -/
theorem rewritten_bind_rewritten
    (formula : Text) :
    rewritten formula >>= rewritten = rewritten formula := by
  cases read : tokenize formula with
  | error fault =>
      simp [rewritten, read]
  | ok tokens =>
      have again := tokenize_writtenAll (Scanner.wellFormed_of_tokensFrom read)
      simp [rewritten, read, again]

/--
Reading delivers well-formed tokens, and exactly these are read back from what
they write; so writing a formula out of its tokens keeps its tokens and, done
twice, is the same as done once.
-/
theorem roundTrip_of_wellFormed :
    (∀ formula tokens,
        tokenize formula = .ok tokens → ∀ token ∈ tokens, token.WellFormed) ∧
      (∀ tokens,
        tokenize (Token.writtenAll tokens) = .ok tokens ↔
          ∀ token ∈ tokens, token.WellFormed) ∧
      (∀ formula tokens,
        tokenize formula = .ok tokens → tokenize (Token.writtenAll tokens) = .ok tokens) ∧
      ∀ formula, rewritten formula >>= rewritten = rewritten formula := by
  have wellFormed :
      ∀ formula tokens,
        tokenize formula = .ok tokens → ∀ token ∈ tokens, token.WellFormed :=
    fun _ _ read => Scanner.wellFormed_of_tokensFrom read
  refine ⟨wellFormed, ?_, ?_, rewritten_bind_rewritten⟩
  · intro tokens
    exact ⟨wellFormed _ tokens, tokenize_writtenAll⟩
  · intro formula tokens read
    exact tokenize_writtenAll (wellFormed formula tokens read)

end Reckoner
