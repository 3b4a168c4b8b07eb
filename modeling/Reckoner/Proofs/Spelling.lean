import Reckoner.Function
import Reckoner.Proofs.RoundTrip
import Reckoner.Proofs.Segments

/-!
# Identifiers are the names that formulas spell

Two judges decide what a name is: a function table looks at the bytes of the
name, and a scanner cuts a formula into lexemes and asks what each one is. They
agree about every text, so a function that is registered can be called, and a
name that is read can be registered.
-/

namespace Reckoner

/-! ## Names that can be registered -/

/-- A table accepts every identifier with a body and no more defaults than parameters. -/
theorem FunctionTable.exists_register_eq_ok_iff
    (table : FunctionTable)
    (name : Text)
    (arity : Nat)
    (defaults : List Binary64)
    (body? : Option Body) :
    (∃ extended, table.register name arity defaults body? = .ok extended) ↔
      isIdentifier name = true ∧ body?.isSome = true ∧ defaults.length ≤ arity := by
  unfold register
  by_cases identifier : isIdentifier name = true
  · rw [dif_pos identifier]
    cases body? with
    | none =>
        simp
    | some body =>
        by_cases fits : defaults.length ≤ arity <;> simp [identifier, fits]
  · simp [identifier]

/-! ## Names that are read -/

/-- A text is an identifier exactly if it is read as one name. -/
theorem isIdentifier_iff_exists_name
    (text : Text) :
    isIdentifier text = true ↔ ∃ arguments, tokenize text = .ok [.name text arguments] := by
  constructor
  · intro identifier
    exact ⟨-1, tokenize_of_isIdentifier identifier⟩
  · rintro ⟨arguments, reads⟩
    have wellFormed : (Token.name text arguments).WellFormed :=
      Scanner.wellFormed_of_tokensFrom reads _ List.mem_cons_self
    exact wellFormed.2

/-- A call of an identifier is read as its name, a parenthesis, the arguments and a parenthesis. -/
theorem tokenize_call
    {name inner : Text}
    {tokens : List Token}
    (identifier : isIdentifier name = true)
    (reads : tokenize inner = .ok tokens) :
    tokenize (name ++ Byte.openParen :: (inner ++ [Byte.closeParen])) =
      .ok (.bareName name :: .openParen :: (tokens ++ [.closeParen])) := by
  have closes : tokenize (inner ++ [Byte.closeParen]) = .ok (tokens ++ [.closeParen]) :=
    tokenize_append_cons reads rfl (Scanner.tokensFrom_nil 0)
  exact tokenize_append_cons (tokenize_of_isIdentifier identifier) rfl closes

/-- Every token that a segment of a text is read as is well formed. -/
theorem Segment.wellFormed_of_answer
    (offset : Nat)
    (text : Text) :
    ∀ segment ∈ segmentsFrom offset text,
      ∀ token, segment.answer = .ok token → token.WellFormed := by
  induction text using Text.induction generalizing offset with
  | empty =>
      simp
  | blank byte rest blank inductionHypothesis =>
      rw [segmentsFrom_blank offset blank]
      exact inductionHypothesis _
  | delimiter byte delimiter rest delimits inductionHypothesis =>
      rw [segmentsFrom_delimiter offset delimits]
      refine List.forall_mem_cons.mpr ⟨?_, inductionHypothesis _⟩
      intro token answers
      cases answers
      exact Token.wellFormed_of_ofDelimiter? delimits
  | lexeme lexeme ended notEmpty inLexeme ends inductionHypothesis =>
      rw [segmentsFrom_lexeme offset notEmpty inLexeme ends]
      refine List.forall_mem_cons.mpr ⟨?_, inductionHypothesis _⟩
      intro token answers
      rw [answer_lexeme] at answers
      cases read : Token.ofLexeme? lexeme with
      | none =>
          rw [read] at answers
          cases answers
      | some other =>
          rw [read] at answers
          cases answers
          exact Token.wellFormed_of_ofLexeme? notEmpty inLexeme read

/-- A list of answers is filled up with nothing but the end. -/
theorem Scanner.mem_of_mem_takeD
    {answers : List (Except ParseFault (Option Token))}
    {count : Nat}
    {token : Token}
    (member : .ok (some token) ∈ answers.takeD count (.ok none)) :
    .ok (some token) ∈ answers := by
  induction count generalizing answers with
  | zero =>
      cases member
  | succ count inductionHypothesis =>
      cases answers with
      | nil =>
          simp at member
      | cons first rest =>
          rcases List.mem_cons.mp member with isFirst | inRest
          · rw [isFirst]
            exact List.mem_cons_self
          · exact List.mem_cons_of_mem _ (inductionHypothesis inRest)

/-- A scanner delivers no token that is not well formed, also after malformed lexemes. -/
theorem Scanner.wellFormed_of_mem_answers
    {formula : Text}
    {count : Nat}
    {token : Token}
    (delivers : .ok (some token) ∈ (start formula).answers count) :
    token.WellFormed := by
  have answers : (start formula).answers count = _ :=
    answers_unread 0 count formula
  rw [answers] at delivers
  have answered :
      .ok (some token) ∈ (delivered (segments formula)).map fun segment =>
        segment.answer.map some :=
    mem_of_mem_takeD delivers
  obtain ⟨segment, member, told⟩ := List.mem_map.mp answered
  obtain ⟨_, answer, ⟨⟩⟩ := Outcome.map_eq_ok_iff.mp told
  exact Segment.wellFormed_of_answer 0 formula segment
    ((deliveredAfter_sublist none _).subset member) token answer

/--
Tables and formulas agree on what a name is. A text is an identifier exactly if
it is read as one name; a name that a table accepts can be called with every
text that can be read; and every name that a scanner ever delivers is accepted.
-/
theorem identifiers_spell_names :
    (∀ text,
        isIdentifier text = true ↔ ∃ arguments, tokenize text = .ok [.name text arguments]) ∧
      (∀ (table extended : FunctionTable) name arity defaults body?,
        table.register name arity defaults body? = .ok extended →
        ∀ inner tokens,
          tokenize inner = .ok tokens →
          tokenize (name ++ Byte.openParen :: (inner ++ [Byte.closeParen])) =
            .ok (.bareName name :: .openParen :: (tokens ++ [.closeParen]))) ∧
      ∀ formula count name arguments,
        .ok (some (.name name arguments)) ∈ (Scanner.start formula).answers count →
        ∀ (table : FunctionTable) arity defaults body,
          defaults.length ≤ arity →
          ∃ extended, table.register name arity defaults (some body) = .ok extended := by
  refine ⟨isIdentifier_iff_exists_name, ?_, ?_⟩
  · intro table extended name arity defaults body? registers inner tokens reads
    have accepted :=
      (table.exists_register_eq_ok_iff name arity defaults body?).mp ⟨extended, registers⟩
    exact tokenize_call accepted.1 reads
  · intro formula count name arguments delivers table arity defaults body fits
    have wellFormed : (Token.name name arguments).WellFormed :=
      Scanner.wellFormed_of_mem_answers delivers
    exact (table.exists_register_eq_ok_iff name arity defaults (some body)).mpr
      ⟨wellFormed.2, rfl, fits⟩

end Reckoner
