import Reckoner.Postfix

/-!
# Cues of tokens side by side

Cues depend on neighbours only where a name meets an opening parenthesis and
where a closing parenthesis may follow an opening one. Cut anywhere else, a list
of tokens has the cues of its parts one after the other.
-/

namespace Reckoner

namespace Cue

variable
  (afterOpen : Bool)
  {rest : List Token}

@[simp] theorem ofTokensAfter_number
    (text : Text)
    (value : Binary64) :
    ofTokensAfter afterOpen (.number text value :: rest) =
      .operand (.number text value) :: ofTokensAfter false rest := by
  simp [ofTokensAfter]

/-- A name that no parenthesis follows is an operand. -/
theorem ofTokensAfter_name
    (text : Text)
    (arguments : Int)
    (notCalled : rest.head? ≠ some .openParen) :
    ofTokensAfter afterOpen (.name text arguments :: rest) =
      .operand (.name text arguments) :: ofTokensAfter false rest := by
  cases rest with
  | nil =>
      rfl
  | cons token later =>
      cases token with
      | openParen =>
          exact absurd rfl notCalled
      | _ =>
          rfl

@[simp] theorem ofTokensAfter_call
    (text : Text)
    (arguments : Int) :
    ofTokensAfter afterOpen (.name text arguments :: .openParen :: rest) =
      .beginCall text arguments :: ofTokensAfter true rest :=
  rfl

@[simp] theorem ofTokensAfter_operator
    (symbol : UInt8) :
    ofTokensAfter afterOpen (.operator symbol :: rest) =
      .operator symbol :: ofTokensAfter false rest := by
  simp [ofTokensAfter]

@[simp] theorem ofTokensAfter_openParen :
    ofTokensAfter afterOpen (.openParen :: rest) =
      .beginGroup :: ofTokensAfter true rest := by
  simp [ofTokensAfter]

@[simp] theorem ofTokensAfter_comma :
    ofTokensAfter afterOpen (.comma :: rest) =
      .nextArgument :: ofTokensAfter false rest := by
  simp [ofTokensAfter]

@[simp] theorem ofTokensAfter_closeParen :
    ofTokensAfter afterOpen (.closeParen :: rest) =
      .close afterOpen :: ofTokensAfter false rest := by
  simp [ofTokensAfter]

/-- The tokens that a cue stands for. -/
def reads : Cue → List Token
  | .operand token => [token]
  | .operator symbol => [.operator symbol]
  | .beginCall name arguments => [.name name arguments, .openParen]
  | .beginGroup => [.openParen]
  | .nextArgument => [.comma]
  | .close _ => [.closeParen]

theorem head?_ne_openParen
    {rest : List Token}
    (apart : ∀ later, rest = .openParen :: later → False) :
    rest.head? ≠ some .openParen := by
  intro called
  obtain ⟨later, same⟩ := List.head?_eq_some_iff.mp called
  exact apart later same

/-- The cues of tokens stand for exactly these tokens, in order. -/
theorem flatMap_reads
    (tokens : List Token) :
    (ofTokensAfter afterOpen tokens).flatMap reads = tokens := by
  induction afterOpen, tokens using ofTokensAfter.induct with
  | case1 =>
      rfl
  | case3 _ text arguments rest apart inductionHypothesis =>
      rw [ofTokensAfter_name _ _ _ (head?_ne_openParen apart)]
      simp [reads, inductionHypothesis]
  | case2 _ _ _ _ inductionHypothesis
  | case4 _ _ _ _ inductionHypothesis
  | case5 _ _ _ inductionHypothesis
  | case6 _ _ inductionHypothesis
  | case7 _ _ inductionHypothesis
  | case8 _ _ inductionHypothesis =>
      simp [reads, inductionHypothesis]

theorem reads_subset
    (tokens : List Token) :
    ∀ cue ∈ ofTokensAfter afterOpen tokens, cue.reads ⊆ tokens := by
  intro cue member token read
  rw [← flatMap_reads afterOpen tokens]
  exact List.mem_flatMap.mpr ⟨cue, member, read⟩

/-- Whether a token after these tokens follows an opening parenthesis directly. -/
def endsOpen : Bool → List Token → Bool
  | afterOpen, [] => afterOpen
  | _, token :: rest => endsOpen (token = .openParen) rest

/-- No name at the end of the first tokens is called by a parenthesis before the second. -/
def Uncalled (first second : List Token) : Prop :=
  (∀ text arguments, first.getLast? ≠ some (.name text arguments)) ∨
    second.head? ≠ some .openParen

namespace Uncalled

variable
  {token : Token}
  {rest second : List Token}

theorem tail
    (uncalled : Uncalled (token :: rest) second) :
    Uncalled rest second := by
  cases rest with
  | nil =>
      exact .inl (by simp)
  | cons next later =>
      simpa [Uncalled] using uncalled

/-- A name that is not called by its own neighbour is not called after the cut. -/
theorem head?_append_ne
    {text : Text}
    {arguments : Int}
    (uncalled : Uncalled (.name text arguments :: rest) second)
    (apart : rest.head? ≠ some .openParen) :
    (rest ++ second).head? ≠ some .openParen := by
  cases rest with
  | nil =>
      rcases uncalled with noName | noParen
      · exact (noName text arguments rfl).elim
      · exact noParen
  | cons next later =>
      exact apart

end Uncalled

/-- Tokens may be cut anywhere but between a name and the parenthesis of its call. -/
theorem ofTokensAfter_append
    {first second : List Token}
    (uncalled : Uncalled first second) :
    ofTokensAfter afterOpen (first ++ second) =
      ofTokensAfter afterOpen first ++
        ofTokensAfter (endsOpen afterOpen first) second := by
  induction afterOpen, first using ofTokensAfter.induct with
  | case1 =>
      rfl
  | case2 _ _ _ _ inductionHypothesis =>
      simp [inductionHypothesis uncalled.tail.tail, endsOpen]
  | case3 _ text arguments rest apart inductionHypothesis =>
      have notCalled := head?_ne_openParen apart
      rw [List.cons_append, ofTokensAfter_name _ _ _ notCalled,
        ofTokensAfter_name _ _ _ (uncalled.head?_append_ne notCalled),
        inductionHypothesis uncalled.tail]
      simp [endsOpen]
  | case4 _ _ _ _ inductionHypothesis
  | case5 _ _ _ inductionHypothesis
  | case6 _ _ inductionHypothesis
  | case7 _ _ inductionHypothesis
  | case8 _ _ inductionHypothesis =>
      simp [inductionHypothesis uncalled.tail, endsOpen]

/-- Only a closing parenthesis at the front minds what stands before it. -/
theorem ofTokensAfter_eq_of_head?
    {tokens : List Token}
    (notClosing : tokens.head? ≠ some .closeParen)
    (other : Bool) :
    ofTokensAfter afterOpen tokens = ofTokensAfter other tokens := by
  cases tokens with
  | nil =>
      rfl
  | cons token rest =>
      cases token with
      | name text arguments =>
          cases rest with
          | nil =>
              rfl
          | cons next later =>
              cases next <;> rfl
      | closeParen =>
          exact absurd rfl notClosing
      | _ =>
          simp

end Cue

end Reckoner
