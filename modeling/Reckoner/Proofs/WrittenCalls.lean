import Reckoner.Proofs.Blocks
import Reckoner.Proofs.Juxtaposition
import Reckoner.Proofs.Spelling

/-!
# Calls as they are written

A call is written as its name with the texts of its arguments between
parentheses, separated by commas. If every argument can be read and converted
by itself, the postfix sequence of the call consists of the blocks of its
arguments, one after the other, and its name with their number.
-/

namespace Reckoner

/-- A call as it is written. -/
def Text.call (name : Text) (arguments : List Text) : Text :=
  name ++ Byte.openParen :: (Text.joined [Byte.comma] arguments ++ [Byte.closeParen])

/-- A text between parentheses. -/
def Text.parenthesized (text : Text) : Text :=
  Byte.openParen :: (text ++ [Byte.closeParen])

/-- A text between parentheses has its own tokens between parentheses. -/
theorem tokenize_parenthesized
    {text : Text}
    {tokens : List Token}
    (reads : tokenize text = .ok tokens) :
    tokenize text.parenthesized = .ok (.openParen :: (tokens ++ [.closeParen])) := by
  have closes : tokenize (text ++ [Byte.closeParen]) = .ok (tokens ++ [.closeParen]) :=
    tokenize_append_cons reads rfl (Scanner.tokensFrom_nil 0)
  exact tokenize_append_cons (Scanner.tokensFrom_nil 0) rfl closes

/-! ## Arguments -/

/-- The text of an argument with its tokens and the block that they are put out as. -/
structure WrittenArgument where
  text : Text
  tokens : List Token
  block : List Token
  nonempty : tokens ≠ []
  reads : tokenize text = .ok tokens
  converted : toPostfix tokens = .ok block

namespace WrittenArgument

/-- A text that can be converted, between parentheses. -/
def group
    (text : Text)
    (tokens block : List Token)
    (reads : tokenize text = .ok tokens)
    (converted : toPostfix tokens = .ok block) :
    WrittenArgument where
  text := text.parenthesized
  tokens := .openParen :: (tokens ++ [.closeParen])
  block := block
  nonempty := List.cons_ne_nil _ _
  reads := tokenize_parenthesized reads
  converted := by
    have puts :
        toPostfix ([] ++ (.openParen :: (tokens ++ [.closeParen]) ++ [])) = _ :=
      Conversion.toPostfix_group (by simp) converted
    rw [Conversion.surroundings_nil] at puts
    simpa using puts

/-- A name that is not called. -/
def bareName (name : Text) (identifier : isIdentifier name = true) : WrittenArgument where
  text := name
  tokens := [.bareName name]
  block := [.bareName name]
  nonempty := List.cons_ne_nil _ _
  reads := tokenize_of_isIdentifier identifier
  converted := rfl

/-- The tokens of arguments, with a comma between neighbours. -/
def separated (arguments : List WrittenArgument) : List Token :=
  ((arguments.map tokens).intersperse [.comma]).flatten

/-- The blocks of arguments, one after the other. -/
def blocks (arguments : List WrittenArgument) : List Token :=
  arguments.flatMap block

@[simp] theorem separated_singleton
    (argument : WrittenArgument) :
    separated [argument] = argument.tokens := by
  simp [separated]

@[simp] theorem separated_cons_cons
    (argument next : WrittenArgument)
    (rest : List WrittenArgument) :
    separated (argument :: next :: rest) =
      argument.tokens ++ .comma :: separated (next :: rest) := by
  simp [separated]

@[simp] theorem blocks_cons
    (argument : WrittenArgument)
    (rest : List WrittenArgument) :
    blocks (argument :: rest) = argument.block ++ blocks rest :=
  rfl

@[simp] theorem blocks_append
    (first second : List WrittenArgument) :
    blocks (first ++ second) = blocks first ++ blocks second :=
  List.flatMap_append

theorem forall₂_tokenize
    (arguments : List WrittenArgument) :
    List.Forall₂ (fun text tokens => tokenize text = .ok tokens)
      (arguments.map text) (arguments.map tokens) := by
  rw [List.forall₂_map_left_iff, List.forall₂_map_right_iff, List.forall₂_same]
  intro argument _
  exact argument.reads

/-- Arguments with commas between them, and blanks or none behind these, are read one by one. -/
theorem tokenize_joined
    {blanks : Text}
    (areBlank : ∀ byte ∈ blanks, Byte.isBlank byte = true)
    (arguments : List WrittenArgument) :
    tokenize (Text.joined (Byte.comma :: blanks) (arguments.map text)) =
      .ok (separated arguments) :=
  Reckoner.tokenize_joined rfl areBlank (forall₂_tokenize arguments)

/-- The tokens of arguments separated by commas are divided into the arguments again. -/
theorem separatedInto
    (argument : WrittenArgument)
    (rest : List WrittenArgument) :
    SeparatedInto (separated (argument :: rest)) ((argument :: rest).map tokens) := by
  induction rest generalizing argument with
  | nil =>
      have bracketed := wellBracketed_of_toPostfix argument.converted
      rw [separated_singleton]
      exact .last bracketed.enclosed bracketed.undivided
  | cons next later inductionHypothesis =>
      have bracketed := wellBracketed_of_toPostfix argument.converted
      rw [separated_cons_cons]
      exact .more bracketed.enclosed bracketed.undivided (inductionHypothesis next)

theorem mapM_toPostfix
    (arguments : List WrittenArgument) :
    (arguments.map tokens).mapM toPostfix = .ok (arguments.map block) := by
  induction arguments with
  | nil =>
      rfl
  | cons argument rest inductionHypothesis =>
      exact Outcome.mapM_cons_eq_ok_iff.mpr
        ⟨argument.block, rest.map block, argument.converted, inductionHypothesis, rfl⟩

theorem separated_ne_nil
    (argument : WrittenArgument)
    (rest : List WrittenArgument) :
    separated (argument :: rest) ≠ [] := by
  cases rest with
  | nil =>
      rw [separated_singleton]
      exact argument.nonempty
  | cons next later =>
      rw [separated_cons_cons]
      simp

end WrittenArgument

/-! ## Calls -/

/-- A call is read as its name and, between parentheses, the tokens of its arguments. -/
theorem tokenize_textCall
    {name : Text}
    (identifier : isIdentifier name = true)
    (arguments : List WrittenArgument) :
    tokenize (Text.call name (arguments.map WrittenArgument.text)) =
      .ok (.bareName name :: .openParen ::
        (WrittenArgument.separated arguments ++ [.closeParen])) :=
  tokenize_call identifier (WrittenArgument.tokenize_joined (by simp) arguments)

/-- A call of arguments has their blocks as its postfix sequence, and then its name. -/
theorem toPostfix_textCall
    (name : Text)
    (arguments : List WrittenArgument) :
    toPostfix
        (.bareName name :: .openParen ::
          (WrittenArgument.separated arguments ++ [.closeParen])) =
      .ok (WrittenArgument.blocks arguments ++ [.name name arguments.length]) := by
  cases arguments with
  | nil =>
      rfl
  | cons argument rest =>
      have separated := WrittenArgument.separatedInto argument rest
      have counted :
          argumentsIn (WrittenArgument.separated (argument :: rest)) =
            (argument :: rest).length := by
        rw [separated.argumentsIn_eq, if_neg (WrittenArgument.separated_ne_nil argument rest),
          List.length_map]
      have puts :
          toPostfix
              ([] ++
                (.name name (-1) :: .openParen ::
                    (WrittenArgument.separated (argument :: rest) ++ [.closeParen]) ++ [])) =
            _ :=
        Conversion.toPostfix_call separated
          (WrittenArgument.mapM_toPostfix (argument :: rest)) name (-1)
      rw [Conversion.surroundings_nil, counted] at puts
      simpa [WrittenArgument.blocks, List.flatMap, Token.bareName] using puts

end Reckoner
