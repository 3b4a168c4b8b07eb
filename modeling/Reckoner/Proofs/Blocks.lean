import Reckoner.Proofs.Conservation
import Reckoner.Proofs.Enclosures

/-!
# Parentheses become blocks

What a pair of parentheses encloses is put out as one block, in the order in
which it would be put out by itself, and what is put out around the block does
not depend on what is in it. The block of a call consists of the blocks of its
arguments, one after the other, and the name of the call follows directly, with
the number of the arguments.
-/

namespace Reckoner

/-! ## Runs over arguments -/

/-- Whether tokens end in an opening parenthesis depends on the last of them. -/
theorem Cue.endsOpen_append_cons
    (afterOpen : Bool)
    (first second : List Token)
    (token : Token) :
    endsOpen afterOpen (first ++ token :: second) = endsOpen (token = .openParen) second := by
  induction first generalizing afterOpen with
  | nil =>
      rfl
  | cons other rest inductionHypothesis =>
      exact inductionHypothesis (other = .openParen)

/-- Enclosed tokens that follow an opening parenthesis end in one only if there are none. -/
theorem Enclosed.endsOpen_iff
    {inside : List Token}
    (enclosed : Enclosed inside) :
    Cue.endsOpen true inside = true ↔ inside = [] := by
  rcases List.eq_nil_or_concat inside with rfl | ⟨first, token, rfl⟩
  · simp [Cue.endsOpen]
  · have notOpen : token ≠ .openParen := by
      rintro rfl
      have noneOpen := enclosed.passedOver.1
      simp [Opening.outside?] at noneOpen
    simp [Cue.endsOpen_append_cons, Cue.endsOpen, notOpen]

namespace Conversion

section Calls

variable
  {outer : Conversion}
  (below : outer.CallsBelow)
  (name : Text)
  (original : Int)

include below

/-- Inside a call an argument is converted as if it stood alone. -/
theorem exists_run_argument
    {argument block : List Token}
    (converted : toPostfix argument = .ok block)
    (commas : Nat)
    (afterOpen : Bool) :
    ∃ state inside,
      run (Cue.ofTokensAfter afterOpen argument) (outer.insideCall name original commas) =
          .ok state ∧
        (∀ token ∈ inside, isInside token = true) ∧
        state.waiting = inside ++ .openParen :: .name name original :: outer.waiting ∧
        state.calls = { depth := outer.waiting.length + 1, commas := commas } :: outer.calls ∧
        inside.reverse ++ state.output = block.reverse ++ outer.output := by
  obtain ⟨last, runs, noCalls, inside, output⟩ := exists_run_of_toPostfix converted
  let caller : Conversion := {
    output := outer.output
    waiting := .name name original :: outer.waiting
    calls := { depth := outer.waiting.length + 1, commas := commas } :: outer.calls
  }
  have upTo : caller.CallsUpTo := by
    intro frame member
    rcases List.mem_cons.mp member with rfl | isOuter
    · exact Nat.le_refl _
    · exact Nat.le_succ_of_le (Nat.le_of_lt (below frame isOuter))
  have entered : caller.within start = outer.insideCall name original commas :=
    rfl
  have runsInside := run_within upTo runs
  have sameCues :
      Cue.ofTokensAfter afterOpen argument = Cue.ofTokens argument :=
    Cue.ofTokensAfter_eq_of_head? afterOpen (head?_ne_closeParen_of_toPostfix converted) false
  refine ⟨caller.within last, last.waiting, ?_, inside, rfl, ?_, ?_⟩
  · rw [sameCues, ← entered, runsInside]
  · rw [within, noCalls]
    rfl
  · rw [within, ← List.append_assoc, output]

section Argument

variable
  {argument block : List Token}
  (converted : toPostfix argument = .ok block)
  (commas : Nat)
  (afterOpen : Bool)
  (rest : List Token)

include converted

/-- A comma ends an argument, whose block has been put out by then. -/
theorem run_argument_comma :
    run (Cue.ofTokensAfter afterOpen (argument ++ .comma :: rest))
        (outer.insideCall name original commas) =
      run (Cue.ofTokensAfter false rest)
        ((outer.emitAll block).insideCall name original (commas + 1)) := by
  obtain ⟨state, inside, runs, moved, waiting, calls, output⟩ :=
    exists_run_argument below name original converted commas afterOpen
  have ends : step state .nextArgument = .ok _ :=
    endArgument_call waiting moved calls rfl
  rw [Cue.ofTokensAfter_append afterOpen (.inr (by simp)), run_append, runs, Outcome.ok_bind,
    Cue.ofTokensAfter_comma, run_cons_of_step ends, output]
  rfl

/-- The closing parenthesis ends the last argument and puts out the name of the call. -/
theorem run_argument_closeParen :
    run (Cue.ofTokensAfter afterOpen (argument ++ .closeParen :: rest))
        (outer.insideCall name original commas) =
      run (Cue.ofTokensAfter false rest)
        (outer.emitAll
          (block ++
            [.name name (if Cue.endsOpen afterOpen argument then 0 else commas + 1 : Nat)])) := by
  obtain ⟨state, inside, runs, moved, waiting, calls, output⟩ :=
    exists_run_argument below name original converted commas afterOpen
  have closes : step state (.close (Cue.endsOpen afterOpen argument)) = .ok _ :=
    closeParen_call waiting moved calls rfl _
  rw [Cue.ofTokensAfter_append afterOpen (.inr (by simp)), run_append, runs, Outcome.ok_bind,
    Cue.ofTokensAfter_closeParen, run_cons_of_step closes, output]
  simp [emitAll]

end Argument

/-- A call puts out the blocks of its arguments and then its name with their number. -/
theorem run_arguments
    {inside : List Token}
    {arguments blocks : List (List Token)}
    (separated : SeparatedInto inside arguments)
    (converted : arguments.mapM toPostfix = .ok blocks)
    (commas : Nat)
    (afterOpen : Bool)
    (rest : List Token) :
    run (Cue.ofTokensAfter afterOpen (inside ++ .closeParen :: rest))
        (outer.insideCall name original commas) =
      run (Cue.ofTokensAfter false rest)
        (outer.emitAll
          (blocks.flatten ++
            [.name name
              (if Cue.endsOpen afterOpen inside then 0 else commas + arguments.length : Nat)])) := by
  induction separated generalizing outer commas afterOpen blocks with
  | @last argument enclosed undivided =>
      obtain ⟨block, _, argumentConverted, ⟨⟩, rfl⟩ := Outcome.mapM_cons_eq_ok_iff.mp converted
      simpa using
        run_argument_closeParen below name original argumentConverted commas afterOpen rest
  | @more argument others arguments enclosed undivided separated inductionHypothesis =>
      obtain ⟨block, later, argumentConverted, othersConverted, rfl⟩ :=
        Outcome.mapM_cons_eq_ok_iff.mp converted
      have counted : commas + (argument :: arguments).length = commas + 1 + arguments.length := by
        rw [List.length_cons]
        omega
      rw [List.append_assoc, List.cons_append,
        run_argument_comma below name original argumentConverted,
        inductionHypothesis (below.emitAll block) othersConverted, Cue.endsOpen_append_cons,
        counted]
      simp [emitAll]

end Calls

/-- The call of a name in a gap has the blocks of its arguments there, and then its name. -/
theorem toPostfix_call
    {before inside after : List Token}
    {arguments blocks : List (List Token)}
    (separated : SeparatedInto inside arguments)
    (converted : arguments.mapM toPostfix = .ok blocks)
    (name : Text)
    (original : Int) :
    toPostfix (before ++ (.name name original :: .openParen :: (inside ++ [.closeParen]) ++ after)) =
      (surroundings before after).map fun parts =>
        parts.1 ++ (blocks.flatten ++ [.name name (argumentsIn inside)]) ++ parts.2 := by
  apply toPostfix_of_block (.inr (by simp))
  intro state afterOpen below
  have opens :
      step state (.beginCall name original) = .ok (state.insideCall name original 0) :=
    rfl
  have counted :
      (if Cue.endsOpen true inside then 0 else 0 + arguments.length) = argumentsIn inside := by
    rw [separated.argumentsIn_eq, Nat.zero_add]
    simp only [separated.enclosed.endsOpen_iff]
  have puts := run_arguments below name original separated converted 0 true after
  rw [counted] at puts
  simpa [run_cons_of_step opens] using puts

end Conversion

/-! ## What a postfix sequence consists of -/

/--
A block in a postfix sequence. What stands before and after it is made of the
tokens around, and given by them alone.
-/
def StandsAsBlock (block before after sequence : List Token) : Prop :=
  ∃ earlier later,
    Conversion.surroundings before after = .ok (earlier, later) ∧
      Rearranges (before ++ after) (earlier ++ later) ∧
      sequence = earlier ++ block ++ later

/-- The blocks of arguments are made of what stands between the parentheses. -/
theorem SeparatedInto.rearranges_flatten
    {inside : List Token}
    {arguments blocks : List (List Token)}
    (separated : SeparatedInto inside arguments)
    (converted : arguments.mapM toPostfix = .ok blocks) :
    Rearranges inside blocks.flatten := by
  induction separated generalizing blocks with
  | last enclosed undivided =>
      obtain ⟨block, _, argumentConverted, ⟨⟩, rfl⟩ := Outcome.mapM_cons_eq_ok_iff.mp converted
      simpa using rearranges_of_toPostfix argumentConverted
  | more enclosed undivided separated inductionHypothesis =>
      obtain ⟨block, later, argumentConverted, othersConverted, rfl⟩ :=
        Outcome.mapM_cons_eq_ok_iff.mp converted
      have together :=
        (rearranges_of_toPostfix argumentConverted).append (inductionHypothesis othersConverted)
      apply together.of_filter_eq
      simp [Token.isKept]

/-- The arguments of a call in well-bracketed tokens can all be converted. -/
theorem SeparatedInto.exists_blocks
    {before inside after : List Token}
    {opening : Token}
    {arguments : List (List Token)}
    (separated : SeparatedInto inside arguments)
    (bracketed : WellBracketed (before ++ opening :: (inside ++ after)))
    (noName : ∀ text arguments, opening ≠ .name text arguments) :
    ∃ blocks, arguments.mapM toPostfix = .ok blocks := by
  induction separated generalizing before opening with
  | last enclosed undivided =>
      obtain ⟨block, argumentConverted⟩ :=
        (bracketed.of_part noName enclosed undivided).exists_toPostfix
      exact ⟨[block], Outcome.mapM_cons_eq_ok_iff.mpr ⟨block, [], argumentConverted, rfl, rfl⟩⟩
  | @more argument others arguments enclosed undivided separated inductionHypothesis =>
      have aroundArgument :
          WellBracketed (before ++ opening :: (argument ++ .comma :: (others ++ after))) := by
        simpa using bracketed
      have aroundOthers :
          WellBracketed ((before ++ opening :: argument) ++ .comma :: (others ++ after)) := by
        simpa using bracketed
      obtain ⟨block, argumentConverted⟩ :=
        (aroundArgument.of_part noName enclosed undivided).exists_toPostfix
      obtain ⟨blocks, othersConverted⟩ := inductionHypothesis aroundOthers (by simp)
      exact ⟨block :: blocks,
        Outcome.mapM_cons_eq_ok_iff.mpr ⟨block, blocks, argumentConverted, othersConverted, rfl⟩⟩

section Pairs

variable
  {tokens sequence before inside after : List Token}
  (converted : toPostfix tokens = .ok sequence)

include converted

/-- A block that is put out wherever its tokens stand is in a sequence for tokens around them. -/
theorem standsAsBlock_of_map_surroundings
    {block : List Token}
    (split : tokens = before ++ (inside ++ after))
    (puts :
      toPostfix (before ++ (inside ++ after)) =
        (Conversion.surroundings before after).map fun parts => parts.1 ++ block ++ parts.2)
    (made : Rearranges inside block) :
    StandsAsBlock block before after sequence := by
  have whole := rearranges_of_toPostfix converted
  rw [split, ← List.append_assoc] at whole
  rw [split, puts] at converted
  obtain ⟨⟨earlier, later⟩, around, rfl⟩ := Outcome.map_eq_ok_iff.mp converted
  exact ⟨earlier, later, around, whole.around made, rfl⟩

theorem exists_group_block
    (split : tokens = before ++ .openParen :: (inside ++ .closeParen :: after))
    (enclosed : Enclosed inside)
    (noCall : ∀ text arguments, before.getLast? ≠ some (.name text arguments)) :
    ∃ block,
      toPostfix inside = .ok block ∧
        Rearranges inside block ∧
        StandsAsBlock block before after sequence := by
  have bracketed := wellBracketed_of_toPostfix converted
  rw [split] at bracketed
  have undivided := bracketed.undivided_of_group noCall
  obtain ⟨block, insideConverted⟩ :=
    (bracketed.of_part (by simp) enclosed undivided).exists_toPostfix
  have made := rearranges_of_toPostfix insideConverted
  have gap : tokens = before ++ (.openParen :: (inside ++ [.closeParen]) ++ after) := by
    simp [split]
  have gapMade : Rearranges (.openParen :: (inside ++ [.closeParen])) block :=
    made.of_filter_eq (by simp [Token.isKept])
  exact ⟨block, insideConverted, made,
    standsAsBlock_of_map_surroundings converted gap
      (Conversion.toPostfix_group noCall insideConverted) gapMade⟩

theorem exists_call_blocks
    {name : Text}
    {original : Int}
    (split :
      tokens = before ++ .name name original :: .openParen :: (inside ++ .closeParen :: after))
    (enclosed : Enclosed inside) :
    ∃ arguments blocks,
      SeparatedInto inside arguments ∧
        arguments.mapM toPostfix = .ok blocks ∧
        Rearranges inside blocks.flatten ∧
        StandsAsBlock (blocks.flatten ++ [.name name (argumentsIn inside)]) before after
          sequence := by
  have bracketed := wellBracketed_of_toPostfix converted
  obtain ⟨arguments, separated⟩ := SeparatedInto.exists_of_enclosed enclosed
  have insideCall :
      WellBracketed
        ((before ++ [.name name original]) ++ .openParen ::
          (inside ++ .closeParen :: after)) := by
    simpa [split] using bracketed
  obtain ⟨blocks, argumentsConverted⟩ := separated.exists_blocks insideCall (by simp)
  have made := separated.rearranges_flatten argumentsConverted
  have gap :
      tokens =
        before ++ (.name name original :: .openParen :: (inside ++ [.closeParen]) ++ after) := by
    simp [split]
  have named : Rearranges [.name name original] [.name name (argumentsIn inside)] :=
    List.Perm.refl _
  have sameKept :
      List.filter Token.isKept
          (.name name original :: .openParen :: (inside ++ [.closeParen])) =
        List.filter Token.isKept ([.name name original] ++ inside) := by
    simp [List.filter_cons, Token.isKept]
  have gapMade :
      Rearranges (.name name original :: .openParen :: (inside ++ [.closeParen]))
        (blocks.flatten ++ [.name name (argumentsIn inside)]) :=
    ((named.append made).of_perm List.perm_append_comm).of_filter_eq sameKept
  exact ⟨arguments, blocks, separated, argumentsConverted, made,
    standsAsBlock_of_map_surroundings converted gap
      (Conversion.toPostfix_call separated argumentsConverted name original) gapMade⟩

end Pairs

/--
How a postfix sequence is made of the tokens of its formula. Parentheses and
commas are given up and all other tokens kept; numbers and names that are not
called stay in order and as they are. Every parenthesis that is opened is closed.
What a group encloses is one block, and what a call encloses consists of one
block for each of its arguments, in order, with the name of the call behind them
and the number of the arguments in it.
-/
structure Arranges (tokens sequence : List Token) : Prop where
  kept :
    ∀ token ∈ sequence, token ≠ .openParen ∧ token ≠ .closeParen ∧ token ≠ .comma
  rearranges :
    Rearranges tokens sequence
  operands :
    (operandsOf tokens).Sublist sequence
  closes :
    ∀ before rest,
      tokens = before ++ .openParen :: rest →
      ∃ inside after, rest = inside ++ .closeParen :: after ∧ Enclosed inside
  groups :
    ∀ before inside after,
      tokens = before ++ .openParen :: (inside ++ .closeParen :: after) →
      Enclosed inside →
      (∀ text arguments, before.getLast? ≠ some (.name text arguments)) →
      ∃ block,
        toPostfix inside = .ok block ∧
          Rearranges inside block ∧
          StandsAsBlock block before after sequence
  calls :
    ∀ before name original inside after,
      tokens = before ++ .name name original :: .openParen :: (inside ++ .closeParen :: after) →
      Enclosed inside →
      ∃ arguments blocks,
        SeparatedInto inside arguments ∧
          arguments.mapM toPostfix = .ok blocks ∧
          Rearranges inside blocks.flatten ∧
          StandsAsBlock (blocks.flatten ++ [.name name (argumentsIn inside)]) before after
            sequence

/-- A postfix sequence is arranged from the tokens of its formula, well formed or not. -/
theorem toPostfix_arranges
    {tokens sequence : List Token}
    (converted : toPostfix tokens = .ok sequence) :
    Arranges tokens sequence where
  kept := by
    intro token member
    have kept := (rearranges_of_toPostfix converted).isKept_of_mem token member
    refine ⟨?_, ?_, ?_⟩ <;> rintro rfl <;> cases kept
  rearranges := rearranges_of_toPostfix converted
  operands := operandsOf_sublist_of_toPostfix converted
  closes := by
    rintro before rest rfl
    exact (wellBracketed_of_toPostfix converted).exists_close
  groups := fun _ _ _ => exists_group_block converted
  calls := fun _ _ _ _ _ => exists_call_blocks converted

/-- In `f(x,(y+z)*0)-w` the arguments `x` and `(y+z)*0` become the blocks `x` and `y z + 0 *`. -/
theorem toPostfix_call_minus_name :
    let f := Token.bareName (Text.ofString "f")
    let w := Token.bareName (Text.ofString "w")
    let x := Token.bareName (Text.ofString "x")
    let y := Token.bareName (Text.ofString "y")
    let z := Token.bareName (Text.ofString "z")
    let zero := Token.number (Text.ofString "0") .zero
    let tokens := [
      f, .openParen, x, .comma, .openParen, y, .operator Byte.plus, z, .closeParen,
      .operator Byte.asterisk, zero, .closeParen, .operator Byte.minus, w]
    let sequence := [
      x, y, z, .operator Byte.plus, zero, .operator Byte.asterisk, .name (Text.ofString "f") 2, w,
      .operator Byte.minus]
    toPostfix tokens = .ok sequence ∧ Arranges tokens sequence := by
  intro f w x y z zero tokens sequence
  have converted : toPostfix tokens = .ok sequence :=
    rfl
  exact ⟨converted, toPostfix_arranges converted⟩

end Reckoner
