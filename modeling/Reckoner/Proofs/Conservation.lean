import Reckoner.Proofs.Isolation
import Reckoner.Proofs.Occurrences

/-!
# What a conversion keeps

Parentheses and commas are given up by a conversion. All other tokens are kept:
each of them is put out or waits, exactly once, and only the numbers of
arguments of called names are written anew. Operands are put out at once, so
they stay in order and as they are.
-/

namespace Reckoner

/-- Whether a token has a place in a postfix sequence. -/
def Token.isKept : Token → Bool
  | .openParen => false
  | .closeParen => false
  | .comma => false
  | _ => true

/-- A token without the number of arguments of its call. -/
def Token.uncounted : Token → Token
  | .name text _ => .name text 0
  | token => token

@[simp] theorem Token.isKept_uncounted
    (token : Token) :
    token.uncounted.isKept = token.isKept := by
  cases token <;> rfl

/-- Tokens put in another order without their parentheses and commas, the calls counted anew. -/
def Rearranges (tokens sequence : List Token) : Prop :=
  (sequence.map Token.uncounted).Perm ((tokens.filter Token.isKept).map Token.uncounted)

namespace Rearranges

variable
  {tokens others sequence block : List Token}

/-- Nothing but kept tokens is among rearranged ones. -/
theorem isKept_of_mem
    (rearranges : Rearranges tokens sequence) :
    ∀ token ∈ sequence, token.isKept = true := by
  intro token member
  have moved := rearranges.mem_iff.mp (List.mem_map_of_mem member)
  obtain ⟨original, kept, same⟩ := List.mem_map.mp moved
  rw [← token.isKept_uncounted, ← same, original.isKept_uncounted]
  exact (List.mem_filter.mp kept).2

theorem append
    (rearranges : Rearranges tokens sequence)
    (second : Rearranges others block) :
    Rearranges (tokens ++ others) (sequence ++ block) := by
  rw [Rearranges, List.filter_append, List.map_append, List.map_append]
  exact List.Perm.append rearranges second

/-- It does not matter where tokens that are given up stand. -/
theorem of_filter_eq
    (rearranges : Rearranges tokens sequence)
    (same : others.filter Token.isKept = tokens.filter Token.isKept) :
    Rearranges others sequence := by
  rw [Rearranges, same]
  exact rearranges

theorem of_perm
    (rearranges : Rearranges tokens sequence)
    (reordered : block.Perm sequence) :
    Rearranges tokens block :=
  (reordered.map _).trans rearranges

/-- A part in the middle may as well stand in front. -/
theorem middle_perm
    (first middle last : List Token) :
    (first ++ middle ++ last).Perm (middle ++ (first ++ last)) := by
  rw [List.append_assoc]
  exact List.perm_append_comm_assoc first middle last

/-- Without a part that is rearranged to a block, tokens are rearranged to what is around it. -/
theorem around
    {before inside after earlier later : List Token}
    (whole : Rearranges (before ++ inside ++ after) (earlier ++ block ++ later))
    (part : Rearranges inside block) :
    Rearranges (before ++ after) (earlier ++ later) := by
  simp only [Rearranges, List.filter_append, List.map_append] at whole part ⊢
  have blockFirst := (middle_perm _ _ _).symm.trans (whole.trans (middle_perm _ _ _))
  exact (List.perm_append_left_iff _).mp (blockFirst.trans (part.symm.append_right _))

end Rearranges

/-- The numbers of a formula and its names that are not called, in order. -/
def operandsOf : List Token → List Token
  | [] => []
  | .number text value :: rest => .number text value :: operandsOf rest
  | .name text arguments :: rest =>
      if rest.head? = some .openParen then
        operandsOf rest
      else
        .name text arguments :: operandsOf rest
  | _ :: rest => operandsOf rest

theorem isKept_of_mem_operandsOf
    (tokens : List Token) :
    ∀ token ∈ operandsOf tokens, token.isKept = true := by
  induction tokens using operandsOf.induct with
  | case1 =>
      simp [operandsOf]
  | case2 text value rest inductionHypothesis =>
      exact List.forall_mem_cons.mpr ⟨rfl, inductionHypothesis⟩
  | case3 text arguments rest called inductionHypothesis =>
      rw [operandsOf, if_pos called]
      exact inductionHypothesis
  | case4 text arguments rest notCalled inductionHypothesis =>
      rw [operandsOf, if_neg notCalled]
      exact List.forall_mem_cons.mpr ⟨rfl, inductionHypothesis⟩
  | case5 token rest noNumber noName inductionHypothesis =>
      cases token with
      | number text value =>
          exact (noNumber text value rfl).elim
      | name text arguments =>
          exact (noName text arguments rfl).elim
      | _ =>
          exact inductionHypothesis

/-- The operand of a cue, if it is that of one. -/
def Cue.operands : Cue → List Token
  | .operand token => [token]
  | _ => []

/-- The operands of a formula are those of its cues. -/
theorem Cue.flatMap_operands
    (afterOpen : Bool)
    (tokens : List Token) :
    (ofTokensAfter afterOpen tokens).flatMap operands = operandsOf tokens := by
  induction afterOpen, tokens using ofTokensAfter.induct with
  | case1 =>
      rfl
  | case3 _ text arguments rest apart inductionHypothesis =>
      have notCalled := head?_ne_openParen apart
      rw [ofTokensAfter_name _ _ _ notCalled, operandsOf, if_neg notCalled,
        List.flatMap_cons, inductionHypothesis]
      rfl
  | case2 _ _ _ _ inductionHypothesis
  | case4 _ _ _ _ inductionHypothesis
  | case5 _ _ _ inductionHypothesis
  | case6 _ _ inductionHypothesis
  | case7 _ _ inductionHypothesis
  | case8 _ _ inductionHypothesis =>
      simp [operands, operandsOf, inductionHypothesis]

namespace Conversion

/-! ## Every token is put out or waits -/

/-- The tokens that have been put out or wait to be, without their numbers of arguments. -/
def accounted (state : Conversion) : List Token :=
  (state.output ++ state.waiting.filter Token.isKept).map Token.uncounted

section Steps

variable
  {state following : Conversion}

/-- Releasing operators from above the parentheses loses nothing. -/
theorem accounted_release
    {condition : Token → Bool}
    (framed : Framed state.waiting state.calls)
    (stops : condition .openParen = false) :
    (state.release condition).accounted.Perm state.accounted := by
  have keeps : (state.waiting.takeWhile condition).filter Token.isKept =
      state.waiting.takeWhile condition := by
    apply List.filter_eq_self.mpr
    intro token member
    obtain ⟨symbol, rfl⟩ := framed.operator_of_mem_takeWhile stops token member
    rfl
  have split :
      state.waiting.filter Token.isKept =
        state.waiting.takeWhile condition ++
          (state.waiting.dropWhile condition).filter Token.isKept := by
    rw [← keeps, ← List.filter_append, List.takeWhile_append_dropWhile]
  rw [accounted, accounted, split, release]
  apply List.Perm.map
  have inOrder :=
    ((List.reverse_perm (state.waiting.takeWhile condition)).append_right
      state.output).append_right ((state.waiting.dropWhile condition).filter Token.isKept)
  exact inOrder.trans (Rearranges.middle_perm _ _ _)

/-- A comma changes nothing about the tokens that are kept. -/
theorem accounted_endArgument
    (framed : Framed state.waiting state.calls)
    (ends : state.endArgument = .ok following) :
    following.accounted.Perm state.accounted := by
  have released : (state.release isInside).accounted.Perm state.accounted :=
    accounted_release framed rfl
  cases framed.innermost with
  | none inside noCalls =>
      rw [endArgument_none inside] at ends
      cases ends
  | group inside split moved below =>
      rw [endArgument_group split moved below.depth_lt] at ends
      cases ends
  | call inside name arguments commas split moved frames below =>
      rw [endArgument_call split moved frames rfl] at ends
      rw [release_isInside split moved] at released
      cases ends
      exact released

/-- The name of a call that is closed is put out instead of waiting. -/
theorem accounted_closeParen
    (framed : Framed state.waiting state.calls)
    {afterOpen : Bool}
    (closes : state.closeParen afterOpen = .ok following) :
    following.accounted.Perm state.accounted := by
  have released : (state.release isInside).accounted.Perm state.accounted :=
    accounted_release framed rfl
  cases framed.innermost with
  | none inside noCalls =>
      rw [closeParen_none inside] at closes
      cases closes
  | group inside split moved below =>
      rw [closeParen_group split moved below.depth_lt] at closes
      rw [release_isInside split moved] at released
      cases closes
      exact released
  | call inside name arguments commas split moved frames below =>
      rw [closeParen_call split moved frames rfl] at closes
      rw [release_isInside split moved] at released
      cases closes
      refine List.Perm.trans ?_ released
      simp only [accounted, List.filter_cons, Token.isKept, List.map_append, List.map_cons,
        Token.uncounted, List.cons_append, if_true, if_false, Bool.false_eq_true]
      exact List.perm_middle.symm

/-- Every round accounts for the kept tokens that its cue reads. -/
theorem accounted_step
    {cue : Cue}
    (framed : Framed state.waiting state.calls)
    (steps : step state cue = .ok following)
    (operands : ∀ token ∈ cue.operands, token.isKept = true) :
    following.accounted.Perm
      ((cue.reads.filter Token.isKept).map Token.uncounted ++ state.accounted) := by
  cases cue with
  | operand token =>
      cases steps
      simp [accounted, emit, Cue.reads, operands token List.mem_cons_self]
  | operator symbol =>
      cases steps
      have released :
          (state.release (yieldsTo symbol)).accounted.Perm state.accounted :=
        accounted_release framed rfl
      have pushed :
          (state.pushOperator symbol).accounted.Perm
            (.operator symbol :: (state.release (yieldsTo symbol)).accounted) := by
        simp only [accounted, pushOperator, List.filter_cons, Token.isKept, if_true,
          List.map_append, List.map_cons, Token.uncounted]
        exact List.perm_middle
      exact pushed.trans (released.cons _)
  | beginCall name arguments =>
      cases steps
      simp only [accounted, pushCall, List.filter_cons, Cue.reads, Token.isKept, if_true,
        List.map_append, List.map_cons, Token.uncounted]
      exact List.perm_middle
  | beginGroup =>
      cases steps
      exact List.Perm.refl _
  | nextArgument =>
      exact accounted_endArgument framed steps
  | close afterOpen =>
      exact accounted_closeParen framed steps

theorem accounted_run
    {cues : List Cue}
    (framed : Framed state.waiting state.calls)
    (operands : ∀ token ∈ cues.flatMap Cue.operands, token.isKept = true)
    (runs : run cues state = .ok following) :
    following.accounted.Perm
      (((cues.flatMap Cue.reads).filter Token.isKept).map Token.uncounted ++
        state.accounted) := by
  induction cues generalizing state with
  | nil =>
      cases runs
      exact List.Perm.refl _
  | cons cue rest inductionHypothesis =>
      obtain ⟨middle, steps, restRuns⟩ := Outcome.bind_eq_ok_iff.mp runs
      rw [List.flatMap_cons, List.forall_mem_append] at operands
      have first := accounted_step framed steps operands.1
      have later := inductionHypothesis (framed_step framed steps) operands.2 restRuns
      rw [List.flatMap_cons, List.filter_append, List.map_append, List.append_assoc]
      exact (later.trans (first.append_left _)).trans (List.perm_append_comm_assoc _ _ _)

/-! ## Operands are put out at once -/

theorem output_sublist_release
    (condition : Token → Bool) :
    state.output.Sublist (state.release condition).output :=
  List.sublist_append_right _ _

theorem output_sublist_endArgument
    (ends : state.endArgument = .ok following) :
    state.output.Sublist following.output := by
  unfold endArgument at ends
  simp only at ends
  split at ends
  · split at ends <;> cases ends
    exact output_sublist_release isInside
  · cases ends

theorem output_sublist_closeParen
    {afterOpen : Bool}
    (closes : state.closeParen afterOpen = .ok following) :
    state.output.Sublist following.output := by
  have released : state.output.Sublist (state.release isInside).output :=
    output_sublist_release isInside
  unfold closeParen at closes
  simp only at closes
  split at closes
  · split at closes <;> cases closes
    · exact released.cons _
    · exact released
  · cases closes

/-- Every round puts the operand of its cue out after all earlier output. -/
theorem operands_sublist_step
    {cue : Cue}
    (steps : step state cue = .ok following) :
    (cue.operands ++ state.output).Sublist following.output := by
  cases cue with
  | operand token =>
      cases steps
      exact List.Sublist.refl _
  | operator symbol =>
      cases steps
      exact output_sublist_release (yieldsTo symbol)
  | beginCall name arguments =>
      cases steps
      exact List.Sublist.refl _
  | beginGroup =>
      cases steps
      exact List.Sublist.refl _
  | nextArgument =>
      exact output_sublist_endArgument steps
  | close afterOpen =>
      exact output_sublist_closeParen steps

theorem operands_sublist_run
    {cues : List Cue}
    (runs : run cues state = .ok following) :
    ((cues.flatMap Cue.operands).reverse ++ state.output).Sublist following.output := by
  induction cues generalizing state with
  | nil =>
      cases runs
      exact List.Sublist.refl _
  | cons cue rest inductionHypothesis =>
      obtain ⟨middle, steps, restRuns⟩ := Outcome.bind_eq_ok_iff.mp runs
      have single : cue.operands.reverse = cue.operands := by
        cases cue <;> rfl
      have first := operands_sublist_step steps
      rw [List.flatMap_cons, List.reverse_append, List.append_assoc, single]
      exact (first.append_left _).trans (inductionHypothesis restRuns)

end Steps

end Conversion

section Formulas

variable
  {tokens sequence : List Token}
  (converted : toPostfix tokens = .ok sequence)

include converted

/-- The tokens of a postfix sequence are those of its formula, but for parentheses and commas. -/
theorem rearranges_of_toPostfix :
    Rearranges tokens sequence := by
  obtain ⟨last, runs, -, inside, output⟩ := Conversion.exists_run_of_toPostfix converted
  have operands :
      ∀ token ∈ (Cue.ofTokens tokens).flatMap Cue.operands, token.isKept = true := by
    rw [Cue.ofTokens, Cue.flatMap_operands]
    exact isKept_of_mem_operandsOf tokens
  have account := Conversion.accounted_run .empty operands runs
  have nothingBefore : Conversion.start.accounted = [] :=
    rfl
  rw [Cue.ofTokens, Cue.flatMap_reads, nothingBefore, List.append_nil] at account
  have released : (last.release Conversion.isInside).accounted.Perm last.accounted :=
    Conversion.accounted_release (Conversion.framed_run .empty runs) rfl
  rw [Conversion.release_isInside_of_forall inside, Conversion.accounted, output,
    List.filter_nil, List.append_nil, List.map_reverse] at released
  exact (List.reverse_perm _).symm.trans (released.trans account)

/-- The operands of a formula are in its postfix sequence, in order and as they are. -/
theorem operandsOf_sublist_of_toPostfix :
    (operandsOf tokens).Sublist sequence := by
  obtain ⟨last, runs, -, inside, output⟩ := Conversion.exists_run_of_toPostfix converted
  have putOut := Conversion.operands_sublist_run runs
  rw [Cue.ofTokens, Cue.flatMap_operands] at putOut
  have all : (operandsOf tokens).reverse.Sublist sequence.reverse := by
    rw [← output]
    exact (List.sublist_append_left _ _).trans (putOut.trans (List.sublist_append_right _ _))
  exact List.reverse_sublist.mp all

end Formulas

end Reckoner
