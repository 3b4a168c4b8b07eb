import Reckoner.Proofs.CallFrames
import Reckoner.Proofs.Cues

/-!
# A group is read on its own

What stands between the parentheses of a group is converted as if it stood
alone. A conversion that succeeds from the start takes the same steps inside any
other one, on top of an opening parenthesis: that parenthesis stops everything
that would be released, and the calls around it, its own included, lie too deep
to be mistaken for one of the calls inside.
-/

namespace Reckoner

/-! ## Where a list is cut -/

namespace Splitting

variable
  {α : Type}
  {condition : α → Bool}
  {stop : α}

theorem takeWhile_append_cons
    (first second : List α)
    (stops : condition stop = false) :
    (first ++ stop :: second).takeWhile condition = first.takeWhile condition := by
  induction first with
  | nil =>
      simp [stops]
  | cons element rest inductionHypothesis =>
      simp only [List.cons_append, List.takeWhile_cons, inductionHypothesis]

theorem dropWhile_append_cons
    (first second : List α)
    (stops : condition stop = false) :
    (first ++ stop :: second).dropWhile condition =
      first.dropWhile condition ++ stop :: second := by
  induction first with
  | nil =>
      simp [stops]
  | cons element rest inductionHypothesis =>
      rw [List.cons_append, List.dropWhile_cons, List.dropWhile_cons]
      split
      · exact inductionHypothesis
      · rfl

end Splitting

/-! ## Conversions inside a group -/

/-- An open call under which more tokens wait. -/
def CallFrame.raise (height : Nat) (frame : CallFrame) : CallFrame :=
  { frame with depth := frame.depth + height }

namespace Conversion

/--
Every open call has its parenthesis among the waiting tokens, or will have it
directly on top of them.
-/
def CallsUpTo (state : Conversion) : Prop :=
  ∀ frame ∈ state.calls, frame.depth ≤ state.waiting.length

theorem CallsBelow.upTo
    {state : Conversion}
    (below : state.CallsBelow) :
    state.CallsUpTo :=
  fun frame member => Nat.le_of_lt (below frame member)

/-- One conversion inside a group of another. -/
def within (outer state : Conversion) : Conversion where
  output := state.output ++ outer.output
  waiting := state.waiting ++ .openParen :: outer.waiting
  calls := state.calls.map (.raise (outer.waiting.length + 1)) ++ outer.calls

section Within

variable
  {outer state following : Conversion}

theorem release_within
    (condition : Token → Bool)
    (stops : condition .openParen = false) :
    (outer.within state).release condition =
      outer.within (state.release condition) := by
  simp [within, release, Splitting.takeWhile_append_cons _ _ stops,
    Splitting.dropWhile_append_cons _ _ stops]

theorem waiting_within
    {token : Token}
    {lower : List Token}
    (waiting : state.waiting = token :: lower) :
    (outer.within state).waiting = token :: (lower ++ .openParen :: outer.waiting) := by
  rw [within, waiting]
  rfl

theorem length_within
    (lower : List Token) :
    (lower ++ .openParen :: outer.waiting).length =
      lower.length + (outer.waiting.length + 1) := by
  rw [List.length_append, List.length_cons]

/-- Calls are found inside a group as they are found outside. -/
theorem callAt?_within
    (below : outer.CallsUpTo)
    (depth : Nat) :
    (outer.within state).callAt? (depth + (outer.waiting.length + 1)) =
      (state.callAt? depth).map fun (frame, rest) =>
        (frame.raise (outer.waiting.length + 1),
          rest.map (.raise (outer.waiting.length + 1)) ++ outer.calls) := by
  cases calls : state.calls with
  | nil =>
      have outside :
          ∀ frame ∈ (outer.within state).calls,
            frame.depth < depth + (outer.waiting.length + 1) := by
        intro frame member
        simp only [within, calls, List.map_nil, List.nil_append] at member
        have lower := below frame member
        omega
      rw [callAt?_eq_none outside]
      simp [callAt?, calls]
  | cons frame rest =>
      by_cases same : frame.depth = depth
      · simp [callAt?, within, calls, same, CallFrame.raise]
      · simp [callAt?, within, calls, same, CallFrame.raise]

theorem endArgument_within
    (below : outer.CallsUpTo)
    (ends : state.endArgument = .ok following) :
    (outer.within state).endArgument = .ok (outer.within following) := by
  simp only [endArgument, release_within isInside rfl] at ends ⊢
  generalize state.release isInside = released at ends ⊢
  cases waiting : released.waiting with
  | nil =>
      rw [waiting] at ends
      cases ends
  | cons token lower =>
      have found : (outer.within released).callAt? _ = _ :=
        callAt?_within below lower.length
      simp only [waiting] at ends
      simp only [waiting_within waiting, length_within, found]
      cases call : released.callAt? lower.length with
      | none =>
          rw [call] at ends
          cases ends
      | some entry =>
          obtain ⟨frame, rest⟩ := entry
          rw [call] at ends
          cases ends
          simp [within, CallFrame.raise, waiting]

theorem closeParen_within
    (below : outer.CallsUpTo)
    {afterOpen : Bool}
    (closes : state.closeParen afterOpen = .ok following) :
    (outer.within state).closeParen afterOpen = .ok (outer.within following) := by
  simp only [closeParen, release_within isInside rfl] at closes ⊢
  generalize state.release isInside = released at closes ⊢
  cases waiting : released.waiting with
  | nil =>
      rw [waiting] at closes
      cases closes
  | cons token lower =>
      have found : (outer.within released).callAt? _ = _ :=
        callAt?_within below lower.length
      simp only [waiting] at closes
      simp only [waiting_within waiting, length_within, found]
      cases call : released.callAt? lower.length with
      | none =>
          rw [call] at closes
          cases closes
          rfl
      | some entry =>
          obtain ⟨frame, rest⟩ := entry
          rw [call] at closes
          cases lower with
          | nil =>
              cases closes
              rfl
          | cons name lowest =>
              cases name <;> cases closes <;> rfl

/-- Every round that succeeds does the same inside a group. -/
theorem step_within
    (below : outer.CallsUpTo)
    {cue : Cue}
    (steps : step state cue = .ok following) :
    step (outer.within state) cue = .ok (outer.within following) := by
  cases cue with
  | operand token =>
      cases steps
      rfl
  | operator symbol =>
      cases steps
      have released : (outer.within state).release _ = _ :=
        release_within (yieldsTo symbol) rfl
      rw [step, pushOperator, released]
      rfl
  | beginCall name arguments =>
      cases steps
      simp [step, pushCall, within, CallFrame.raise]
      omega
  | beginGroup =>
      cases steps
      rfl
  | nextArgument =>
      exact endArgument_within below steps
  | close afterOpen =>
      exact closeParen_within below steps

/-- A run that succeeds does the same inside a group. -/
theorem run_within
    (below : outer.CallsUpTo)
    {cues : List Cue}
    (runs : run cues state = .ok following) :
    run cues (outer.within state) = .ok (outer.within following) := by
  induction cues generalizing state with
  | nil =>
      cases runs
      rfl
  | cons cue rest inductionHypothesis =>
      obtain ⟨middle, steps, restRuns⟩ := Outcome.bind_eq_ok_iff.mp runs
      rw [run_cons_of_step (step_within below steps)]
      exact inductionHypothesis restRuns

end Within

/-- What a conversion from the start comes to when it succeeds. -/
theorem exists_run_of_toPostfix
    {tokens sequence : List Token}
    (converted : toPostfix tokens = .ok sequence) :
    ∃ last,
      run (Cue.ofTokens tokens) start = .ok last ∧
        last.calls = [] ∧
        (∀ token ∈ last.waiting, isInside token = true) ∧
        last.waiting.reverse ++ last.output = sequence.reverse := by
  obtain ⟨last, runs, finishes⟩ := Outcome.bind_eq_ok_iff.mp converted
  have framed : Framed last.waiting last.calls := framed_run .empty runs
  cases framed.innermost with
  | none inside noCalls =>
      rw [finish_none inside] at finishes
      cases finishes
      exact ⟨last, runs, noCalls, inside, (List.reverse_reverse _).symm⟩
  | group inside split moved below =>
      rw [finish_open split moved] at finishes
      cases finishes
  | call inside name arguments commas split moved frames below =>
      rw [finish_open split moved] at finishes
      cases finishes

/-- Tokens that can be converted do not begin with a closing parenthesis. -/
theorem head?_ne_closeParen_of_toPostfix
    {tokens sequence : List Token}
    (converted : toPostfix tokens = .ok sequence) :
    tokens.head? ≠ some .closeParen := by
  intro closes
  obtain ⟨rest, rfl⟩ := List.head?_eq_some_iff.mp closes
  cases converted

/--
A group around tokens that can be converted puts out their postfix sequence as
one block and leaves everything else alone.
-/
theorem run_group
    {tokens sequence : List Token}
    (converted : toPostfix tokens = .ok sequence)
    {outer : Conversion}
    (below : outer.CallsBelow)
    (afterOpen : Bool)
    (rest : List Token) :
    run (Cue.ofTokensAfter afterOpen (.openParen :: (tokens ++ .closeParen :: rest))) outer =
      run (Cue.ofTokensAfter false rest) (outer.emitAll sequence) := by
  obtain ⟨last, runs, noCalls, inside, output⟩ := exists_run_of_toPostfix converted
  have cut :
      Cue.ofTokensAfter true (tokens ++ .closeParen :: rest) =
        Cue.ofTokens tokens ++
          .close (Cue.endsOpen true tokens) :: Cue.ofTokensAfter false rest := by
    rw [Cue.ofTokensAfter_append true (.inr (by simp)), Cue.ofTokensAfter_closeParen,
      Cue.ofTokens,
      Cue.ofTokensAfter_eq_of_head? true (head?_ne_closeParen_of_toPostfix converted) false]
  have opens : step outer .beginGroup = .ok (outer.within start) :=
    rfl
  have runsInside := run_within below.upTo runs
  have outside :
      ∀ frame ∈ (outer.within last).calls, frame.depth < outer.waiting.length := by
    rw [within, noCalls]
    exact below
  have closes :
      step (outer.within last) (.close (Cue.endsOpen true tokens)) =
        .ok (outer.emitAll sequence) := by
    have waiting : (outer.within last).waiting = last.waiting ++ .openParen :: outer.waiting :=
      rfl
    rw [step, closeParen_group waiting inside outside]
    rw [within, noCalls, ← List.append_assoc, output]
    rfl
  rw [Cue.ofTokensAfter_openParen, run_cons_of_step opens, cut, run_append, runsInside,
    Outcome.ok_bind, run_cons_of_step closes]

/-! ## Earlier output -/

/-- A conversion with more output before its own. -/
def precededBy (earlier : List Token) (state : Conversion) : Conversion :=
  { state with output := state.output ++ earlier }

section PrecededBy

variable
  (earlier : List Token)
  (state : Conversion)

theorem waiting_precededBy :
    (state.precededBy earlier).waiting = state.waiting :=
  rfl

theorem callAt?_precededBy
    (depth : Nat) :
    (state.precededBy earlier).callAt? depth = state.callAt? depth :=
  rfl

theorem release_precededBy
    (condition : Token → Bool) :
    (state.precededBy earlier).release condition =
      (state.release condition).precededBy earlier := by
  simp [precededBy, release]

theorem endArgument_precededBy :
    (state.precededBy earlier).endArgument =
      state.endArgument.map (precededBy earlier) := by
  simp only [endArgument, release_precededBy]
  generalize state.release isInside = released
  simp only [waiting_precededBy, callAt?_precededBy]
  cases waiting : released.waiting with
  | nil =>
      rfl
  | cons token lower =>
      cases call : released.callAt? lower.length with
      | none =>
          simp only [call, Outcome.map_error]
      | some entry =>
          simp only [call, Outcome.map_ok, precededBy]

theorem closeParen_precededBy
    (afterOpen : Bool) :
    (state.precededBy earlier).closeParen afterOpen =
      (state.closeParen afterOpen).map (precededBy earlier) := by
  simp only [closeParen, release_precededBy]
  generalize state.release isInside = released
  simp only [waiting_precededBy, callAt?_precededBy]
  cases waiting : released.waiting with
  | nil =>
      rfl
  | cons token lower =>
      cases call : released.callAt? lower.length with
      | none =>
          simp only [call, Outcome.map_ok, precededBy]
      | some entry =>
          cases lower with
          | nil =>
              rw [List.length_nil] at call
              simp only [List.length_nil, call, Outcome.map_ok, precededBy]
          | cons name lowest =>
              rw [List.length_cons] at call
              cases name <;>
                simp only [List.length_cons, call, Outcome.map_ok, precededBy,
                  List.cons_append]

/-- No round depends on the output before it. -/
theorem step_precededBy
    (cue : Cue) :
    step (state.precededBy earlier) cue =
      (step state cue).map (precededBy earlier) := by
  cases cue with
  | operand token =>
      rfl
  | operator symbol =>
      simp only [step, pushOperator, release_precededBy]
      rfl
  | beginCall name arguments =>
      rfl
  | beginGroup =>
      rfl
  | nextArgument =>
      exact endArgument_precededBy earlier state
  | close afterOpen =>
      exact closeParen_precededBy earlier state afterOpen

theorem run_precededBy
    (cues : List Cue) :
    run cues (state.precededBy earlier) =
      (run cues state).map (precededBy earlier) := by
  induction cues generalizing state with
  | nil =>
      rfl
  | cons cue rest inductionHypothesis =>
      rw [run_cons, run_cons, step_precededBy]
      cases step state cue with
      | error cause =>
          rfl
      | ok following =>
          exact inductionHypothesis following

theorem finish_precededBy :
    (state.precededBy earlier).finish = state.finish.map (earlier.reverse ++ ·) := by
  simp only [finish, release_precededBy]
  generalize state.release isInside = released
  simp only [waiting_precededBy]
  cases released.waiting with
  | nil =>
      simp [precededBy]
  | cons token lower =>
      rfl

end PrecededBy

/-! ## What surrounds a gap -/

/--
The postfix sequence of tokens with a gap for operands between them, in two
parts: what is put out before the gap is read, and what is put out after it.
-/
def surroundings (before after : List Token) :
    Except ParseFault (List Token × List Token) := do
  let state ← run (Cue.ofTokens before) start
  let rest ←
    run (Cue.ofTokensAfter false after) { state with output := [] } >>= finish
  .ok (state.output.reverse, rest)

theorem surroundings_nil :
    surroundings [] [] = .ok ([], []) :=
  rfl

/--
Tokens in a gap that only put out a block, whatever the state before them, have
that block between the two parts of their surroundings.
-/
theorem toPostfix_of_block
    {before middle after block : List Token}
    (uncalled : Cue.Uncalled before (middle ++ after))
    (puts :
      ∀ (state : Conversion) (afterOpen : Bool),
        state.CallsBelow →
        run (Cue.ofTokensAfter afterOpen (middle ++ after)) state =
          run (Cue.ofTokensAfter false after) (state.emitAll block)) :
    toPostfix (before ++ (middle ++ after)) =
      (surroundings before after).map fun parts => parts.1 ++ block ++ parts.2 := by
  rw [toPostfix, Cue.ofTokens, Cue.ofTokensAfter_append false uncalled, run_append]
  simp only [surroundings, Cue.ofTokens]
  cases runs : run (Cue.ofTokensAfter false before) start with
  | error cause =>
      rfl
  | ok state =>
      have same :
          state.emitAll block =
            precededBy (block.reverse ++ state.output) { state with output := [] } :=
        rfl
      simp only [Outcome.ok_bind]
      rw [puts state _ (callsBelow_of_run_start runs), same, run_precededBy]
      cases run (Cue.ofTokensAfter false after) { state with output := [] } with
      | error cause =>
          rfl
      | ok last =>
          simp only [Outcome.map_ok, Outcome.ok_bind, finish_precededBy]
          cases last.finish with
          | error cause =>
              rfl
          | ok rest =>
              simp

/-- A group in a gap has its own postfix sequence there. -/
theorem toPostfix_group
    {before inner after sequence : List Token}
    (uncalled : ∀ text arguments, before.getLast? ≠ some (.name text arguments))
    (converted : toPostfix inner = .ok sequence) :
    toPostfix (before ++ (.openParen :: (inner ++ [.closeParen]) ++ after)) =
      (surroundings before after).map fun parts => parts.1 ++ sequence ++ parts.2 := by
  apply toPostfix_of_block (.inl uncalled)
  intro state afterOpen below
  simpa using run_group converted below afterOpen after

/-- A name in a gap that is not called there stays as it is. -/
theorem toPostfix_name
    {before after : List Token}
    (notCalled : after.head? ≠ some .openParen)
    (text : Text)
    (arguments : Int) :
    toPostfix (before ++ ([.name text arguments] ++ after)) =
      (surroundings before after).map fun parts =>
        parts.1 ++ [.name text arguments] ++ parts.2 := by
  apply toPostfix_of_block (.inr (by simp))
  intro state afterOpen below
  rw [List.singleton_append, Cue.ofTokensAfter_name afterOpen text arguments notCalled]
  rfl

end Conversion

end Reckoner
