import Reckoner.Postfix
import Reckoner.Proofs.Outcome

/-!
# Parentheses of groups and of calls

A conversion knows the parenthesis of a call only by the number of tokens that
wait below it. In every state that a run can reach, these numbers mark exactly
the parentheses that lie on a name (`Framed`), so the innermost parenthesis is
missing, that of a group, or that of a call (`Innermost`), and each round of a
conversion has one known outcome in each of the three cases.
-/

namespace Reckoner

namespace Conversion

/-- Append tokens to the output. -/
def emitAll (tokens : List Token) (state : Conversion) : Conversion :=
  { state with output := tokens.reverse ++ state.output }

/-- A conversion that has just entered a call, but for a number of commas. -/
def insideCall
    (name : Text)
    (arguments : Int)
    (commas : Nat)
    (state : Conversion) :
    Conversion where
  output := state.output
  waiting := .openParen :: .name name arguments :: state.waiting
  calls := { depth := state.waiting.length + 1, commas := commas } :: state.calls

/-- Every open call has its parenthesis among the waiting tokens. -/
def CallsBelow (state : Conversion) : Prop :=
  ∀ frame ∈ state.calls, frame.depth < state.waiting.length

theorem callsBelow_start : start.CallsBelow := by
  intro frame member
  cases member

namespace CallsBelow

/-- More waiting tokens keep the parentheses of open calls below them. -/
theorem of_length_le
    {state following : Conversion}
    (below : state.CallsBelow)
    (sameCalls : following.calls = state.calls)
    (longer : state.waiting.length ≤ following.waiting.length) :
    following.CallsBelow := by
  intro frame member
  rw [sameCalls] at member
  exact Nat.lt_of_lt_of_le (below frame member) longer

theorem emitAll
    {state : Conversion}
    (below : state.CallsBelow)
    (tokens : List Token) :
    (state.emitAll tokens).CallsBelow :=
  below

theorem insideCall
    {state : Conversion}
    (below : state.CallsBelow)
    (name : Text)
    (arguments : Int)
    (commas : Nat) :
    (state.insideCall name arguments commas).CallsBelow := by
  intro frame member
  simp only [Conversion.insideCall, List.length_cons]
  rcases List.mem_cons.mp member with isNew | isOuter
  · subst isNew
    exact Nat.lt_succ_self _
  · have lower := below frame isOuter
    omega

end CallsBelow

/-! ## Runs -/

@[simp] theorem run_nil
    (state : Conversion) :
    run [] state = .ok state :=
  rfl

theorem run_cons
    (cue : Cue)
    (rest : List Cue)
    (state : Conversion) :
    run (cue :: rest) state = step state cue >>= run rest :=
  rfl

/-- A run goes on from the state after its first step. -/
theorem run_cons_of_step
    {cue : Cue}
    {state following : Conversion}
    (steps : step state cue = .ok following)
    (rest : List Cue) :
    run (cue :: rest) state = run rest following := by
  rw [run_cons, steps, Outcome.ok_bind]

/-! ## Released tokens -/

/-- Release moves exactly the topmost tokens that satisfy its condition. -/
theorem release_eq
    {condition : Token → Bool}
    {state : Conversion}
    {released below : List Token}
    (waiting : state.waiting = released ++ below)
    (moved : ∀ token ∈ released, condition token = true)
    (stops : ∀ token ∈ below.head?, condition token = false) :
    state.release condition = {
      output := released.reverse ++ state.output
      waiting := below
      calls := state.calls
    } := by
  have stays :
      below.takeWhile condition = [] ∧ below.dropWhile condition = below := by
    cases below with
    | nil =>
        exact ⟨rfl, rfl⟩
    | cons token rest =>
        have refused : condition token = false := stops token rfl
        simp [refused]
  simp [release, waiting, List.takeWhile_append_of_pos moved,
    List.dropWhile_append_of_pos moved, stays]

/-- A parenthesis above all open calls belongs to none of them. -/
theorem callAt?_eq_none
    {state : Conversion}
    {depth : Nat}
    (deeper : ∀ frame ∈ state.calls, frame.depth < depth) :
    state.callAt? depth = none := by
  cases calls : state.calls with
  | nil =>
      simp [callAt?, calls]
  | cons frame outer =>
      have different : frame.depth ≠ depth :=
        Nat.ne_of_lt (deeper frame (by simp [calls]))
      simp [callAt?, calls, different]

section Parenthesis

variable
  {state : Conversion}
  {inside below : List Token}

/-- Releasing everything inside uncovers the innermost opening parenthesis. -/
theorem release_isInside
    (waiting : state.waiting = inside ++ .openParen :: below)
    (moved : ∀ token ∈ inside, isInside token = true) :
    state.release isInside = {
      output := inside.reverse ++ state.output
      waiting := .openParen :: below
      calls := state.calls
    } :=
  release_eq waiting moved (by simp [isInside])

/-- Without an opening parenthesis everything is released. -/
theorem release_isInside_of_forall
    (moved : ∀ token ∈ state.waiting, isInside token = true) :
    state.release isInside = {
      output := state.waiting.reverse ++ state.output
      waiting := []
      calls := state.calls
    } :=
  release_eq (List.append_nil _).symm moved (by simp)

/-- Closing a group puts out what is inside it and forgets its parenthesis. -/
theorem closeParen_group
    (waiting : state.waiting = inside ++ .openParen :: below)
    (moved : ∀ token ∈ inside, isInside token = true)
    (outside : ∀ frame ∈ state.calls, frame.depth < below.length)
    (afterOpen : Bool) :
    state.closeParen afterOpen = .ok {
      output := inside.reverse ++ state.output
      waiting := below
      calls := state.calls
    } := by
  have noCall :
      callAt? below.length {
        output := inside.reverse ++ state.output
        waiting := .openParen :: below
        calls := state.calls
      } = none :=
    callAt?_eq_none outside
  simp [closeParen, release_isInside waiting moved, noCall]

/-- A comma directly inside a group is refused. -/
theorem endArgument_group
    (waiting : state.waiting = inside ++ .openParen :: below)
    (moved : ∀ token ∈ inside, isInside token = true)
    (outside : ∀ frame ∈ state.calls, frame.depth < below.length) :
    state.endArgument = .error .strayComma := by
  have noCall :
      callAt? below.length {
        output := inside.reverse ++ state.output
        waiting := .openParen :: below
        calls := state.calls
      } = none :=
    callAt?_eq_none outside
  simp [endArgument, release_isInside waiting moved, noCall]

/-- Closing a call puts out what is inside it and then its name. -/
theorem closeParen_call
    {name : Text}
    {arguments : Int}
    {frame : CallFrame}
    {outer : List CallFrame}
    (waiting : state.waiting = inside ++ .openParen :: .name name arguments :: below)
    (moved : ∀ token ∈ inside, isInside token = true)
    (calls : state.calls = frame :: outer)
    (depth : frame.depth = below.length + 1)
    (afterOpen : Bool) :
    state.closeParen afterOpen = .ok {
      output :=
        .name name (if afterOpen then 0 else frame.commas + 1 : Nat) ::
          (inside.reverse ++ state.output)
      waiting := below
      calls := outer
    } := by
  simp [closeParen, release_isInside waiting moved, callAt?, calls, depth]

/-- A comma of a call puts out what is inside it and is counted. -/
theorem endArgument_call
    {frame : CallFrame}
    {outer : List CallFrame}
    (waiting : state.waiting = inside ++ .openParen :: below)
    (moved : ∀ token ∈ inside, isInside token = true)
    (calls : state.calls = frame :: outer)
    (depth : frame.depth = below.length) :
    state.endArgument = .ok {
      output := inside.reverse ++ state.output
      waiting := .openParen :: below
      calls := { frame with commas := frame.commas + 1 } :: outer
    } := by
  simp [endArgument, release_isInside waiting moved, callAt?, calls, depth]

/-- Nothing can be closed where nothing is open. -/
theorem closeParen_none
    (moved : ∀ token ∈ state.waiting, isInside token = true)
    (afterOpen : Bool) :
    state.closeParen afterOpen = .error .unmatchedClose := by
  simp [closeParen, release_isInside_of_forall moved]

theorem endArgument_none
    (moved : ∀ token ∈ state.waiting, isInside token = true) :
    state.endArgument = .error .strayComma := by
  simp [endArgument, release_isInside_of_forall moved]

/-- A conversion in which nothing is open ends with everything put out. -/
theorem finish_none
    (moved : ∀ token ∈ state.waiting, isInside token = true) :
    state.finish = .ok (state.waiting.reverse ++ state.output).reverse := by
  simp [finish, release_isInside_of_forall moved]

/-- An open parenthesis is missed at the end. -/
theorem finish_open
    (waiting : state.waiting = inside ++ .openParen :: below)
    (moved : ∀ token ∈ inside, isInside token = true) :
    state.finish = .error .unmatchedOpen := by
  simp [finish, release_isInside waiting moved]

end Parenthesis

/-! ## States that a run can reach -/

/--
Waiting tokens and open calls that fit each other: nothing but operators and
opening parentheses waits, except for the names of calls, and the open calls are
those whose parenthesis lies directly on their name.
-/
inductive Framed : List Token → List CallFrame → Prop where
  | empty : Framed [] []
  | operator
      {waiting : List Token}
      {calls : List CallFrame}
      (symbol : UInt8)
      (below : Framed waiting calls) :
      Framed (.operator symbol :: waiting) calls
  | group
      {waiting : List Token}
      {calls : List CallFrame}
      (below : Framed waiting calls) :
      Framed (.openParen :: waiting) calls
  | call
      {waiting : List Token}
      {calls : List CallFrame}
      (name : Text)
      (arguments : Int)
      (commas : Nat)
      (below : Framed waiting calls) :
      Framed (.openParen :: .name name arguments :: waiting)
        ({ depth := waiting.length + 1, commas := commas } :: calls)

/-- What the innermost opening parenthesis belongs to, with everything inside it. -/
inductive Innermost (waiting : List Token) (calls : List CallFrame) : Prop where
  | none
      (inside : ∀ token ∈ waiting, isInside token = true)
      (noCalls : calls = [])
  | group
      {below : List Token}
      (inside : List Token)
      (split : waiting = inside ++ .openParen :: below)
      (moved : ∀ token ∈ inside, isInside token = true)
      (framed : Framed below calls)
  | call
      {below : List Token}
      {outer : List CallFrame}
      (inside : List Token)
      (name : Text)
      (arguments : Int)
      (commas : Nat)
      (split : waiting = inside ++ .openParen :: .name name arguments :: below)
      (moved : ∀ token ∈ inside, isInside token = true)
      (frames : calls = { depth := below.length + 1, commas := commas } :: outer)
      (framed : Framed below outer)

namespace Framed

variable
  {waiting : List Token}
  {calls : List CallFrame}

/-- Every open call has its parenthesis among the waiting tokens. -/
theorem depth_lt
    (framed : Framed waiting calls) :
    ∀ frame ∈ calls, frame.depth < waiting.length := by
  induction framed with
  | empty =>
      intro frame member
      cases member
  | operator symbol below inductionHypothesis =>
      intro frame member
      exact Nat.lt_succ_of_lt (inductionHypothesis frame member)
  | group below inductionHypothesis =>
      intro frame member
      exact Nat.lt_succ_of_lt (inductionHypothesis frame member)
  | call name arguments commas below inductionHypothesis =>
      intro frame member
      simp only [List.length_cons]
      rcases List.mem_cons.mp member with isNew | isOuter
      · subst isNew
        exact Nat.lt_succ_self _
      · have lower := inductionHypothesis frame isOuter
        omega

/-- Releasing tokens above a parenthesis takes away operators only. -/
theorem dropWhile
    {condition : Token → Bool}
    (framed : Framed waiting calls)
    (stops : condition .openParen = false) :
    Framed (waiting.dropWhile condition) calls := by
  induction framed with
  | empty =>
      exact .empty
  | operator symbol below inductionHypothesis =>
      rw [List.dropWhile_cons]
      split
      · exact inductionHypothesis
      · exact .operator symbol below
  | group below inductionHypothesis =>
      simpa [List.dropWhile_cons, stops] using below.group
  | call name arguments commas below inductionHypothesis =>
      simpa [List.dropWhile_cons, stops] using below.call name arguments commas

/-- Only operators lie above the innermost parenthesis. -/
theorem innermost
    (framed : Framed waiting calls) :
    Innermost waiting calls := by
  induction framed with
  | empty =>
      exact .none (by simp) rfl
  | operator symbol below inductionHypothesis =>
      cases inductionHypothesis with
      | none inside noCalls =>
          exact .none (by simpa [isInside] using inside) noCalls
      | group inside split moved framed =>
          exact .group (.operator symbol :: inside) (by rw [split]; rfl)
            (by simpa [isInside] using moved) framed
      | call inside name arguments commas split moved frames framed =>
          exact .call (.operator symbol :: inside) name arguments commas
            (by rw [split]; rfl) (by simpa [isInside] using moved) frames framed
  | group below inductionHypothesis =>
      exact .group [] rfl (by simp) below
  | call name arguments commas below inductionHypothesis =>
      exact .call [] name arguments commas rfl (by simp) rfl below

end Framed

section Reachable

variable
  {state following : Conversion}

theorem framed_endArgument
    (framed : Framed state.waiting state.calls)
    (ends : state.endArgument = .ok following) :
    Framed following.waiting following.calls := by
  cases framed.innermost with
  | none inside noCalls =>
      rw [endArgument_none inside] at ends
      cases ends
  | group inside split moved below =>
      rw [endArgument_group split moved below.depth_lt] at ends
      cases ends
  | call inside name arguments commas split moved frames below =>
      rw [endArgument_call split moved frames rfl] at ends
      cases ends
      exact below.call name arguments (commas + 1)

theorem framed_closeParen
    (framed : Framed state.waiting state.calls)
    {afterOpen : Bool}
    (closes : state.closeParen afterOpen = .ok following) :
    Framed following.waiting following.calls := by
  cases framed.innermost with
  | none inside noCalls =>
      rw [closeParen_none inside] at closes
      cases closes
  | group inside split moved below =>
      rw [closeParen_group split moved below.depth_lt] at closes
      cases closes
      exact below
  | call inside name arguments commas split moved frames below =>
      rw [closeParen_call split moved frames rfl] at closes
      cases closes
      exact below

/-- Every round keeps waiting tokens and open calls fitting each other. -/
theorem framed_step
    {cue : Cue}
    (framed : Framed state.waiting state.calls)
    (steps : step state cue = .ok following) :
    Framed following.waiting following.calls := by
  cases cue with
  | operand token =>
      cases steps
      exact framed
  | operator symbol =>
      cases steps
      exact (framed.dropWhile rfl).operator symbol
  | beginCall name arguments =>
      cases steps
      exact framed.call name arguments 0
  | beginGroup =>
      cases steps
      exact framed.group
  | nextArgument =>
      exact framed_endArgument framed steps
  | close afterOpen =>
      exact framed_closeParen framed steps

theorem framed_run
    {cues : List Cue}
    (framed : Framed state.waiting state.calls)
    (runs : run cues state = .ok following) :
    Framed following.waiting following.calls := by
  induction cues generalizing state with
  | nil =>
      cases runs
      exact framed
  | cons cue rest inductionHypothesis =>
      obtain ⟨middle, steps, restRuns⟩ := Outcome.bind_eq_ok_iff.mp runs
      exact inductionHypothesis (framed_step framed steps) restRuns

/-- In every state reached from the start the open calls have their parentheses below. -/
theorem callsBelow_of_run_start
    {cues : List Cue}
    (runs : run cues start = .ok state) :
    state.CallsBelow :=
  (framed_run .empty runs).depth_lt

end Reachable

end Conversion

end Reckoner
