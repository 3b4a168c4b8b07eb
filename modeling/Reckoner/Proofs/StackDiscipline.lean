import Mathlib.Data.List.Chain
import Mathlib.Data.List.TakeWhile
import Reckoner.Proofs.Blocks

/-!
# The discipline of the waiting tokens

Between two rounds of a conversion the waiting tokens are in strict order. Only
operators, opening parentheses and names wait, and a name only directly below a
parenthesis. The depths of the open calls are those of the parentheses on
names, and operators without a parenthesis between them bind ever tighter
towards the top.

The waiting tokens alone say nothing about the formula, so the closing of a call
is tied to the tokens read as well: the name that it finds is the one directly
before the innermost open parenthesis.
-/

namespace Reckoner

/-! ## Rounds and the tokens they have read -/

namespace Cue

/-- The first cues of some tokens are the cues of the tokens that they stand for. -/
theorem exists_rest_of_append
    {afterOpen : Bool}
    {tokens : List Token}
    {done left : List Cue}
    (split : ofTokensAfter afterOpen tokens = done ++ left) :
    ∃ rest,
      tokens = done.flatMap reads ++ rest ∧
        ofTokensAfter afterOpen (done.flatMap reads) = done ∧
        ofTokensAfter (endsOpen afterOpen (done.flatMap reads)) rest = left := by
  induction afterOpen, tokens using ofTokensAfter.induct generalizing done with
  | case1 =>
      obtain ⟨rfl, rfl⟩ := List.append_eq_nil_iff.mp split.symm
      exact ⟨[], rfl, rfl, rfl⟩
  | case3 _ text arguments rest apart inductionHypothesis =>
      have notCalled := head?_ne_openParen apart
      cases done with
      | nil =>
          exact ⟨_, rfl, rfl, split⟩
      | cons cue later =>
          rw [ofTokensAfter_name _ _ _ notCalled] at split
          obtain ⟨rfl, remaining⟩ := List.cons.inj split
          obtain ⟨rest, rfl, again, leaves⟩ := inductionHypothesis remaining
          have stillNotCalled : (later.flatMap reads).head? ≠ some .openParen := by
            intro called
            rw [List.head?_append, called] at notCalled
            exact notCalled rfl
          refine ⟨rest, by simp [reads], ?_, by simpa [reads, endsOpen] using leaves⟩
          rw [List.flatMap_cons, reads, List.singleton_append,
            ofTokensAfter_name _ _ _ stillNotCalled, again]
  | case2 _ _ _ _ inductionHypothesis
  | case4 _ _ _ _ inductionHypothesis
  | case5 _ _ _ inductionHypothesis
  | case6 _ _ inductionHypothesis
  | case7 _ _ inductionHypothesis
  | case8 _ _ inductionHypothesis =>
      cases done with
      | nil =>
          exact ⟨_, rfl, rfl, split⟩
      | cons cue later =>
          simp only [ofTokensAfter_call, ofTokensAfter_number, ofTokensAfter_operator,
            ofTokensAfter_openParen, ofTokensAfter_comma, ofTokensAfter_closeParen] at split
          obtain ⟨rfl, remaining⟩ := List.cons.inj split
          obtain ⟨rest, rfl, again, leaves⟩ := inductionHypothesis remaining
          exact ⟨rest, by simp [reads], by simp [reads, again],
            by simpa [reads, endsOpen] using leaves⟩

/-- A closing parenthesis that is next knows the last token before it. -/
theorem eq_endsOpen_of_close
    {afterOpen before : Bool}
    {rest : List Token}
    {left : List Cue}
    (next : ofTokensAfter before rest = .close afterOpen :: left) :
    afterOpen = before := by
  cases rest with
  | nil =>
      cases next
  | cons token later =>
      cases token with
      | name text arguments =>
          by_cases called : later.head? = some .openParen
          · obtain ⟨inside, rfl⟩ := List.head?_eq_some_iff.mp called
            cases next
          · rw [ofTokensAfter_name _ _ _ called] at next
            cases next
      | closeParen =>
          rw [ofTokensAfter_closeParen] at next
          cases next
          rfl
      | _ =>
          simp at next

end Cue

namespace Conversion

/-! ## Operators that wait above one another -/

/-- Of two operators directly above one another the upper one binds tighter. -/
def Climbs (upper lower : Token) : Prop :=
  ∀ upperSymbol lowerSymbol,
    upper = .operator upperSymbol →
    lower = .operator lowerSymbol →
    Byte.precedence lowerSymbol < Byte.precedence upperSymbol

/-- Everywhere among the waiting tokens operators climb. -/
def Climbing (waiting : List Token) : Prop :=
  waiting.IsChain Climbs

namespace Climbing

variable
  {waiting : List Token}

/-- Any token but an operator may be put on top. -/
theorem cons_plain
    {token : Token}
    (climbing : Climbing waiting)
    (plain : ∀ symbol, token ≠ .operator symbol) :
    Climbing (token :: waiting) := by
  refine List.IsChain.cons climbing ?_
  intro lower _ upperSymbol _ isOperator
  exact (plain upperSymbol isOperator).elim

/-- An operator may be put on top of what does not yield to it. -/
theorem cons_operator
    {symbol : UInt8}
    (climbing : Climbing waiting)
    (stays : ∀ token ∈ waiting.head?, yieldsTo symbol token = false) :
    Climbing (.operator symbol :: waiting) := by
  refine List.IsChain.cons climbing ?_
  rintro lower top upperSymbol lowerSymbol ⟨⟩ rfl
  have looser := stays _ top
  simpa [yieldsTo] using looser

/-- A run of operators binds ever tighter towards its top. -/
theorem pairwise
    {above below : List Token}
    {symbols : List UInt8}
    (climbing : Climbing waiting)
    (split : waiting = above ++ symbols.map .operator ++ below) :
    (symbols.map Byte.precedence).Pairwise (· > ·) := by
  have run : (symbols.map Token.operator).IsChain Climbs := by
    rw [Climbing, split] at climbing
    exact climbing.infix (List.infix_append above _ below)
  rw [List.isChain_map] at run
  rw [← List.isChain_iff_pairwise, List.isChain_map]
  exact run.imp fun upper lower climbs => climbs upper lower rfl rfl

end Climbing

section Steps

variable
  {state following : Conversion}

theorem climbing_pushOperator
    (climbing : Climbing state.waiting)
    (symbol : UInt8) :
    Climbing (state.pushOperator symbol).waiting := by
  have released : Climbing (state.waiting.dropWhile (yieldsTo symbol)) :=
    climbing.suffix (List.dropWhile_suffix _)
  refine released.cons_operator ?_
  intro token top
  have stops := List.head?_dropWhile_not (yieldsTo symbol) state.waiting
  rw [Option.mem_def.mp top] at stops
  exact stops

/-- Neither a comma nor a closing parenthesis puts anything on top. -/
theorem suffix_of_endArgument
    (framed : Framed state.waiting state.calls)
    (ends : state.endArgument = .ok following) :
    following.waiting <:+ state.waiting := by
  cases framed.innermost with
  | none inside noCalls =>
      rw [endArgument_none inside] at ends
      cases ends
  | group inside split moved below =>
      rw [endArgument_group split moved below.depth_lt] at ends
      cases ends
  | call inside name arguments commas split moved frames below =>
      rw [endArgument_call split moved frames rfl] at ends
      cases ends
      exact ⟨inside, split.symm⟩

theorem suffix_of_closeParen
    {afterOpen : Bool}
    (framed : Framed state.waiting state.calls)
    (closes : state.closeParen afterOpen = .ok following) :
    following.waiting <:+ state.waiting := by
  cases framed.innermost with
  | none inside noCalls =>
      rw [closeParen_none inside] at closes
      cases closes
  | group inside split moved below =>
      rw [closeParen_group split moved below.depth_lt] at closes
      cases closes
      exact ⟨inside ++ [.openParen], by rw [split]; simp⟩
  | call inside name arguments commas split moved frames below =>
      rw [closeParen_call split moved frames rfl] at closes
      cases closes
      exact ⟨inside ++ [.openParen, .name name arguments], by rw [split]; simp⟩

/-- Every round keeps operators climbing. -/
theorem climbing_step
    {cue : Cue}
    (framed : Framed state.waiting state.calls)
    (climbing : Climbing state.waiting)
    (steps : step state cue = .ok following) :
    Climbing following.waiting := by
  cases cue with
  | operand token =>
      cases steps
      exact climbing
  | operator symbol =>
      cases steps
      exact climbing_pushOperator climbing symbol
  | beginCall name arguments =>
      cases steps
      exact (climbing.cons_plain (by simp)).cons_plain (by simp)
  | beginGroup =>
      cases steps
      exact climbing.cons_plain (by simp)
  | nextArgument =>
      exact climbing.suffix (suffix_of_endArgument framed steps)
  | close afterOpen =>
      exact climbing.suffix (suffix_of_closeParen framed steps)

theorem climbing_run
    {cues : List Cue}
    (framed : Framed state.waiting state.calls)
    (climbing : Climbing state.waiting)
    (runs : run cues state = .ok following) :
    Climbing following.waiting := by
  induction cues generalizing state with
  | nil =>
      cases runs
      exact climbing
  | cons cue rest inductionHypothesis =>
      obtain ⟨middle, steps, restRuns⟩ := Outcome.bind_eq_ok_iff.mp runs
      exact inductionHypothesis (framed_step framed steps)
        (climbing_step framed climbing steps) restRuns

end Steps

/-! ## What frames say about the waiting tokens -/

/-- The parenthesis of a call waits on a name with `depth` tokens below the parenthesis. -/
def OpensCallAt (waiting : List Token) (depth : Nat) : Prop :=
  ∃ above name arguments below,
    waiting = above ++ .openParen :: .name name arguments :: below ∧
      depth = below.length + 1

theorem opensCallAt_cons_iff
    {token : Token}
    {waiting : List Token}
    {depth : Nat}
    (noName : ∀ name arguments, waiting.head? ≠ some (.name name arguments)) :
    OpensCallAt (token :: waiting) depth ↔ OpensCallAt waiting depth := by
  constructor
  · rintro ⟨above, name, arguments, below, split, rfl⟩
    cases above with
    | nil =>
        obtain ⟨-, rfl⟩ := List.cons.inj split
        exact (noName name arguments rfl).elim
    | cons top above =>
        exact ⟨above, name, arguments, below, (List.cons.inj split).2, rfl⟩
  · rintro ⟨above, name, arguments, below, rfl, rfl⟩
    exact ⟨token :: above, name, arguments, below, rfl, rfl⟩

theorem opensCallAt_call_iff
    {name : Text}
    {arguments : Int}
    {waiting : List Token}
    {depth : Nat}
    (noName : ∀ name arguments, waiting.head? ≠ some (.name name arguments)) :
    OpensCallAt (.openParen :: .name name arguments :: waiting) depth ↔
      depth = waiting.length + 1 ∨ OpensCallAt waiting depth := by
  rw [← opensCallAt_cons_iff noName]
  constructor
  · rintro ⟨above, other, count, below, split, rfl⟩
    cases above with
    | nil =>
        cases split
        exact .inl rfl
    | cons top above =>
        exact .inr ⟨above, other, count, below, (List.cons.inj split).2, rfl⟩
  · rintro (rfl | ⟨above, other, count, below, split, rfl⟩)
    · exact ⟨[], name, arguments, waiting, rfl, rfl⟩
    · exact ⟨.openParen :: above, other, count, below, by rw [split]; rfl, rfl⟩

namespace Framed

variable
  {waiting : List Token}
  {calls : List CallFrame}

/-- Only operators, opening parentheses and names wait. -/
theorem waits
    (framed : Framed waiting calls) :
    ∀ token ∈ waiting,
      (∃ symbol, token = .operator symbol) ∨
        token = .openParen ∨
        ∃ name arguments, token = .name name arguments := by
  induction framed with
  | empty =>
      simp
  | operator symbol below inductionHypothesis =>
      exact List.forall_mem_cons.mpr ⟨.inl ⟨symbol, rfl⟩, inductionHypothesis⟩
  | group below inductionHypothesis =>
      exact List.forall_mem_cons.mpr ⟨.inr (.inl rfl), inductionHypothesis⟩
  | call name arguments commas below inductionHypothesis =>
      refine List.forall_mem_cons.mpr ⟨.inr (.inl rfl), ?_⟩
      exact List.forall_mem_cons.mpr ⟨.inr (.inr ⟨name, arguments, rfl⟩), inductionHypothesis⟩

/-- No name waits on top. -/
theorem head?_ne_name
    (framed : Framed waiting calls)
    (name : Text)
    (arguments : Int) :
    waiting.head? ≠ some (.name name arguments) := by
  cases framed <;> simp

/-- Directly above a name that waits there is its parenthesis. -/
theorem getLast?_above_name
    (framed : Framed waiting calls)
    {above below : List Token}
    {name : Text}
    {arguments : Int}
    (split : waiting = above ++ .name name arguments :: below) :
    above.getLast? = some .openParen := by
  have noName : ∀ {waiting calls}, Framed waiting calls →
      waiting ≠ [] ++ .name name arguments :: below := by
    rintro _ _ framed rfl
    exact framed.head?_ne_name name arguments rfl
  induction framed generalizing above with
  | empty =>
      simp at split
  | operator symbol lower inductionHypothesis =>
      rcases above with _ | ⟨top, above⟩
      · cases split
      · have inner := inductionHypothesis (List.cons.inj split).2
        rw [List.getLast?_cons, inner, Option.getD_some]
  | group lower inductionHypothesis =>
      rcases above with _ | ⟨top, _ | ⟨second, above⟩⟩
      · cases split
      · exact (noName lower (List.cons.inj split).2).elim
      · have inner := inductionHypothesis (List.cons.inj split).2
        rw [List.getLast?_cons, inner, Option.getD_some]
  | call _ _ _ lower inductionHypothesis =>
      rcases above with _ | ⟨top, _ | ⟨second, above⟩⟩
      · cases split
      · rw [← (List.cons.inj split).1]
        rfl
      · have inner := inductionHypothesis (List.cons.inj (List.cons.inj split).2).2
        rw [List.getLast?_cons, List.getLast?_cons, inner, Option.getD_some, Option.getD_some]

/-- Towards the outer calls depths fall. -/
theorem pairwise_depth
    (framed : Framed waiting calls) :
    (calls.map CallFrame.depth).Pairwise (· > ·) := by
  induction framed with
  | empty =>
      exact .nil
  | operator symbol below inductionHypothesis =>
      exact inductionHypothesis
  | group below inductionHypothesis =>
      exact inductionHypothesis
  | call name arguments commas below inductionHypothesis =>
      refine .cons ?_ inductionHypothesis
      intro depth member
      obtain ⟨frame, isOuter, rfl⟩ := List.mem_map.mp member
      exact Nat.lt_succ_of_lt (below.depth_lt frame isOuter)

/-- The frames are those of the parentheses on names. -/
theorem mem_depths_iff
    (framed : Framed waiting calls)
    (depth : Nat) :
    depth ∈ calls.map CallFrame.depth ↔ OpensCallAt waiting depth := by
  induction framed with
  | empty =>
      simp [OpensCallAt]
  | operator symbol below inductionHypothesis =>
      rw [opensCallAt_cons_iff below.head?_ne_name, inductionHypothesis]
  | group below inductionHypothesis =>
      rw [opensCallAt_cons_iff below.head?_ne_name, inductionHypothesis]
  | call name arguments commas below inductionHypothesis =>
      rw [opensCallAt_call_iff below.head?_ne_name, List.map_cons, List.mem_cons,
        inductionHypothesis]

end Framed

/-! ## What a round can rely on -/

section Rounds

variable
  {read : List Token}
  {state : Conversion}

/--
A parenthesis that is taken for that of a call lies on a name, and that name
stands directly before the innermost open parenthesis of the tokens read.
-/
theorem exists_name_of_callAt?
    (framed : Framed state.waiting state.calls)
    (tallied : Tallied read state.waiting state.calls)
    {below : List Token}
    {frame : CallFrame}
    {outer : List CallFrame}
    (uncovers : (state.release isInside).waiting = .openParen :: below)
    (found : (state.release isInside).callAt? below.length = some (frame, outer)) :
    ∃ name arguments waiting before,
      below = .name name arguments :: waiting ∧
        Opening.outside? 0 read = some (.name name arguments :: before) := by
  have released : Tallied read (state.waiting.dropWhile isInside) state.calls :=
    tallied.dropWhile rfl
  have uncovered : state.waiting.dropWhile isInside = .openParen :: below := uncovers
  rw [uncovered] at released
  cases framed.innermost with
  | none inside noCalls =>
      rw [release_isInside_of_forall inside] at uncovers
      cases uncovers
  | group inside split moved lower =>
      rw [release_isInside split moved] at uncovers found
      cases uncovers
      have noCall := found.symm.trans (callAt?_eq_none lower.depth_lt)
      cases noCall
  | call inside name arguments commas split moved frames lower =>
      rw [release_isInside split moved] at uncovers
      cases uncovers
      rw [frames] at released
      obtain ⟨before, innermost, -, -⟩ := released.exists_of_call
      exact ⟨name, arguments, _, before, rfl, innermost⟩

/-- At the end either a parenthesis is missed or nothing but operators is left to put out. -/
theorem finish_cases
    (framed : Framed state.waiting state.calls) :
    state.finish = .error .unmatchedOpen ∨
      state.finish = .ok (state.output.reverse ++ state.waiting) ∧
        ∀ token ∈ state.waiting, ∃ symbol, token = .operator symbol := by
  cases framed.innermost with
  | none inside noCalls =>
      have released :
          ∀ token ∈ state.waiting.takeWhile isInside, ∃ symbol, token = .operator symbol :=
        framed.operator_of_mem_takeWhile rfl
      rw [List.takeWhile_eq_self_iff.mpr inside] at released
      exact .inr ⟨by rw [finish_none inside]; simp, released⟩
  | group inside split moved below =>
      exact .inl (finish_open split moved)
  | call inside name arguments commas split moved frames below =>
      exact .inl (finish_open split moved)

/-- A closing parenthesis that closes something has a token before it, which it may look at. -/
theorem exists_previous_of_closeParen
    {afterOpen : Bool}
    {following : Conversion}
    (runs : run (Cue.ofTokens read) start = .ok state)
    (next : afterOpen = Cue.endsOpen false read)
    (closes : state.closeParen afterOpen = .ok following) :
    ∃ previous, read.getLast? = some previous ∧ (afterOpen = true ↔ previous = .openParen) := by
  rcases List.eq_nil_or_concat read with rfl | ⟨earlier, previous, rfl⟩
  · cases runs
    rw [closeParen_none (by simp [start])] at closes
    cases closes
  · rw [List.concat_eq_append, Cue.endsOpen_append_cons] at next
    exact ⟨previous, by simp, by simp [next, Cue.endsOpen]⟩

end Rounds

/--
The discipline of a state in the middle of a conversion, after the tokens `read`
and before the rounds `left`. The depth of a waiting token is the number of
tokens below it.
-/
structure Disciplined (read : List Token) (left : List Cue) (state : Conversion) : Prop where
  /-- Only operators, opening parentheses and names wait. -/
  waits :
    ∀ token ∈ state.waiting,
      (∃ symbol, token = .operator symbol) ∨
        token = .openParen ∨
        ∃ name arguments, token = .name name arguments
  /-- A name waits directly below an opening parenthesis. -/
  named :
    ∀ above name arguments below,
      state.waiting = above ++ .name name arguments :: below →
      above.getLast? = some .openParen
  /-- From the innermost call outwards depths fall. -/
  nested :
    (state.calls.map CallFrame.depth).Pairwise (· > ·)
  /-- Depths of calls are exactly those of the parentheses on names. -/
  framed :
    ∀ depth, depth ∈ state.calls.map CallFrame.depth ↔ OpensCallAt state.waiting depth
  /-- In every run of operators the upper ones bind tighter. -/
  climbs :
    ∀ (above : List Token) (symbols : List UInt8) (below : List Token),
      state.waiting = above ++ symbols.map .operator ++ below →
      (symbols.map Byte.precedence).Pairwise (· > ·)
  /-- The end of a call finds the name that stands before its parenthesis. -/
  closing :
    ∀ below frame outer,
      (state.release isInside).waiting = .openParen :: below →
      (state.release isInside).callAt? below.length = some (frame, outer) →
      ∃ name arguments waiting before,
        below = .name name arguments :: waiting ∧
          Opening.outside? 0 read.reverse = some (.name name arguments :: before)
  /-- A parenthesis that closes something has a token before it to look at. -/
  lookingBack :
    ∀ afterOpen later following,
      left = .close afterOpen :: later →
      state.closeParen afterOpen = .ok following →
      ∃ previous,
        read.getLast? = some previous ∧ (afterOpen = true ↔ previous = .openParen)
  /-- Before an operator, a comma or a closing parenthesis only operators are put out. -/
  releases :
    ∀ condition,
      (condition = isInside ∨ ∃ symbol, condition = yieldsTo symbol) →
      ∀ token ∈ state.waiting.takeWhile condition, ∃ symbol, token = .operator symbol
  /-- At the end only operators are put out, unless a parenthesis is missed. -/
  draining :
    (∃ fault, state.finish = .error fault ∧ fault.report.kind = .unbalancedParens) ∨
      state.finish = .ok (state.output.reverse ++ state.waiting) ∧
        ∀ token ∈ state.waiting, ∃ symbol, token = .operator symbol

end Conversion

/-- After every round of a conversion its state is disciplined, whatever the tokens are. -/
theorem conversion_disciplined
    {tokens : List Token}
    {done left : List Cue}
    {state : Conversion}
    (rounds : Cue.ofTokens tokens = done ++ left)
    (runs : Conversion.start.run done = .ok state) :
    state.Disciplined (done.flatMap Cue.reads) left := by
  obtain ⟨rest, -, again, leaves⟩ := Cue.exists_rest_of_append rounds
  have rerun : Conversion.start.run (Cue.ofTokens (done.flatMap Cue.reads)) = .ok state := by
    rw [Cue.ofTokens, again, runs]
  have framed := Conversion.framed_run .empty runs
  have nothingWaits : Conversion.Climbing Conversion.start.waiting :=
    .nil
  have climbing := Conversion.climbing_run .empty nothingWaits runs
  have records := Conversion.records_of_run_start rerun
  exact {
    waits := framed.waits
    named := fun _ _ _ _ => framed.getLast?_above_name
    nested := framed.pairwise_depth
    framed := framed.mem_depths_iff
    climbs := fun _ _ _ => climbing.pairwise
    closing := fun _ _ _ => Conversion.exists_name_of_callAt? framed records.tallied
    lookingBack := by
      rintro afterOpen later following rfl closes
      exact Conversion.exists_previous_of_closeParen rerun
        (Cue.eq_endsOpen_of_close leaves) closes
    releases := by
      rintro condition (rfl | ⟨symbol, rfl⟩)
      · exact framed.operator_of_mem_takeWhile rfl
      · exact framed.operator_of_mem_takeWhile rfl
    draining := by
      refine (Conversion.finish_cases framed).imp_left ?_
      intro missed
      exact ⟨_, missed, rfl⟩
  }

/-- In `w-f(x+y^` the operators wait in two runs, apart by the call, before the parenthesis. -/
theorem disciplined_inside_call :
    let w := Token.bareName (Text.ofString "w")
    let f := Text.ofString "f"
    let x := Token.bareName (Text.ofString "x")
    let y := Token.bareName (Text.ofString "y")
    let done := [
      Cue.operand w, .operator Byte.minus, .beginCall f (-1), .operand x, .operator Byte.plus,
      .operand y, .operator Byte.caret]
    let state : Conversion := {
      output := [y, x, w]
      waiting := [
        .operator Byte.caret, .operator Byte.plus, .openParen, .name f (-1),
        .operator Byte.minus]
      calls := [{ depth := 2, commas := 0 }]
    }
    Cue.ofTokens [
        w, .operator Byte.minus, .name f (-1), .openParen, x, .operator Byte.plus, y,
        .operator Byte.caret, .closeParen] = done ++ [.close false] ∧
      Conversion.start.run done = .ok state ∧
      state.Disciplined (done.flatMap Cue.reads) [.close false] := by
  intro w f x y done state
  have rounds : Cue.ofTokens [
      w, .operator Byte.minus, .name f (-1), .openParen, x, .operator Byte.plus, y,
      .operator Byte.caret, .closeParen] = done ++ [.close false] :=
    rfl
  have runs : Conversion.start.run done = .ok state :=
    rfl
  exact ⟨rounds, runs, conversion_disciplined rounds runs⟩

end Reckoner
