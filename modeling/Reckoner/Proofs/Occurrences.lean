import Reckoner.Proofs.Brackets

/-!
# Where the tokens of a postfix sequence stand

A conversion makes nothing up: numbers and operators are put out as they were
read, a name that is not called as well, and the name of a call with the number
of arguments that are written between its parentheses. That number is what the
frame of the call has counted, so the frames have to be followed through the
run (`Tallied`): each belongs to one open parenthesis, and its commas are those
read directly inside that parenthesis.

As in the theory of open parentheses, tokens that have been read are listed
latest first.
-/

namespace Reckoner

/-! ## Calls and their arguments -/

namespace Opening

/--
The commas directly inside the innermost open parenthesis, going back from a
place that `closed` closing parentheses without their opening ones follow.
-/
def commasInside : Nat → List Token → Nat
  | _, [] => 0
  | 0, .openParen :: _ => 0
  | closed + 1, .openParen :: before => commasInside closed before
  | closed, .closeParen :: before => commasInside (closed + 1) before
  | 0, .comma :: before => commasInside 0 before + 1
  | closed, _ :: before => commasInside closed before

theorem commasInside_cons_plain
    {token : Token}
    (notOpen : token ≠ .openParen)
    (notClose : token ≠ .closeParen)
    (notComma : token ≠ .comma)
    (closed : Nat)
    (read : List Token) :
    commasInside closed (token :: read) = commasInside closed read := by
  cases token with
  | openParen =>
      exact absurd rfl notOpen
  | closeParen =>
      exact absurd rfl notClose
  | comma =>
      exact absurd rfl notComma
  | _ =>
      simp only [commasInside]

/-- A parenthesis closed in addition uncovers the commas of the next one outside. -/
theorem commasInside_succ
    {closed : Nat}
    {read before : List Token}
    (innermost : outside? closed read = some before) :
    commasInside (closed + 1) read = commasInside 0 before := by
  induction read generalizing closed with
  | nil =>
      cases innermost
  | cons token earlier inductionHypothesis =>
      cases token with
      | openParen =>
          cases closed with
          | zero =>
              cases innermost
              rfl
          | succ closed =>
              exact inductionHypothesis innermost
      | _ =>
          simp only [outside?] at innermost
          simpa only [commasInside] using inductionHypothesis innermost

/-- The innermost open parenthesis divides what has been read. -/
theorem exists_append_of_outside?
    {closed : Nat}
    {read before : List Token}
    (innermost : outside? closed read = some before) :
    ∃ inside,
      read = inside ++ .openParen :: before ∧
        outside? closed (inside ++ [.openParen]) = some [] ∧
        commasInside closed inside = commasInside closed read := by
  induction read generalizing closed with
  | nil =>
      cases innermost
  | cons token earlier inductionHypothesis =>
      cases token with
      | openParen =>
          cases closed with
          | zero =>
              cases innermost
              exact ⟨[], rfl, rfl, rfl⟩
          | succ closed =>
              obtain ⟨inside, split, alone, commas⟩ := inductionHypothesis innermost
              exact ⟨.openParen :: inside, congrArg _ split, alone, commas⟩
      | comma =>
          simp only [outside?] at innermost
          obtain ⟨inside, split, alone, commas⟩ := inductionHypothesis innermost
          refine ⟨.comma :: inside, congrArg _ split, ?_, ?_⟩
          · simpa only [List.cons_append, outside?] using alone
          · cases closed with
            | zero =>
                exact congrArg (· + 1) commas
            | succ closed =>
                simpa only [commasInside] using commas
      | _ =>
          simp only [outside?] at innermost
          obtain ⟨inside, split, alone, commas⟩ := inductionHypothesis innermost
          refine ⟨_ :: inside, congrArg _ split, ?_, ?_⟩
          · simpa only [List.cons_append, outside?] using alone
          · simpa only [commasInside] using commas

end Opening

/--
Whether a pair of parentheses may stand around tokens: after them the
parenthesis before them is the innermost that is open.
-/
def Enclosed (inside : List Token) : Prop :=
  Opening.outside? 0 (inside.reverse ++ [.openParen]) = some []

/-- The number of arguments that the tokens between the parentheses of a call write. -/
def argumentsIn (inside : List Token) : Nat :=
  if inside = [] then 0 else Opening.commasInside 0 inside.reverse + 1

/-- A name that no opening parenthesis follows directly. -/
def StandsBare (tokens : List Token) (text : Text) (arguments : Int) : Prop :=
  ∃ before after,
    tokens = before ++ .name text arguments :: after ∧
      after.head? ≠ some .openParen

/-- A call of a name with a number of arguments between its parentheses. -/
def StandsCalled (tokens : List Token) (text : Text) (count : Nat) : Prop :=
  ∃ before arguments inside after,
    tokens =
        before ++ .name text arguments :: .openParen :: (inside ++ .closeParen :: after) ∧
      Enclosed inside ∧
      argumentsIn inside = count

theorem StandsBare.mem
    {tokens : List Token}
    {text : Text}
    {arguments : Int}
    (bare : StandsBare tokens text arguments) :
    .name text arguments ∈ tokens := by
  obtain ⟨before, after, rfl, -⟩ := bare
  simp

theorem StandsCalled.exists_mem
    {tokens : List Token}
    {text : Text}
    {count : Nat}
    (called : StandsCalled tokens text count) :
    ∃ original, .name text original ∈ tokens := by
  obtain ⟨before, original, inside, after, rfl, -, -⟩ := called
  exact ⟨original, by simp⟩

/-- A token that is put out for tokens among which it stands bare, or called as it says. -/
def Token.StandsIn (tokens : List Token) : Token → Prop
  | .name text arguments =>
      StandsBare tokens text arguments ∨
        ∃ count : Nat, arguments = count ∧ StandsCalled tokens text count
  | token => token ∈ tokens

namespace Token.StandsIn

variable
  {tokens : List Token}

/-- A name that stands among tokens, bare or called, is one of them. -/
theorem exists_mem
    {text : Text}
    {arguments : Int}
    (stands : Token.StandsIn tokens (.name text arguments)) :
    ∃ original, .name text original ∈ tokens := by
  rcases stands with bare | ⟨count, -, called⟩
  · exact ⟨arguments, bare.mem⟩
  · exact called.exists_mem

end Token.StandsIn

namespace Conversion

/-! ## Frames and the parentheses they belong to -/

/-- Waiting tokens that a condition releases above every parenthesis are operators. -/
theorem Framed.operator_of_mem_takeWhile
    {waiting : List Token}
    {calls : List CallFrame}
    {condition : Token → Bool}
    (framed : Framed waiting calls)
    (stops : condition .openParen = false) :
    ∀ token ∈ waiting.takeWhile condition, ∃ symbol, token = .operator symbol := by
  induction framed with
  | empty =>
      simp
  | operator symbol below inductionHypothesis =>
      rw [List.takeWhile_cons]
      split
      · exact List.forall_mem_cons.mpr ⟨⟨symbol, rfl⟩, inductionHypothesis⟩
      · simp
  | group below inductionHypothesis =>
      simp [stops]
  | call name arguments commas below inductionHypothesis =>
      simp [stops]

/--
Waiting tokens and open calls after some tokens have been read: every waiting
parenthesis is one that is open there, every name below one stands directly
before it, and the frame of a call counts the commas directly inside.
-/
inductive Tallied : List Token → List Token → List CallFrame → Prop where
  | empty
      {read : List Token}
      (noneOpen : Opening.outside? 0 read = none) :
      Tallied read [] []
  | operator
      {read waiting : List Token}
      {calls : List CallFrame}
      (symbol : UInt8)
      (below : Tallied read waiting calls) :
      Tallied read (.operator symbol :: waiting) calls
  | group
      {read before waiting : List Token}
      {calls : List CallFrame}
      (innermost : Opening.outside? 0 read = some before)
      (below : Tallied before waiting calls) :
      Tallied read (.openParen :: waiting) calls
  | call
      {read before waiting : List Token}
      {calls : List CallFrame}
      (name : Text)
      (arguments : Int)
      (commas : Nat)
      (innermost : Opening.outside? 0 read = some (.name name arguments :: before))
      (counted : commas = Opening.commasInside 0 read)
      (below : Tallied before waiting calls) :
      Tallied read (.openParen :: .name name arguments :: waiting)
        ({ depth := waiting.length + 1, commas := commas } :: calls)

namespace Tallied

variable
  {read waiting : List Token}
  {calls : List CallFrame}

theorem framed
    (tallied : Tallied read waiting calls) :
    Framed waiting calls := by
  induction tallied with
  | empty noneOpen =>
      exact .empty
  | operator symbol below inductionHypothesis =>
      exact inductionHypothesis.operator symbol
  | group innermost below inductionHypothesis =>
      exact inductionHypothesis.group
  | call name arguments commas innermost counted below inductionHypothesis =>
      exact inductionHypothesis.call name arguments commas

/-- Only the innermost open parenthesis and the commas inside it matter. -/
theorem of_outside?_eq
    {other : List Token}
    (tallied : Tallied read waiting calls)
    (sameOutside : Opening.outside? 0 other = Opening.outside? 0 read)
    (sameCommas : Opening.commasInside 0 other = Opening.commasInside 0 read) :
    Tallied other waiting calls := by
  induction tallied with
  | empty noneOpen =>
      exact .empty (sameOutside.trans noneOpen)
  | operator symbol below inductionHypothesis =>
      exact .operator symbol (inductionHypothesis sameOutside sameCommas)
  | group innermost below inductionHypothesis =>
      exact .group (sameOutside.trans innermost) below
  | call name arguments commas innermost counted below inductionHypothesis =>
      exact .call name arguments commas (sameOutside.trans innermost)
        (counted.trans sameCommas.symm) below

theorem cons_plain
    (tallied : Tallied read waiting calls)
    {token : Token}
    (notOpen : token ≠ .openParen)
    (notClose : token ≠ .closeParen)
    (notComma : token ≠ .comma) :
    Tallied (token :: read) waiting calls :=
  tallied.of_outside?_eq (Opening.outside?_cons_plain notOpen notClose 0 read)
    (Opening.commasInside_cons_plain notOpen notClose notComma 0 read)

/-- A closing parenthesis uncovers what was there before the parenthesis it closes. -/
theorem cons_closeParen
    {before : List Token}
    (innermost : Opening.outside? 0 read = some before)
    (below : Tallied before waiting calls) :
    Tallied (.closeParen :: read) waiting calls := by
  apply below.of_outside?_eq
  · have closes : Opening.outside? 0 (.closeParen :: read) = Opening.outside? 1 read := by
      simp only [Opening.outside?]
    rw [closes, Opening.outside?_succ, innermost, Option.bind_some]
  · have closes :
        Opening.commasInside 0 (.closeParen :: read) = Opening.commasInside 1 read := by
      simp only [Opening.commasInside]
    rw [closes, Opening.commasInside_succ innermost]

theorem dropWhile
    {condition : Token → Bool}
    (tallied : Tallied read waiting calls)
    (stops : condition .openParen = false) :
    Tallied read (waiting.dropWhile condition) calls := by
  induction tallied with
  | empty noneOpen =>
      exact .empty noneOpen
  | operator symbol below inductionHypothesis =>
      rw [List.dropWhile_cons]
      split
      · exact inductionHypothesis
      · exact .operator symbol below
  | group innermost below inductionHypothesis =>
      simpa [List.dropWhile_cons, stops] using below.group innermost
  | call name arguments commas innermost counted below inductionHypothesis =>
      simpa [List.dropWhile_cons, stops] using
        below.call name arguments commas innermost counted

/-- The parenthesis of a group lies on tokens that wait without it. -/
theorem exists_of_group
    (tallied : Tallied read (.openParen :: waiting) calls)
    (framed : Framed waiting calls) :
    ∃ before,
      Opening.outside? 0 read = some before ∧ Tallied before waiting calls := by
  cases tallied with
  | group innermost below =>
      exact ⟨_, innermost, below⟩
  | call name arguments commas innermost counted below =>
      cases framed

/-- The parenthesis of a call lies on its name, which stands before it. -/
theorem exists_of_call
    {name : Text}
    {arguments : Int}
    {commas : Nat}
    (tallied :
      Tallied read (.openParen :: .name name arguments :: waiting)
        ({ depth := waiting.length + 1, commas := commas } :: calls)) :
    ∃ before,
      Opening.outside? 0 read = some (.name name arguments :: before) ∧
        commas = Opening.commasInside 0 read ∧
        Tallied before waiting calls := by
  cases tallied with
  | group innermost named =>
      cases named
  | call _ _ _ innermost counted below =>
      exact ⟨_, innermost, counted, below⟩

end Tallied

/-! ## Everything put out has been read -/

/--
A state in the middle of a conversion of `tokens`, of which some have been read:
its frames are tallied, and what waits or was put out stands among the tokens.
-/
structure Records (tokens read : List Token) (state : Conversion) : Prop where
  tallied :
    Tallied read state.waiting state.calls
  operators :
    ∀ symbol, .operator symbol ∈ state.waiting → .operator symbol ∈ tokens
  output :
    ∀ token ∈ state.output, token.StandsIn tokens

namespace Records

variable
  {tokens read rest : List Token}
  {state following : Conversion}

theorem release
    (records : Records tokens read state)
    (condition : Token → Bool)
    (stops : condition .openParen = false) :
    Records tokens read (state.release condition) where
  tallied := records.tallied.dropWhile stops
  operators := by
    intro symbol member
    exact records.operators symbol ((List.dropWhile_sublist condition).subset member)
  output := by
    intro token member
    rcases List.mem_append.mp member with isMoved | isEarlier
    · have moved := List.mem_reverse.mp isMoved
      obtain ⟨symbol, rfl⟩ :=
        records.tallied.framed.operator_of_mem_takeWhile stops token moved
      exact records.operators symbol ((List.takeWhile_sublist condition).subset moved)
    · exact records.output token isEarlier

theorem emit
    (records : Records tokens read state)
    {token : Token}
    (notOpen : token ≠ .openParen)
    (notClose : token ≠ .closeParen)
    (notComma : token ≠ .comma)
    (stands : token.StandsIn tokens) :
    Records tokens (token :: read) (state.emit token) where
  tallied := records.tallied.cons_plain notOpen notClose notComma
  operators := records.operators
  output := List.forall_mem_cons.mpr ⟨stands, records.output⟩

theorem pushOperator
    (records : Records tokens read state)
    {symbol : UInt8}
    (member : .operator symbol ∈ tokens) :
    Records tokens (.operator symbol :: read) (state.pushOperator symbol) := by
  have released := records.release (yieldsTo symbol) rfl
  exact {
    tallied := (released.tallied.cons_plain (by simp) (by simp) (by simp)).operator symbol
    operators := by
      intro other waits
      rcases List.mem_cons.mp waits with isNew | isEarlier
      · rw [isNew]
        exact member
      · exact released.operators other isEarlier
    output := released.output
  }

theorem pushCall
    (records : Records tokens read state)
    (name : Text)
    (arguments : Int) :
    Records tokens (.openParen :: .name name arguments :: read)
      (state.pushCall name arguments) where
  tallied := records.tallied.call name arguments 0 rfl rfl
  operators := by
    intro symbol waits
    exact records.operators symbol (by simpa [Conversion.pushCall] using waits)
  output := records.output

theorem pushGroup
    (records : Records tokens read state) :
    Records tokens (.openParen :: read) state.pushGroup where
  tallied := records.tallied.group rfl
  operators := by
    intro symbol waits
    exact records.operators symbol (by simpa [Conversion.pushGroup] using waits)
  output := records.output

/-- A comma that is taken is counted by the frame of the innermost parenthesis. -/
theorem endArgument
    (records : Records tokens read state)
    (ends : state.endArgument = .ok following) :
    Records tokens (.comma :: read) following := by
  have released := records.release isInside rfl
  cases records.tallied.framed.innermost with
  | none inside noCalls =>
      rw [endArgument_none inside] at ends
      cases ends
  | group inside split moved below =>
      rw [endArgument_group split moved below.depth_lt] at ends
      cases ends
  | call inside name arguments commas split moved frames below =>
      rw [endArgument_call split moved frames rfl] at ends
      rw [release_isInside split moved, frames] at released
      cases ends
      obtain ⟨tallied, operators, output⟩ := released
      refine ⟨?_, operators, output⟩
      obtain ⟨before, innermost, counted, belowTallied⟩ := tallied.exists_of_call
      have stillInnermost :
          Opening.outside? 0 (.comma :: read) = some (.name name arguments :: before) := by
        rw [Opening.outside?_cons_plain (by simp) (by simp), innermost]
      exact belowTallied.call name arguments (commas + 1) stillInnermost
        (congrArg (· + 1) counted)

/-- A call that is closed has as many arguments as its frame has counted. -/
theorem standsCalled
    {name : Text}
    {arguments : Int}
    {before after : List Token}
    {afterOpen : Bool}
    (split : tokens = read.reverse ++ .closeParen :: after)
    (innermost : Opening.outside? 0 read = some (.name name arguments :: before))
    (adjacent : afterOpen = true ↔ read.head? = some .openParen) :
    StandsCalled tokens name
      (if afterOpen then 0 else Opening.commasInside 0 read + 1) := by
  obtain ⟨inside, divided, enclosed, commas⟩ := Opening.exists_append_of_outside? innermost
  refine ⟨before.reverse, arguments, inside.reverse, after, ?_, ?_, ?_⟩
  · rw [split, divided]
    simp
  · rw [Enclosed, List.reverse_reverse]
    exact enclosed
  · have empty : inside = [] ↔ afterOpen = true := by
      rw [adjacent]
      constructor
      · rintro rfl
        rw [divided]
        rfl
      · intro opens
        obtain ⟨earlier, rfl⟩ := List.head?_eq_some_iff.mp opens
        cases innermost
        simpa using congrArg List.length divided
    cases afterOpen with
    | true =>
        simp [argumentsIn, empty]
    | false =>
        simp [argumentsIn, empty, commas]

theorem closeParen
    (records : Records tokens read state)
    {after : List Token}
    {afterOpen : Bool}
    (split : tokens = read.reverse ++ .closeParen :: after)
    (adjacent : afterOpen = true ↔ read.head? = some .openParen)
    (closes : state.closeParen afterOpen = .ok following) :
    Records tokens (.closeParen :: read) following := by
  have released := records.release isInside rfl
  cases records.tallied.framed.innermost with
  | none inside noCalls =>
      rw [closeParen_none inside] at closes
      cases closes
  | group inside waits moved below =>
      rw [closeParen_group waits moved below.depth_lt] at closes
      rw [release_isInside waits moved] at released
      cases closes
      obtain ⟨tallied, operators, output⟩ := released
      refine ⟨?_, fun symbol member => operators symbol (List.mem_cons_of_mem _ member), output⟩
      obtain ⟨before, innermost, belowTallied⟩ := tallied.exists_of_group below
      exact belowTallied.cons_closeParen innermost
  | call inside name arguments commas waits moved frames below =>
      rw [closeParen_call waits moved frames rfl] at closes
      rw [release_isInside waits moved, frames] at released
      cases closes
      obtain ⟨tallied, operators, output⟩ := released
      obtain ⟨before, innermost, rfl, belowTallied⟩ := tallied.exists_of_call
      have named : Tallied (.name name arguments :: before) _ _ :=
        belowTallied.cons_plain (by simp) (by simp) (by simp)
      have stands := standsCalled split innermost adjacent
      exact {
        tallied := named.cons_closeParen innermost
        operators := fun symbol member =>
          operators symbol (List.mem_cons_of_mem _ (List.mem_cons_of_mem _ member))
        output := List.forall_mem_cons.mpr ⟨.inr ⟨_, rfl, stands⟩, output⟩
      }

/-- Reading on to the end keeps everything that is put out accounted for. -/
theorem run
    (records : Records tokens read state)
    (split : tokens = read.reverse ++ rest)
    {afterOpen : Bool}
    (adjacent : afterOpen = true ↔ read.head? = some .openParen)
    (runs : Conversion.run (Cue.ofTokensAfter afterOpen rest) state = .ok following) :
    Records tokens tokens.reverse following := by
  induction afterOpen, rest using Cue.ofTokensAfter.induct generalizing read state with
  | case1 =>
      cases runs
      simpa [split] using records
  | case2 _ name arguments rest inductionHypothesis =>
      rw [Cue.ofTokensAfter_call, run_cons, step, Outcome.ok_bind] at runs
      exact inductionHypothesis (records.pushCall name arguments) (by simp [split])
        (by simp) runs
  | case3 _ text arguments rest apart inductionHypothesis =>
      have notCalled := Cue.head?_ne_openParen apart
      rw [Cue.ofTokensAfter_name _ _ _ notCalled, run_cons, step, Outcome.ok_bind] at runs
      have stands : Token.StandsIn tokens (.name text arguments) :=
        .inl ⟨read.reverse, rest, split, notCalled⟩
      exact inductionHypothesis (records.emit (by simp) (by simp) (by simp) stands)
        (by simp [split]) (by simp) runs
  | case4 _ text value rest inductionHypothesis =>
      rw [Cue.ofTokensAfter_number, run_cons, step, Outcome.ok_bind] at runs
      have stands : Token.StandsIn tokens (.number text value) := by
        simp [Token.StandsIn, split]
      exact inductionHypothesis (records.emit (by simp) (by simp) (by simp) stands)
        (by simp [split]) (by simp) runs
  | case5 _ symbol rest inductionHypothesis =>
      rw [Cue.ofTokensAfter_operator, run_cons, step, Outcome.ok_bind] at runs
      exact inductionHypothesis (records.pushOperator (by simp [split]))
        (by simp [split]) (by simp) runs
  | case6 _ rest inductionHypothesis =>
      rw [Cue.ofTokensAfter_openParen, run_cons, step, Outcome.ok_bind] at runs
      exact inductionHypothesis records.pushGroup (by simp [split]) (by simp) runs
  | case7 _ rest inductionHypothesis =>
      rw [Cue.ofTokensAfter_comma, run_cons] at runs
      obtain ⟨middle, ends, restRuns⟩ := Outcome.bind_eq_ok_iff.mp runs
      exact inductionHypothesis (records.endArgument ends) (by simp [split]) (by simp) restRuns
  | case8 afterOpen rest inductionHypothesis =>
      rw [Cue.ofTokensAfter_closeParen, run_cons] at runs
      obtain ⟨middle, closes, restRuns⟩ := Outcome.bind_eq_ok_iff.mp runs
      exact inductionHypothesis (records.closeParen split adjacent closes) (by simp [split])
        (by simp) restRuns

theorem finish
    (records : Records tokens read state)
    {sequence : List Token}
    (finishes : state.finish = .ok sequence) :
    ∀ token ∈ sequence, token.StandsIn tokens := by
  have released := records.release isInside rfl
  unfold Conversion.finish at finishes
  simp only at finishes
  split at finishes <;> cases finishes
  intro token member
  exact released.output token (List.mem_reverse.mp member)

end Records

/-- A run from the start leads to a state that records the tokens read. -/
theorem records_of_run_start
    {tokens : List Token}
    {last : Conversion}
    (runs : run (Cue.ofTokens tokens) start = .ok last) :
    Records tokens tokens.reverse last := by
  have atStart : Records tokens [] start := {
    tallied := .empty rfl
    operators := by simp [start]
    output := by simp [start]
  }
  exact atStart.run rfl (by simp) runs

end Conversion

/-- Every token of a postfix sequence stands among the tokens of its formula. -/
theorem standsIn_of_toPostfix
    {tokens sequence : List Token}
    (converted : toPostfix tokens = .ok sequence) :
    ∀ token ∈ sequence, token.StandsIn tokens := by
  obtain ⟨last, runs, finishes⟩ := Outcome.bind_eq_ok_iff.mp converted
  exact (Conversion.records_of_run_start runs).finish finishes

end Reckoner
