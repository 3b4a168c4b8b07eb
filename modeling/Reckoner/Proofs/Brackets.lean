import Reckoner.Proofs.CallFrames
import Reckoner.Proofs.Cues

/-!
# Which tokens can be converted

A conversion looks at its waiting tokens and at depths of calls, never at the
tokens already read. Still it finds out what the innermost parenthesis open
before a token is: one that follows a name (`Opening.call`), another one
(`Opening.group`), or none. So tokens can be converted exactly if every closing
parenthesis closes something, every comma stands directly inside a call and
nothing is open at the end, and the first token out of place decides the fault.

Tokens that have been read are listed latest first.
-/

namespace Reckoner

/-! ## Open parentheses -/

/-- What an opening parenthesis belongs to. -/
inductive Opening where
  | group
  | call
  deriving DecidableEq, Repr

namespace Opening

/-- A parenthesis directly after a name is that of a call. -/
def after : List Token → Opening
  | .name _ _ :: _ => call
  | _ => group

/-- A parenthesis that does not follow a name opens a group. -/
theorem after_eq_group
    {read : List Token}
    (noName : ∀ text arguments, read.head? ≠ some (.name text arguments)) :
    after read = group := by
  unfold after
  split
  · next text arguments rest =>
      exact (noName text arguments rfl).elim
  · rfl

/--
What stands before the innermost open parenthesis, going back from a place that
`closed` closing parentheses without their opening ones follow.
-/
def outside? : Nat → List Token → Option (List Token)
  | _, [] => none
  | 0, .openParen :: before => some before
  | closed + 1, .openParen :: before => outside? closed before
  | closed, .closeParen :: before => outside? (closed + 1) before
  | closed, _ :: before => outside? closed before

/-- The innermost parenthesis that is open after some tokens. -/
def innermost? (read : List Token) : Option Opening :=
  (outside? 0 read).map after

/-- A parenthesis closed in addition uncovers the next one outside. -/
theorem outside?_succ
    (closed : Nat)
    (read : List Token) :
    outside? (closed + 1) read = (outside? closed read).bind (outside? 0) := by
  induction read generalizing closed with
  | nil =>
      rfl
  | cons token before inductionHypothesis =>
      cases token with
      | openParen =>
          cases closed with
          | zero =>
              rfl
          | succ closed =>
              exact inductionHypothesis closed
      | closeParen =>
          simpa only [outside?] using inductionHypothesis (closed + 1)
      | _ =>
          simpa only [outside?] using inductionHypothesis closed

/-- Only parentheses change what is open. -/
theorem outside?_cons_plain
    {token : Token}
    (notOpen : token ≠ .openParen)
    (notClose : token ≠ .closeParen)
    (closed : Nat)
    (read : List Token) :
    outside? closed (token :: read) = outside? closed read := by
  cases token with
  | openParen =>
      exact absurd rfl notOpen
  | closeParen =>
      exact absurd rfl notClose
  | _ =>
      simp only [outside?]

/-- The open parentheses after some tokens, innermost first. -/
def Opened : List Token → List Opening → Prop
  | read, [] => outside? 0 read = none
  | read, opening :: outer =>
      ∃ before, outside? 0 read = some before ∧ after before = opening ∧ Opened before outer

theorem opened_nil :
    Opened [] [] :=
  rfl

namespace Opened

variable
  {read : List Token}
  {openings : List Opening}

/-- The innermost of the open parentheses. -/
theorem innermost?_eq_head?
    (opened : Opened read openings) :
    innermost? read = openings.head? := by
  cases openings with
  | nil =>
      have noneOpen : outside? 0 read = none := opened
      simp [innermost?, noneOpen]
  | cons opening outer =>
      obtain ⟨before, innermost, belongs, -⟩ := opened
      simp [innermost?, innermost, belongs]

/-- What is open depends only on what stands before the innermost open parenthesis. -/
theorem of_outside?_eq
    {other : List Token}
    (same : outside? 0 other = outside? 0 read)
    (opened : Opened read openings) :
    Opened other openings := by
  cases openings with
  | nil =>
      exact same.trans opened
  | cons opening outer =>
      obtain ⟨before, innermost, belongs, opened⟩ := opened
      exact ⟨before, same.trans innermost, belongs, opened⟩

theorem cons_plain
    (opened : Opened read openings)
    {token : Token}
    (notOpen : token ≠ .openParen)
    (notClose : token ≠ .closeParen) :
    Opened (token :: read) openings :=
  opened.of_outside?_eq (outside?_cons_plain notOpen notClose 0 read)

theorem cons_openParen
    (opened : Opened read openings) :
    Opened (.openParen :: read) (after read :: openings) :=
  ⟨read, rfl, rfl, opened⟩

theorem cons_closeParen
    {opening : Opening}
    (opened : Opened read (opening :: openings)) :
    Opened (.closeParen :: read) openings := by
  obtain ⟨before, innermost, -, opened⟩ := opened
  apply opened.of_outside?_eq
  have closes : outside? 0 (.closeParen :: read) = outside? 1 read := by
    simp only [outside?]
  rw [closes, outside?_succ, innermost, Option.bind_some]

end Opened

end Opening

/-! ## Tokens out of place -/

/-- The fault of a token after those that have been read, if it is out of place there. -/
def offence? (read : List Token) : Token → Option ParseFault
  | .closeParen =>
      if Opening.innermost? read = none then some .unmatchedClose else none
  | .comma =>
      if Opening.innermost? read = some .call then none else some .strayComma
  | _ => none

/-- No token of `rest` is out of place after those that have been read. -/
def OrderlyAfter (read rest : List Token) : Prop :=
  ∀ before token after,
    rest = before ++ token :: after → offence? (before.reverse ++ read) token = none

namespace OrderlyAfter

variable
  {read rest : List Token}
  {token : Token}

theorem head
    (orderly : OrderlyAfter read (token :: rest)) :
    offence? read token = none :=
  orderly [] token rest rfl

theorem tail
    (orderly : OrderlyAfter read (token :: rest)) :
    OrderlyAfter (token :: read) rest := by
  intro before other after split
  have inPlace := orderly (token :: before) other after (by rw [split]; rfl)
  simpa using inPlace

theorem cons
    (inPlace : offence? read token = none)
    (orderly : OrderlyAfter (token :: read) rest) :
    OrderlyAfter read (token :: rest) := by
  intro before other after split
  cases before with
  | nil =>
      cases split
      exact inPlace
  | cons first before =>
      cases split
      simpa using orderly before other after rfl

end OrderlyAfter

/-- Tokens are in place, or one of them is the first that is not. -/
theorem orderlyAfter_or_exists_first_offence
    (read rest : List Token) :
    OrderlyAfter read rest ∨
      ∃ before token after fault,
        rest = before ++ token :: after ∧
          OrderlyAfter read before ∧
          offence? (before.reverse ++ read) token = some fault := by
  induction rest generalizing read with
  | nil =>
      exact .inl (by simp [OrderlyAfter])
  | cons token rest inductionHypothesis =>
      cases offends : offence? read token with
      | some fault =>
          exact .inr ⟨[], token, rest, fault, rfl, by simp [OrderlyAfter], offends⟩
      | none =>
          rcases inductionHypothesis (token :: read) with
            orderly | ⟨before, other, after, fault, split, orderly, offends'⟩
          · exact .inl (.cons offends orderly)
          · refine .inr ⟨token :: before, other, after, fault, ?_, .cons offends orderly, ?_⟩
            · rw [split]
              rfl
            · simpa using offends'

/-! ## Conversions know what is open -/

namespace Conversion

/-- What the waiting parentheses belong to, innermost first. -/
def openings : List Token → List Opening
  | [] => []
  | .openParen :: .name _ _ :: below => .call :: openings below
  | .openParen :: below => .group :: openings below
  | _ :: below => openings below

/-- Tokens above a parenthesis do not count. -/
theorem openings_append
    {inside : List Token}
    (moved : ∀ token ∈ inside, isInside token = true)
    (below : List Token) :
    openings (inside ++ below) = openings below := by
  induction inside with
  | nil =>
      rfl
  | cons token rest inductionHypothesis =>
      have restMoved := inductionHypothesis fun later member =>
        moved later (List.mem_cons_of_mem _ member)
      have above := moved token List.mem_cons_self
      cases token with
      | openParen =>
          cases above
      | _ =>
          simpa only [List.cons_append, openings] using restMoved

theorem openings_eq_nil
    {waiting : List Token}
    (inside : ∀ token ∈ waiting, isInside token = true) :
    openings waiting = [] := by
  have noneOpen := openings_append inside []
  rw [List.append_nil] at noneOpen
  exact noneOpen

/-- Below the parenthesis of a group no name waits. -/
theorem Framed.openings_group
    {below : List Token}
    {calls : List CallFrame}
    (framed : Framed below calls) :
    openings (.openParen :: below) = .group :: openings below := by
  cases framed <;> rfl

/-- An operator takes only operators from above the parentheses. -/
theorem openings_pushOperator
    (symbol : UInt8)
    (state : Conversion) :
    openings (state.pushOperator symbol).waiting = openings state.waiting := by
  have moved :
      ∀ token ∈ state.waiting.takeWhile (yieldsTo symbol), isInside token = true := by
    intro token member
    have yields := List.all_eq_true.mp List.all_takeWhile token member
    cases token with
    | openParen =>
        cases yields
    | _ =>
        rfl
  have kept := openings_append moved (state.waiting.dropWhile (yieldsTo symbol))
  rw [List.takeWhile_append_dropWhile] at kept
  exact kept.symm

/-- A state in which the waiting parentheses are those open after the tokens read. -/
structure Follows (read : List Token) (state : Conversion) : Prop where
  framed : Framed state.waiting state.calls
  opened : Opening.Opened read (openings state.waiting)

theorem follows_start :
    Follows [] start where
  framed := .empty
  opened := Opening.opened_nil

namespace Follows

variable
  {read : List Token}
  {state : Conversion}

theorem emit
    (follows : Follows read state)
    {token : Token}
    (notOpen : token ≠ .openParen)
    (notClose : token ≠ .closeParen) :
    Follows (token :: read) (state.emit token) where
  framed := follows.framed
  opened := follows.opened.cons_plain notOpen notClose

theorem pushOperator
    (follows : Follows read state)
    (symbol : UInt8) :
    Follows (.operator symbol :: read) (state.pushOperator symbol) where
  framed := (follows.framed.dropWhile rfl).operator symbol
  opened := by
    rw [openings_pushOperator]
    exact follows.opened.cons_plain (by simp) (by simp)

theorem pushCall
    (follows : Follows read state)
    (name : Text)
    (arguments : Int) :
    Follows (.openParen :: .name name arguments :: read) (state.pushCall name arguments) where
  framed := follows.framed.call name arguments 0
  opened := (follows.opened.cons_plain (by simp) (by simp)).cons_openParen

theorem pushGroup
    (follows : Follows read state)
    (noName : ∀ text arguments, read.head? ≠ some (.name text arguments)) :
    Follows (.openParen :: read) state.pushGroup where
  framed := follows.framed.group
  opened := by
    have opened := follows.opened.cons_openParen
    rw [Opening.after_eq_group noName] at opened
    rw [Conversion.pushGroup, follows.framed.openings_group]
    exact opened

/-- A comma is taken unless it is out of place. -/
theorem endArgument
    (follows : Follows read state) :
    match offence? read .comma with
    | none =>
        ∃ following,
          state.endArgument = .ok following ∧ Follows (.comma :: read) following
    | some fault => state.endArgument = .error fault := by
  rw [offence?, follows.opened.innermost?_eq_head?]
  cases follows.framed.innermost with
  | none inside noCalls =>
      rw [openings_eq_nil inside]
      exact endArgument_none inside
  | group inside split moved framed =>
      rw [split, openings_append moved, framed.openings_group]
      exact endArgument_group split moved framed.depth_lt
  | call inside name arguments commas split moved frames framed =>
      have opened := follows.opened
      rw [split, openings_append moved] at opened ⊢
      refine ⟨_, endArgument_call split moved frames rfl, ?_, ?_⟩
      · exact framed.call name arguments (commas + 1)
      · exact opened.cons_plain (by simp) (by simp)

/-- A closing parenthesis is taken unless it is out of place. -/
theorem closeParen
    (follows : Follows read state)
    (afterOpen : Bool) :
    match offence? read .closeParen with
    | none =>
        ∃ following,
          state.closeParen afterOpen = .ok following ∧
            Follows (.closeParen :: read) following
    | some fault => state.closeParen afterOpen = .error fault := by
  rw [offence?, follows.opened.innermost?_eq_head?]
  cases follows.framed.innermost with
  | none inside noCalls =>
      rw [openings_eq_nil inside]
      exact closeParen_none inside afterOpen
  | group inside split moved framed =>
      have opened := follows.opened
      rw [split, openings_append moved, framed.openings_group] at opened ⊢
      exact ⟨_, closeParen_group split moved framed.depth_lt afterOpen, framed,
        opened.cons_closeParen⟩
  | call inside name arguments commas split moved frames framed =>
      have opened := follows.opened
      rw [split, openings_append moved] at opened ⊢
      exact ⟨_, closeParen_call split moved frames rfl afterOpen, framed,
        opened.cons_closeParen⟩

/-- A conversion ends exactly if nothing is open. -/
theorem finish
    (follows : Follows read state) :
    if Opening.innermost? read = none then
      ∃ sequence, state.finish = .ok sequence
    else
      state.finish = .error .unmatchedOpen := by
  rw [follows.opened.innermost?_eq_head?]
  cases follows.framed.innermost with
  | none inside noCalls =>
      rw [openings_eq_nil inside]
      exact ⟨_, finish_none inside⟩
  | group inside split moved framed =>
      rw [split, openings_append moved, framed.openings_group]
      exact finish_open split moved
  | call inside name arguments commas split moved frames framed =>
      rw [split, openings_append moved]
      exact finish_open split moved

/-- A run over tokens that are in place reaches their end. -/
theorem run
    {rest : List Token}
    (follows : Follows read state)
    (uncalled :
      rest.head? = some .openParen →
      ∀ text arguments, read.head? ≠ some (.name text arguments))
    (orderly : OrderlyAfter read rest)
    (afterOpen : Bool) :
    ∃ last,
      Conversion.run (Cue.ofTokensAfter afterOpen rest) state = .ok last ∧
        Follows (rest.reverse ++ read) last := by
  -- Cue by cue: a name that is called is read together with its parenthesis, and
  -- `uncalled` keeps a parenthesis that begins the rest from belonging to a name read before.
  induction afterOpen, rest using Cue.ofTokensAfter.induct generalizing read state with
  | case1 =>
      exact ⟨state, rfl, follows⟩
  | case2 _ name arguments rest inductionHypothesis =>
      simpa [run_cons, step] using
        inductionHypothesis (follows.pushCall name arguments) (by simp) orderly.tail.tail
  | case3 _ text arguments rest apart inductionHypothesis =>
      have notCalled := Cue.head?_ne_openParen apart
      rw [Cue.ofTokensAfter_name _ _ _ notCalled]
      simpa [run_cons, step] using
        inductionHypothesis (follows.emit (by simp) (by simp))
          (fun called => absurd called notCalled) orderly.tail
  | case4 _ text value rest inductionHypothesis =>
      simpa [run_cons, step] using
        inductionHypothesis (follows.emit (by simp) (by simp)) (by simp) orderly.tail
  | case5 _ symbol rest inductionHypothesis =>
      simpa [run_cons, step] using
        inductionHypothesis (follows.pushOperator symbol) (by simp) orderly.tail
  | case6 _ rest inductionHypothesis =>
      simpa [run_cons, step] using
        inductionHypothesis (follows.pushGroup (uncalled rfl)) (by simp) orderly.tail
  | case7 _ rest inductionHypothesis =>
      have ends := follows.endArgument
      rw [orderly.head] at ends
      obtain ⟨following, ends, follows⟩ := ends
      rw [Cue.ofTokensAfter_comma, run_cons, step, ends, Outcome.ok_bind]
      simpa using inductionHypothesis follows (by simp) orderly.tail
  | case8 afterOpen rest inductionHypothesis =>
      have closes := follows.closeParen afterOpen
      rw [orderly.head] at closes
      obtain ⟨following, closes, follows⟩ := closes
      rw [Cue.ofTokensAfter_closeParen, run_cons, step, closes, Outcome.ok_bind]
      simpa using inductionHypothesis follows (by simp) orderly.tail

end Follows

/-- Tokens that are in place lead from the start to a state that follows them. -/
theorem exists_run_of_orderlyAfter
    {tokens : List Token}
    (orderly : OrderlyAfter [] tokens) :
    ∃ last,
      run (Cue.ofTokens tokens) start = .ok last ∧ Follows tokens.reverse last := by
  simpa [Cue.ofTokens] using follows_start.run (by simp) orderly false

/-- The first token that is out of place stops a run with its fault. -/
theorem run_eq_error_of_offence?
    {before : List Token}
    {token : Token}
    {fault : ParseFault}
    (orderly : OrderlyAfter [] before)
    (offends : offence? before.reverse token = some fault)
    (after : List Token) :
    run (Cue.ofTokens (before ++ token :: after)) start = .error fault := by
  obtain ⟨last, runs, follows⟩ := exists_run_of_orderlyAfter orderly
  have notOpening : (token :: after).head? ≠ some .openParen := by
    rintro opening
    cases opening
    cases offends
  have stops :
      run (Cue.ofTokensAfter (Cue.endsOpen false before) (token :: after)) last =
        .error fault := by
    cases token with
    | comma =>
        have stray := follows.endArgument
        rw [offends] at stray
        rw [Cue.ofTokensAfter_comma, run_cons, step, stray, Outcome.error_bind]
    | closeParen =>
        have unmatched := follows.closeParen (Cue.endsOpen false before)
        rw [offends] at unmatched
        rw [Cue.ofTokensAfter_closeParen, run_cons, step, unmatched, Outcome.error_bind]
    | _ =>
        cases offends
  rw [Cue.ofTokens] at runs ⊢
  rw [Cue.ofTokensAfter_append false (.inr notOpening), run_append, runs, Outcome.ok_bind,
    stops]

end Conversion

/-! ## Acceptance -/

/--
Tokens with balanced parentheses, every comma of which stands directly inside
the parentheses of a call.
-/
structure WellBracketed (tokens : List Token) : Prop where
  opened :
    ∀ before after,
      tokens = before ++ .closeParen :: after →
      Opening.innermost? before.reverse ≠ none
  closed : Opening.innermost? tokens.reverse = none
  separating :
    ∀ before after,
      tokens = before ++ .comma :: after →
      Opening.innermost? before.reverse = some .call

/--
What is told about tokens that are not well bracketed. The first token out of
place decides; an open parenthesis is missed only if all tokens are in place.
-/
inductive Refusal (tokens : List Token) : Report → Prop where
  | unmatchedClose
      (before after : List Token)
      (split : tokens = before ++ .closeParen :: after)
      (first : OrderlyAfter [] before)
      (noneOpen : Opening.innermost? before.reverse = none) :
      Refusal tokens (.parsing .unbalancedParens (Text.ofString "Mismatched ')'"))
  | strayComma
      (before after : List Token)
      (split : tokens = before ++ .comma :: after)
      (first : OrderlyAfter [] before)
      (noCall : Opening.innermost? before.reverse ≠ some .call) :
      Refusal tokens
        (.parsing .malformedExpression (Text.ofString "Unexpected ',' outside a function call"))
  | unmatchedOpen
      (orderly : OrderlyAfter [] tokens)
      (someOpen : Opening.innermost? tokens.reverse ≠ none) :
      Refusal tokens (.parsing .unbalancedParens (Text.ofString "Mismatched '('"))

section Acceptance

variable
  {tokens : List Token}

theorem wellBracketed_iff :
    WellBracketed tokens ↔
      OrderlyAfter [] tokens ∧ Opening.innermost? tokens.reverse = none := by
  constructor
  · intro bracketed
    refine ⟨?_, bracketed.closed⟩
    intro before token after split
    rw [List.append_nil]
    cases token with
    | closeParen =>
        exact if_neg (bracketed.opened before after split)
    | comma =>
        exact if_pos (bracketed.separating before after split)
    | _ =>
        rfl
  · rintro ⟨orderly, closed⟩
    refine ⟨?_, closed, ?_⟩
    · intro before after split
      have inPlace := orderly before .closeParen after split
      simpa [offence?] using inPlace
    · intro before after split
      have inPlace := orderly before .comma after split
      simpa [offence?] using inPlace

/-- Tokens that are in place are converted unless a parenthesis stays open. -/
theorem toPostfix_of_orderlyAfter
    (orderly : OrderlyAfter [] tokens) :
    if Opening.innermost? tokens.reverse = none then
      ∃ sequence, toPostfix tokens = .ok sequence
    else
      toPostfix tokens = .error .unmatchedOpen := by
  obtain ⟨last, runs, follows⟩ := Conversion.exists_run_of_orderlyAfter orderly
  rw [toPostfix, runs, Outcome.ok_bind]
  exact follows.finish

theorem toPostfix_of_offence?
    {before after : List Token}
    {token : Token}
    {fault : ParseFault}
    (split : tokens = before ++ token :: after)
    (orderly : OrderlyAfter [] before)
    (offends : offence? before.reverse token = some fault) :
    toPostfix tokens = .error fault := by
  rw [split, toPostfix, Conversion.run_eq_error_of_offence? orderly offends,
    Outcome.error_bind]

/-- A token out of place is a closing parenthesis or a comma, with the report of either. -/
theorem refusal_of_offence?
    {before after : List Token}
    {token : Token}
    {fault : ParseFault}
    (split : tokens = before ++ token :: after)
    (orderly : OrderlyAfter [] before)
    (offends : offence? before.reverse token = some fault) :
    Refusal tokens fault.report := by
  cases token with
  | closeParen =>
      simp only [offence?, Option.ite_none_right_eq_some, Option.some.injEq] at offends
      obtain ⟨noneOpen, rfl⟩ := offends
      exact .unmatchedClose before after split orderly noneOpen
  | comma =>
      simp only [offence?, Option.ite_none_left_eq_some, Option.some.injEq] at offends
      obtain ⟨noCall, rfl⟩ := offends
      exact .strayComma before after split orderly noCall
  | _ =>
      cases offends

/-- What is told about refused tokens is told of their conversion. -/
theorem toPostfix_of_refusal
    {report : Report}
    (refusal : Refusal tokens report) :
    (toPostfix tokens).mapError ParseFault.report = .error report := by
  cases refusal with
  | unmatchedClose before after split first noneOpen =>
      rw [toPostfix_of_offence? split first (if_pos noneOpen)]
      rfl
  | strayComma before after split first noCall =>
      rw [toPostfix_of_offence? split first (if_neg noCall)]
      rfl
  | unmatchedOpen orderly someOpen =>
      have unclosed := toPostfix_of_orderlyAfter orderly
      rw [if_neg someOpen] at unclosed
      rw [unclosed]
      rfl

/-- Well-bracketed tokens are converted, and all others refused. -/
theorem toPostfix_cases
    (tokens : List Token) :
    (WellBracketed tokens ∧ ∃ sequence, toPostfix tokens = .ok sequence) ∨
      (¬ WellBracketed tokens ∧
        ∃ fault, toPostfix tokens = .error fault ∧ Refusal tokens fault.report) := by
  rw [wellBracketed_iff]
  rcases orderlyAfter_or_exists_first_offence [] tokens with
    orderly | ⟨before, token, after, fault, split, orderly, offends⟩
  · have converted := toPostfix_of_orderlyAfter orderly
    by_cases noneOpen : Opening.innermost? tokens.reverse = none
    · rw [if_pos noneOpen] at converted
      exact .inl ⟨⟨orderly, noneOpen⟩, converted⟩
    · rw [if_neg noneOpen] at converted
      refine .inr ⟨fun both => noneOpen both.2, _, converted, ?_⟩
      exact .unmatchedOpen orderly noneOpen
  · rw [List.append_nil] at offends
    refine .inr ⟨?_, fault, toPostfix_of_offence? split orderly offends,
      refusal_of_offence? split orderly offends⟩
    rintro ⟨allInPlace, -⟩
    have inPlace := allInPlace before token after split
    rw [List.append_nil, offends] at inPlace
    cases inPlace

end Acceptance

/--
A conversion succeeds for exactly the well-bracketed tokens, and every other
list of tokens is refused for its first token out of place, or else for a
parenthesis that stays open.
-/
theorem toPostfix_accepts_wellBracketed
    (tokens : List Token) :
    ((∃ sequence, toPostfix tokens = .ok sequence) ↔ WellBracketed tokens) ∧
      ∀ report,
        (toPostfix tokens).mapError ParseFault.report = .error report ↔
          Refusal tokens report := by
  rcases toPostfix_cases tokens with
    ⟨bracketed, sequence, converted⟩ | ⟨unbracketed, fault, refused, refusal⟩
  · refine ⟨⟨fun _ => bracketed, fun _ => ⟨sequence, converted⟩⟩, ?_⟩
    intro report
    refine ⟨?_, toPostfix_of_refusal⟩
    rw [converted]
    rintro ⟨⟩
  · refine ⟨by simp [refused, unbracketed], ?_⟩
    intro report
    refine ⟨?_, toPostfix_of_refusal⟩
    rw [refused]
    rintro ⟨⟩
    exact refusal

end Reckoner
