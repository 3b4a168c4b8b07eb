import Reckoner.Proofs.Occurrences

/-!
# What parentheses enclose

Tokens between a pair of parentheses close what they open and nothing else, so
they are passed over in the search for what is open before them. The commas
directly between the parentheses separate the arguments of a call, and in
well-bracketed tokens each argument is well bracketed by itself.

As in the theory of open parentheses, tokens that have been read are listed
latest first.
-/

namespace Reckoner

/-! ## Going back over tokens -/

namespace Opening

/-- If a parenthesis is open among the later tokens, the earlier ones do not matter. -/
theorem outside?_append_of_eq_some
    {closed : Nat}
    {later before : List Token}
    (innermost : outside? closed later = some before)
    (earlier : List Token) :
    outside? closed (later ++ earlier) = some (before ++ earlier) := by
  induction later generalizing closed with
  | nil =>
      cases innermost
  | cons token rest inductionHypothesis =>
      cases token with
      | openParen =>
          cases closed with
          | zero =>
              cases innermost
              rfl
          | succ closed =>
              exact inductionHypothesis innermost
      | _ =>
          simp only [outside?] at innermost
          simpa only [List.cons_append, outside?] using inductionHypothesis innermost

/-- Otherwise the search goes on past them, with the closing parentheses left over. -/
theorem exists_unmatched
    {closed : Nat}
    {later : List Token}
    (noneOpen : outside? closed later = none) :
    ∃ unmatched, ∀ earlier,
      outside? closed (later ++ earlier) = outside? unmatched earlier ∧
        commasInside closed (later ++ earlier) =
          commasInside closed later + commasInside unmatched earlier := by
  induction later generalizing closed with
  | nil =>
      exact ⟨closed, fun earlier => ⟨rfl, by simp [commasInside]⟩⟩
  | cons token rest inductionHypothesis =>
      cases token with
      | openParen =>
          cases closed with
          | zero =>
              cases noneOpen
          | succ closed =>
              exact inductionHypothesis noneOpen
      | comma =>
          simp only [outside?] at noneOpen
          obtain ⟨unmatched, goesOn⟩ := inductionHypothesis noneOpen
          refine ⟨unmatched, fun earlier => ⟨?_, ?_⟩⟩
          · simpa only [List.cons_append, outside?] using (goesOn earlier).1
          · cases closed with
            | zero =>
                simp only [List.cons_append, commasInside, (goesOn earlier).2]
                omega
            | succ closed =>
                simpa only [List.cons_append, commasInside] using (goesOn earlier).2
      | _ =>
          simp only [outside?] at noneOpen
          obtain ⟨unmatched, goesOn⟩ := inductionHypothesis noneOpen
          exact ⟨unmatched, fun earlier =>
            ⟨by simpa only [List.cons_append, outside?] using (goesOn earlier).1,
              by simpa only [List.cons_append, commasInside] using (goesOn earlier).2⟩⟩

/-- Where nothing is open, nothing is open farther out. -/
theorem outside?_eq_none_of_zero
    {read : List Token}
    (noneOpen : outside? 0 read = none)
    (closed : Nat) :
    outside? closed read = none := by
  induction closed with
  | zero =>
      exact noneOpen
  | succ closed inductionHypothesis =>
      rw [outside?_succ, inductionHypothesis, Option.bind_none]

/-- Farther out is open what is open before the innermost parenthesis. -/
theorem outside?_succ_of_eq_some
    {read before : List Token}
    (innermost : outside? 0 read = some before)
    (closed : Nat) :
    outside? (closed + 1) read = outside? closed before := by
  induction closed with
  | zero =>
      rw [outside?_succ, innermost, Option.bind_some]
  | succ closed inductionHypothesis =>
      rw [outside?_succ, inductionHypothesis, ← outside?_succ]

/-- Counted commas stand directly inside the innermost parenthesis. -/
theorem exists_comma_of_commasInside
    {closed : Nat}
    {read : List Token}
    (counted : commasInside closed read ≠ 0) :
    ∃ later earlier,
      read = later ++ .comma :: earlier ∧
        ∀ before, outside? closed (later ++ before) = outside? 0 before := by
  induction read generalizing closed with
  | nil =>
      exact (counted rfl).elim
  | cons token rest inductionHypothesis =>
      cases token with
      | openParen =>
          cases closed with
          | zero =>
              exact (counted rfl).elim
          | succ closed =>
              obtain ⟨later, earlier, rfl, passes⟩ := inductionHypothesis counted
              exact ⟨.openParen :: later, earlier, rfl, passes⟩
      | comma =>
          cases closed with
          | zero =>
              exact ⟨[], rest, rfl, fun _ => rfl⟩
          | succ closed =>
              simp only [commasInside] at counted
              obtain ⟨later, earlier, rfl, passes⟩ := inductionHypothesis counted
              exact ⟨.comma :: later, earlier, rfl, fun before => by
                simpa only [List.cons_append, outside?] using passes before⟩
      | _ =>
          simp only [commasInside] at counted
          obtain ⟨later, earlier, rfl, passes⟩ := inductionHypothesis counted
          exact ⟨_ :: later, earlier, rfl, fun before => by
            simpa only [List.cons_append, outside?] using passes before⟩

/-- Tokens before an opening token that is no name do not change what it belongs to. -/
theorem after_append_cons
    {opening : Token}
    (noName : ∀ text arguments, opening ≠ .name text arguments)
    (read before : List Token) :
    after (read ++ opening :: before) = after read := by
  cases read with
  | nil =>
      exact after_eq_group (by simpa using noName)
  | cons token rest =>
      cases token <;> rfl

end Opening

/-! ## Tokens between parentheses -/

namespace Enclosed

variable
  {inside first second : List Token}

/-- What stands before the second of two parts is searched for what is left over from it. -/
theorem exists_goesOn
    (enclosed : Enclosed (first ++ second)) :
    ∃ unmatched,
      Opening.outside? 0 second.reverse = none ∧
        (∀ earlier,
          Opening.outside? 0 (second.reverse ++ earlier) =
              Opening.outside? unmatched earlier ∧
            Opening.commasInside 0 (second.reverse ++ earlier) =
              Opening.commasInside 0 second.reverse +
                Opening.commasInside unmatched earlier) ∧
        Opening.outside? unmatched (first.reverse ++ [.openParen]) = some [] := by
  rw [Enclosed, List.reverse_append, List.append_assoc] at enclosed
  cases noneOpen : Opening.outside? 0 second.reverse with
  | some before =>
      rw [Opening.outside?_append_of_eq_some noneOpen] at enclosed
      simp at enclosed
  | none =>
      obtain ⟨unmatched, goesOn⟩ := Opening.exists_unmatched noneOpen
      rw [(goesOn _).1] at enclosed
      exact ⟨unmatched, rfl, goesOn, enclosed⟩

/-- Enclosed tokens leave nothing open, and the search for what is open passes over them. -/
theorem passedOver
    (enclosed : Enclosed inside) :
    Opening.outside? 0 inside.reverse = none ∧
      ∀ earlier,
        Opening.outside? 0 (inside.reverse ++ earlier) = Opening.outside? 0 earlier ∧
          Opening.commasInside 0 (inside.reverse ++ earlier) =
            Opening.commasInside 0 inside.reverse + Opening.commasInside 0 earlier := by
  have whole : Enclosed ([] ++ inside) :=
    enclosed
  obtain ⟨unmatched, noneOpen, goesOn, innermost⟩ := whole.exists_goesOn
  cases unmatched with
  | zero =>
      exact ⟨noneOpen, goesOn⟩
  | succ unmatched =>
      cases innermost

theorem outside?_append
    (enclosed : Enclosed inside)
    (earlier : List Token) :
    Opening.outside? 0 (inside.reverse ++ earlier) = Opening.outside? 0 earlier :=
  (enclosed.passedOver.2 earlier).1

theorem commasInside_append
    (enclosed : Enclosed inside)
    (earlier : List Token) :
    Opening.commasInside 0 (inside.reverse ++ earlier) =
      Opening.commasInside 0 inside.reverse + Opening.commasInside 0 earlier :=
  (enclosed.passedOver.2 earlier).2

/-- Nothing before an enclosed part is closed in it, if nothing is open at its end. -/
theorem of_append
    (enclosed : Enclosed (first ++ second))
    (noneOpen : Opening.outside? 0 first.reverse = none) :
    Enclosed first := by
  obtain ⟨unmatched, -, -, innermost⟩ := enclosed.exists_goesOn
  obtain ⟨closed, goesOn⟩ := Opening.exists_unmatched noneOpen
  cases closed with
  | zero =>
      exact (goesOn _).1
  | succ closed =>
      have nothing : Opening.outside? 0 (first.reverse ++ [.openParen]) = none :=
        (goesOn _).1
      rw [Opening.outside?_eq_none_of_zero nothing] at innermost
      cases innermost

theorem of_append_right
    (enclosed : Enclosed (first ++ second))
    (firstEnclosed : Enclosed first) :
    Enclosed second := by
  obtain ⟨unmatched, -, goesOn, innermost⟩ := enclosed.exists_goesOn
  cases unmatched with
  | zero =>
      exact (goesOn _).1
  | succ unmatched =>
      rw [Opening.outside?_succ_of_eq_some firstEnclosed] at innermost
      cases innermost

theorem append
    (firstEnclosed : Enclosed first)
    (secondEnclosed : Enclosed second) :
    Enclosed (first ++ second) := by
  rw [Enclosed, List.reverse_append, List.append_assoc, secondEnclosed.outside?_append]
  exact firstEnclosed

theorem comma :
    Enclosed [.comma] :=
  rfl

/-- A group around enclosed tokens closes the parenthesis that it opens. -/
theorem group
    (enclosed : Enclosed inside) :
    Enclosed (.openParen :: (inside ++ [.closeParen])) := by
  have reversed :
      (.openParen :: (inside ++ [.closeParen])).reverse ++ [.openParen] =
        .closeParen :: (inside.reverse ++ [.openParen, .openParen]) := by
    simp
  have uncovers :
      Opening.outside? 0 (.closeParen :: (inside.reverse ++ [.openParen, .openParen])) =
        Opening.outside? 1 (inside.reverse ++ [.openParen, .openParen]) := by
    simp only [Opening.outside?]
  rw [Enclosed, reversed, uncovers, Opening.outside?_succ, enclosed.outside?_append]
  rfl

/-- A closing parenthesis in enclosed tokens closes one of them. -/
theorem outside?_ne_none_of_closeParen
    (enclosed : Enclosed (first ++ .closeParen :: second)) :
    Opening.outside? 0 first.reverse ≠ none := by
  intro noneOpen
  have secondEnclosed : Enclosed ([.closeParen] ++ second) :=
    enclosed.of_append_right (enclosed.of_append noneOpen)
  obtain ⟨unmatched, -, -, innermost⟩ := secondEnclosed.exists_goesOn
  simp [Opening.outside?] at innermost

end Enclosed

/-- An opening parenthesis is closed behind tokens that it encloses, if nothing stays open. -/
theorem Opening.exists_close
    {before first rest : List Token}
    {depth : Nat}
    (isOpen : outside? depth (first.reverse ++ [.openParen]) = some [])
    (noneOpen : outside? 0 ((first ++ rest).reverse ++ .openParen :: before) = none) :
    ∃ inside after,
      first ++ rest = inside ++ .closeParen :: after ∧ Enclosed inside := by
  -- `depth` parentheses have been opened in `first` and not been closed there
  induction rest generalizing first depth with
  | nil =>
      have stillOpen := outside?_append_of_eq_some isOpen before
      rw [List.append_nil] at noneOpen
      rw [List.append_assoc, List.singleton_append, outside?_eq_none_of_zero noneOpen]
        at stillOpen
      cases stillOpen
  | cons token rest inductionHypothesis =>
      have split : first ++ token :: rest = (first ++ [token]) ++ rest := by
        simp
      have reversed :
          (first ++ [token]).reverse ++ [.openParen] =
            token :: (first.reverse ++ [.openParen]) := by
        simp
      have goOn {following : Nat}
          (stillOpen :
            outside? following (token :: (first.reverse ++ [.openParen])) = some []) :
          ∃ inside after,
            first ++ token :: rest = inside ++ .closeParen :: after ∧ Enclosed inside := by
        rw [← reversed] at stillOpen
        rw [split] at noneOpen ⊢
        exact inductionHypothesis stillOpen noneOpen
      cases token with
      | closeParen =>
          cases depth with
          | zero =>
              exact ⟨first, rest, rfl, isOpen⟩
          | succ depth =>
              have stillOpen :
                  outside? depth (.closeParen :: (first.reverse ++ [.openParen])) = some [] := by
                simpa only [outside?] using isOpen
              exact goOn stillOpen
      | openParen =>
          have stillOpen :
              outside? (depth + 1) (.openParen :: (first.reverse ++ [.openParen])) =
                some [] :=
            isOpen
          exact goOn stillOpen
      | _ =>
          have stillOpen := isOpen
          rw [← outside?_cons_plain _ _ depth] at stillOpen
          · exact goOn stillOpen
          · simp
          · simp

/-! ## Arguments -/

/-- Tokens without a comma directly among them. -/
def Undivided (tokens : List Token) : Prop :=
  ∀ before after, tokens = before ++ .comma :: after → ¬ Enclosed before

/-- Tokens divided at all of the commas directly among them. -/
inductive SeparatedInto : List Token → List (List Token) → Prop where
  | last
      {argument : List Token}
      (enclosed : Enclosed argument)
      (undivided : Undivided argument) :
      SeparatedInto argument [argument]
  | more
      {argument rest : List Token}
      {arguments : List (List Token)}
      (enclosed : Enclosed argument)
      (undivided : Undivided argument)
      (separated : SeparatedInto rest arguments) :
      SeparatedInto (argument ++ .comma :: rest) (argument :: arguments)

namespace SeparatedInto

variable
  {inside others : List Token}
  {arguments further : List (List Token)}

theorem enclosed
    (separated : SeparatedInto inside arguments) :
    Enclosed inside := by
  induction separated with
  | last enclosed undivided =>
      exact enclosed
  | more enclosed undivided separated restEnclosed =>
      exact enclosed.append (Enclosed.comma.append restEnclosed)

theorem append
    (separated : SeparatedInto inside arguments)
    (otherSeparated : SeparatedInto others further) :
    SeparatedInto (inside ++ .comma :: others) (arguments ++ further) := by
  induction separated with
  | last enclosed undivided =>
      exact .more enclosed undivided otherSeparated
  | more enclosed undivided separated inductionHypothesis =>
      rw [List.append_assoc, List.cons_append, List.cons_append]
      exact .more enclosed undivided inductionHypothesis

/-- Whatever parentheses enclose can be divided into arguments. -/
theorem exists_of_enclosed
    (enclosed : Enclosed inside) :
    ∃ arguments, SeparatedInto inside arguments := by
  induction length : inside.length using Nat.strongRecOn generalizing inside with
  | _ count inductionHypothesis =>
      by_cases undivided : Undivided inside
      · exact ⟨[inside], .last enclosed undivided⟩
      · simp only [Undivided, Classical.not_forall, Classical.not_not] at undivided
        obtain ⟨first, second, rfl, firstEnclosed⟩ := undivided
        have commaEnclosed : Enclosed ([.comma] ++ second) :=
          enclosed.of_append_right firstEnclosed
        have secondEnclosed : Enclosed second :=
          commaEnclosed.of_append_right Enclosed.comma
        rw [List.length_append, List.length_cons] at length
        obtain ⟨arguments, separated⟩ :=
          inductionHypothesis first.length (by omega) firstEnclosed rfl
        obtain ⟨further, otherSeparated⟩ :=
          inductionHypothesis second.length (by omega) secondEnclosed rfl
        exact ⟨arguments ++ further, separated.append otherSeparated⟩

/-- Undivided tokens have no commas to count. -/
theorem commasInside_of_undivided
    (enclosed : Enclosed inside)
    (undivided : Undivided inside) :
    Opening.commasInside 0 inside.reverse = 0 := by
  refine Decidable.byContradiction fun counted => ?_
  obtain ⟨later, earlier, split, passes⟩ := Opening.exists_comma_of_commasInside counted
  have divides : inside = earlier.reverse ++ .comma :: later.reverse := by
    rw [← List.reverse_reverse inside, split]
    simp
  apply undivided _ _ divides
  have innermost : Opening.outside? 0 (inside.reverse ++ [.openParen]) = some [] :=
    enclosed
  rw [split, List.append_assoc, passes] at innermost
  rw [Enclosed, List.reverse_reverse]
  simpa only [List.cons_append, Opening.outside?] using innermost

/-- There is one argument more than there are commas directly between the parentheses. -/
theorem length_eq
    (separated : SeparatedInto inside arguments) :
    arguments.length = Opening.commasInside 0 inside.reverse + 1 := by
  induction separated with
  | last enclosed undivided =>
      rw [commasInside_of_undivided enclosed undivided]
      rfl
  | @more argument rest arguments enclosed undivided separated inductionHypothesis =>
      have reversed :
          (argument ++ .comma :: rest).reverse = rest.reverse ++ .comma :: argument.reverse := by
        simp
      have counted : Opening.commasInside 0 (.comma :: argument.reverse) = 1 := by
        simp only [Opening.commasInside, commasInside_of_undivided enclosed undivided]
      rw [reversed, separated.enclosed.commasInside_append, counted, List.length_cons,
        inductionHypothesis]

theorem argumentsIn_eq
    (separated : SeparatedInto inside arguments) :
    argumentsIn inside = if inside = [] then 0 else arguments.length := by
  rw [argumentsIn, separated.length_eq]

end SeparatedInto

/-! ## Well-bracketed tokens -/

theorem wellBracketed_of_toPostfix
    {tokens sequence : List Token}
    (converted : toPostfix tokens = .ok sequence) :
    WellBracketed tokens := by
  rcases toPostfix_cases tokens with ⟨bracketed, -⟩ | ⟨-, fault, refused, -⟩
  · exact bracketed
  · rw [converted] at refused
    cases refused

theorem WellBracketed.exists_toPostfix
    {tokens : List Token}
    (bracketed : WellBracketed tokens) :
    ∃ sequence, toPostfix tokens = .ok sequence := by
  rcases toPostfix_cases tokens with ⟨-, converts⟩ | ⟨unbracketed, -⟩
  · exact converts
  · exact (unbracketed bracketed).elim

/-- A closing parenthesis makes an enclosed group of what follows the innermost open one. -/
theorem Opening.exists_group
    {first before : List Token}
    (innermost : outside? 0 first.reverse = some before) :
    ∃ group,
      first ++ [.closeParen] = before.reverse ++ group ∧
        before.length < first.length ∧
        Enclosed group ∧
        outside? 0 (first ++ [Token.closeParen]).reverse = outside? 0 before := by
  obtain ⟨inside, divided, alone, -⟩ := exists_append_of_outside? innermost
  have split : first = before.reverse ++ .openParen :: inside.reverse := by
    rw [← List.reverse_reverse first, divided]
    simp
  have insideEnclosed : Enclosed inside.reverse := by
    rw [Enclosed, List.reverse_reverse]
    exact alone
  refine ⟨.openParen :: (inside.reverse ++ [.closeParen]), ?_, ?_, insideEnclosed.group, ?_⟩
  · simp [split]
  · have longer := congrArg List.length split
    simp only [List.length_append, List.length_reverse, List.length_cons] at longer
    omega
  · rw [List.reverse_append, List.reverse_singleton, List.singleton_append,
      ← outside?_succ_of_eq_some innermost]
    simp only [outside?]

/-- Tokens that close nothing before them leave a parenthesis open or are enclosed. -/
theorem enclosed_or_open
    {tokens : List Token}
    (opened :
      ∀ before after,
        tokens = before ++ .closeParen :: after →
        Opening.innermost? before.reverse ≠ none) :
    Enclosed tokens ∨ Opening.outside? 0 tokens.reverse ≠ none := by
  induction length : tokens.length using Nat.strongRecOn generalizing tokens with
  | _ count inductionHypothesis =>
      have atStart {first second : List Token}
          (split : tokens = first ++ second)
          (shorter : first.length < count) :
          Enclosed first ∨ Opening.outside? 0 first.reverse ≠ none := by
        apply inductionHypothesis first.length shorter _ rfl
        intro before after inFirst
        exact opened before (after ++ second) (by simp [split, inFirst])
      rcases List.eq_nil_or_concat tokens with rfl | ⟨first, token, rfl⟩
      · exact .inl rfl
      simp only [List.concat_eq_append, List.length_append, List.length_singleton]
        at opened atStart length ⊢
      cases token with
      | openParen =>
          right
          simp [Opening.outside?]
      | closeParen =>
          -- the group that is closed last is enclosed, whatever stands before it
          have closes := opened first [] rfl
          rw [Opening.innermost?, ne_eq, Option.map_eq_none_iff] at closes
          obtain ⟨before, innermost⟩ := Option.ne_none_iff_exists'.mp closes
          obtain ⟨group, split, shorter, groupEnclosed, uncovers⟩ :=
            Opening.exists_group innermost
          rcases atStart split (by rw [List.length_reverse]; omega) with enclosed | isOpen
          · rw [split]
            exact .inl (enclosed.append groupEnclosed)
          · rw [List.reverse_reverse] at isOpen
            rw [uncovers]
            exact .inr isOpen
      | _ =>
          rw [List.reverse_append, List.reverse_singleton, List.singleton_append,
            Opening.outside?_cons_plain (by simp) (by simp)]
          rcases atStart rfl (by omega) with enclosed | isOpen
          · exact .inl (enclosed.append rfl)
          · exact .inr isOpen

/-- Well-bracketed tokens may stand between parentheses. -/
theorem WellBracketed.enclosed
    {tokens : List Token}
    (bracketed : WellBracketed tokens) :
    Enclosed tokens :=
  (enclosed_or_open bracketed.opened).resolve_right
    (not_not_intro (Option.map_eq_none_iff.mp bracketed.closed))

/-- Well-bracketed tokens are one argument, whatever call they may stand in. -/
theorem WellBracketed.undivided
    {tokens : List Token}
    (bracketed : WellBracketed tokens) :
    Undivided tokens := by
  intro before after split enclosed
  have inPlace := bracketed.separating before after split
  rw [Opening.innermost?, enclosed.passedOver.1] at inPlace
  cases inPlace

/-! ## Parts of well-bracketed tokens -/

section Parts

variable
  {before after inside : List Token}
  {opening : Token}

/-- A part that encloses itself and has no comma of its own is well bracketed by itself. -/
theorem WellBracketed.of_part
    (bracketed : WellBracketed (before ++ opening :: (inside ++ after)))
    (noName : ∀ text arguments, opening ≠ .name text arguments)
    (enclosed : Enclosed inside)
    (undivided : Undivided inside) :
    WellBracketed inside where
  opened := by
    intro first second split noneOpen
    rw [split] at enclosed
    exact enclosed.outside?_ne_none_of_closeParen (Option.map_eq_none_iff.mp noneOpen)
  closed := by
    rw [Opening.innermost?, enclosed.passedOver.1, Option.map_none]
  separating := by
    intro first second split
    have inPlace :=
      bracketed.separating (before ++ opening :: first) (second ++ after) (by simp [split])
    have reversed :
        (before ++ opening :: first).reverse = first.reverse ++ opening :: before.reverse := by
      simp
    rw [reversed, Opening.innermost?] at inPlace
    cases innermost : Opening.outside? 0 first.reverse with
    | none =>
        rw [split] at enclosed
        exact (undivided first second split (enclosed.of_append innermost)).elim
    | some between =>
        rw [Opening.outside?_append_of_eq_some innermost, Option.map_some,
          Opening.after_append_cons noName] at inPlace
        rw [Opening.innermost?, innermost, Option.map_some, inPlace]

/-- Commas stand directly inside calls only. -/
theorem WellBracketed.undivided_of_group
    (bracketed : WellBracketed (before ++ .openParen :: (inside ++ after)))
    (noCall : ∀ text arguments, before.getLast? ≠ some (.name text arguments)) :
    Undivided inside := by
  intro first second split firstEnclosed
  have inPlace :=
    bracketed.separating (before ++ .openParen :: first) (second ++ after) (by simp [split])
  have reversed :
      (before ++ .openParen :: first).reverse = first.reverse ++ .openParen :: before.reverse := by
    simp
  have belongs : Opening.after before.reverse = .group :=
    Opening.after_eq_group (by simpa using noCall)
  rw [reversed, Opening.innermost?, firstEnclosed.outside?_append, Opening.outside?,
    Option.map_some, belongs] at inPlace
  cases inPlace

/-- Every opening parenthesis of well-bracketed tokens is closed. -/
theorem WellBracketed.exists_close
    {rest : List Token}
    (bracketed : WellBracketed (before ++ .openParen :: rest)) :
    ∃ inside after, rest = inside ++ .closeParen :: after ∧ Enclosed inside := by
  have reversed :
      (before ++ .openParen :: rest).reverse = rest.reverse ++ .openParen :: before.reverse := by
    simp
  have noneOpen := Option.map_eq_none_iff.mp bracketed.closed
  rw [reversed] at noneOpen
  have isOpen : Opening.outside? 0 (([] : List Token).reverse ++ [.openParen]) = some [] :=
    rfl
  exact Opening.exists_close isOpen noneOpen

end Parts

end Reckoner
