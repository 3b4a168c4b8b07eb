import Reckoner.Proofs.Isolation

/-!
# Names come from the formula

A conversion moves names about and counts their arguments, but it never makes
one up: whatever holds of the names of a formula holds of the names that wait or
are put out at any time.
-/

namespace Reckoner

/-- Every name among these tokens is allowed. -/
def Mentions (allowed : Text → Prop) (tokens : List Token) : Prop :=
  ∀ text arguments, .name text arguments ∈ tokens → allowed text

namespace Mentions

variable
  {allowed : Text → Prop}
  {tokens others : List Token}

theorem nil :
    Mentions allowed [] := by
  intro text arguments member
  cases member

/-- Fewer tokens mention fewer names. -/
theorem of_subset
    (mentions : Mentions allowed tokens)
    (subset : others ⊆ tokens) :
    Mentions allowed others :=
  fun text arguments member => mentions text arguments (subset member)

theorem append_iff :
    Mentions allowed (tokens ++ others) ↔
      Mentions allowed tokens ∧ Mentions allowed others := by
  constructor
  · intro mentions
    exact ⟨mentions.of_subset (List.subset_append_left _ _),
      mentions.of_subset (List.subset_append_right _ _)⟩
  · rintro ⟨left, right⟩ text arguments member
    rcases List.mem_append.mp member with inLeft | inRight
    · exact left text arguments inLeft
    · exact right text arguments inRight

theorem cons_iff
    {token : Token} :
    Mentions allowed (token :: tokens) ↔
      Mentions allowed [token] ∧ Mentions allowed tokens := by
  rw [← List.singleton_append, append_iff]

/-- A name is allowed with any number of arguments. -/
theorem name_iff
    {text : Text}
    {arguments : Int} :
    Mentions allowed [.name text arguments] ↔ allowed text := by
  constructor
  · intro mentions
    exact mentions text arguments List.mem_cons_self
  · intro isAllowed other count member
    rw [List.mem_singleton] at member
    cases member
    exact isAllowed

theorem reverse_iff :
    Mentions allowed tokens.reverse ↔ Mentions allowed tokens := by
  simp [Mentions]

end Mentions

namespace Conversion

/-- Every name that waits or was put out is allowed. -/
structure MentionsOnly (allowed : Text → Prop) (state : Conversion) : Prop where
  waiting :
    Mentions allowed state.waiting
  output :
    Mentions allowed state.output

namespace MentionsOnly

variable
  {allowed : Text → Prop}
  {state following : Conversion}

theorem release
    (only : state.MentionsOnly allowed)
    (condition : Token → Bool) :
    (state.release condition).MentionsOnly allowed where
  waiting :=
    only.waiting.of_subset (List.dropWhile_sublist condition).subset
  output := by
    have moved :=
      only.waiting.of_subset (List.takeWhile_sublist condition).subset
    exact Mentions.append_iff.mpr ⟨Mentions.reverse_iff.mpr moved, only.output⟩

theorem endArgument
    (only : state.MentionsOnly allowed)
    (ends : state.endArgument = .ok following) :
    following.MentionsOnly allowed := by
  have released := only.release isInside
  unfold Conversion.endArgument at ends
  simp only at ends
  split at ends
  · split at ends <;> cases ends
    exact ⟨released.waiting, released.output⟩
  · cases ends

theorem closeParen
    (only : state.MentionsOnly allowed)
    {afterOpen : Bool}
    (closes : state.closeParen afterOpen = .ok following) :
    following.MentionsOnly allowed := by
  have released := only.release isInside
  unfold Conversion.closeParen at closes
  simp only at closes
  split at closes
  · next token below waiting =>
      have belowOnly : Mentions allowed below :=
        released.waiting.of_subset (by simp [waiting])
      split at closes
      · next frame outer text arguments lowest call =>
          cases closes
          have named := Mentions.cons_iff.mp belowOnly
          refine ⟨named.2, Mentions.cons_iff.mpr ⟨?_, released.output⟩⟩
          exact Mentions.name_iff.mpr (Mentions.name_iff.mp named.1)
      · cases closes
        exact ⟨belowOnly, released.output⟩
  · cases closes

/-- Every round keeps the names allowed, if its cue reads no other. -/
theorem step
    (only : state.MentionsOnly allowed)
    {cue : Cue}
    (read : Mentions allowed cue.reads)
    (steps : Conversion.step state cue = .ok following) :
    following.MentionsOnly allowed := by
  cases cue with
  | operand token =>
      cases steps
      exact ⟨only.waiting, Mentions.cons_iff.mpr ⟨read, only.output⟩⟩
  | operator symbol =>
      cases steps
      have released := only.release (yieldsTo symbol)
      refine ⟨Mentions.cons_iff.mpr ⟨?_, released.waiting⟩, released.output⟩
      simp [Mentions]
  | beginCall name arguments =>
      cases steps
      have called : Mentions allowed (.name name arguments :: state.waiting) :=
        Mentions.cons_iff.mpr ⟨(Mentions.cons_iff.mp read).1, only.waiting⟩
      refine ⟨Mentions.cons_iff.mpr ⟨?_, called⟩, only.output⟩
      simp [Mentions]
  | beginGroup =>
      cases steps
      refine ⟨Mentions.cons_iff.mpr ⟨?_, only.waiting⟩, only.output⟩
      simp [Mentions]
  | nextArgument =>
      exact only.endArgument steps
  | close afterOpen =>
      exact only.closeParen steps

theorem run
    (only : state.MentionsOnly allowed)
    {cues : List Cue}
    (read : ∀ cue ∈ cues, Mentions allowed cue.reads)
    (runs : Conversion.run cues state = .ok following) :
    following.MentionsOnly allowed := by
  induction cues generalizing state with
  | nil =>
      cases runs
      exact only
  | cons cue rest inductionHypothesis =>
      obtain ⟨middle, steps, restRuns⟩ := Outcome.bind_eq_ok_iff.mp runs
      have next := only.step (read cue List.mem_cons_self) steps
      exact inductionHypothesis next
        (fun later member => read later (List.mem_cons_of_mem _ member)) restRuns

theorem finish
    (only : state.MentionsOnly allowed)
    {sequence : List Token}
    (finishes : state.finish = .ok sequence) :
    Mentions allowed sequence := by
  have released := only.release isInside
  unfold Conversion.finish at finishes
  simp only at finishes
  split at finishes <;> cases finishes
  exact Mentions.reverse_iff.mpr released.output

end MentionsOnly

/-- The two parts around a gap mention only names of the tokens around it. -/
theorem mentions_surroundings
    {allowed : Text → Prop}
    {before after : List Token}
    {parts : List Token × List Token}
    (around : surroundings before after = .ok parts)
    (inBefore : Mentions allowed before)
    (inAfter : Mentions allowed after) :
    Mentions allowed parts.1 ∧ Mentions allowed parts.2 := by
  obtain ⟨state, beforeRuns, continues⟩ := Outcome.bind_eq_ok_iff.mp around
  obtain ⟨rest, restRuns, ends⟩ := Outcome.bind_eq_ok_iff.mp continues
  obtain ⟨last, afterRuns, finishes⟩ := Outcome.bind_eq_ok_iff.mp restRuns
  cases ends
  have atStart : start.MentionsOnly allowed := ⟨.nil, .nil⟩
  have atGap : state.MentionsOnly allowed :=
    atStart.run
      (fun cue member => inBefore.of_subset (Cue.reads_subset false before cue member))
      beforeRuns
  have afterGap : MentionsOnly allowed { state with output := [] } :=
    ⟨atGap.waiting, .nil⟩
  have atEnd : last.MentionsOnly allowed :=
    afterGap.run
      (fun cue member => inAfter.of_subset (Cue.reads_subset false after cue member))
      afterRuns
  exact ⟨Mentions.reverse_iff.mpr atGap.output, atEnd.finish finishes⟩

end Conversion

end Reckoner
