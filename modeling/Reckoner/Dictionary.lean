import Reckoner.Text

/-!
# Dictionaries

A `Dictionary` binds names to values. Every name is bound at most once, and
binding a name again replaces its value.
-/

namespace Reckoner

/-- Names with their values, the latest binding first. -/
structure Dictionary (α : Type) where
  entries : List (Text × α)
  distinct : (entries.map Prod.fst).Nodup

namespace Dictionary

variable {α : Type}

/-- No bindings. -/
def empty : Dictionary α where
  entries := []
  distinct := List.nodup_nil

/-- The value of a name. -/
def find? (name : Text) (dictionary : Dictionary α) : Option α :=
  dictionary.entries.lookup name

/-- Whether a name is bound. -/
def contains (name : Text) (dictionary : Dictionary α) : Bool :=
  (dictionary.find? name).isSome

/-- The number of names that are bound. -/
def size (dictionary : Dictionary α) : Nat :=
  dictionary.entries.length

/-- Bind a name, in place of any earlier binding of it. -/
def insert (name : Text) (value : α) (dictionary : Dictionary α) : Dictionary α where
  entries := (name, value) :: dictionary.entries.filter (fun entry => entry.1 != name)
  distinct := by
    rw [List.map_cons, List.nodup_cons]
    constructor
    · simp
    · exact (List.Sublist.map Prod.fst List.filter_sublist).nodup dictionary.distinct

/-- Bind names in order, later bindings replacing earlier ones. -/
def ofList (bindings : List (Text × α)) : Dictionary α :=
  bindings.foldl (fun dictionary entry => dictionary.insert entry.1 entry.2) empty

/-- Nothing is bound in the empty dictionary. -/
@[simp] theorem find?_empty
    (name : Text) :
    (empty : Dictionary α).find? name = none :=
  rfl

/-- Leaving out another name does not change what a name is bound to. -/
private theorem lookup_filter_ne
    {name other : Text}
    (different : other ≠ name)
    (entries : List (Text × α)) :
    (entries.filter (fun entry => entry.1 != name)).lookup other =
      entries.lookup other := by
  induction entries with
  | nil =>
      rfl
  | cons entry rest inductionHypothesis =>
      obtain ⟨bound, value⟩ := entry
      by_cases same : bound = name
      · have unequal : (other == bound) = false := by
          simpa [same] using different
        rw [List.lookup_cons, unequal, ← inductionHypothesis]
        simp [same]
      · simp [List.lookup_cons, same, inductionHypothesis]

/-- A name has the value it was bound to last; other names keep theirs. -/
theorem find?_insert
    (name other : Text)
    (value : α)
    (dictionary : Dictionary α) :
    (dictionary.insert name value).find? other =
      if other = name then some value else dictionary.find? other := by
  by_cases same : other = name
  · simp [find?, insert, same]
  · have unequal : (other == name) = false := by
      simpa using same
    simp only [find?, insert, List.lookup_cons, unequal, same, if_false]
    exact lookup_filter_ne same dictionary.entries

end Dictionary

end Reckoner
