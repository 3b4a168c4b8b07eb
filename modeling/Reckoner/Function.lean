import Reckoner.Dictionary
import Reckoner.Fault

/-!
# Functions and their tables

A function takes a fixed number of arguments, of which the last ones may be
left out and are then filled in from its defaults. A `FunctionTable` holds
functions under names that a formula can spell.
-/

namespace Reckoner

/-- What a function computes from its arguments; it may fail with a report. -/
abbrev Body := List Binary64 → Except Report Binary64

/-- A function; `defaults` are the values of its last parameters. -/
structure Function where
  arity : Nat
  defaults : List Binary64
  body : Body
  defaults_le : defaults.length ≤ arity

namespace Function

/-- A function whose arguments can none of them be left out. -/
def ofBody (arity : Nat) (body : Body) : Function where
  arity := arity
  defaults := []
  body := body
  defaults_le := Nat.zero_le arity

/-- The number of arguments that cannot be left out. -/
def required (function : Function) : Nat :=
  function.arity - function.defaults.length

/-- Fill in the arguments that were left out. -/
def complete (function : Function) (arguments : List Binary64) : List Binary64 :=
  arguments ++ function.defaults.drop (arguments.length - function.required)

/-- An admissible number of arguments is completed to the arity. -/
theorem length_complete
    (function : Function)
    {arguments : List Binary64}
    (enough : function.required ≤ arguments.length)
    (notTooMany : arguments.length ≤ function.arity) :
    (function.complete arguments).length = function.arity := by
  have := function.defaults_le
  simp only [required] at enough
  simp only [complete, required, List.length_append, List.length_drop]
  omega

end Function

/-- Functions under names that are identifiers. -/
structure FunctionTable where
  functions : Dictionary Function
  named : ∀ name, functions.contains name = true → isIdentifier name = true

namespace FunctionTable

/-- A table without functions. -/
def empty : FunctionTable where
  functions := .empty
  named := by
    intro name bound
    simp [Dictionary.contains] at bound

/-- The function of a name. -/
def find? (name : Text) (table : FunctionTable) : Option Function :=
  table.functions.find? name

/-- Whether a name has a function. -/
def contains (name : Text) (table : FunctionTable) : Bool :=
  (table.find? name).isSome

/-- The number of names that have a function. -/
def size (table : FunctionTable) : Nat :=
  table.functions.size

/-- Put a function under an identifier, in place of any earlier one. -/
def insert
    (name : Text)
    (identifier : isIdentifier name = true)
    (function : Function)
    (table : FunctionTable) :
    FunctionTable where
  functions := table.functions.insert name function
  named := by
    intro other bound
    rw [Dictionary.contains, Dictionary.find?_insert] at bound
    by_cases same : other = name
    · rw [same]
      exact identifier
    · rw [if_neg same] at bound
      exact table.named other bound

/--
Register a function. The name has to be an identifier, there has to be a body,
and there may not be more defaults than parameters, in this order.
-/
def register
    (name : Text)
    (arity : Nat)
    (defaults : List Binary64)
    (body? : Option Body)
    (table : FunctionTable) :
    Except RegistrationFault FunctionTable :=
  if identifier : isIdentifier name = true then
    match body? with
    | none => .error (.missingBody name)
    | some body =>
        if defaults_le : defaults.length ≤ arity then
          .ok (table.insert name identifier {
            arity := arity
            defaults := defaults
            body := body
            defaults_le := defaults_le
          })
        else
          .error (.tooManyDefaults name)
  else
    .error (.invalidName name)

/-- A name has the function it was given last; other names keep theirs. -/
theorem find?_insert
    {name : Text}
    (identifier : isIdentifier name = true)
    (other : Text)
    (function : Function)
    (table : FunctionTable) :
    (table.insert name identifier function).find? other =
      if other = name then some function else table.find? other :=
  Dictionary.find?_insert name other function table.functions

end FunctionTable

end Reckoner
