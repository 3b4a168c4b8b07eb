import Reckoner.Function
import Reckoner.Finance

/-!
# Built-in functions

Twelve functions that every formula may use unless it is given a table of its
own.
-/

namespace Reckoner

/-- A function with the identifier it is known by. -/
structure NamedFunction where
  name : Text
  identifier : isIdentifier name = true
  function : Function

namespace Builtin

/-- The argument at a position; a call hands over every argument. -/
def argument (position : Nat) (arguments : List Binary64) : Binary64 :=
  arguments.getD position .nan

/-- A function of one argument that always has a result. -/
def unary (operation : Binary64 → Binary64) : Function :=
  .ofBody 1 fun arguments => .ok (operation (argument 0 arguments))

/-- Round to an integer by adding one half, rounded, and taking the floor. -/
def round (value : Binary64) : Binary64 :=
  (value + .half).floor

/-- The payment of a loan as a function. -/
def payment : Function :=
  .ofBody 3 fun arguments =>
    Finance.payment (argument 0 arguments) (argument 1 arguments) (argument 2 arguments)

/-- The future value of savings as a function; the present value may be left out. -/
def futureValue : Function where
  arity := 4
  defaults := [.zero]
  body := fun arguments =>
    .ok (Finance.futureValue (argument 0 arguments) (argument 1 arguments)
      (argument 2 arguments) (argument 3 arguments))
  defaults_le := by decide

/-- Every built-in function. -/
def all : List NamedFunction := [
  ⟨Text.ofString "sqrt", by decide, unary Binary64.sqrt⟩,
  ⟨Text.ofString "abs", by decide, unary Binary64.abs⟩,
  ⟨Text.ofString "round", by decide, unary round⟩,
  ⟨Text.ofString "floor", by decide, unary Binary64.floor⟩,
  ⟨Text.ofString "ceil", by decide, unary Binary64.ceil⟩,
  ⟨Text.ofString "sin", by decide, unary Binary64.sin⟩,
  ⟨Text.ofString "cos", by decide, unary Binary64.cos⟩,
  ⟨Text.ofString "tan", by decide, unary Binary64.tan⟩,
  ⟨Text.ofString "log", by decide, unary Binary64.log⟩,
  ⟨Text.ofString "exp", by decide, unary Binary64.exp⟩,
  ⟨Text.ofString "pmt", by decide, payment⟩,
  ⟨Text.ofString "fv", by decide, futureValue⟩
]

/-- Put every built-in function into a table, in place of functions of the same names. -/
def addTo (table : FunctionTable) : FunctionTable :=
  all.foldl
    (fun table builtin => table.insert builtin.name builtin.identifier builtin.function)
    table

/-- The table of exactly the built-in functions. -/
def table : FunctionTable :=
  addTo .empty

end Builtin

end Reckoner
