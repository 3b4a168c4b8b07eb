import Reckoner.Builtin
import Reckoner.Evaluator

/-!
# Ready-made function bodies

Bodies for functions of any arity: folds over the arguments, single arguments,
constants, failures, and formulas over the arguments.
-/

namespace Reckoner

namespace Body

/-- The number of arguments. -/
def count : Body :=
  fun arguments => .ok (.ofNat arguments.length)

/-- The sum of the arguments, added from the first on to positive zero. -/
def sum : Body :=
  fun arguments => .ok (arguments.foldl (· + ·) .zero)

/-- The sum of every argument times its position, counted from one. -/
def weighted : Body :=
  fun arguments =>
    .ok (arguments.zipIdx.foldl
      (fun total entry => total + .ofNat (entry.2 + 1) * entry.1)
      .zero)

/-- The first argument, or zero. -/
def first : Body :=
  fun arguments => .ok (arguments.head?.getD .zero)

/-- The last argument, or zero. -/
def last : Body :=
  fun arguments => .ok (arguments.getLast?.getD .zero)

/-- One value, whatever the arguments. -/
def constant (value : Binary64) : Body :=
  fun _ => .ok value

/-- A failure, whatever the arguments. -/
def failing (report : Report) : Body :=
  fun _ => .error report

/-- The arguments as variables `a0`, `a1`, and so on. -/
def positional (arguments : List Binary64) : Bindings :=
  .ofList (arguments.zipIdx.map fun entry =>
    (Text.ofString "a" ++ Text.ofNat entry.2, entry.1))

/-- The value of a formula over the arguments with the built-in functions. -/
def formula (text : Text) : Body :=
  fun arguments =>
    (evaluate (positional arguments) Builtin.table text).mapError Fault.report

end Body

end Reckoner
