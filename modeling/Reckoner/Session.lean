import Reckoner.Builtin
import Reckoner.Evaluator

/-!
# Sessions

A session works on one table of functions, its registry, and on one evaluator
with a table of its own. Tables are values: copying one and changing the copy
leaves the other as it was. A command that fails changes nothing.
-/

namespace Reckoner

/-- A registry and an evaluator. -/
structure Session where
  registry : FunctionTable
  evaluator : Evaluator

namespace Session

/-- The evaluator that a session starts with: all built-in functions, not strict. -/
def plainEvaluator : Evaluator where
  functions := Builtin.table
  strict := false

/-- A session with an empty registry. -/
def start : Session where
  registry := .empty
  evaluator := plainEvaluator

/-- The tables that a session can change. -/
inductive Owner where
  | registry
  | evaluator
  deriving DecidableEq, Repr

/-- The tables that a session can read. -/
inductive Source where
  | owned (owner : Owner)
  | builtin
  deriving DecidableEq, Repr

/-- One step of a session. -/
inductive Command where
  | register (owner : Owner) (name : Text) (arity : Nat) (defaults : List Binary64)
      (body? : Option Body)
  | registerBuiltins
  | size (source : Source)
  | find (source : Source) (name : Text)
  | freshEvaluator
  | evaluatorOf (source : Source) (strict : Bool)
  | copyBack
  | evaluate (source : Source) (bindings : Bindings) (formula : Text)

/-- What a session answers to a step. -/
inductive Answer where
  | size (size : Nat)
  | found (function? : Option Function)
  | evaluator (size : Nat) (strict : Bool)
  | value (value : Binary64)
  | refused (fault : RegistrationFault)
  | failed (fault : Fault)

/-- A table of a session. -/
def table (session : Session) : Source → FunctionTable
  | .owned .registry => session.registry
  | .owned .evaluator => session.evaluator.functions
  | .builtin => Builtin.table

/-- Evaluate with a table of a session; only its evaluator can be strict. -/
def value (session : Session) (source : Source) (bindings : Bindings) (formula : Text) :
    Except Fault Binary64 :=
  match source with
  | .owned .evaluator => session.evaluator.evaluate bindings formula
  | other => Reckoner.evaluate bindings (session.table other) formula

/-- Register a function in a table of a session. -/
def register
    (session : Session)
    (owner : Owner)
    (name : Text)
    (arity : Nat)
    (defaults : List Binary64)
    (body? : Option Body) :
    Except RegistrationFault Session :=
  match owner with
  | .registry => do
      let registry ← session.registry.register name arity defaults body?
      .ok { session with registry := registry }
  | .evaluator => do
      let evaluator ← session.evaluator.register name arity defaults body?
      .ok { session with evaluator := evaluator }

/-- Perform one step. -/
def perform (session : Session) : Command → Answer × Session
  | .register owner name arity defaults body? =>
      match session.register owner name arity defaults body? with
      | .ok changed => (.size (changed.table (.owned owner)).size, changed)
      | .error fault => (.refused fault, session)
  | .registerBuiltins =>
      let registry := Builtin.addTo session.registry
      (.size registry.size, { session with registry := registry })
  | .size source => (.size (session.table source).size, session)
  | .find source name => (.found ((session.table source).find? name), session)
  | .freshEvaluator =>
      (.evaluator plainEvaluator.functions.size plainEvaluator.strict,
        { session with evaluator := plainEvaluator })
  | .evaluatorOf source strict =>
      let functions := session.table source
      (.evaluator functions.size strict,
        { session with evaluator := { functions := functions, strict := strict } })
  | .copyBack =>
      let registry := session.evaluator.functions
      (.size registry.size, { session with registry := registry })
  | .evaluate source bindings formula =>
      match session.value source bindings formula with
      | .ok value => (.value value, session)
      | .error fault => (.failed fault, session)

/-- The answers to a list of steps, and the session after them. -/
def performAll (session : Session) : List Command → List Answer × Session
  | [] => ([], session)
  | command :: rest =>
      let (answer, changed) := session.perform command
      let (answers, last) := changed.performAll rest
      (answer :: answers, last)

end Session

end Reckoner
