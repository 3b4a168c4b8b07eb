import Reckoner.Fault

/-!
# Postfix order

A formula becomes a postfix sequence in one pass over its tokens. Operands go
straight to the output. Operators, opening parentheses and the names of calls
wait on a stack until their place in the output is known. Every operator groups
to the left.

What a token does depends on its neighbours in two places only: a name directly
before a parenthesis begins a call, and a closing parenthesis directly after an
opening one ends a call without arguments. `cues` settles both before the pass,
so that each round of it sees one `Cue`.
-/

namespace Reckoner

/-- What one round of the conversion has to do. -/
inductive Cue where
  | operand (token : Token)
  | operator (symbol : UInt8)
  | beginCall (name : Text) (arguments : Int)
  | beginGroup
  | nextArgument
  | close (afterOpen : Bool)
  deriving DecidableEq

namespace Cue

/-- The cues of tokens that follow an opening parenthesis (`afterOpen`) or anything else. -/
def ofTokensAfter : Bool → List Token → List Cue
  | _, [] => []
  | _, .name text arguments :: .openParen :: rest =>
      beginCall text arguments :: ofTokensAfter true rest
  | _, .name text arguments :: rest =>
      operand (.name text arguments) :: ofTokensAfter false rest
  | _, .number text value :: rest =>
      operand (.number text value) :: ofTokensAfter false rest
  | _, .operator symbol :: rest =>
      operator symbol :: ofTokensAfter false rest
  | _, .openParen :: rest =>
      beginGroup :: ofTokensAfter true rest
  | _, .comma :: rest =>
      nextArgument :: ofTokensAfter false rest
  | afterOpen, .closeParen :: rest =>
      close afterOpen :: ofTokensAfter false rest

/-- The cues of a whole formula. -/
def ofTokens (tokens : List Token) : List Cue :=
  ofTokensAfter false tokens

end Cue

/--
An open call: `depth` is the number of waiting tokens below its opening
parenthesis, and `commas` counts its commas so far.
-/
structure CallFrame where
  depth : Nat
  commas : Nat
  deriving DecidableEq, Repr

/--
The state of a conversion. The lists hold the latest output, the top of the
waiting tokens and the innermost call first.
-/
structure Conversion where
  output : List Token
  waiting : List Token
  calls : List CallFrame
  deriving DecidableEq

namespace Conversion

/-- The state before the first token. -/
def start : Conversion where
  output := []
  waiting := []
  calls := []

/-- Append a token to the output. -/
def emit (token : Token) (state : Conversion) : Conversion :=
  { state with output := token :: state.output }

/-- Whether a waiting token is anything but an opening parenthesis. -/
def isInside : Token → Bool
  | .openParen => false
  | _ => true

/-- Whether a waiting token is an operator that binds at least as tightly as `symbol`. -/
def yieldsTo (symbol : UInt8) : Token → Bool
  | .operator waiting => Byte.precedence symbol ≤ Byte.precedence waiting
  | _ => false

/-- Move waiting tokens to the output for as long as they satisfy a condition. -/
def release (condition : Token → Bool) (state : Conversion) : Conversion :=
  { state with
    output := (state.waiting.takeWhile condition).reverse ++ state.output
    waiting := state.waiting.dropWhile condition }

/-- Let an operator wait, after the operators to its left that bind as tightly. -/
def pushOperator (symbol : UInt8) (state : Conversion) : Conversion :=
  let released := state.release (yieldsTo symbol)
  { released with waiting := .operator symbol :: released.waiting }

/-- Let the name of a call wait below its opening parenthesis. -/
def pushCall (name : Text) (arguments : Int) (state : Conversion) : Conversion where
  output := state.output
  waiting := .openParen :: .name name arguments :: state.waiting
  calls := { depth := state.waiting.length + 1, commas := 0 } :: state.calls

/-- Let the opening parenthesis of a group wait. -/
def pushGroup (state : Conversion) : Conversion :=
  { state with waiting := .openParen :: state.waiting }

/-- The innermost call, if its parenthesis has exactly `depth` tokens below it. -/
def callAt? (depth : Nat) (state : Conversion) : Option (CallFrame × List CallFrame) :=
  match state.calls with
  | frame :: outer => if frame.depth = depth then some (frame, outer) else none
  | [] => none

/-- End an argument; the innermost open parenthesis has to be that of a call. -/
def endArgument (state : Conversion) : Except ParseFault Conversion :=
  let released := state.release isInside
  match released.waiting with
  | _ :: below =>
      match released.callAt? below.length with
      | some (frame, outer) =>
          .ok { released with calls := { frame with commas := frame.commas + 1 } :: outer }
      | none => .error .strayComma
  | [] => .error .strayComma

/--
Close the innermost parenthesis. One that belongs to a call puts the name of
the call out, with the number of its arguments.
-/
def closeParen (afterOpen : Bool) (state : Conversion) : Except ParseFault Conversion :=
  let released := state.release isInside
  match released.waiting with
  | _ :: below =>
      let closed := { released with waiting := below }
      match released.callAt? below.length, below with
      | some (frame, outer), .name text _ :: belowName =>
          let arguments : Nat := if afterOpen then 0 else frame.commas + 1
          .ok {
            output := .name text arguments :: released.output
            waiting := belowName
            calls := outer
          }
      | _, _ => .ok closed
  | [] => .error .unmatchedClose

/-- One round of the conversion. -/
def step (state : Conversion) : Cue → Except ParseFault Conversion
  | .operand token => .ok (state.emit token)
  | .operator symbol => .ok (state.pushOperator symbol)
  | .beginCall name arguments => .ok (state.pushCall name arguments)
  | .beginGroup => .ok state.pushGroup
  | .nextArgument => state.endArgument
  | .close afterOpen => state.closeParen afterOpen

/-- The state after a list of cues. -/
def run (cues : List Cue) (state : Conversion) : Except ParseFault Conversion :=
  cues.foldlM step state

/-- The whole output, once nothing is left to read. -/
def finish (state : Conversion) : Except ParseFault (List Token) :=
  let released := state.release isInside
  match released.waiting with
  | _ :: _ => .error .unmatchedOpen
  | [] => .ok released.output.reverse

/-- Running two lists of cues one after the other is running their concatenation. -/
theorem run_append
    (first second : List Cue)
    (state : Conversion) :
    run (first ++ second) state = run first state >>= run second :=
  List.foldlM_append

end Conversion

/-- The tokens of a formula in postfix order. -/
def toPostfix (tokens : List Token) : Except ParseFault (List Token) := do
  let state ← Conversion.start.run (Cue.ofTokens tokens)
  state.finish

end Reckoner
