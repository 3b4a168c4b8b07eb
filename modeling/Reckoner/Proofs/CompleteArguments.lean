import Reckoner.Proofs.Agreement
import Reckoner.Proofs.MachineSteps
import Reckoner.Proofs.Mentions
import Reckoner.Proofs.WrittenCalls

/-!
# Bodies get all of their arguments

A function may be called with fewer arguments than it has parameters, but its
body never is: what is missing at the end is filled in from the defaults. The
number of arguments is checked against the arity and the number of defaults, and
then against the stack, before a body is applied to anything, so nothing is read
beyond the stack or the defaults. A call therefore means the same as the full
call in which the defaults are written out.
-/

namespace Reckoner

/-! ## What a body is applied to -/

namespace Function

/-- The defaults of the parameters that so many arguments leave over. -/
def missing (function : Function) (count : Nat) : List Binary64 :=
  function.defaults.drop (count - function.required)

/-- Arguments are followed by the defaults that they leave over. -/
theorem complete_eq_append_missing
    (function : Function)
    (arguments : List Binary64) :
    function.complete arguments = arguments ++ function.missing arguments.length :=
  rfl

/-- The parameters without a default and those with one make up the arity. -/
theorem required_add_length_defaults
    (function : Function) :
    function.required + function.defaults.length = function.arity :=
  Nat.sub_add_cancel function.defaults_le

/--
The values that a body is applied to by a call with `count` arguments: the
topmost values of the stack in the order in which they were pushed, then the
last defaults in order, as many as the parameters in all. Each of them is found
where the stack and the defaults reach.
-/
structure Completes
    (function : Function)
    (count : Nat)
    (stack values : List Binary64) :
    Prop where
  length :
    values.length = function.arity
  arguments :
    values.take count = (stack.take count).reverse
  defaults :
    values.drop count =
      function.defaults.drop (function.defaults.length - (function.arity - count))
  fromStack :
    ∀ position,
      position < count →
      count - 1 - position < stack.length ∧
        values[position]? = stack[count - 1 - position]?
  fromDefaults :
    ∀ position,
      count ≤ position →
      position < function.arity →
      function.required ≤ position ∧
        position - function.required < function.defaults.length ∧
        values[position]? = function.defaults[position - function.required]?

section Admissible

variable
  {function : Function}
  {count : Nat}
  {stack : List Binary64}
  (enough : function.required ≤ count)
  (notTooMany : count ≤ function.arity)

include enough notTooMany

theorem length_missing :
    (function.missing count).length = function.arity - count := by
  have parameters := function.required_add_length_defaults
  rw [missing, List.length_drop]
  omega

/-- Counted from the end there are as many defaults as arguments are missing. -/
theorem missing_eq_drop :
    function.missing count =
      function.defaults.drop (function.defaults.length - (function.arity - count)) := by
  have parameters := function.required_add_length_defaults
  rw [missing]
  congr 1
  omega

/-- Arguments from the stack are completed by the defaults that they leave over. -/
theorem completes_complete
    (reached : count ≤ stack.length) :
    function.Completes count stack (function.complete (stack.take count).reverse) := by
  have parameters := function.required_add_length_defaults
  have taken : (stack.take count).length = count :=
    List.length_take_of_le reached
  have given : (stack.take count).reverse.length = count := by
    rw [List.length_reverse, taken]
  have length :=
    function.length_complete (given.symm ▸ enough) (given.symm ▸ notTooMany)
  rw [complete_eq_append_missing, given] at length ⊢
  constructor
  case length =>
    exact length
  case arguments =>
    exact List.take_left' given
  case defaults =>
    rw [List.drop_left' given, missing_eq_drop enough notTooMany]
  case fromStack =>
    intro position isArgument
    refine ⟨by omega, ?_⟩
    rw [List.getElem?_append_left (by omega), List.getElem?_reverse (by omega),
      taken, List.getElem?_take_of_lt (by omega)]
  case fromDefaults =>
    intro position isDefault inArity
    refine ⟨by omega, by omega, ?_⟩
    rw [List.getElem?_append_right (by omega), given, missing, List.getElem?_drop]
    congr 1
    omega

end Admissible

/-- What a call comes to after its body, on top of the values below its arguments. -/
def settle (name : Text) (values below : List Binary64) :
    Except Report Binary64 → Except EvalFault (List Binary64)
  | .error report => .error (.raised report)
  | .ok result =>
      if result.isNaN && !values.any Binary64.isNaN then
        .error (.noRealValue name)
      else
        .ok (result :: below)

/--
What a call with `count` arguments does. It is refused for their number or for
want of values on the stack, and otherwise the body is applied, once, to
complete arguments.
-/
inductive Called (function : Function) (name : Text) (count : Nat) (stack : List Binary64) :
    Except EvalFault (List Binary64) → Prop where
  | inadmissible
      (outside : count < function.required ∨ function.arity < count) :
      Called function name count stack
        (.error (.arityMismatch name function.required function.arity count))
  | short
      (enough : function.required ≤ count)
      (notTooMany : count ≤ function.arity)
      (short : stack.length < count) :
      Called function name count stack (.error (.missingArguments name))
  | applied
      {values : List Binary64}
      (enough : function.required ≤ count)
      (notTooMany : count ≤ function.arity)
      (reached : count ≤ stack.length)
      (completes : function.Completes count stack values) :
      Called function name count stack
        (settle name values (stack.drop count) (function.body values))

theorem map_apply
    (function : Function)
    (name : Text)
    (arguments below : List Binary64) :
    (function.apply name arguments).map (· :: below) =
      settle name (function.complete arguments) below
        (function.body (function.complete arguments)) := by
  simp only [apply]
  cases function.body (function.complete arguments) with
  | error report =>
      rfl
  | ok result =>
      simp only [settle]
      split <;> rfl

theorem called_call
    (function : Function)
    (name : Text)
    (arguments : Int)
    (stack : List Binary64) :
    function.Called name (function.taken arguments) stack
      (function.call name arguments stack) := by
  rcases function.call_cases name arguments stack with
    ⟨inadmissible, refused⟩ | ⟨⟨enough, notTooMany⟩, short, refused⟩ |
      ⟨⟨enough, notTooMany⟩, reached, calls⟩
  · rw [refused]
    refine .inadmissible ?_
    rw [Admits] at inadmissible
    omega
  · rw [refused]
    exact .short enough notTooMany short
  · rw [calls, map_apply]
    exact .applied enough notTooMany reached (completes_complete enough notTooMany reached)

end Function

/-! ## Nothing else is asked of a body -/

/-- Functions that differ in their bodies alone do the same if the bodies agree on the operands. -/
theorem Function.call_eq_of_body_eq
    {function counterpart : Function}
    (sameArity : function.arity = counterpart.arity)
    (sameDefaults : function.defaults = counterpart.defaults)
    {arguments : Int}
    {stack : List Binary64}
    (sameBody :
      function.Admits arguments →
      function.taken arguments ≤ stack.length →
      function.body (function.operands arguments stack) =
        counterpart.body (function.operands arguments stack))
    (name : Text) :
    function.call name arguments stack = counterpart.call name arguments stack := by
  have sameRequired : counterpart.required = function.required := by
    rw [required, required, sameArity, sameDefaults]
  have sameTaken : counterpart.taken arguments = function.taken arguments := by
    rw [taken, taken, sameArity]
  have sameOperands (values : List Binary64) :
      counterpart.complete values = function.complete values := by
    rw [complete, complete, sameRequired, sameDefaults]
  simp only [call, sameRequired, sameTaken, ← sameArity]
  by_cases inadmissible :
      function.taken arguments < function.required ∨
        function.arity < function.taken arguments
  · rw [if_pos inadmissible, if_pos inadmissible]
  · by_cases short : stack.length < function.taken arguments
    · rw [if_neg inadmissible, if_neg inadmissible, if_pos short, if_pos short]
    · have admitted : function.Admits arguments := by
        rw [Admits]
        omega
      have bodies := sameBody admitted (Nat.le_of_not_lt short)
      rw [operands] at bodies
      simp only [apply, sameOperands, bodies]

/-- Two tables that differ in the bodies of their functions alone. -/
def FunctionTable.DiffersInBodies (table other : FunctionTable) : Prop :=
  ∀ name,
    (table.find? name).map (fun function => (function.arity, function.defaults)) =
      (other.find? name).map (fun function => (function.arity, function.defaults))

namespace Machine

/--
A run on a stack applies the body of a name to these values. They are the
complete arguments of a name that the run comes to.
-/
def Applies
    (bindings : Bindings)
    (table : FunctionTable)
    (sequence : List Token)
    (start : List Binary64)
    (name : Text)
    (values : List Binary64) :
    Prop :=
  ∃ before arguments after stack function,
    sequence = before ++ .name name arguments :: after ∧
      run bindings table before start = .ok stack ∧
      table.find? name = some function ∧
      function.Admits arguments ∧
      function.taken arguments ≤ stack.length ∧
      function.Completes (function.taken arguments) stack values

/-- Bodies that agree wherever a run applies them. -/
def BodiesAgree
    (bindings : Bindings)
    (table other : FunctionTable)
    (sequence : List Token)
    (start : List Binary64) :
    Prop :=
  ∀ name values function counterpart,
    Applies bindings table sequence start name values →
    table.find? name = some function →
    other.find? name = some counterpart →
    function.body values = counterpart.body values

variable
  {bindings : Bindings}
  {table other : FunctionTable}

/-- What is applied after a step is applied in the whole run. -/
theorem Applies.cons
    {token : Token}
    {rest : List Token}
    {start following : List Binary64}
    {name : Text}
    {values : List Binary64}
    (steps : step bindings table start token = .ok following)
    (applies : Applies bindings table rest following name values) :
    Applies bindings table (token :: rest) start name values := by
  obtain ⟨before, arguments, after, stack, function, rfl, runs, found, calls⟩ := applies
  refine ⟨token :: before, arguments, after, stack, function, rfl, ?_, found, calls⟩
  rw [run_cons, steps, Outcome.ok_bind, runs]

/-- A step asks nothing of a body but what it makes of complete arguments. -/
theorem step_eq_of_bodiesAgree
    (differs : table.DiffersInBodies other)
    {token : Token}
    {rest : List Token}
    {start : List Binary64}
    (agree : BodiesAgree bindings table other (token :: rest) start) :
    step bindings table start token = step bindings other start token := by
  cases token with
  | name name arguments =>
      have signatures := differs name
      cases found : table.find? name with
      | none =>
          rw [found] at signatures
          have otherMissing : other.find? name = none :=
            Option.map_eq_none_iff.mp signatures.symm
          simp only [step, found, otherMissing]
      | some function =>
          rw [found] at signatures
          obtain ⟨counterpart, otherFound, signature⟩ :=
            Option.map_eq_some_iff.mp signatures.symm
          obtain ⟨sameArity, sameDefaults⟩ := Prod.mk.inj signature
          simp only [step, found, otherFound]
          apply Function.call_eq_of_body_eq sameArity.symm sameDefaults.symm
          intro admitted reached
          have completes :=
            Function.completes_complete admitted.1 admitted.2 reached
          have applies :
              Applies bindings table (.name name arguments :: rest) start name
                (function.operands arguments start) :=
            ⟨[], arguments, rest, start, function, rfl, rfl, found, admitted, reached, completes⟩
          exact agree name _ function counterpart applies found otherFound
  | _ =>
      rfl

theorem run_eq_of_bodiesAgree
    (differs : table.DiffersInBodies other)
    {sequence : List Token}
    {start : List Binary64}
    (agree : BodiesAgree bindings table other sequence start) :
    run bindings table sequence start = run bindings other sequence start := by
  induction sequence generalizing start with
  | nil =>
      rfl
  | cons token rest inductionHypothesis =>
      rw [run_cons, run_cons, ← step_eq_of_bodiesAgree differs agree]
      cases steps : step bindings table start token with
      | error fault =>
          rfl
      | ok following =>
          have restAgrees : BodiesAgree bindings table other rest following :=
            fun name values function counterpart applies =>
              agree name values function counterpart (applies.cons steps)
          exact inductionHypothesis restAgrees

end Machine

/-! ## Registration -/

/-- A function that has been registered has no more defaults than parameters. -/
theorem FunctionTable.exists_find?_of_register
    {table changed : FunctionTable}
    {name : Text}
    {arity : Nat}
    {defaults : List Binary64}
    {body? : Option Body}
    (registers : table.register name arity defaults body? = .ok changed) :
    defaults.length ≤ arity ∧
      ∃ function,
        changed.find? name = some function ∧
          function.arity = arity ∧
          function.defaults = defaults := by
  unfold register at registers
  split at registers
  · next identifier =>
      split at registers
      · cases registers
      · next body =>
          split at registers
          · next fits =>
              cases registers
              refine ⟨fits, ⟨arity, defaults, body, fits⟩, ?_, rfl, rfl⟩
              rw [find?_insert, if_pos rfl]
          · cases registers
  · cases registers

/-! ## Defaults that are written out -/

namespace Function

section WrittenOut

variable
  {function : Function}
  {count : Nat}
  (enough : function.required ≤ count)
  (notTooMany : count ≤ function.arity)

include enough notTooMany

/-- Arguments are completed to the same values if the missing defaults are among them. -/
theorem complete_append_missing
    {arguments : List Binary64}
    (counted : arguments.length = count) :
    function.complete (arguments ++ function.missing count) = function.complete arguments := by
  subst counted
  have parameters := function.required_add_length_defaults
  have noneLeft :
      function.defaults.drop (function.arity - function.required) = [] :=
    List.drop_eq_nil_of_le (by omega)
  rw [← complete_eq_append_missing, complete, function.length_complete enough notTooMany,
    noneLeft, List.append_nil]

/-- An admissible call that reaches below the stack is refused. -/
theorem call_of_short
    (name : Text)
    {stack : List Binary64}
    (short : stack.length < count) :
    function.call name count stack = .error (.missingArguments name) := by
  have admissible : ¬ (count < function.required ∨ function.arity < count) := by
    omega
  simp only [call, taken_natCast, if_neg admissible, if_pos short]

/-- A call with missing arguments does what the full call does on top of their defaults. -/
theorem call_append_missing
    (name : Text)
    (stack : List Binary64) :
    function.call name function.arity ((function.missing count).reverse ++ stack) =
      function.call name count stack := by
  have added := length_missing enough notTooMany
  by_cases short : stack.length < count
  · have fullShort :
        ((function.missing count).reverse ++ stack).length < function.arity := by
      rw [List.length_append, List.length_reverse]
      omega
    rw [call_of_short enough notTooMany name short,
      call_of_short (Nat.le_trans enough notTooMany) (Nat.le_refl _) name fullShort]
  · have taken : (stack.take count).reverse.length = count := by
      rw [List.length_reverse, List.length_take_of_le (Nat.le_of_not_lt short)]
    have filled :
        ((stack.take count).reverse ++ function.missing count).length = function.arity := by
      rw [List.length_append]
      omega
    have onTop :
        stack = (stack.take count).reverse.reverse ++ stack.drop count := by
      rw [List.reverse_reverse, List.take_append_drop]
    have fullOnTop :
        (function.missing count).reverse ++ stack =
          ((stack.take count).reverse ++ function.missing count).reverse ++
            stack.drop count := by
      rw [List.reverse_append, List.append_assoc, ← onTop]
    rw [fullOnTop,
      call_of_admissible function name (by rw [taken_natCast, filled]) (by omega) (by omega)]
    conv_rhs =>
      rw [onTop,
        call_of_admissible function name (by rw [taken_natCast, taken]) (by omega) (by omega)]
    simp only [apply, complete_append_missing enough notTooMany taken]

end WrittenOut

end Function

/-- Variables push their values. -/
theorem Machine.run_bareNames
    {bindings : Bindings}
    {table : FunctionTable}
    {names : List Text}
    {values : List Binary64}
    (unregistered : ∀ name ∈ names, table.find? name = none)
    (bound : names.map (fun name => bindings.find? name) = values.map some)
    (stack : List Binary64) :
    run bindings table (names.map Token.bareName) stack = .ok (values.reverse ++ stack) := by
  induction names generalizing values stack with
  | nil =>
      obtain rfl : values = [] := by
        simpa using bound.symm
      rfl
  | cons name rest inductionHypothesis =>
      cases values with
      | nil =>
          simp at bound
      | cons value later =>
          obtain ⟨valueBound, restBound⟩ := List.cons.inj bound
          have missing := unregistered name List.mem_cons_self
          have pushes :
              step bindings table stack (.bareName name) = .ok (value :: stack) := by
            simp [Token.bareName, step, missing, valueBound]
          rw [List.map_cons, run_cons, pushes, Outcome.ok_bind,
            inductionHypothesis
              (fun next member => unregistered next (List.mem_cons_of_mem name member)) restBound]
          simp

/-- A call whose arguments are variables applies its function to their values. -/
theorem evaluate_call_of_bareNames
    {bindings : Bindings}
    {table : FunctionTable}
    {formula name : Text}
    {tokens : List Token}
    {function : Function}
    {names : List Text}
    {values : List Binary64}
    (read : tokenize formula = .ok tokens)
    (converted :
      toPostfix tokens = .ok (names.map Token.bareName ++ [.name name names.length]))
    (found : table.find? name = some function)
    (enough : function.required ≤ names.length)
    (notTooMany : names.length ≤ function.arity)
    (unregistered : ∀ name ∈ names, table.find? name = none)
    (bound : names.map (fun name => bindings.find? name) = values.map some) :
    evaluate bindings table formula = (function.apply name values).mapError .evaluate := by
  have sameLength : names.length = values.length := by
    simpa using congrArg List.length bound
  have calls :=
    function.call_of_admissible name (function.taken_natCast values.length)
      (sameLength ▸ enough) (sameLength ▸ notTooMany) []
  rw [evaluate_of_toPostfix read converted, evaluatePostfix, Machine.run_append,
    Machine.run_bareNames unregistered bound, Outcome.ok_bind, Machine.run_singleton, sameLength]
  simp only [Machine.step, found, calls]
  cases function.apply name values <;> rfl

/-- A formula that can be brought into postfix order and mentions none of these names. -/
def ConvertsWithout (names : List Text) (formula : Text) : Prop :=
  ∃ tokens sequence,
    tokenize formula = .ok tokens ∧
      toPostfix tokens = .ok sequence ∧
      Mentions (· ∉ names) tokens

namespace WrittenArgument

/-- Formulas between parentheses are arguments whose blocks mention no other names. -/
theorem exists_groups
    {names arguments : List Text}
    (convert : ∀ argument ∈ arguments, ConvertsWithout names argument) :
    ∃ written : List WrittenArgument,
      written.map text = arguments.map Text.parenthesized ∧
        Mentions (· ∉ names) (blocks written) := by
  induction arguments with
  | nil =>
      exact ⟨[], rfl, .nil⟩
  | cons argument rest inductionHypothesis =>
      obtain ⟨tokens, sequence, reads, converted, avoids⟩ := convert argument List.mem_cons_self
      obtain ⟨written, sameTexts, restAvoids⟩ :=
        inductionHypothesis (fun other member => convert other (List.mem_cons_of_mem _ member))
      have blockAvoids : Mentions (· ∉ names) sequence := by
        intro name count member
        obtain ⟨original, stands⟩ := (standsIn_of_toPostfix converted _ member).exists_mem
        exact avoids name original stands
      refine ⟨group argument tokens sequence reads converted :: written, ?_, ?_⟩
      · rw [List.map_cons, List.map_cons, sameTexts]
        rfl
      · rw [blocks_cons]
        exact Mentions.append_iff.mpr ⟨blockAvoids, restAvoids⟩

/-- Identifiers are arguments that are put out as they are. -/
theorem exists_bareNames
    {names : List Text}
    (identifiers : ∀ name ∈ names, isIdentifier name = true) :
    ∃ written : List WrittenArgument,
      written.map text = names ∧ blocks written = names.map Token.bareName := by
  induction names with
  | nil =>
      exact ⟨[], rfl, rfl⟩
  | cons name rest inductionHypothesis =>
      obtain ⟨written, sameTexts, sameBlocks⟩ :=
        inductionHypothesis (fun other member => identifiers other (List.mem_cons_of_mem _ member))
      refine ⟨bareName name (identifiers name List.mem_cons_self) :: written, ?_, ?_⟩
      · rw [List.map_cons, sameTexts]
        rfl
      · rw [blocks_cons, sameBlocks]
        rfl

end WrittenArgument

/--
Variables that stand for the arguments that a call leaves over: they have no
functions, and their values are the defaults of those arguments, in order. No
other name has another value.
-/
structure StandForMissing
    (bindings others : Bindings)
    (table : FunctionTable)
    (function : Function)
    (count : Nat)
    (names : List Text) :
    Prop where
  identifiers :
    ∀ name ∈ names, isIdentifier name = true
  unregistered :
    ∀ name ∈ names, table.contains name = false
  bound :
    names.map (fun name => others.find? name) =
      (function.defaults.drop
        (function.defaults.length - (function.arity - count))).map some
  elsewhere :
    ∀ name, name ∉ names → bindings.find? name = others.find? name

section Calls

variable
  {bindings others : Bindings}
  {table : FunctionTable}
  {function : Function}
  {name : Text}
  {count : Nat}
  {names : List Text}
  (found : table.find? name = some function)
  (stand : StandForMissing bindings others table function count names)
  {arguments : List Token}
  (avoids : Mentions (· ∉ names) arguments)

include found stand avoids

/-- The arguments, the variables and the name of the call are checked as the short call is. -/
theorem forM_resolve_writtenOut :
    (arguments ++ [Token.name name count]).forM (resolve bindings table) =
      (arguments ++ names.map Token.bareName ++ [Token.name name function.arity]).forM
        (resolve others table) := by
  have argumentsAgree : Agree bindings others table table arguments :=
    .of_values fun text _ member _ => stand.elsewhere text (avoids text _ member)
  have registered (values : Bindings) (written : Int) :
      ¬ Unresolved values table (.name name written) := by
    rintro ⟨text, _, same, unregistered, -⟩
    cases same
    simp [FunctionTable.contains, found] at unregistered
  have bound : ∀ token ∈ names.map Token.bareName, ¬ Unresolved others table token := by
    intro token member unresolved
    obtain ⟨variableName, isVariable, rfl⟩ := List.mem_map.mp member
    obtain ⟨text, _, same, -, called | unbound⟩ := unresolved
    · cases same
      omega
    · cases same
      have hasValue :
          others.find? variableName ∈ names.map (fun name => others.find? name) :=
        List.mem_map_of_mem isVariable
      rw [stand.bound] at hasValue
      obtain ⟨value, -, isBound⟩ := List.mem_map.mp hasValue
      simp [Dictionary.contains, ← isBound] at unbound
  have shortPasses : [Token.name name count].forM (resolve bindings table) = .ok () :=
    forM_resolve_eq_ok (by simpa using registered bindings count)
  have fullPasses :
      (names.map Token.bareName ++ [Token.name name function.arity]).forM (resolve others table) =
        .ok () := by
    apply forM_resolve_eq_ok
    intro token member
    rcases List.mem_append.mp member with isVariable | isCall
    · exact bound token isVariable
    · rw [List.mem_singleton.mp isCall]
      exact registered others function.arity
  rw [List.append_assoc, forM_resolve_append, forM_resolve_append, argumentsAgree.forM_resolve_eq,
    shortPasses, fullPasses]

/-- The arguments, the variables and the name of the call come to what the short call does. -/
theorem run_writtenOut
    (enough : function.required ≤ count)
    (notTooMany : count ≤ function.arity)
    (stack : List Binary64) :
    Machine.run bindings table (arguments ++ [.name name count]) stack =
      Machine.run others table
        (arguments ++ names.map Token.bareName ++ [.name name function.arity]) stack := by
  have argumentsAgree : Agree bindings others table table arguments :=
    .of_values fun text _ member _ => stand.elsewhere text (avoids text _ member)
  have unregistered : ∀ name ∈ names, table.find? name = none := by
    intro variableName member
    simpa [FunctionTable.contains] using stand.unregistered variableName member
  have bound := stand.bound
  rw [← Function.missing_eq_drop enough notTooMany] at bound
  rw [List.append_assoc, Machine.run_append, Machine.run_append, argumentsAgree.run_eq]
  cases Machine.run others table arguments stack with
  | error fault =>
      rfl
  | ok following =>
      simp only [Outcome.ok_bind]
      rw [Machine.run_append, Machine.run_bareNames unregistered bound following,
        Outcome.ok_bind, Machine.run_singleton, Machine.run_singleton]
      simp only [Machine.step, found,
        Function.call_append_missing enough notTooMany name following]

end Calls

/--
A call with missing arguments has the outcome of the full call in which
variables that stand for their defaults are written out.
-/
theorem evaluate_call_eq_writtenOut
    {bindings others : Bindings}
    {table : FunctionTable}
    {function : Function}
    {name : Text}
    {arguments names : List Text}
    (found : table.find? name = some function)
    (enough : function.required ≤ arguments.length)
    (notTooMany : arguments.length ≤ function.arity)
    (convert : ∀ argument ∈ arguments, ConvertsWithout names argument)
    (stand : StandForMissing bindings others table function arguments.length names)
    (strict : Bool) :
    Evaluator.evaluate { functions := table, strict := strict } bindings
        (Text.call name (arguments.map Text.parenthesized)) =
      Evaluator.evaluate { functions := table, strict := strict } others
        (Text.call name (arguments.map Text.parenthesized ++ names)) := by
  obtain ⟨groups, groupTexts, avoids⟩ := WrittenArgument.exists_groups convert
  obtain ⟨standIns, standInTexts, standInBlocks⟩ :=
    WrittenArgument.exists_bareNames stand.identifiers
  have registered : (table.find? name).isSome = true := by
    rw [found]
    rfl
  have identifier : isIdentifier name = true :=
    table.named name registered
  have groupsCounted : groups.length = arguments.length := by
    simpa using congrArg List.length groupTexts
  have filled : (groups ++ standIns).length = function.arity := by
    have parameters := function.required_add_length_defaults
    have namesCounted := congrArg List.length stand.bound
    have standInsCounted := congrArg List.length standInTexts
    simp only [List.length_map, List.length_drop] at namesCounted standInsCounted
    rw [List.length_append]
    omega
  have read := tokenize_textCall identifier groups
  have fullRead := tokenize_textCall identifier (groups ++ standIns)
  have converted := toPostfix_textCall name groups
  have fullConverted := toPostfix_textCall name (groups ++ standIns)
  rw [groupTexts] at read
  rw [List.map_append, groupTexts, standInTexts] at fullRead
  rw [groupsCounted] at converted
  rw [filled, WrittenArgument.blocks_append, standInBlocks] at fullConverted
  apply evaluate_eq_of_sequences read converted fullRead fullConverted
  · exact forM_resolve_writtenOut found stand avoids
  · rw [evaluatePostfix, run_writtenOut found stand avoids enough notTooMany, evaluatePostfix]

/-! ## All calls -/

/--
How functions are called. Their signatures add up, whatever has been registered;
each call applies the body to complete arguments or refuses to apply it, and
nothing else about bodies matters; and arguments that are missing are as good as
variables with the values of their defaults.
-/
structure CompletesCalls (bindings : Bindings) (table : FunctionTable) : Prop where
  signature :
    ∀ name function,
      table.find? name = some function →
      function.required + function.defaults.length = function.arity
  registered :
    ∀ name arity defaults body? changed,
      table.register name arity defaults body? = .ok changed →
      defaults.length ≤ arity ∧
        ∃ function,
          changed.find? name = some function ∧
            function.arity = arity ∧
            function.defaults = defaults
  call :
    ∀ before name (arguments : Int) function stack,
      Machine.run bindings table before [] = .ok stack →
      table.find? name = some function →
      ∃ count : Nat,
        (arguments < 0 → count = function.arity) ∧
          (0 ≤ arguments → count = arguments) ∧
          function.Called name count stack
            (Machine.run bindings table (before ++ [.name name arguments]) [])
  asks :
    ∀ sequence other,
      table.DiffersInBodies other →
      Machine.BodiesAgree bindings table other sequence [] →
      evaluatePostfix bindings table sequence = evaluatePostfix bindings other sequence
  writtenOut :
    ∀ others name function (arguments names : List Text),
      table.find? name = some function →
      function.required ≤ arguments.length →
      arguments.length ≤ function.arity →
      (∀ argument ∈ arguments, ConvertsWithout names argument) →
      StandForMissing bindings others table function arguments.length names →
      ∀ strict,
        Evaluator.evaluate { functions := table, strict := strict } bindings
            (Text.call name (arguments.map Text.parenthesized)) =
          Evaluator.evaluate { functions := table, strict := strict } others
            (Text.call name (arguments.map Text.parenthesized ++ names))

/-- With any functions and any values of variables, bodies get all of their arguments. -/
theorem evaluation_completesCalls
    (bindings : Bindings)
    (table : FunctionTable) :
    CompletesCalls bindings table where
  signature := fun _ function _ => function.required_add_length_defaults
  registered := fun _ _ _ _ _ registers => FunctionTable.exists_find?_of_register registers
  call := by
    intro before name arguments function stack runs found
    refine ⟨function.taken arguments, ?_, ?_, ?_⟩
    · intro bare
      rw [Function.taken, if_pos bare]
    · intro called
      rw [Function.taken, if_neg (Int.not_lt.mpr called), Int.toNat_of_nonneg called]
    · have calls := function.called_call name arguments stack
      rw [Machine.run_append, runs, Outcome.ok_bind, Machine.run_singleton]
      simpa only [Machine.step, found] using calls
  asks := by
    intro sequence other differs agree
    rw [evaluatePostfix, evaluatePostfix, Machine.run_eq_of_bodiesAgree differs agree]
  writtenOut := fun _ _ _ _ _ found enough notTooMany convert stand strict =>
    evaluate_call_eq_writtenOut found enough notTooMany convert stand strict

/-- `f((x))` leaves out the second argument of `f`, for which `d` stands in `f((x),d)`. -/
theorem evaluate_call_with_standIn :
    let f := Text.ofString "f"
    let x := Text.ofString "x"
    let d := Text.ofString "d"
    let second : Function := {
      arity := 2
      defaults := [.zero]
      body := fun arguments => .ok (arguments.getD 1 .nan)
      defaults_le := by decide
    }
    let bindings := Dictionary.ofList [(x, .infinity true)]
    let others := bindings.insert d .zero
    let table := FunctionTable.empty.insert f (by decide) second
    ConvertsWithout [d] x ∧
      StandForMissing bindings others table second 1 [d] ∧
      Evaluator.evaluate { functions := table, strict := true } bindings
          (Text.ofString "f((x))") =
        Evaluator.evaluate { functions := table, strict := true } others
          (Text.ofString "f((x),d)") := by
  intro f x d second bindings others table
  have converts : ConvertsWithout [d] x := by
    refine ⟨[.bareName x], [.bareName x], tokenize_of_isIdentifier (by decide), rfl, ?_⟩
    exact Mentions.name_iff.mpr (by decide)
  have stand : StandForMissing bindings others table second 1 [d] := {
    identifiers := by decide
    unregistered := by decide
    bound := rfl
    elsewhere := by
      intro name isOther
      rw [Dictionary.find?_insert, if_neg (by simpa using isOther)]
  }
  refine ⟨converts, stand, ?_⟩
  exact (evaluation_completesCalls bindings table).writtenOut others f second [x] [d] rfl
    (by decide) (by decide) (by simpa using converts) stand true

end Reckoner
