import Mathlib.Data.List.Dedup
import Reckoner.Session
import Reckoner.Proofs.Outcome

/-!
# What a session leaves in its tables

Beside every table of a session runs a list of what has been written to it, the
latest write first. A registration that is accepted writes its own table, a copy
takes over all writes of the table it copies, and nothing else writes anything.
After any commands a table gives every name its latest write, and it has as many
functions as there are names written to it.
-/

namespace Reckoner

/-! ## Tables and writes -/

/-- Functions written to a table under their names, the latest write first. -/
abbrev Writes := List (Text × Function)

namespace FunctionTable

/-- A table in which every name has the function that was written to it last. -/
def Holds (table : FunctionTable) (writes : Writes) : Prop :=
  ∀ name, table.find? name = writes.lookup name

theorem holds_empty :
    empty.Holds [] :=
  fun _ => rfl

/-- A table holds its own entries. -/
theorem holds_entries
    (table : FunctionTable) :
    table.Holds table.functions.entries :=
  fun _ => rfl

namespace Holds

variable
  {table : FunctionTable}
  {writes : Writes}

theorem insert
    (holds : table.Holds writes)
    {name : Text}
    (identifier : isIdentifier name = true)
    (function : Function) :
    (table.insert name identifier function).Holds ((name, function) :: writes) := by
  intro other
  rw [find?_insert, List.lookup_cons]
  by_cases same : other = name
  · simp [same]
  · have unequal : (other == name) = false := by
      simpa using same
    rw [if_neg same, unequal, holds other]

/-- A table has as many functions as there are names written to it. -/
theorem size_eq
    (holds : table.Holds writes) :
    table.size = (writes.map Prod.fst).dedup.length := by
  have sameNames :
      ∀ name,
        name ∈ table.functions.entries.map Prod.fst ↔
          name ∈ (writes.map Prod.fst).dedup := by
    intro name
    have found : (table.functions.entries.lookup name).isSome = (writes.lookup name).isSome :=
      congrArg Option.isSome (holds name)
    rw [Bool.eq_iff_iff, List.lookup_isSome_iff, List.lookup_isSome_iff] at found
    simpa [List.mem_dedup, List.mem_map, beq_iff_eq, @eq_comm _ name] using found
  have rearranged :=
    (List.perm_ext_iff_of_nodup table.functions.distinct (List.nodup_dedup _)).mpr sameNames
  have counted := rearranged.length_eq
  rw [List.length_map] at counted
  exact counted

end Holds

end FunctionTable

/-! ## Registrations -/

/-- What a registration writes; nothing if it has to be refused. -/
def written?
    (name : Text)
    (arity : Nat)
    (defaults : List Binary64)
    (body? : Option Body) :
    Option (Text × Function) :=
  body?.bind fun body =>
    if admissible : isIdentifier name = true ∧ defaults.length ≤ arity then
      some (name, {
        arity := arity
        defaults := defaults
        body := body
        defaults_le := admissible.2
      })
    else
      none

section Registration

variable
  {name : Text}
  {arity : Nat}
  {defaults : List Binary64}
  {body? : Option Body}

/-- A registration is refused for its name, for want of a body, or for its defaults. -/
theorem written?_eq_none_iff :
    written? name arity defaults body? = none ↔
      isIdentifier name = false ∨ body? = none ∨ arity < defaults.length := by
  cases body? with
  | none =>
      simp [written?]
  | some body =>
      cases identifier : isIdentifier name <;> simp [written?, identifier]

variable
  {table : FunctionTable}

/-- Registering adds the entry of a registration to a table, or fails if there is none. -/
theorem FunctionTable.register_holds
    {writes : Writes}
    (holds : table.Holds writes)
    (name : Text)
    (arity : Nat)
    (defaults : List Binary64)
    (body? : Option Body) :
    match written? name arity defaults body? with
    | some entry =>
        ∃ changed,
          table.register name arity defaults body? = .ok changed ∧
            changed.Holds (entry :: writes)
    | none => ∃ fault, table.register name arity defaults body? = .error fault := by
  unfold register written?
  by_cases identifier : isIdentifier name = true
  · cases body? with
    | none =>
        simp [identifier]
    | some body =>
        by_cases fewDefaults : defaults.length ≤ arity
        · simp [identifier, fewDefaults, holds.insert identifier]
        · simp [identifier, fewDefaults]
  · cases body? <;> simp [identifier]

end Registration

/-! ## Built-in functions -/

namespace Builtin

/-- What putting the built-in functions into a table writes. -/
def writes : Writes :=
  (all.map fun builtin => (builtin.name, builtin.function)).reverse

theorem holds_foldl_insert
    {table : FunctionTable}
    {earlier : Writes}
    (holds : table.Holds earlier)
    (builtins : List NamedFunction) :
    (builtins.foldl
        (fun table builtin => table.insert builtin.name builtin.identifier builtin.function)
        table).Holds
      ((builtins.map fun builtin => (builtin.name, builtin.function)).reverse ++ earlier) := by
  induction builtins generalizing table earlier with
  | nil =>
      exact holds
  | cons builtin rest inductionHypothesis =>
      simpa using inductionHypothesis (holds.insert builtin.identifier builtin.function)

theorem holds_addTo
    {table : FunctionTable}
    {earlier : Writes}
    (holds : table.Holds earlier) :
    (addTo table).Holds (writes ++ earlier) :=
  holds_foldl_insert holds all

theorem holds_table :
    table.Holds writes := by
  have holds := holds_addTo FunctionTable.holds_empty
  rw [List.append_nil] at holds
  exact holds

end Builtin

/-! ## Commands -/

namespace Session

/-- The writes of every table that a session can read. -/
abbrev History := Source → Writes

namespace History

/-- The writes before the first command. -/
def start : History
  | .owned .registry => []
  | .owned .evaluator => Builtin.writes
  | .builtin => Builtin.writes

/-- Replace the writes of one table. -/
def set (owner : Owner) (writes : Writes) (history : History) : History :=
  fun source => if source = .owned owner then writes else history source

/-- The writes after one more command. -/
def after (history : History) : Command → History
  | .register owner name arity defaults body? =>
      match written? name arity defaults body? with
      | some entry => history.set owner (entry :: history (.owned owner))
      | none => history
  | .registerBuiltins =>
      history.set .registry (Builtin.writes ++ history (.owned .registry))
  | .freshEvaluator => history.set .evaluator Builtin.writes
  | .evaluatorOf source _ => history.set .evaluator (history source)
  | .copyBack => history.set .registry (history (.owned .evaluator))
  | .size _ => history
  | .find _ _ => history
  | .evaluate _ _ _ => history

/-- The writes after a list of commands. -/
def ofCommands (commands : List Command) : History :=
  commands.foldl after start

end History

/-- A session with another table in the place of one of its own. -/
def withTable (session : Session) (owner : Owner) (table : FunctionTable) : Session :=
  match owner with
  | .registry => { session with registry := table }
  | .evaluator => { session with evaluator := { session.evaluator with functions := table } }

/-- Registering with a session is registering in one of its tables. -/
theorem register_eq_map_withTable
    (session : Session)
    (owner : Owner)
    (name : Text)
    (arity : Nat)
    (defaults : List Binary64)
    (body? : Option Body) :
    session.register owner name arity defaults body? =
      ((session.table (.owned owner)).register name arity defaults body?).map
        (session.withTable owner) := by
  cases owner with
  | registry =>
      simp only [register, table]
      cases session.registry.register name arity defaults body? <;> rfl
  | evaluator =>
      simp only [register, Evaluator.register, table]
      cases session.evaluator.functions.register name arity defaults body? <;> rfl

/-- A registration is refused and changes nothing, or it adds its entry to its table. -/
theorem perform_register_eq
    (session : Session)
    {owner : Owner}
    {writes : Writes}
    (holds : (session.table (.owned owner)).Holds writes)
    (name : Text)
    (arity : Nat)
    (defaults : List Binary64)
    (body? : Option Body) :
    match written? name arity defaults body? with
    | some entry =>
        ∃ table,
          session.perform (.register owner name arity defaults body?) =
              (.size ((session.withTable owner table).table (.owned owner)).size,
                session.withTable owner table) ∧
            table.Holds (entry :: writes)
    | none =>
        ∃ fault,
          session.perform (.register owner name arity defaults body?) =
            (.refused fault, session) := by
  have registers := FunctionTable.register_holds holds name arity defaults body?
  rw [perform, register_eq_map_withTable]
  cases accepted : written? name arity defaults body? with
  | none =>
      rw [accepted] at registers
      obtain ⟨fault, refused⟩ := registers
      rw [refused]
      exact ⟨fault, rfl⟩
  | some entry =>
      rw [accepted] at registers
      obtain ⟨table, registers, holds⟩ := registers
      rw [registers]
      exact ⟨table, rfl, holds⟩

/-- A session in which every table gives each name its latest write. -/
def Follows (session : Session) (history : History) : Prop :=
  ∀ source, (session.table source).Holds (history source)

theorem follows_start :
    start.Follows History.start := by
  intro source
  match source with
  | .owned .registry => exact FunctionTable.holds_empty
  | .owned .evaluator => exact Builtin.holds_table
  | .builtin => exact Builtin.holds_table

namespace Follows

variable
  {session : Session}
  {history : History}

theorem withEvaluator
    (follows : session.Follows history)
    (evaluator : Evaluator)
    {writes : Writes}
    (holds : evaluator.functions.Holds writes) :
    Follows { session with evaluator := evaluator } (history.set .evaluator writes) := by
  intro source
  match source with
  | .owned .registry => exact follows (.owned .registry)
  | .owned .evaluator => exact holds
  | .builtin => exact follows .builtin

theorem withTable
    (follows : session.Follows history)
    (owner : Owner)
    {table : FunctionTable}
    {writes : Writes}
    (holds : table.Holds writes) :
    (session.withTable owner table).Follows (history.set owner writes) := by
  intro source
  match owner, source with
  | .registry, .owned .registry => exact holds
  | .registry, .owned .evaluator => exact follows (.owned .evaluator)
  | .registry, .builtin => exact follows .builtin
  | .evaluator, source => exact follows.withEvaluator _ holds source

/-- A registration that is accepted writes one table; another one changes nothing. -/
theorem perform_register
    (follows : session.Follows history)
    (owner : Owner)
    (name : Text)
    (arity : Nat)
    (defaults : List Binary64)
    (body? : Option Body) :
    (session.perform (.register owner name arity defaults body?)).2.Follows
      (history.after (.register owner name arity defaults body?)) := by
  have registers :=
    session.perform_register_eq (follows (.owned owner)) name arity defaults body?
  rw [History.after]
  cases accepted : written? name arity defaults body? with
  | none =>
      rw [accepted] at registers
      obtain ⟨fault, refused⟩ := registers
      rw [refused]
      exact follows
  | some entry =>
      rw [accepted] at registers
      obtain ⟨table, registers, holds⟩ := registers
      rw [registers]
      exact follows.withTable owner holds

/-- Every command leaves in the tables what it adds to their writes. -/
theorem perform
    (follows : session.Follows history)
    (command : Command) :
    (session.perform command).2.Follows (history.after command) := by
  cases command with
  | register owner name arity defaults body? =>
      exact follows.perform_register owner name arity defaults body?
  | registerBuiltins =>
      exact follows.withTable .registry (Builtin.holds_addTo (follows (.owned .registry)))
  | freshEvaluator =>
      exact follows.withEvaluator plainEvaluator Builtin.holds_table
  | evaluatorOf source strict =>
      exact follows.withEvaluator _ (follows source)
  | copyBack =>
      exact follows.withTable .registry (follows (.owned .evaluator))
  | size source =>
      exact follows
  | find source name =>
      exact follows
  | evaluate source bindings formula =>
      rw [Session.perform]
      split <;> exact follows

/-- After any commands the tables hold what the commands have written. -/
theorem performAll
    (follows : session.Follows history)
    (commands : List Command) :
    (session.performAll commands).2.Follows (commands.foldl History.after history) := by
  induction commands generalizing session history with
  | nil =>
      exact follows
  | cons command rest inductionHypothesis =>
      exact inductionHypothesis (follows.perform command)

end Follows

/-! ## What a command leaves alone -/

/-- The table that a command can write. -/
def Command.target? : Command → Option Owner
  | .register owner _ _ _ _ => some owner
  | .registerBuiltins => some .registry
  | .freshEvaluator => some .evaluator
  | .evaluatorOf _ _ => some .evaluator
  | .copyBack => some .registry
  | .size _ => none
  | .find _ _ => none
  | .evaluate _ _ _ => none

/-- How the evaluator that a command puts in place treats names. -/
def Command.strict? : Command → Option Bool
  | .freshEvaluator => some false
  | .evaluatorOf _ strict => some strict
  | _ => none

/-- An answer that tells of a failure. -/
def Answer.isFailure : Answer → Bool
  | .refused _ => true
  | .failed _ => true
  | _ => false

section Register

variable
  (session : Session)
  (owner : Owner)
  (name : Text)
  (arity : Nat)
  (defaults : List Binary64)
  (body? : Option Body)

/-- A registration is refused and changes nothing, or it replaces one table. -/
theorem perform_register_cases :
    (written? name arity defaults body? = none ∧
        ∃ fault,
          session.perform (.register owner name arity defaults body?) =
            (.refused fault, session)) ∨
      ∃ entry size table,
        written? name arity defaults body? = some entry ∧
          session.perform (.register owner name arity defaults body?) =
            (.size size, session.withTable owner table) := by
  have registers :=
    session.perform_register_eq (session.table (.owned owner)).holds_entries name arity
      defaults body?
  cases accepted : written? name arity defaults body? with
  | none =>
      rw [accepted] at registers
      exact .inl ⟨rfl, registers⟩
  | some entry =>
      rw [accepted] at registers
      obtain ⟨table, registers, -⟩ := registers
      exact .inr ⟨entry, _, table, rfl, registers⟩

/-- Only the registrations without an entry are refused. -/
theorem perform_register_refused_iff :
    (∃ fault,
        (session.perform (.register owner name arity defaults body?)).1 = .refused fault) ↔
      isIdentifier name = false ∨ body? = none ∨ arity < defaults.length := by
  rw [← written?_eq_none_iff]
  rcases session.perform_register_cases owner name arity defaults body? with
    ⟨noEntry, fault, refused⟩ | ⟨entry, size, table, accepted, registers⟩
  · simp [refused, noEntry]
  · simp [registers, accepted]

end Register

theorem perform_evaluate_snd
    (session : Session)
    (source : Source)
    (bindings : Bindings)
    (formula : Text) :
    (session.perform (.evaluate source bindings formula)).2 = session := by
  rw [perform]
  split <;> rfl

/-- A command leaves the session as it was, or it replaces what it writes and nothing else. -/
theorem perform_snd_cases
    (session : Session)
    (command : Command) :
    (session.perform command).2 = session ∨
      (∃ registry,
        command.target? = some .registry ∧
          (session.perform command).2 = { session with registry := registry }) ∨
      ∃ evaluator,
        command.target? = some .evaluator ∧
          (session.perform command).2 = { session with evaluator := evaluator } := by
  cases command with
  | register owner name arity defaults body? =>
      rcases session.perform_register_cases owner name arity defaults body? with
        ⟨-, fault, refused⟩ | ⟨entry, size, table, -, registers⟩
      · rw [refused]
        exact .inl rfl
      · rw [registers]
        cases owner with
        | registry =>
            exact .inr (.inl ⟨_, rfl, rfl⟩)
        | evaluator =>
            exact .inr (.inr ⟨_, rfl, rfl⟩)
  | registerBuiltins =>
      exact .inr (.inl ⟨_, rfl, rfl⟩)
  | copyBack =>
      exact .inr (.inl ⟨_, rfl, rfl⟩)
  | freshEvaluator =>
      exact .inr (.inr ⟨_, rfl, rfl⟩)
  | evaluatorOf source strict =>
      exact .inr (.inr ⟨_, rfl, rfl⟩)
  | size source =>
      exact .inl rfl
  | find source name =>
      exact .inl rfl
  | evaluate source bindings formula =>
      exact .inl (session.perform_evaluate_snd source bindings formula)

section Frame

variable
  {session : Session}
  {command : Command}

theorem perform_registry
    (elsewhere : command.target? ≠ some .registry) :
    (session.perform command).2.registry = session.registry := by
  rcases session.perform_snd_cases command with
    same | ⟨_, targets, -⟩ | ⟨_, -, changes⟩
  · rw [same]
  · exact absurd targets elsewhere
  · rw [changes]

theorem perform_evaluator
    (elsewhere : command.target? ≠ some .evaluator) :
    (session.perform command).2.evaluator = session.evaluator := by
  rcases session.perform_snd_cases command with
    same | ⟨_, -, changes⟩ | ⟨_, targets, -⟩
  · rw [same]
  · rw [changes]
  · exact absurd targets elsewhere

/-- Looking up and evaluating change nothing. -/
theorem perform_of_target?_eq_none
    (looks : command.target? = none) :
    (session.perform command).2 = session := by
  rcases session.perform_snd_cases command with
    same | ⟨_, targets, -⟩ | ⟨_, targets, -⟩
  · exact same
  · rw [looks] at targets
    cases targets
  · rw [looks] at targets
    cases targets

/-- A command that fails changes nothing. -/
theorem perform_of_isFailure
    (fails : (session.perform command).1.isFailure = true) :
    (session.perform command).2 = session := by
  cases command with
  | register owner name arity defaults body? =>
      rcases session.perform_register_cases owner name arity defaults body? with
        ⟨-, fault, refused⟩ | ⟨entry, size, table, -, registers⟩
      · rw [refused]
      · rw [registers] at fails
        cases fails
  | evaluate source bindings formula =>
      exact session.perform_evaluate_snd source bindings formula
  | _ =>
      cases fails

/-- Only a new evaluator changes how names are treated. -/
theorem perform_strict :
    (session.perform command).2.evaluator.strict =
      command.strict?.getD session.evaluator.strict := by
  cases command with
  | register owner name arity defaults body? =>
      rcases session.perform_register_cases owner name arity defaults body? with
        ⟨-, fault, refused⟩ | ⟨entry, size, table, -, registers⟩
      · rw [refused]
        rfl
      · rw [registers]
        cases owner <;> rfl
  | evaluate source bindings formula =>
      rw [perform_evaluate_snd]
      rfl
  | _ =>
      rfl

end Frame

/--
What a command may change: nothing when it fails, nothing when it only looks
something up or evaluates, and otherwise the one table that it writes. A
registration is refused exactly for its name, for want of a body, or for its
defaults.
-/
structure ChangesOnlyTarget (session : Session) (command : Command) : Prop where
  refused :
    ∀ owner name arity defaults body?,
      command = .register owner name arity defaults body? →
      ((∃ fault, (session.perform command).1 = .refused fault) ↔
        isIdentifier name = false ∨ body? = none ∨ arity < defaults.length)
  failed : (session.perform command).1.isFailure = true → (session.perform command).2 = session
  looked : command.target? = none → (session.perform command).2 = session
  registry :
    command.target? ≠ some .registry → (session.perform command).2.registry = session.registry
  evaluator :
    command.target? ≠ some .evaluator →
    (session.perform command).2.evaluator = session.evaluator
  strict :
    (session.perform command).2.evaluator.strict =
      command.strict?.getD session.evaluator.strict

theorem perform_changesOnlyTarget
    (session : Session)
    (command : Command) :
    session.ChangesOnlyTarget command where
  refused := by
    rintro owner name arity defaults body? rfl
    exact session.perform_register_refused_iff owner name arity defaults body?
  failed := perform_of_isFailure
  looked := perform_of_target?_eq_none
  registry := perform_registry
  evaluator := perform_evaluator
  strict := perform_strict

/-! ## Whole sessions -/

/-- The names of the built-in functions. -/
def builtinNames : List Text :=
  ["sqrt", "abs", "round", "floor", "ceil", "sin", "cos", "tan", "log", "exp", "pmt",
    "fv"].map Text.ofString

/--
What a session holds after some commands. Every table is the finite map of its
writes, in which the latest write of a name counts, and the table of built-in
functions has the twelve functions it always has.
-/
structure Replays (commands : List Command) (session : Session) : Prop where
  found :
    ∀ source name,
      (session.table source).find? name = (History.ofCommands commands source).lookup name
  counted :
    ∀ source,
      (session.table source).size =
        ((History.ofCommands commands source).map Prod.fst).dedup.length
  admissible :
    ∀ source name function,
      (session.table source).find? name = some function →
      isIdentifier name = true ∧ function.defaults.length ≤ function.arity
  builtin :
    session.table .builtin = Builtin.table ∧
      (session.table .builtin).size = 12 ∧
      ∀ name, (session.table .builtin).contains name = true ↔ name ∈ builtinNames

/-- The table of built-in functions has exactly their names. -/
theorem contains_table_builtin_iff
    (name : Text) :
    Builtin.table.contains name = true ↔ name ∈ builtinNames := by
  have names : Builtin.writes.map Prod.fst = builtinNames.reverse :=
    rfl
  rw [FunctionTable.contains, Builtin.holds_table name, List.lookup_isSome_iff,
    ← List.mem_reverse, ← names]
  simp [@eq_comm _ name]

theorem performAll_start_replays
    (commands : List Command) :
    Replays commands (start.performAll commands).2 := by
  have follows : (start.performAll commands).2.Follows (History.ofCommands commands) :=
    follows_start.performAll commands
  exact {
    found := follows
    counted := fun source => (follows source).size_eq
    admissible := by
      intro source name function found
      have contained : ((start.performAll commands).2.table source).contains name = true := by
        rw [FunctionTable.contains, found]
        rfl
      exact ⟨((start.performAll commands).2.table source).named name contained,
        function.defaults_le⟩
    builtin := ⟨rfl, rfl, contains_table_builtin_iff⟩
  }

/--
A session replays its commands: its tables hold what was written to them, and
each command changes at most the table that it writes.
-/
theorem tables_replay_commands :
    (∀ commands, Replays commands (start.performAll commands).2) ∧
      ∀ session command, ChangesOnlyTarget session command :=
  ⟨performAll_start_replays, perform_changesOnlyTarget⟩

end Session

end Reckoner
