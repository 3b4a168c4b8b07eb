/-!
# Outcomes of computations that may fail

A computation in `Except` goes on after a result and stops at a fault.
-/

namespace Reckoner

namespace Outcome

variable
  {ε α β : Type}

@[simp] theorem ok_bind
    (result : α)
    (following : α → Except ε β) :
    Except.ok result >>= following = following result :=
  rfl

@[simp] theorem error_bind
    (fault : ε)
    (following : α → Except ε β) :
    Except.error fault >>= following = .error fault :=
  rfl

@[simp] theorem map_ok
    (change : α → β)
    (result : α) :
    (Except.ok result : Except ε α).map change = .ok (change result) :=
  rfl

@[simp] theorem map_error
    (change : α → β)
    (fault : ε) :
    (Except.error fault : Except ε α).map change = .error fault :=
  rfl

@[simp] theorem mapError_ok
    {ε' : Type}
    (change : ε → ε')
    (result : α) :
    (Except.ok result).mapError change = .ok result :=
  rfl

@[simp] theorem mapError_error
    {ε' : Type}
    (change : ε → ε')
    (fault : ε) :
    (Except.error fault : Except ε α).mapError change = .error (change fault) :=
  rfl

/-- A sequence of two computations succeeds only if both do. -/
theorem bind_eq_ok_iff
    {first : Except ε α}
    {following : α → Except ε β}
    {result : β} :
    first >>= following = .ok result ↔
      ∃ middle, first = .ok middle ∧ following middle = .ok result := by
  cases first with
  | error fault =>
      simp
  | ok middle =>
      simp

/-- Computations for the elements of a list succeed only if each of them does. -/
theorem mapM_cons_eq_ok_iff
    {compute : α → Except ε β}
    {element : α}
    {rest : List α}
    {results : List β} :
    (element :: rest).mapM compute = .ok results ↔
      ∃ first later,
        compute element = .ok first ∧
          rest.mapM compute = .ok later ∧
          first :: later = results := by
  rw [List.mapM_cons, bind_eq_ok_iff]
  constructor
  · rintro ⟨first, computed, continues⟩
    obtain ⟨later, restComputed, ends⟩ := bind_eq_ok_iff.mp continues
    cases ends
    exact ⟨first, later, computed, restComputed, rfl⟩
  · rintro ⟨first, later, computed, restComputed, rfl⟩
    exact ⟨first, computed, bind_eq_ok_iff.mpr ⟨later, restComputed, rfl⟩⟩

/-- Changing the result keeps every fault. -/
theorem map_eq_error_iff
    {change : α → β}
    {outcome : Except ε α}
    {fault : ε} :
    outcome.map change = .error fault ↔ outcome = .error fault := by
  cases outcome with
  | error cause =>
      simp
  | ok result =>
      simp

theorem map_eq_ok_iff
    {change : α → β}
    {outcome : Except ε α}
    {changed : β} :
    outcome.map change = .ok changed ↔
      ∃ result, outcome = .ok result ∧ change result = changed := by
  cases outcome with
  | error cause =>
      simp
  | ok result =>
      simp

/-- Changing the fault and changing the result do not disturb each other. -/
theorem map_mapError
    {ε' : Type}
    (changeFault : ε → ε')
    (change : α → β)
    (outcome : Except ε α) :
    (outcome.mapError changeFault).map change =
      (outcome.map change).mapError changeFault := by
  cases outcome <;> rfl

/-- An element in front of the first of two lists is in front of both. -/
theorem map_bind_append
    (element : α)
    (first second : Except ε (List α)) :
    (first >>= fun left => second >>= fun right => .ok (left ++ right)).map (element :: ·) =
      first.map (element :: ·) >>= fun left =>
        second >>= fun right => .ok (left ++ right) := by
  cases first with
  | error fault =>
      rfl
  | ok left =>
      cases second <;> rfl

end Outcome

end Reckoner
