import JobStaging.Lookup
import JobStaging.Proofs.Lists

/-!
# Chains of steps that may fail

What the success of a chain says about its links: a chain succeeds exactly when each of its steps
does, one after the other. Proofs about staging open every chain through the lemmas below, so that
they follow the order in which the steps are written and never look at how failing is passed on.
-/

set_option autoImplicit false

namespace JobStaging.Fallible

variable {ε ε' α β : Type}

/-- Two steps succeed when the first does and the second does with its result. -/
theorem bind_eq_ok_iff {step : Except ε α} {next : α → Except ε β} {b : β} :
    (step >>= next) = .ok b ↔ ∃ a, step = .ok a ∧ next a = .ok b := by
  cases step <;> simp [bind, Except.bind]

/-- Two steps fail when the first does, or when the second does with its result. -/
theorem bind_eq_error_iff {step : Except ε α} {next : α → Except ε β} {e : ε} :
    (step >>= next) = .error e ↔ step = .error e ∨ ∃ a, step = .ok a ∧ next a = .error e := by
  cases step <;> simp [bind, Except.bind]

/-- Chains that start with the same step are the same if they go on alike with its result. -/
theorem bind_congr_of_ok {step : Except ε α} {next next' : α → Except ε β}
    (h : ∀ a, step = .ok a → next a = next' a) : (step >>= next) = (step >>= next') := by
  cases step with
  | error e => rfl
  | ok a => exact h a rfl

/-- Saying a failure in other words does not touch a success. -/
theorem mapError_eq_ok_iff {f : ε → ε'} {step : Except ε α} {a : α} :
    step.mapError f = .ok a ↔ step = .ok a := by
  cases step <;> simp [Except.mapError]

/-- Nor does it hide one. -/
theorem mapError_eq_error_iff {f : ε → ε'} {step : Except ε α} {e' : ε'} :
    step.mapError f = .error e' ↔ ∃ e, step = .error e ∧ f e = e' := by
  cases step <;> simp [Except.mapError]

/-- Changing the result of a step does not touch whether it succeeds. -/
theorem map_eq_ok_iff {f : α → β} {step : Except ε α} {b : β} :
    step.map f = .ok b ↔ ∃ a, step = .ok a ∧ f a = b := by
  cases step <;> simp [Except.map]

/-- Nor does it touch a failure. -/
theorem map_eq_error_iff {f : α → β} {step : Except ε α} {e : ε} :
    step.map f = .error e ↔ step = .error e := by
  cases step <;> simp [Except.map]

/-- A step taken for every item of a list succeeds when it succeeds for each item. -/
theorem mapM_eq_ok_iff {step : α → Except ε β} {xs : List α} {ys : List β} :
    xs.mapM step = .ok ys ↔ List.Forall₂ (fun x y => step x = .ok y) xs ys := by
  induction xs generalizing ys with
  | nil =>
    rw [List.mapM_nil, List.forall₂_nil_left_iff]
    constructor
    · intro h
      cases h
      rfl
    · rintro rfl
      rfl
  | cons x xs ih =>
    rw [List.mapM_cons, bind_eq_ok_iff]
    constructor
    · rintro ⟨y, hy, h⟩
      obtain ⟨rest, hrest, h⟩ := bind_eq_ok_iff.1 h
      cases h
      exact .cons hy (ih.1 hrest)
    · rintro (_ | ⟨hy, hrest⟩)
      exact ⟨_, hy, bind_eq_ok_iff.2 ⟨_, ih.2 hrest, rfl⟩⟩

/-- Items kept beside what a step makes of them are the items of the list, in order. -/
theorem mapM_pair_eq_ok_iff {step : α → Except ε β} {xs : List α} {pairs : List (α × β)} :
    (xs.mapM fun x => (step x).map fun y => (x, y)) = .ok pairs ↔
      pairs.map Prod.fst = xs ∧ ∀ p ∈ pairs, step p.1 = .ok p.2 := by
  rw [mapM_eq_ok_iff]
  constructor
  · intro h
    induction h with
    | nil => exact ⟨rfl, fun p hp => absurd hp List.not_mem_nil⟩
    | cons hpair _ ih =>
      obtain ⟨y, hy, rfl⟩ := map_eq_ok_iff.1 hpair
      exact ⟨congrArg (List.cons _) ih.1, List.forall_mem_cons.2 ⟨hy, ih.2⟩⟩
  · rintro ⟨rfl, h⟩
    refine List.forall₂_map_left_iff.2 (List.forall₂_same.2 fun p hp => ?_)
    exact map_eq_ok_iff.2 ⟨p.2, h p hp, rfl⟩

/-- A step taken for every item of a list fails as it does for the first item for which it fails. -/
theorem mapM_eq_error_iff {step : α → Except ε β} {xs : List α} {e : ε} :
    xs.mapM step = .error e ↔ ∃ before x after, xs = before ++ x :: after ∧
      (∀ y ∈ before, ∃ b, step y = .ok b) ∧ step x = .error e := by
  constructor
  · intro h
    induction xs with
    | nil => cases h
    | cons first rest ih =>
      rw [List.mapM_cons] at h
      cases hfirst : step first with
      | error e' =>
        rw [hfirst] at h
        cases h
        exact ⟨[], first, rest, rfl, fun y hy => absurd hy List.not_mem_nil, hfirst⟩
      | ok b =>
        cases hrest : rest.mapM step with
        | error e' =>
          rw [hfirst, hrest] at h
          cases h
          obtain ⟨before, x, after, rfl, hbefore, hx⟩ := ih hrest
          exact ⟨first :: before, x, after, rfl,
            List.forall_mem_cons.2 ⟨⟨b, hfirst⟩, hbefore⟩, hx⟩
        | ok bs =>
          rw [hfirst, hrest] at h
          cases h
  · rintro ⟨before, x, after, rfl, hbefore, hx⟩
    induction before with
    | nil =>
      rw [List.nil_append, List.mapM_cons, hx]
      rfl
    | cons first before ih =>
      obtain ⟨⟨b, hfirst⟩, hbefore⟩ := List.forall_mem_cons.1 hbefore
      rw [List.cons_append, List.mapM_cons, hfirst, ih hbefore]
      rfl

/-- A step taken for every item of a list fails as it fails for one of them. -/
theorem exists_mem_of_mapM_eq_error {step : α → Except ε β} {xs : List α} {e : ε}
    (h : xs.mapM step = .error e) : ∃ x ∈ xs, step x = .error e := by
  obtain ⟨before, x, after, rfl, -, hx⟩ := mapM_eq_error_iff.1 h
  exact ⟨x, List.mem_append_right _ List.mem_cons_self, hx⟩

/-- A check made of every item of a list passes when each item passes. -/
theorem forM_eq_ok_iff {check : α → Except ε Unit} {xs : List α} :
    xs.forM check = .ok () ↔ ∀ x ∈ xs, check x = .ok () := by
  induction xs with
  | nil => exact ⟨fun _ x hx => absurd hx List.not_mem_nil, fun _ => rfl⟩
  | cons x xs ih =>
    rw [List.forall_mem_cons, ← ih]
    exact bind_eq_ok_iff.trans ⟨fun ⟨_, h, hrest⟩ => ⟨h, hrest⟩, fun ⟨h, hrest⟩ => ⟨(), h, hrest⟩⟩

end JobStaging.Fallible

namespace JobStaging.Traced

variable {α β : Type}

/-- Changing the result of a piece of work changes its outcome alone. -/
theorem outcome_map (f : α → β) (t : Traced α) : (f <$> t).outcome = t.outcome.map f := by
  show (t >>= fun a => pure (f a)).outcome = _
  rw [outcome_bind]
  cases t.outcome <;> rfl

/-- A check succeeds when what it looks at does. -/
theorem outcome_check_eq_ok_iff {outcome : Except Rejection α} {a : α} :
    (check outcome).outcome = .ok a ↔ outcome = .ok a :=
  Fallible.mapError_eq_ok_iff

/-- A check that fails says why as a fault of the request. -/
theorem outcome_check_of_error {outcome : Except Rejection α} {cause : Rejection}
    (h : outcome = .error cause) : (check outcome).outcome = .error (.invalidInput cause) := by
  rw [h]
  rfl

end JobStaging.Traced
