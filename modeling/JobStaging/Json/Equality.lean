import JobStaging.Json.Basic

/-!
# Equality of JSON values

Whether two JSON values are equal can be decided: they are compared part by part. The order of the
members of an object counts.
-/

set_option autoImplicit false

namespace JobStaging.Json
mutual

/-- Whether two values are the same. -/
def same : Json → Json → Bool
  | .null, .null => true
  | .bool a, .bool b => a == b
  | .number a, .number b => a == b
  | .string a, .string b => a == b
  | .array as, .array bs => sameElements as bs
  | .object as, .object bs => sameMembers as bs
  | _, _ => false

/-- Whether two lists hold the same values. -/
def sameElements : List Json → List Json → Bool
  | [], [] => true
  | a :: as, b :: bs => a.same b && sameElements as bs
  | _, _ => false

/-- Whether two lists hold the same members. -/
def sameMembers : List (String × Json) → List (String × Json) → Bool
  | [], [] => true
  | (x, a) :: as, (y, b) :: bs => x == y && a.same b && sameMembers as bs
  | _, _ => false

end

mutual

/-- Values that compare as the same are equal. -/
theorem eq_of_same : ∀ {a b : Json}, a.same b = true → a = b
  | .null, b, h => by cases b <;> simp_all [same]
  | .bool _, b, h => by cases b <;> simp_all [same]
  | .number _, b, h => by cases b <;> simp_all [same]
  | .string _, b, h => by cases b <;> simp_all [same]
  | .array as, b, h => by
    cases b <;> simp only [same, Bool.false_eq_true] at h
    rw [eq_of_sameElements h]
  | .object as, b, h => by
    cases b <;> simp only [same, Bool.false_eq_true] at h
    rw [eq_of_sameMembers h]

/-- So are elements that do. -/
theorem eq_of_sameElements : ∀ {as bs : List Json}, sameElements as bs = true → as = bs
  | [], bs, h => by cases bs <;> simp_all [sameElements]
  | a :: as, bs, h => by
    cases bs <;> simp only [sameElements, Bool.false_eq_true, Bool.and_eq_true] at h
    rw [eq_of_same h.1, eq_of_sameElements h.2]

/-- So are members that do. -/
theorem eq_of_sameMembers : ∀ {as bs : List (String × Json)}, sameMembers as bs = true → as = bs
  | [], bs, h => by cases bs <;> simp_all [sameMembers]
  | (x, a) :: as, bs, h => by
    cases bs with
    | nil => simp [sameMembers] at h
    | cons b bs =>
      obtain ⟨y, b⟩ := b
      simp only [sameMembers, Bool.and_eq_true, beq_iff_eq] at h
      rw [h.1.1, eq_of_same h.1.2, eq_of_sameMembers h.2]

end

mutual

/-- A value compares as the same with itself. -/
theorem same_refl : ∀ a : Json, a.same a = true
  | .null | .bool _ | .number _ | .string _ => by simp [same]
  | .array as => by rw [same]; exact sameElements_refl as
  | .object as => by rw [same]; exact sameMembers_refl as

/-- So do elements. -/
theorem sameElements_refl : ∀ as : List Json, sameElements as as = true
  | [] => rfl
  | a :: as => by rw [sameElements, same_refl a, sameElements_refl as]; rfl

/-- So do members. -/
theorem sameMembers_refl : ∀ as : List (String × Json), sameMembers as as = true
  | [] => rfl
  | (x, a) :: as => by rw [sameMembers, same_refl a, sameMembers_refl as]; simp

end

/-- Two values are found the same exactly when they are equal. -/
theorem same_iff {a b : Json} : a.same b = true ↔ a = b :=
  ⟨eq_of_same, fun h => h ▸ same_refl a⟩

/-- Equality of values is decided by comparing them. -/
instance : DecidableEq Json := fun _ _ => decidable_of_iff _ same_iff

end JobStaging.Json
