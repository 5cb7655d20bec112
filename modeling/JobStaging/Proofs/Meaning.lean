import JobStaging.Proofs.Inventory

/-!
# What is meant by a name

A name that is looked up is first of all an identifier, and only if nothing has it as such is it the
name that resources are tagged with. `Meant` says which of several resources a name stands for on
these terms, by where the resource lies among the others, and `matchOne_eq_ok_iff_meant` that a
lookup finds exactly this one.
-/

set_option autoImplicit false

namespace JobStaging

/-- A resource is tagged with a name, and with an environment if one is given. -/
def Labels.Tagged (name : String) (envBase : Option String) (l : Labels) : Prop :=
  l.tags.get? "Name" = some name ∧
    ∀ environment, envBase = some environment → l.tags.get? "env_base" = some environment

/-- The check for names looks for the tags. -/
theorem Labels.goesBy_iff_tagged {name : String} {envBase : Option String} {l : Labels} :
    l.goesBy name envBase = true ↔ l.Tagged name envBase := by
  unfold goesBy Tagged
  cases envBase <;> simp [nameTag, envBaseTag]

/-- One of several resources is meant when it is the first whose identifier is the name, or when no
identifier is the name and this is the only resource that is tagged with it. -/
inductive Meant {α : Type} (labels : α → Labels) (nameOrId : String) (envBase : Option String)
    (items : List α) (item : α) : Prop
  | byId {before after : List α} (hsplit : items = before ++ item :: after)
      (hid : (labels item).id = nameOrId)
      (hfirst : ∀ other ∈ before, (labels other).id ≠ nameOrId)
  | byName {before after : List α} (hsplit : items = before ++ item :: after)
      (hnone : ∀ other ∈ items, (labels other).id ≠ nameOrId)
      (htagged : (labels item).Tagged nameOrId envBase)
      (honly : ∀ other ∈ before ++ after, ¬ (labels other).Tagged nameOrId envBase)

section Meant

variable {α : Type} {labels : α → Labels} {items : List α} {nameOrId : String}
  {envBase : Option String} {item : α}

/-- What is meant is one of the resources. -/
theorem Meant.mem (h : Meant labels nameOrId envBase items item) : item ∈ items := by
  cases h with
  | byId hsplit => simp [hsplit]
  | byName hsplit => simp [hsplit]

/-- A lookup finds what is meant, and nothing else. -/
theorem matchOne_eq_ok_iff_meant :
    matchOne labels items nameOrId envBase = .ok item ↔ Meant labels nameOrId envBase items item := by
  rw [matchOne_eq_ok_iff, List.find?_eq_none, List.find?_eq_some_iff_append,
    List.filter_eq_cons_iff]
  simp only [List.filter_eq_nil_iff, Labels.goesBy_iff_tagged, beq_iff_eq, Bool.not_eq_true',
    beq_eq_false_iff_ne]
  constructor
  · rintro (⟨hid, before, after, hsplit, hfirst⟩ |
      ⟨hnone, before, after, hsplit, hbefore, htagged, hafter⟩)
    · exact .byId hsplit hid hfirst
    · exact .byName hsplit hnone htagged (List.forall_mem_append.2 ⟨hbefore, hafter⟩)
  · rintro (⟨hsplit, hid, hfirst⟩ | ⟨hsplit, hnone, htagged, honly⟩)
    · exact .inl ⟨hid, _, _, hsplit, hfirst⟩
    · obtain ⟨hbefore, hafter⟩ := List.forall_mem_append.1 honly
      exact .inr ⟨hnone, _, _, hsplit, hbefore, htagged, hafter⟩

/-- An answer is what a name asks for among several resources: the one that is meant, and where none
is meant, word that the resource was not found out. -/
structure Answers (labels : α → Labels) (kind : String) (nameOrId : String) (envBase : Option String)
    (items : List α) (answer : Except Error α) : Prop where
  found : ∀ item, answer = .ok item ↔ Meant labels nameOrId envBase items item
  failed : (∀ item, ¬ Meant labels nameOrId envBase items item) →
    ∃ cause, answer = .error (.resolution (kind ++ nameOrId) cause)

/-- What a lookup finds, and how it fails otherwise. -/
theorem answers_matchOne (kind : String) :
    Answers labels kind nameOrId envBase items
      ((matchOne labels items nameOrId envBase).mapError (.resolution (kind ++ nameOrId))) where
  found item := Fallible.mapError_eq_ok_iff.trans matchOne_eq_ok_iff_meant
  failed hnone := by
    cases hfound : matchOne labels items nameOrId envBase with
    | ok item => exact absurd (matchOne_eq_ok_iff_meant.1 hfound) (hnone item)
    | error cause => exact ⟨cause, rfl⟩

end Meant

namespace Inventory

variable {i : Inventory} {owner envBase : Option String} {name : String} {a : AccessPoint}

/-- The access points of a file system are among all. -/
theorem mem_of_mem_accessPointsOf (h : a ∈ i.accessPointsOf owner) : a ∈ i.accessPoints := by
  cases owner with
  | none => exact h
  | some id => exact List.mem_of_mem_filter h

/-- An access point is found under a name when the name means it among those of the file system that
is asked for, or among all. -/
theorem accessPoint_eq_ok_iff : i.accessPoint name owner envBase = .ok a ↔
    Meant AccessPoint.labels name envBase (i.accessPointsOf owner) a := by
  unfold accessPoint
  rw [Fallible.mapError_eq_ok_iff, matchOne_eq_ok_iff_meant]

end Inventory

end JobStaging
