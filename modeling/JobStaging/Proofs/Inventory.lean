import JobStaging.Proofs.Fallible
import Mathlib.Data.List.Nodup

/-!
# Lookups in an enlarged inventory

An inventory lists the resources of all environments side by side. When it is enlarged by resources
of other environments under fresh identifiers, every lookup that is made for one environment, under
a name that is none of the fresh identifiers, has the same outcome as before, a failure included:
none of the new resources is found by its identifier, and none is counted among those that go by the
name (`matchOne_of_enlarged`). What is found leads only to names that were there before, so lookups
that follow from one another stay among these (`Inventory.agree_of_enlarges`).
-/

set_option autoImplicit false

namespace JobStaging

/-- A list is enlarged when new items are put into it, at any positions. -/
inductive Enlarged {α : Type} (new : α → Prop) : List α → List α → Prop
  | nil : Enlarged new [] []
  | keep (x : α) {xs ys : List α} (h : Enlarged new xs ys) : Enlarged new (x :: xs) (x :: ys)
  | add (x : α) {xs ys : List α} (hx : new x) (h : Enlarged new xs ys) : Enlarged new xs (x :: ys)

namespace Enlarged

variable {α : Type} {new : α → Prop} {xs ys : List α} {test : α → Bool}

/-- A list that is filtered is enlarged by the new items that pass. -/
theorem filter (test : α → Bool) (h : Enlarged new xs ys) :
    Enlarged new (xs.filter test) (ys.filter test) := by
  induction h with
  | nil => exact .nil
  | keep x _ ih =>
    rw [List.filter_cons, List.filter_cons]
    split
    · exact .keep x ih
    · exact ih
  | add x hx _ ih =>
    rw [List.filter_cons]
    split
    · exact .add x hx ih
    · exact ih

/-- A test that no new item passes sees nothing of them. -/
theorem filter_eq (h : Enlarged new xs ys) (hnew : ∀ x, new x → test x = false) :
    ys.filter test = xs.filter test := by
  induction h with
  | nil => rfl
  | keep x _ ih => rw [List.filter_cons, List.filter_cons, ih]
  | add x hx _ ih =>
    rw [List.filter_cons_of_neg (by simp [hnew x hx])]
    exact ih

/-- A search that no new item answers finds what it found before. -/
theorem find?_eq (h : Enlarged new xs ys) (hnew : ∀ x, new x → test x = false) :
    ys.find? test = xs.find? test := by
  rw [← List.head?_filter, ← List.head?_filter, h.filter_eq hnew]

end Enlarged

/-- A resource is foreign to an environment and to some names when it is not of the environment and
its identifier is none of the names. -/
def Labels.IsForeign (envBase : String) (names : List String) (l : Labels) : Prop :=
  l.tags.get? Labels.envBaseTag ≠ some envBase ∧ l.id ∉ names

/-- A foreign resource goes by no name in the environment. -/
theorem Labels.goesBy_of_isForeign {envBase : String} {names : List String} {l : Labels}
    (h : l.IsForeign envBase names) (name : String) : l.goesBy name (some envBase) = false := by
  unfold goesBy
  rw [Bool.and_eq_false_iff]
  exact .inr (beq_false_of_ne h.1)

section MatchOne

variable {α : Type} {labels : α → Labels} {items items' : List α} {nameOrId envBase : String}
  {names : List String}

/-- New resources that are foreign to the environment and to the name that is asked for change
nothing about the outcome. -/
theorem matchOne_of_enlarged
    (h : Enlarged (fun item => (labels item).IsForeign envBase names) items items')
    (hname : nameOrId ∈ names) :
    matchOne labels items' nameOrId (some envBase) =
      matchOne labels items nameOrId (some envBase) := by
  have hid : ∀ item, (labels item).IsForeign envBase names →
      ((labels item).id == nameOrId) = false := by
    rintro item ⟨-, hfresh⟩
    refine beq_false_of_ne ?_
    rintro rfl
    exact hfresh hname
  unfold matchOne
  rw [h.find?_eq hid, h.filter_eq fun item hitem => Labels.goesBy_of_isForeign hitem nameOrId]

/-- What is found is one of the resources. -/
theorem mem_of_matchOne {found : α} {env : Option String}
    (h : matchOne labels items nameOrId env = .ok found) : found ∈ items := by
  unfold matchOne at h
  split at h
  · next item hitem =>
    cases h
    exact List.mem_of_find?_eq_some hitem
  · split at h
    · cases h
    · next one hone =>
      cases h
      have hmem : found ∈ items.filter fun item => (labels item).goesBy nameOrId env := by
        rw [hone]
        exact List.mem_singleton_self _
      exact List.mem_of_mem_filter hmem
    · cases h

/-- A resource is found when it is the first with the identifier, or when none has the identifier
and it is the only one that goes by the name. -/
theorem matchOne_eq_ok_iff {found : α} {env : Option String} :
    matchOne labels items nameOrId env = .ok found ↔
      items.find? (fun item => (labels item).id == nameOrId) = some found ∨
      items.find? (fun item => (labels item).id == nameOrId) = none ∧
        items.filter (fun item => (labels item).goesBy nameOrId env) = [found] := by
  unfold matchOne
  cases items.find? fun item => (labels item).id == nameOrId with
  | some item => simp
  | none =>
    simp only [reduceCtorEq, true_and, false_or]
    split
    · next h => simp [h]
    · next one h => simp [h]
    · next many hnone hone =>
      simp only [reduceCtorEq, false_iff]
      exact hone found

/-- A resource whose identifier no other has is found by its identifier. -/
theorem matchOne_id {found : α} (env : Option String)
    (h : (items.map fun item => (labels item).id).Nodup) (hmem : found ∈ items) :
    matchOne labels items (labels found).id env = .ok found := by
  let test := fun item => (labels item).id == (labels found).id
  obtain ⟨first, hfirst⟩ : ∃ first, items.find? test = some first :=
    Option.isSome_iff_exists.1 (List.find?_isSome.2 ⟨found, hmem, beq_self_eq_true _⟩)
  have hid : (labels first).id = (labels found).id := by
    simpa [test] using List.find?_some hfirst
  rw [List.inj_on_of_nodup_map h (List.mem_of_find?_eq_some hfirst) hmem hid] at hfirst
  exact matchOne_eq_ok_iff.2 (.inl hfirst)

/-- A name that is an identifier is understood as one. -/
theorem id_of_matchOne {found : α} {env : Option String}
    (hmem : nameOrId ∈ items.map fun item => (labels item).id)
    (h : matchOne labels items nameOrId env = .ok found) : (labels found).id = nameOrId := by
  rcases matchOne_eq_ok_iff.1 h with hfirst | ⟨hnone, -⟩
  · simpa using List.find?_some hfirst
  · obtain ⟨item, hitem, rfl⟩ := List.mem_map.1 hmem
    exact absurd (beq_self_eq_true _) (List.find?_eq_none.1 hnone item hitem)

/-- What is found among all is found among those that pass a test, if it passes itself. -/
theorem matchOne_filter {found : α} {env : Option String} {test : α → Bool}
    (htest : test found = true) (h : matchOne labels items nameOrId env = .ok found) :
    matchOne labels (items.filter test) nameOrId env = .ok found := by
  apply matchOne_eq_ok_iff.2
  rcases matchOne_eq_ok_iff.1 h with hfirst | ⟨hnone, honly⟩
  · -- Leaving out others leaves it the first of its identifier.
    obtain ⟨hid, before, after, rfl, hbefore⟩ := List.find?_eq_some_iff_append.1 hfirst
    refine .inl (List.find?_eq_some_iff_append.2
      ⟨hid, before.filter test, after.filter test, ?_, ?_⟩)
    · rw [List.filter_append, List.filter_cons_of_pos htest]
    · exact fun item hitem => hbefore item (List.mem_of_mem_filter hitem)
  · refine .inr ⟨?_, ?_⟩
    · exact List.find?_eq_none.2 fun item hitem =>
        List.find?_eq_none.1 hnone item (List.mem_of_mem_filter hitem)
    · rw [List.filter_comm, honly, List.filter_cons_of_pos htest, List.filter_nil]

end MatchOne

/-- Two resolvers agree on some names in an environment when they give the same answers under these
names, and the identifiers in the answers are among the names again. -/
structure Resolver.Agree (names : List String) (envBase : String) (r r' : Resolver) : Prop where
  fileSystem_eq : ∀ name ∈ names,
    r'.fileSystem name (some envBase) = r.fileSystem name (some envBase)
  accessPoint_eq : ∀ name ∈ names, ∀ owner,
    r'.accessPoint name owner (some envBase) = r.accessPoint name owner (some envBase)
  id_mem : ∀ name f, r.fileSystem name (some envBase) = .ok f → f.id ∈ names
  owner_mem : ∀ name owner a, r.accessPoint name owner (some envBase) = .ok a → a.fileSystem ∈ names

namespace Inventory

variable {i j : Inventory} {envBase : String} {names : List String}

/-- An access point that is found without regard to its file system is also found when only those of
its file system are looked at. -/
theorem accessPoint_owner {name : String} {env : Option String} {a : AccessPoint}
    (h : i.accessPoint name none env = .ok a) : i.accessPoint name (some a.fileSystem) env = .ok a :=
  Fallible.mapError_eq_ok_iff.2
    (matchOne_filter (beq_self_eq_true _) (Fallible.mapError_eq_ok_iff.1 h))

/-- The identifiers that an inventory mentions. -/
def ids (i : Inventory) : List String :=
  i.fileSystems.map FileSystem.id ++ i.accessPoints.map AccessPoint.id ++
    i.accessPoints.map AccessPoint.fileSystem

/-- An inventory enlarges another when it has foreign file systems and access points besides, at any
positions. -/
structure Enlarges (envBase : String) (names : List String) (i j : Inventory) : Prop where
  fileSystems : Enlarged (fun f : FileSystem => f.labels.IsForeign envBase names)
    i.fileSystems j.fileSystems
  accessPoints : Enlarged (fun a : AccessPoint => a.labels.IsForeign envBase names)
    i.accessPoints j.accessPoints

/-- Each file system has its access points enlarged alike. -/
theorem Enlarges.accessPointsOf (h : Enlarges envBase names i j) (owner : Option String) :
    Enlarged (fun a : AccessPoint => a.labels.IsForeign envBase names)
      (i.accessPointsOf owner) (j.accessPointsOf owner) := by
  cases owner with
  | none => exact h.accessPoints
  | some id => exact h.accessPoints.filter _

/-- An enlarged inventory answers as the one that was enlarged under every name that is not fresh.
-/
theorem agree_of_enlarges (h : Enlarges envBase names i j) (hids : i.ids ⊆ names) :
    i.resolver.Agree names envBase j.resolver where
  fileSystem_eq name hname :=
    congrArg (Except.mapError _) (matchOne_of_enlarged h.fileSystems hname)
  accessPoint_eq name hname owner :=
    congrArg (Except.mapError _) (matchOne_of_enlarged (h.accessPointsOf owner) hname)
  id_mem name f hf := by
    have hmem : f ∈ i.fileSystems := mem_of_matchOne (Fallible.mapError_eq_ok_iff.1 hf)
    apply hids
    exact List.mem_append_left _ (List.mem_append_left _ (List.mem_map_of_mem hmem))
  owner_mem name owner a ha := by
    have hmem : a ∈ i.accessPointsOf owner := mem_of_matchOne (Fallible.mapError_eq_ok_iff.1 ha)
    have hmem' : a ∈ i.accessPoints := by
      cases owner with
      | none => exact hmem
      | some id => exact List.mem_of_mem_filter hmem
    apply hids
    exact List.mem_append_right _ (List.mem_map_of_mem hmem')

end Inventory

end JobStaging
