import JobStaging.Proofs.Inventory

/-!
# Lookups in a reordered inventory

A lookup goes through a list, but what it finds is not a matter of the list's order: at most one
resource has an identifier, and a name is understood only if a single resource goes by it. The order
shows in one place alone, where several resources go by a name and the failure lists them. Outcomes
that differ at most there are alike (`Fallible.Alike`), and so are pieces of work with such outcomes
that ask the same questions (`Traced.Alike`). Work that goes on alike after alike work stays alike
(`Traced.Alike.bind`), so the order of an inventory never shows in anything else that is made of
lookups (`Inventory.alike_of_perm`).
-/

set_option autoImplicit false

namespace JobStaging

/-! ## Likeness -/

/-- Failures of lookups are alike when they are the same, or when both list the same resources that
go by a name, in whatever order. -/
inductive LookupFailure.Alike : LookupFailure → LookupFailure → Prop
  | refl (cause : LookupFailure) : Alike cause cause
  | ambiguous {ids ids' : List String} (h : ids.Perm ids') : Alike (.ambiguous ids) (.ambiguous ids')

/-- Errors are alike when they are the same, or of the same resource with failures that are alike.
In either case they are of one kind. -/
inductive Error.Alike : Error → Error → Prop
  | refl (e : Error) : Alike e e
  | resolution (resource : String) {cause cause' : LookupFailure} (h : cause.Alike cause') :
      Alike (.resolution resource cause) (.resolution resource cause')

/-- Outcomes are alike when both succeed with the same result or both fail with related errors. -/
inductive Fallible.Alike {ε α : Type} (related : ε → ε → Prop) : Except ε α → Except ε α → Prop
  | ok (a : α) : Alike related (.ok a) (.ok a)
  | error {e e' : ε} (h : related e e') : Alike related (.error e) (.error e')

namespace Fallible

variable {ε ε' α : Type} {related : ε → ε → Prop} {outcome outcome' : Except ε α}

/-- An outcome is like itself when errors are. -/
theorem Alike.refl (hrefl : ∀ e, related e e) (outcome : Except ε α) :
    Alike related outcome outcome := by
  cases outcome with
  | ok a => exact .ok a
  | error e => exact .error (hrefl e)

/-- Saying related errors in other words leaves outcomes alike if the words are related. -/
theorem Alike.mapError {related' : ε' → ε' → Prop} {f : ε → ε'}
    (hf : ∀ e e', related e e' → related' (f e) (f e')) (h : Alike related outcome outcome') :
    Alike related' (outcome.mapError f) (outcome'.mapError f) := by
  cases h with
  | ok a => exact .ok a
  | error h => exact .error (hf _ _ h)

/-- Of two outcomes that are alike, the one is a success exactly when the other is, with the same
result. -/
theorem Alike.eq_ok_iff (h : Alike related outcome outcome') {a : α} :
    outcome = .ok a ↔ outcome' = .ok a := by
  cases h <;> simp

/-- Where the one fails, the other does so in a related way. -/
theorem Alike.exists_error (h : Alike related outcome outcome') {e : ε} (he : outcome = .error e) :
    ∃ e', outcome' = .error e' ∧ related e e' := by
  cases h with
  | ok a => cases he
  | error h =>
    cases he
    exact ⟨_, rfl, h⟩

end Fallible

/-- Pieces of work are alike when their outcomes are and they ask the same questions. -/
structure Traced.Alike {α : Type} (t t' : Traced α) : Prop where
  outcome : Fallible.Alike Error.Alike t.outcome t'.outcome
  queries : t.queries = t'.queries

namespace Traced.Alike

variable {α β : Type} {t t' : Traced α}

/-- A piece of work is like itself. -/
theorem refl (t : Traced α) : t.Alike t := ⟨.refl Error.Alike.refl _, rfl⟩

/-- After pieces of work that are alike, work that is alike for every result leaves them alike: it
is done for the same result, or not at all. -/
theorem bind {f f' : α → Traced β} (ht : t.Alike t') (hf : ∀ a, (f a).Alike (f' a)) :
    (t >>= f).Alike (t' >>= f') := by
  obtain ⟨outcome, queries⟩ := t
  obtain ⟨outcome', queries'⟩ := t'
  obtain ⟨houtcome, hqueries⟩ := ht
  dsimp only at houtcome hqueries
  subst hqueries
  cases houtcome with
  | ok a => exact ⟨(hf a).outcome, congrArg (queries ++ ·) (hf a).queries⟩
  | error h => exact ⟨.error h, rfl⟩

/-- Work that is alike stays so when its result is changed. -/
theorem map (f : α → β) (ht : t.Alike t') : (f <$> t).Alike (f <$> t') :=
  ht.bind fun a => refl (pure (f a))

end Traced.Alike

/-! ## Resources -/

section MatchOne

variable {α : Type} {labels : α → Labels} {items items' : List α} {nameOrId : String}
  {envBase : Option String}

/-- Where no two resources have one identifier, a resource is the first with an identifier when it
has that identifier. -/
theorem find?_id_eq_some_iff (hids : (items.map fun item => (labels item).id).Nodup) {found : α} :
    items.find? (fun item => (labels item).id == nameOrId) = some found ↔
      found ∈ items ∧ (labels found).id = nameOrId := by
  constructor
  · intro h
    exact ⟨List.mem_of_find?_eq_some h, by simpa using List.find?_some h⟩
  · rintro ⟨hmem, rfl⟩
    have hmatch : matchOne labels items (labels found).id none = .ok found :=
      matchOne_id none hids hmem
    rcases matchOne_eq_ok_iff.1 hmatch with hfirst | ⟨hnone, -⟩
    · exact hfirst
    · exact absurd (beq_self_eq_true _) (List.find?_eq_none.1 hnone found hmem)

/-- By identifier, the same item is found in whatever order the items stand. -/
theorem find?_id_of_perm (h : items.Perm items')
    (hids : (items.map fun item => (labels item).id).Nodup) :
    items.find? (fun item => (labels item).id == nameOrId) =
      items'.find? (fun item => (labels item).id == nameOrId) := by
  have hids' : (items'.map fun item => (labels item).id).Nodup := (h.map _).nodup_iff.1 hids
  refine Option.ext fun found => ?_
  rw [find?_id_eq_some_iff hids, find?_id_eq_some_iff hids', h.mem_iff]

/-- What is meant by an identifier or a name does not depend on the order of the resources. -/
theorem matchOne_of_perm (h : items.Perm items')
    (hids : (items.map fun item => (labels item).id).Nodup) :
    Fallible.Alike LookupFailure.Alike (matchOne labels items nameOrId envBase)
      (matchOne labels items' nameOrId envBase) := by
  have hnamed := h.filter fun item => (labels item).goesBy nameOrId envBase
  unfold matchOne
  rw [← find?_id_of_perm h hids]
  cases items.find? fun item => (labels item).id == nameOrId with
  | some item => exact .ok item
  | none =>
    dsimp only
    -- None, one or several resources go by the name, whatever the order.
    generalize items.filter (fun item => (labels item).goesBy nameOrId envBase) = named at hnamed ⊢
    generalize items'.filter (fun item => (labels item).goesBy nameOrId envBase) = named'
      at hnamed ⊢
    match named, named', hnamed with
    | [], [], _ => exact .error (.refl _)
    | [one], [other], hone =>
      obtain rfl : one = other := List.singleton_perm_singleton.1 hone
      exact .ok one
    | first :: second :: rest, first' :: second' :: rest', hmany =>
      exact .error (.ambiguous (hmany.map _))
    | [], _ :: _, hlength | _ :: _, [], hlength | [_], _ :: _ :: _, hlength
    | _ :: _ :: _, [_], hlength => simpa using hlength.length_eq

end MatchOne

/-- Resolvers are alike in an environment when their answers are, under every name. -/
structure Resolver.Alike (envBase : Option String) (r r' : Resolver) : Prop where
  fileSystem : ∀ name,
    Fallible.Alike Error.Alike (r.fileSystem name envBase) (r'.fileSystem name envBase)
  accessPoint : ∀ name owner,
    Fallible.Alike Error.Alike (r.accessPoint name owner envBase) (r'.accessPoint name owner envBase)

namespace Resolver.Alike

variable {envBase : Option String} {r r' : Resolver}

/-- Resolvers that are alike describe a file system alike. -/
theorem askFileSystem (h : r.Alike envBase r') (name : String) :
    (r.askFileSystem name envBase).Alike (r'.askFileSystem name envBase) :=
  ⟨h.fileSystem name, rfl⟩

/-- They find an access point alike. -/
theorem askAccessPoint (h : r.Alike envBase r') (name : String) (owner : Option String) :
    (r.askAccessPoint name owner envBase).Alike (r'.askAccessPoint name owner envBase) :=
  ⟨h.accessPoint name owner, rfl⟩

end Resolver.Alike

namespace Inventory

variable {i j : Inventory}

/-- The access points of a file system are listed in the order of all access points. -/
theorem accessPointsOf_perm (h : i.accessPoints.Perm j.accessPoints) (owner : Option String) :
    (i.accessPointsOf owner).Perm (j.accessPointsOf owner) := by
  cases owner with
  | none => exact h
  | some id => exact h.filter _

/-- The access points of one owner have different identifiers if all have. -/
theorem nodup_accessPointsOf (h : (i.accessPoints.map AccessPoint.id).Nodup)
    (owner : Option String) : ((i.accessPointsOf owner).map AccessPoint.id).Nodup := by
  cases owner with
  | none => exact h
  | some id => exact h.sublist (List.filter_sublist.map _)

/-- Inventories that list the same resources, each under an identifier of its own, answer alike. -/
theorem alike_of_perm (hsystems : i.fileSystems.Perm j.fileSystems)
    (haccess : i.accessPoints.Perm j.accessPoints)
    (hids : (i.fileSystems.map FileSystem.id).Nodup)
    (hids' : (i.accessPoints.map AccessPoint.id).Nodup) (envBase : Option String) :
    i.resolver.Alike envBase j.resolver where
  fileSystem _ := (matchOne_of_perm hsystems hids).mapError fun _ _ => .resolution _
  accessPoint _ owner :=
    (matchOne_of_perm (accessPointsOf_perm haccess owner) (nodup_accessPointsOf hids' owner)).mapError
      fun _ _ => .resolution _

end Inventory

end JobStaging
