import JobStaging.Proofs.Meaning
import JobStaging.Proofs.Mount

/-!
# Access points of the file system that was asked for

A candidate may name a file system and an access point, and the access point must belong to the file
system. With an inventory there are two guards for this: an access point is looked for only among
those of the file system that was found, and its owner is checked afterwards. The first one is
enough. Every lookup answers with what its name means among the resources that are considered, and
these are of the right owner, so the check never fails (`lookups_answer_and_owner_passes`).
-/

set_option autoImplicit false

namespace JobStaging

namespace Mount

variable {r : Resolver} {envBase : Option String} {c : Candidate} {defaultPath : Path}
  {readOnly : Bool} {fault : Error}

/-- The ways in which a candidate can have no mount. -/
inductive Unmounted (r : Resolver) (envBase : Option String) (c : Candidate) (defaultPath : Path) :
    Error → Prop
  | relative (hpath : (c.containerPath.getD defaultPath).isAbsolute = false) :
      Unmounted r envBase c defaultPath
        (.invalidInput (.relativeContainerPath (c.containerPath.getD defaultPath)))
  | unnamed (hname : c.accessPoint = none) :
      Unmounted r envBase c defaultPath
        (.invalidInput (.noAccessPoint (c.containerPath.getD defaultPath)))
  | noFileSystem {name : String} {fault : Error} (hname : c.fileSystem = some name)
      (hfault : r.fileSystem name envBase = .error fault) : Unmounted r envBase c defaultPath fault
  | noAccessPoint {name : String} {owner : Option FileSystem} {fault : Error}
      (hname : c.accessPoint = some name)
      (howner : (askOwner r envBase c.fileSystem).outcome = .ok owner)
      (hfault : r.accessPoint name (owner.map FileSystem.id) envBase = .error fault) :
      Unmounted r envBase c defaultPath fault
  | foreign {name : String} {owner : Option FileSystem} {a : AccessPoint} {cause : Rejection}
      (hname : c.accessPoint = some name)
      (howner : (askOwner r envBase c.fileSystem).outcome = .ok owner)
      (ha : r.accessPoint name (owner.map FileSystem.id) envBase = .ok a)
      (hcause : checkOwner owner a = .error cause) :
      Unmounted r envBase c defaultPath (.invalidInput cause)

/-- Asking for the owner fails when there is a file system to ask for, and it is not found. -/
theorem askOwner_eq_error {name : Option String}
    (h : (askOwner r envBase name).outcome = .error fault) :
    ∃ system, name = some system ∧ r.fileSystem system envBase = .error fault := by
  unfold askOwner at h
  cases name with
  | none => cases h
  | some system =>
    rw [Traced.outcome_map, Fallible.map_eq_error_iff] at h
    exact ⟨system, rfl, h⟩

/-- Every failure is one of these, found out in this order. -/
theorem unmounted_of_resolve
    (h : (resolve r envBase c defaultPath readOnly).outcome = .error fault) :
    Unmounted r envBase c defaultPath fault := by
  unfold resolve at h
  dsimp only at h
  split at h
  · split at h
    · next hname =>
      cases h
      exact .unnamed hname
    · next name hname =>
      rw [Traced.outcome_bind, Fallible.bind_eq_error_iff] at h
      rcases h with hsystem | ⟨owner, howner, h⟩
      · obtain ⟨system, hsystem, hfault⟩ := askOwner_eq_error hsystem
        exact .noFileSystem hsystem hfault
      · rw [Traced.outcome_bind, Fallible.bind_eq_error_iff] at h
        rcases h with hfault | ⟨a, ha, h⟩
        · exact .noAccessPoint hname howner hfault
        · rw [Traced.outcome_bind, Fallible.bind_eq_error_iff] at h
          rcases h with hcheck | ⟨_, -, hpure⟩
          · obtain ⟨cause, hcause, rfl⟩ := Fallible.mapError_eq_error_iff.1 hcheck
            exact .foreign hname howner ha hcause
          · cases hpure
  · next hpath =>
    cases h
    exact .relative (Bool.eq_false_of_not_eq_true hpath)

end Mount

namespace Inventory

variable {i : Inventory} {envBase : Option String}

/-- An access point that is found among those of a file system passes for the file system's. -/
theorem checkOwner_of_accessPoint {name : String} {owner : Option FileSystem} {a : AccessPoint}
    (h : i.accessPoint name (owner.map FileSystem.id) envBase = .ok a) :
    Mount.checkOwner owner a = .ok () := by
  cases owner with
  | none => rfl
  | some f =>
    have hmem : a ∈ i.accessPoints.filter fun a => a.fileSystem == f.id :=
      (accessPoint_eq_ok_iff.1 h).mem
    have howner : a.fileSystem = f.id := by simpa using (List.mem_filter.1 hmem).2
    exact if_pos howner.symm

/-- A lookup in an inventory answers with the file system that is meant by the name, or with the
access point that is meant among all, or among those of one file system if one is given; where none
is meant, it says that it cannot be found out. So with an inventory, no candidate fails for an
access point that belongs to another file system than the one it names. -/
theorem lookups_answer_and_owner_passes (i : Inventory) (envBase : Option String) :
    (∀ name, Answers FileSystem.labels "file system " name envBase i.fileSystems
      (i.resolver.fileSystem name envBase)) ∧
    (∀ name, Answers AccessPoint.labels "access point " name envBase i.accessPoints
      (i.resolver.accessPoint name none envBase)) ∧
    (∀ name owner, Answers AccessPoint.labels "access point " name envBase
      (i.accessPoints.filter fun a => a.fileSystem == owner)
      (i.resolver.accessPoint name (some owner) envBase)) ∧
    ∀ c defaultPath readOnly accessPoint owner wanted,
      (Mount.resolve i.resolver envBase c defaultPath readOnly).outcome ≠
        .error (.invalidInput (.foreignAccessPoint accessPoint owner wanted)) := by
  refine ⟨fun name => answers_matchOne _, fun name => answers_matchOne _,
    fun name owner => answers_matchOne _, ?_⟩
  intro c defaultPath readOnly accessPoint owner wanted hfault
  cases Mount.unmounted_of_resolve hfault with
  | noFileSystem _ hlookup =>
    obtain ⟨cause, -, hcause⟩ := Fallible.mapError_eq_error_iff.1 hlookup
    cases hcause
  | noAccessPoint _ _ hlookup =>
    obtain ⟨cause, -, hcause⟩ := Fallible.mapError_eq_error_iff.1 hlookup
    cases hcause
  | foreign _ _ ha hcheck =>
    rw [checkOwner_of_accessPoint ha] at hcheck
    cases hcheck

end Inventory

end JobStaging
