import JobStaging.Proofs.Assembly.Neighbours
import JobStaging.Proofs.Selection.LeastUtilized

/-!
# Mounting what was measured

A selection by use looks at a file system, and the mount that is made for it afterwards looks again:
under the identifier that the selection filled in, with the access point of the role where the
candidate names none, and among the access points of that file system only. `volumes_as_measured`
says that both see the same: the volume of a role lies on the file system that was found to hold the
fewest bytes, and an access point that a candidate was measured by is the one that is mounted.
-/

set_option autoImplicit false

namespace JobStaging

variable {r : Resolver} {i : Inventory} {envBase : Option String} {c : Candidate} {f : FileSystem}
  {m : Mount}

/-- An access point was measured as a candidate when it is what the candidate names and lies on the
file system that was looked at. -/
def Inventory.MeasuredBy (i : Inventory) (envBase : Option String) (c : Candidate) (f : FileSystem)
    (a : AccessPoint) : Prop :=
  ∃ name, c.accessPoint = some name ∧ i.accessPoint name none envBase = .ok a ∧ a.fileSystem = f.id

namespace Selection

/-- A candidate that names only an access point is measured by the file system of that. -/
theorem exists_measuredBy
    (howners : ∀ a ∈ i.accessPoints, a.fileSystem ∈ i.fileSystems.map FileSystem.id)
    (hsystem : c.fileSystem = none) (h : systemOf i.resolver envBase c = .ok f) :
    ∃ a, i.MeasuredBy envBase c f a := by
  unfold systemOf at h
  rw [hsystem] at h
  cases haccess : c.accessPoint with
  | none =>
    rw [haccess] at h
    cases h
  | some name =>
    rw [haccess] at h
    obtain ⟨a, ha, hf⟩ := Fallible.bind_eq_ok_iff.1 h
    have hmem : a ∈ i.accessPoints := mem_of_matchOne (Fallible.mapError_eq_ok_iff.1 ha)
    have hid : f.id = a.fileSystem :=
      id_of_matchOne (howners a hmem) (Fallible.mapError_eq_ok_iff.1 hf)
    exact ⟨a, name, haccess, ha, hid.symm⟩

end Selection

namespace Assembly

open Selection (EarliestLeast systemOf locatedOn)

variable {σ : Type} {config : Config} {storage : Storage (StateM σ)} {request : Request} {s : σ}
  {response : Response} {executionId : String} {role : Role} {candidates : List Candidate}

/-- A candidate that was located is mounted on the file system that it was located on, by the access
point that it names or that stands in for it. -/
theorem exists_accessPoint_of_resolve (hstable : r.Stable envBase)
    (hsystem : systemOf r envBase c = .ok f) {standIn : String} {path : Path} {readOnly : Bool}
    (h : (Mount.resolve r envBase (withAccessPoint standIn (locatedOn c f)) path readOnly).outcome =
      .ok m) :
    ∃ a, r.accessPoint (c.accessPoint.getD standIn) (some f.id) envBase = .ok a ∧
      a.fileSystem = f.id ∧ m = Mount.ofAccessPoint m.path readOnly a := by
  obtain ⟨-, name, owner, a, hname, howner, ha, hcheck, rfl⟩ := Mount.resolve_eq_ok_iff.1 h
  obtain ⟨given, hgiven, hf⟩ := Selection.exists_fileSystem_locatedOn hstable hsystem
  obtain ⟨howned, hfound⟩ := Mount.owner_of_checkOwner howner hcheck
  obtain ⟨f', hf', hbelongs⟩ := hfound given hgiven
  obtain rfl : f = f' := Except.ok.inj (hf.symm.trans hf')
  have hwanted : c.accessPoint.getD standIn = name :=
    Option.some.inj ((accessPoint_withAccessPoint standIn (locatedOn c f)).symm.trans hname)
  have howner' : (withAccessPoint standIn (locatedOn c f)).fileSystem = some given := hgiven
  rw [howned, howner', Option.map_some, ← hbelongs] at ha
  exact ⟨a, hwanted ▸ ha, hbelongs.symm, rfl⟩

/-- The mount of a role with several candidates is on the file system of the earliest of those that
hold the fewest bytes, and is that of the access point by which the candidate was measured. -/
theorem exists_measured_of_mountRole (hids : (i.fileSystems.map FileSystem.id).Nodup)
    (howners : ∀ a ∈ i.accessPoints, a.fileSystem ∈ i.fileSystems.map FileSystem.id)
    (hseveral : 2 ≤ candidates.length)
    (h : (mountRole config i.resolver executionId .leastUtilized role candidates).outcome = .ok m) :
    ∃ c f, EarliestLeast i.resolver (some config.envBase) candidates c f ∧
      m.fileSystem = f.id ∧ (c.fileSystem = none → ∃ a, i.MeasuredBy (some config.envBase) c f a ∧
        m = Mount.ofAccessPoint m.path role.readOnly a) := by
  have hstable := Inventory.stable_of_nodup hids (some config.envBase)
  obtain ⟨chosen, hselect, hresolve⟩ := mountRole_eq_ok_iff.1 h
  obtain ⟨c, f, hleast, rfl⟩ := Selection.exists_earliestLeast_of_select hstable hseveral hselect
  have hsystem : systemOf i.resolver (some config.envBase) c = .ok f := hleast.systemOf_eq
  obtain ⟨a, ha, hbelongs, hm⟩ := exists_accessPoint_of_resolve hstable hsystem hresolve
  refine ⟨c, f, hleast, ?_, ?_⟩
  · rw [hm]
    exact hbelongs
  · intro hnone
    obtain ⟨b, name, haccess, hb, hsame⟩ := Selection.exists_measuredBy howners hnone hsystem
    -- The second lookup is made among the access points of the file system, and finds the same one.
    have hagain : i.accessPoint name (some f.id) (some config.envBase) = .ok b := by
      rw [← hsame]
      exact Inventory.accessPoint_owner hb
    rw [haccess] at ha
    have heq : a = b := Except.ok.inj (ha.symm.trans hagain)
    subst heq
    exact ⟨a, ⟨name, haccess, hb, hsame⟩, hm⟩

/-- In a job that was staged by use from an inventory of different file systems, to which all of its
access points belong, each role with several candidates has its volume on the file system of the
earliest of the candidates that hold the fewest bytes. If that candidate names only an access point,
the volume is of the mount of the very access point that was measured. -/
theorem volumes_as_measured
    (h : ((prepare config i.resolver storage request).run s).1.answer = .ok response)
    (hstrategy : request.placement.strategy = .leastUtilized)
    (hids : (i.fileSystems.map FileSystem.id).Nodup)
    (howners : ∀ a ∈ i.accessPoints, a.fileSystem ∈ i.fileSystems.map FileSystem.id) :
    List.Forall₂ (fun entry v => 2 ≤ entry.2.length → ∃ c f m,
        EarliestLeast i.resolver (some config.envBase) entry.2 c f ∧
        v = m.volume ∧ v.efs.fileSystem = f.id ∧
        (c.fileSystem = none → ∃ a, i.MeasuredBy (some config.envBase) c f a ∧
          m = Mount.ofAccessPoint m.path entry.1.readOnly a))
      (roles request.placement) response.setup.job.volumes := by
  rw [run_prepare] at h
  obtain ⟨st, rfl, -⟩ := exists_stages_of_answer h
  refine List.forall₂_map_right_iff.2 ((forall₂_roles st.mounts_eq).imp fun entry m hrole => ?_)
  intro hseveral
  rw [hstrategy] at hrole
  obtain ⟨c, f, hleast, hsystem, haccess⟩ :=
    exists_measured_of_mountRole hids howners hseveral hrole
  exact ⟨c, f, m, hleast, rfl, hsystem, haccess⟩

/-- Two roles with several candidates: by name, by identifier, and by an access point alone. -/
def measuredRequest : Request :=
  { sampleRequest with
    placement := ⟨[⟨some "fs-1", some "fsap-1", none⟩, ⟨none, some "shared", none⟩],
      [⟨some "first", none, none⟩, ⟨some "second", none, none⟩], none, .leastUtilized⟩ }

/-- The second system holds fewer bytes than the first, and both roles end up on it. -/
theorem volumes_as_measured_of_sample :
    let outcome := ((prepare .standard namedInventory.resolver .acceptAll measuredRequest).run ()).1
    (namedInventory.fileSystems.map FileSystem.id).Nodup ∧
      (∀ a ∈ namedInventory.accessPoints,
        a.fileSystem ∈ namedInventory.fileSystems.map FileSystem.id) ∧
      ∃ response, outcome.answer = .ok response ∧
        response.setup.job.volumes.map (fun v => (v.efs.fileSystem, v.efs.authorization)) =
          [("fs-2", some ⟨"fsap-3", "DISABLED"⟩), ("fs-2", some ⟨"fsap-2", "DISABLED"⟩)] ∧
        List.Forall₂ (fun entry v => 2 ≤ entry.2.length → ∃ c f m,
            EarliestLeast namedInventory.resolver (some "dev") entry.2 c f ∧
            v = m.volume ∧ v.efs.fileSystem = f.id ∧
            (c.fileSystem = none → ∃ a, namedInventory.MeasuredBy (some "dev") c f a ∧
              m = Mount.ofAccessPoint m.path entry.1.readOnly a))
          (roles measuredRequest.placement) response.setup.job.volumes := by
  intro outcome
  have hids : (namedInventory.fileSystems.map FileSystem.id).Nodup := by decide
  have howners : ∀ a ∈ namedInventory.accessPoints,
      a.fileSystem ∈ namedInventory.fileSystems.map FileSystem.id := by decide
  have hanswer : ∃ response, outcome.answer = .ok response ∧
      response.setup.job.volumes.map (fun v => (v.efs.fileSystem, v.efs.authorization)) =
        [("fs-2", some ⟨"fsap-3", "DISABLED"⟩), ("fs-2", some ⟨"fsap-2", "DISABLED"⟩)] :=
    ⟨_, rfl, rfl⟩
  obtain ⟨response, hresponse, hvolumes⟩ := hanswer
  exact ⟨hids, howners, response, hresponse, hvolumes,
    volumes_as_measured hresponse rfl hids howners⟩

end Assembly

end JobStaging
