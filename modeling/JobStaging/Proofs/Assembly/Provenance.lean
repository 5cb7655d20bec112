import JobStaging.Proofs.Assembly.Measured
import JobStaging.Proofs.Meaning
import JobStaging.Proofs.Selection.Origin

/-!
# Whose mounts they are

What is mounted for a role is followed back, from the mount point and the volume of the job, through
the lookups, to a candidate of the role. Two lookups decide: one for the file system, if the
selected candidate names it, and one for the access point, among those of this file system or among
all. Each finds what its name means (`Meant`), and the access point must lie on the file system, so
neither another environment's resources nor another file system's can be mounted instead. This is
`comesFrom_of_mountRole` for one role, and `mounts_come_from_candidates` for a whole job.
-/

set_option autoImplicit false

namespace JobStaging.Assembly

open Selection (Takes)

variable {σ : Type} {config : Config} {i : Inventory} {storage : Storage (StateM σ)}
  {request : Request} {s : σ} {response : Response} {executionId : String} {strategy : Strategy}
  {role : Role} {candidates : List Candidate} {m : Mount}

/-- A mount point and a volume of a role come from one of its candidates, by way of what was taken
for the candidate and of an access point of the inventory. -/
structure ComesFrom (config : Config) (i : Inventory) (role : Role) (c chosen : Candidate)
    (a : AccessPoint) (part : Batch.MountPoint × Batch.Volume) : Prop where
  /-- The path is the candidate's own, or else the one that is configured for the role. -/
  path : part.1.containerPath = (c.containerPath.getD (role.path config.mount)).text
  absolute : (c.containerPath.getD (role.path config.mount)).isAbsolute = true
  /-- Only what is shared must not be written to. -/
  readOnly : part.1.readOnly = true ↔ role = .shared
  shows_volume : part.1.sourceVolume = part.2.name
  listed : a ∈ i.accessPoints
  system : a.fileSystem = part.2.efs.fileSystem
  authorized : part.2.efs.authorization.map Batch.Authorization.accessPoint = some a.id
  /-- The name is the candidate's own, or else the one that is configured for the role. It is looked
  up among the access points of the volume's file system if a file system is named. -/
  meant : Meant AccessPoint.labels (c.accessPoint.getD (role.accessPoint config.accessPoints))
    (some config.envBase)
    (i.accessPointsOf (chosen.fileSystem.map fun _ => part.2.efs.fileSystem)) a
  /-- A file system that the candidate names is still named by what was taken for it. -/
  named : ∀ name, c.fileSystem = some name → chosen.fileSystem = some name
  owned : ∀ name, chosen.fileSystem = some name →
    ∃ f, i.fileSystem name (some config.envBase) = .ok f ∧ f.id = part.2.efs.fileSystem

/-- The mount of a role comes from the candidate that is selected for it. -/
theorem comesFrom_of_mountRole
    (h : (mountRole config i.resolver executionId strategy role candidates).outcome = .ok m) :
    ∃ c ∈ candidates, ∃ chosen a,
      (Selection.select i.resolver (some config.envBase) strategy (some (role.seed executionId))
        candidates).outcome = .ok chosen ∧
      Takes i.resolver (some config.envBase) strategy c chosen ∧
      ComesFrom config i role c chosen a (m.mountPoint, m.volume) := by
  obtain ⟨chosen, hselect, hresolve⟩ := mountRole_eq_ok_iff.1 h
  obtain ⟨c, hmem, htakes⟩ := Selection.exists_takes_of_select hselect
  obtain ⟨habs, name, owner, a, hname, howner, ha, hcheck, rfl⟩ :=
    Mount.resolve_eq_ok_iff.1 hresolve
  obtain ⟨howned, hsystem⟩ := Mount.owner_of_checkOwner howner hcheck
  have hpath : (withAccessPoint (role.accessPoint config.accessPoints) chosen).containerPath.getD
      (role.path config.mount) = c.containerPath.getD (role.path config.mount) := by
    rw [← htakes.containerPath_eq]
    rfl
  have hwanted : c.accessPoint.getD (role.accessPoint config.accessPoints) = name := by
    rw [← htakes.accessPoint_eq]
    exact Option.some.inj ((accessPoint_withAccessPoint _ chosen).symm.trans hname)
  have hmeant : Meant AccessPoint.labels name (some config.envBase)
      (i.accessPointsOf (chosen.fileSystem.map fun _ => a.fileSystem)) a :=
    Inventory.accessPoint_eq_ok_iff.1 (howned ▸ ha)
  rw [hpath] at habs ⊢
  refine ⟨c, hmem, chosen, a, hselect, htakes, ?_⟩
  constructor
  case path => rfl
  case absolute => exact habs
  case readOnly => cases role <;> simp [Role.readOnly, Mount.ofAccessPoint, Mount.mountPoint]
  case shows_volume => rfl
  case listed => exact Inventory.mem_of_mem_accessPointsOf hmeant.mem
  case system => rfl
  case authorized => rfl
  case meant => exact hwanted ▸ hmeant
  case named => exact fun _ => htakes.fileSystem_eq
  case owned => exact hsystem

/-- In a job that was staged from an inventory, every role has a mount point and a volume that come
from one of its candidates. -/
theorem mounts_come_from_candidates
    (h : ((prepare config i.resolver storage request).run s).1.answer = .ok response) :
    let job := response.setup.job
    job.mountPoints.length = job.volumes.length ∧
    List.Forall₂ (fun entry part => ∃ c ∈ entry.2, ∃ chosen a,
        (Selection.select i.resolver (some config.envBase) request.placement.strategy
          (some (entry.1.seed request.execution.id)) entry.2).outcome = .ok chosen ∧
        Takes i.resolver (some config.envBase) request.placement.strategy c chosen ∧
        ComesFrom config i entry.1 c chosen a part)
      (roles request.placement) (job.mountPoints.zip job.volumes) := by
  intro job
  rw [run_prepare] at h
  obtain ⟨st, rfl, -⟩ := exists_stages_of_answer h
  have hpoints : job.mountPoints = st.mounts.all.map Mount.mountPoint := rfl
  have hvolumes : job.volumes = st.mounts.all.map Mount.volume := rfl
  rw [hpoints, hvolumes, List.length_map, List.length_map, List.zip_map']
  refine ⟨rfl, List.forall₂_map_right_iff.2 ?_⟩
  exact (forall₂_roles st.mounts_eq).imp fun entry m hrole => comesFrom_of_mountRole hrole

/-- Resources of another environment have the same names and come first, and the shared directory is
known by the name of an access point alone. Both mounts are of the environment at hand. -/
theorem mounts_come_from_candidates_of_sample :
    let outcome := ((prepare .standard crowdedInventory.resolver .acceptAll measuredRequest).run ()).1
    ∃ response, outcome.answer = .ok response ∧
      response.setup.job.volumes.map (fun v => (v.efs.fileSystem, v.efs.authorization)) =
        [("fs-2", some ⟨"fsap-3", "DISABLED"⟩), ("fs-2", some ⟨"fsap-2", "DISABLED"⟩)] ∧
      List.Forall₂ (fun entry part => ∃ c ∈ entry.2, ∃ chosen a,
          (Selection.select crowdedInventory.resolver (some "dev") .leastUtilized
            (some (entry.1.seed measuredRequest.execution.id)) entry.2).outcome = .ok chosen ∧
          Takes crowdedInventory.resolver (some "dev") .leastUtilized c chosen ∧
          ComesFrom .standard crowdedInventory entry.1 c chosen a part)
        (roles measuredRequest.placement)
        (response.setup.job.mountPoints.zip response.setup.job.volumes) := by
  intro outcome
  have hanswer : ∃ response, outcome.answer = .ok response ∧
      response.setup.job.volumes.map (fun v => (v.efs.fileSystem, v.efs.authorization)) =
        [("fs-2", some ⟨"fsap-3", "DISABLED"⟩), ("fs-2", some ⟨"fsap-2", "DISABLED"⟩)] :=
    ⟨_, rfl, rfl⟩
  obtain ⟨response, hresponse, hvolumes⟩ := hanswer
  obtain ⟨-, hcome⟩ := mounts_come_from_candidates hresponse
  exact ⟨response, hresponse, hvolumes, hcome⟩

end JobStaging.Assembly
