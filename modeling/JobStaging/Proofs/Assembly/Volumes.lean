import JobStaging.Proofs.Assembly.Running
import JobStaging.Proofs.Path.Slug

/-!
# The volumes of one job

A mount point says which volume it shows by the volume's name, so the names of one job must differ.
A name is made of the identifier of the file system, a hyphen and the slug of the path. The slug
tells the path, but identifiers are free texts: where one of them is another with a hyphen and more
after it, the name does not tell where the identifier ends. `volumeNameOf_eq_iff` says exactly when
two names are the same, and `volumes_told_apart_iff` what this means for the volumes of a job.
-/

set_option autoImplicit false

namespace JobStaging

namespace Mount

variable {m : Mount} {f g : String} {p q : Path}

/-- A second file system and path have the name of a first when the second identifier is the first
with a hyphen and the beginning of the first path's slug after it. -/
def RunsInto (f : String) (p : Path) (g : String) (q : Path) : Prop :=
  Lists.RunsInto "-" f p.slug g q.slug

/-- Two volumes have the same name exactly when they show the same file system at the same place, or
one identifier runs into the slug of the other's path. -/
theorem volumeNameOf_eq_iff (hp : p.isAbsolute = true) (hq : q.isAbsolute = true) :
    volumeNameOf f p = volumeNameOf g q ↔
      f = g ∧ p.components = q.components ∨ RunsInto f p g q ∨ RunsInto g q f p := by
  have hending : volumeNameOf f p = volumeNameOf g q ↔
      f ++ "-" ++ p.slug = g ++ "-" ++ q.slug := by
    unfold volumeNameOf
    rw [String.append_left_inj]
  rw [hending, ← Path.slug_eq_iff_of_isAbsolute hp hq]
  exact Lists.append_separator_eq_iff '-'

end Mount

namespace Assembly

variable {σ : Type} {config : Config} {r : Resolver} {storage : Storage (StateM σ)}
  {request : Request} {s : σ} {response : Response} {m n : Mount}

/-- What the mount of a role is made of: an access point that the resolver answered with. -/
theorem exists_accessPoint_of_mountRole {executionId : String} {strategy : Strategy} {role : Role}
    {candidates : List Candidate}
    (h : (mountRole config r executionId strategy role candidates).outcome = .ok m) :
    ∃ name owner a, r.accessPoint name owner (some config.envBase) = .ok a ∧
      m = Mount.ofAccessPoint m.path role.readOnly a := by
  obtain ⟨chosen, -, hresolve⟩ := mountRole_eq_ok_iff.1 h
  obtain ⟨-, name, owner, a, -, -, ha, -, rfl⟩ := Mount.resolve_eq_ok_iff.1 hresolve
  exact ⟨name, _, a, ha, rfl⟩

/-- A mount point and a volume serve a role when they are of the mount that the role's candidates
have: the point shows the volume, and the volume the access point that the mount is made of, which
is one that the resolver answered with. -/
def Serves (config : Config) (r : Resolver) (request : Request) (entry : Role × List Candidate)
    (part : Batch.MountPoint × Batch.Volume) : Prop :=
  ∃ m name owner a,
    (mountRole config r request.execution.id request.placement.strategy entry.1 entry.2).outcome =
      .ok m ∧
    r.accessPoint name owner (some config.envBase) = .ok a ∧
    m = Mount.ofAccessPoint m.path entry.1.readOnly a ∧
    part.1 = ⟨m.path.text, entry.1.readOnly, part.2.name⟩ ∧
    part.2.name = Mount.volumeNameOf a.fileSystem m.path ∧
    part.2.efs.fileSystem = a.fileSystem ∧
    part.2.efs.authorization.map Batch.Authorization.accessPoint = some a.id

/-- Two mounts of a job are confused when the names of their volumes can be read as each other. -/
def Confused (m n : Mount) : Prop :=
  Mount.RunsInto m.fileSystem m.path n.fileSystem n.path ∨
    Mount.RunsInto n.fileSystem n.path m.fileSystem m.path

namespace Stages

/-- The mount points and volumes of a job serve its roles, in their order. -/
theorem forall₂_serves (st : Stages config r request) :
    List.Forall₂ (Serves config r request) (roles request.placement)
      (st.response.setup.job.mountPoints.zip st.response.setup.job.volumes) := by
  have hzip : st.response.setup.job.mountPoints.zip st.response.setup.job.volumes =
      st.mounts.all.map fun m => (m.mountPoint, m.volume) := List.zip_map' ..
  rw [hzip]
  refine List.forall₂_map_right_iff.2 ((forall₂_roles st.mounts_eq).imp fun entry m hrole => ?_)
  obtain ⟨name, owner, a, ha, hm⟩ := exists_accessPoint_of_mountRole hrole
  refine ⟨m, name, owner, a, hrole, ha, hm, ?_, ?_, ?_, ?_⟩
  all_goals rw [hm]; rfl

/-- The name of a mount's volume is made of the file system and the path. -/
theorem volumeName_eq (st : Stages config r request) (hm : m ∈ st.mounts.all) :
    m.volumeName = Mount.volumeNameOf m.fileSystem m.path := by
  obtain ⟨entry, -, hrole⟩ := Lists.exists_mem_of_forall₂ (forall₂_roles st.mounts_eq) hm
  obtain ⟨name, owner, a, -, hm⟩ := exists_accessPoint_of_mountRole hrole
  rw [hm]
  rfl

/-- Two mounts at different places have volumes of one name exactly when they are confused. -/
theorem volumeName_eq_iff (st : Stages config r request) (hm : m ∈ st.mounts.all)
    (hn : n ∈ st.mounts.all) (hne : m.path.components ≠ n.path.components) :
    m.volumeName = n.volumeName ↔ Confused m n := by
  have habs := isAbsolute_of_mem_all st.mounts_eq hm
  have habs' := isAbsolute_of_mem_all st.mounts_eq hn
  rw [st.volumeName_eq hm, st.volumeName_eq hn, Mount.volumeNameOf_eq_iff habs habs',
    or_iff_right fun h => hne h.2]
  rfl

/-- The volumes of a job have different names exactly when no two of its mounts are confused. -/
theorem nodup_names_iff (st : Stages config r request) :
    (st.response.setup.job.volumes.map Batch.Volume.name).Nodup ↔
      st.mounts.all.Pairwise fun m n => ¬ Confused m n := by
  have hnames : st.response.setup.job.volumes.map Batch.Volume.name =
      st.mounts.all.map Mount.volumeName := List.map_map
  have hdistinct := checkDistinct_eq_ok_iff.1 st.distinct
  rw [hnames, List.Nodup, List.pairwise_map]
  constructor
  · intro h
    refine (hdistinct.and h).imp_of_mem fun hm hn hboth hconfused => ?_
    exact hboth.2 ((st.volumeName_eq_iff hm hn hboth.1).2 hconfused)
  · intro h
    refine (hdistinct.and h).imp_of_mem fun hm hn hboth hname => ?_
    exact hboth.2 ((st.volumeName_eq_iff hm hn hboth.1).1 hname)

end Stages

/-- In a job each role is served by a mount point and the volume that it shows, and the volume shows
the access point that was found for the role. The names of the volumes differ exactly when no two
mounts are confused, and so whenever no file system's identifier is another's with a hyphen and more
after it. Whatever the file systems and the absolute paths, names are the same only for the same
file system and place, or for a pair of which one identifier runs into the other's slug. -/
theorem volumes_told_apart_iff
    (h : ((prepare config r storage request).run s).1.answer = .ok response) :
    let job := response.setup.job
    let names := job.volumes.map Batch.Volume.name
    ∃ mounts, (mountAll config r request.execution.id request.placement).outcome = .ok mounts ∧
      job.mountPoints.length = job.volumes.length ∧
      List.Forall₂ (Serves config r request) (roles request.placement)
        (job.mountPoints.zip job.volumes) ∧
      (names.Nodup ↔ mounts.all.Pairwise fun m n => ¬ Confused m n) ∧
      ((∀ v ∈ job.volumes, ∀ w ∈ job.volumes,
        ¬ ∃ more, w.efs.fileSystem = v.efs.fileSystem ++ "-" ++ more) → names.Nodup) ∧
      ∀ (f g : String) (p q : Path), p.isAbsolute = true → q.isAbsolute = true →
        (Mount.volumeNameOf f p = Mount.volumeNameOf g q ↔
          f = g ∧ p.components = q.components ∨
            Mount.RunsInto f p g q ∨ Mount.RunsInto g q f p) := by
  intro job names
  rw [run_prepare] at h
  obtain ⟨st, rfl, -⟩ := exists_stages_of_answer h
  refine ⟨st.mounts, st.mounts_eq, ?_, st.forall₂_serves, st.nodup_names_iff, ?_,
    fun f g p q => Mount.volumeNameOf_eq_iff⟩
  · show (st.mounts.all.map Mount.mountPoint).length = (st.mounts.all.map Mount.volume).length
    rw [List.length_map, List.length_map]
  · intro hids
    apply st.nodup_names_iff.2
    have hapart : ∀ m ∈ st.mounts.all, ∀ n ∈ st.mounts.all,
        ¬ Mount.RunsInto m.fileSystem m.path n.fileSystem n.path := by
      rintro m hm n hn ⟨more, hmore, -⟩
      exact hids m.volume (List.mem_map_of_mem hm) n.volume (List.mem_map_of_mem hn) ⟨more, hmore⟩
    refine List.pairwise_of_forall_mem_list fun m hm n hn => ?_
    rintro (hruns | hruns)
    · exact hapart m hm n hn hruns
    · exact hapart n hn m hm hruns

/-! ## Layouts of a sample -/

/-- An access point for the jobs and one for what they share, in given file systems. -/
def layoutInventory (jobs shared : String) : Inventory :=
  ⟨[], [⟨"fsap-1", jobs, none, ⟨"/jobs"⟩, .empty⟩, ⟨"fsap-2", shared, none, ⟨"/"⟩, .empty⟩]⟩

/-- The sample execution under a given identifier, with its mounts at given places. -/
def layoutRequest (id : String) (shared scratch : Path) (tmp : Option Path) : Request :=
  { sampleRequest with
    execution := { sampleRequest.execution with id := id }
    placement :=
      ⟨[⟨none, some "fsap-2", some shared⟩], [⟨none, some "fsap-1", some scratch⟩],
        tmp.map fun path => [⟨none, some "fsap-1", some path⟩], .random⟩ }

/-- Mounts at three paths that differ in a separator only. -/
def similarPaths : Request :=
  layoutRequest "run-1" ⟨"/opt/efs-x"⟩ ⟨"/opt//efs/x"⟩ (some ⟨"/opt/efs_x"⟩)

/-- Three mounts of one file system, at paths of which a careless slug would make the same. -/
theorem volumes_told_apart_iff_of_sample :
    let outcome := ((prepare .standard (layoutInventory "fs-1" "fs-1").resolver .acceptAll
      similarPaths).run ()).1
    ∃ response, outcome.answer = .ok response ∧
      response.setup.job.volumes.map Batch.Volume.name =
        ["fs-1-opt-efs_-x-vol", "fs-1-opt-efs-x-vol", "fs-1-opt-efs__x-vol"] ∧
      (response.setup.job.volumes.map Batch.Volume.name).Nodup ∧
      List.Forall₂ (Serves .standard (layoutInventory "fs-1" "fs-1").resolver similarPaths)
        (roles similarPaths.placement)
        (response.setup.job.mountPoints.zip response.setup.job.volumes) := by
  intro outcome
  have hanswer : ∃ response, outcome.answer = .ok response ∧
      response.setup.job.volumes.map Batch.Volume.name =
        ["fs-1-opt-efs_-x-vol", "fs-1-opt-efs-x-vol", "fs-1-opt-efs__x-vol"] ∧
      response.setup.job.volumes.map (fun v => v.efs.fileSystem) = ["fs-1", "fs-1", "fs-1"] :=
    ⟨_, rfl, rfl, rfl⟩
  obtain ⟨response, hresponse, hnames, hsystems⟩ := hanswer
  obtain ⟨-, -, -, hserves, -, hapart, -⟩ := volumes_told_apart_iff hresponse
  refine ⟨response, hresponse, hnames, hapart ?_, hserves⟩
  have hsystem : ∀ v ∈ response.setup.job.volumes, v.efs.fileSystem = "fs-1" := by
    intro v hv
    have hmem := List.mem_map_of_mem (f := fun v : Batch.Volume => v.efs.fileSystem) hv
    rw [hsystems] at hmem
    simpa using hmem
  rintro v hv w hw ⟨more, hmore⟩
  rw [hsystem v hv, hsystem w hw] at hmore
  have hlength := congrArg String.length hmore
  have hlonger : "fs-1".length < ("fs-1" ++ "-").length := by decide
  rw [String.length_append] at hlength
  omega

/-- A job whose two volumes have one name: the identifier of the one file system goes on where the
other's ends, and makes up for a shorter path. -/
theorem volumes_share_a_name :
    let outcome := ((prepare .standard (layoutInventory "fs-1-a" "fs-1").resolver .acceptAll
      (layoutRequest "run-1" ⟨"/a/b"⟩ ⟨"/b"⟩ none)).run ()).1
    ∃ response, outcome.answer = .ok response ∧
      response.setup.job.volumes.map (fun v => v.efs.fileSystem) = ["fs-1", "fs-1-a"] ∧
      response.setup.job.volumes.map Batch.Volume.name = ["fs-1-a-b-vol", "fs-1-a-b-vol"] ∧
      ¬ (response.setup.job.volumes.map Batch.Volume.name).Nodup := by
  intro outcome
  have hanswer : ∃ response, outcome.answer = .ok response ∧
      response.setup.job.volumes.map (fun v => v.efs.fileSystem) = ["fs-1", "fs-1-a"] ∧
      response.setup.job.volumes.map Batch.Volume.name = ["fs-1-a-b-vol", "fs-1-a-b-vol"] :=
    ⟨_, rfl, rfl, rfl⟩
  obtain ⟨response, hresponse, hsystems, hnames⟩ := hanswer
  refine ⟨response, hresponse, hsystems, hnames, ?_⟩
  rw [hnames]
  decide

end Assembly

end JobStaging
