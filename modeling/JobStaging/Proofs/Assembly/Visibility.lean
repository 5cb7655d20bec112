import JobStaging.Proofs.Assembly.EnvFile
import JobStaging.Proofs.Assembly.Places
import JobStaging.Proofs.Assembly.Volumes
import Mathlib.Data.List.Nodup

/-!
# What the container sees

Mounts may lie inside each other, and then the container sees at a path what the innermost of them
shows there. The path of a parameter, and that of the working directory, got its place from one
mount, the one of its role. That the copies and removals speak of what the job sees is true only if
this mount is the innermost one at the path. Mounts of one job are never at the same place, but one
may lie strictly inside another, and where it lies on the way to a path it hides what the path was
meant for. `own_mount_governs_iff` says that this is the only way in which the two come apart.
-/

set_option autoImplicit false

namespace JobStaging

variable {mounts : List Mount} {m n : Mount} {p : Path}

/-- A mount governs a path when it lies at the path or above it, and none of the mounts that do lies
further down: it is the one that the container sees there. -/
def Mount.Governs (mounts : List Mount) (p : Path) (m : Mount) : Prop :=
  m ∈ mounts ∧ m.path.components <+: p.components ∧
    ∀ n ∈ mounts, n.path.components <+: p.components →
      n.path.components.length ≤ m.path.components.length

/-- A mount hides another at a path when it lies strictly inside it, at the path or above. -/
def Mount.Hides (n m : Mount) (p : Path) : Prop :=
  m.path.components <+: n.path.components ∧ m.path.components ≠ n.path.components ∧
    n.path.components <+: p.components

/-- Whether a mount governs a path can be computed. -/
instance : Decidable (Mount.Governs mounts p m) := inferInstanceAs (Decidable (_ ∧ _ ∧ _))

/-- Whether a mount hides another can be computed. -/
instance : Decidable (Mount.Hides n m p) := inferInstanceAs (Decidable (_ ∧ _ ∧ _))

namespace Mount

/-- A mount above a path governs it unless another hides it there. -/
theorem governs_iff (hm : m ∈ mounts) (hp : m.path.components <+: p.components) :
    Governs mounts p m ↔ ∀ n ∈ mounts, ¬ Hides n m p := by
  constructor
  · rintro ⟨-, -, hlongest⟩ n hn ⟨hinside, hne, habove⟩
    exact hne (hinside.eq_of_length_le (hlongest n hn habove))
  · intro hhidden
    refine ⟨hm, hp, fun n hn habove => ?_⟩
    -- Two mounts above one path lie one inside the other.
    rcases List.prefix_or_prefix_of_prefix hp habove with hinside | hinside
    · have hsame : m.path.components = n.path.components :=
        not_not.1 fun hne => hhidden n hn ⟨hinside, hne, habove⟩
      rw [hsame]
    · exact hinside.length_le

/-- Among mounts at different places at most one governs a path. -/
theorem governs_unique
    (hdistinct : mounts.Pairwise fun m n => m.path.components ≠ n.path.components)
    (hm : Governs mounts p m) (hn : Governs mounts p n) : m = n := by
  obtain ⟨hmem, habove, hlongest⟩ := hm
  obtain ⟨hmem', habove', hlongest'⟩ := hn
  have hprefix : m.path.components <+: n.path.components :=
    List.prefix_of_prefix_length_le habove habove' (hlongest' m hmem habove)
  have hsame := hprefix.eq_of_length_le (hlongest n hmem' habove')
  have hnodup : (mounts.map fun m => m.path.components).Nodup := List.pairwise_map.2 hdistinct
  exact List.inj_on_of_nodup_map hnodup hmem hmem' hsame

end Mount

namespace Assembly

variable {σ : Type} {config : Config} {r : Resolver} {storage : Storage (StateM σ)}
  {request : Request} {s : σ} {response : Response}

/-- A path that the container sees was given its place by one of the mounts, and shows this place as
long as no other mount hides it there. -/
def SeenBy (mounts : Mounts) (m : Mount) (p : Path) (place : EfsPath) : Prop :=
  m ∈ mounts.all ∧ (∃ e, m.efsPath p = .ok e ∧ e.sameAs place = true) ∧
    (Mount.Governs mounts.all p m ↔ ∀ n ∈ mounts.all, ¬ Mount.Hides n m p)

/-- So it is with the path that is the value of a parameter. -/
def ValueSeenBy (mounts : Mounts) (m : Mount) (rewritten : Parameters) (name : String)
    (place : DataPath) : Prop :=
  ∃ path e, rewritten.values.get? name = some (.literal path) ∧ place = .efs e ∧
    SeenBy mounts m ⟨path⟩ e

/-- The mount of the inputs is one of the mounts. -/
theorem ofInputs_mem_all (mounts : Mounts) (isolate : Bool) :
    mounts.ofInputs isolate ∈ mounts.all := by
  cases isolate <;> simp [Mounts.ofInputs, Mounts.all]

/-- So is that of the working directory. -/
theorem scratch_mem_all (mounts : Mounts) : mounts.scratch ∈ mounts.all := by
  simp [Mounts.all]

namespace Stages

/-- A path that a mount gives its place is seen through that mount. -/
theorem seenBy (st : Stages config r request) {m : Mount} (hm : m ∈ st.mounts.all) {p : Path}
    {e place : EfsPath} (he : m.efsPath p = .ok e) (hsame : e.sameAs place = true) :
    SeenBy st.mounts m p place := by
  refine ⟨hm, ⟨e, he, hsame⟩, ?_⟩
  obtain ⟨after, hafter, -⟩ :=
    Mount.components_of_efsPath (isAbsolute_of_mem_all st.mounts_eq hm) he
  exact Mount.governs_iff hm ⟨after, hafter.symm⟩

/-- Where the value of a parameter leads, it is seen. -/
theorem valueSeenBy (st : Stages config r request) {m : Mount} (hm : m ∈ st.mounts.all)
    {name : String} {place : EfsPath}
    (hleads : LeadsTo m st.relocated.parameters name place) :
    ValueSeenBy st.mounts m st.relocated.parameters name (.efs place) := by
  obtain ⟨path, e, hvalue, he, hsame⟩ := hleads
  exact ⟨path, place, hvalue, rfl, st.seenBy hm he hsame⟩

/-- The job learns of its working directory as the container sees it. -/
theorem get?_workingDir (st : Stages config r request) :
    st.response.setup.job.environment.get? "WORKING_DIR" =
      some st.dirs.working.container.text := by
  apply st.get?_environment
  intro file
  cases file <;> rfl

end Stages

/-- The working directory, the inputs that are copied and the outputs have paths that the container
sees, and each path has got its place from one of the mounts of the job: those of the inputs from
the mount through which inputs are seen, the others from that of the working directory. The mount is
the one that governs the path, so that the container sees the place there, exactly when no mount
that lies strictly inside it lies at the path or above. At most one mount governs a path, and where
no mount lies strictly inside another, each path is governed by its own. -/
theorem own_mount_governs_iff
    (h : ((prepare config r storage request).run s).1.answer = .ok response) :
    let given := request.execution.parameters
    let rewritten := response.execution.parameters
    let job := response.setup.job
    ∃ mounts dirs,
      (mountAll config r request.execution.id request.placement).outcome = .ok mounts ∧
      directories mounts request.execution.id = .ok dirs ∧
      job.mountPoints = mounts.all.map Mount.mountPoint ∧
      job.volumes = mounts.all.map Mount.volume ∧
      job.environment.get? "WORKING_DIR" = some dirs.working.container.text ∧
      SeenBy mounts mounts.scratch dirs.working.container dirs.working.efs ∧
      List.Forall₂ (fun name sync => ValueSeenBy mounts
          (mounts.ofInputs request.handling.isolateInputs) rewritten name sync.destination)
        (given.inputs.filter (Relocation.bindsRemote given)) response.setup.syncs ∧
      List.Forall₂ (fun name sync => ValueSeenBy mounts mounts.scratch rewritten name sync.source)
        given.outputs response.cleanup.syncs ∧
      (∀ p m n, Mount.Governs mounts.all p m → Mount.Governs mounts.all p n → m = n) ∧
      ((∀ m ∈ mounts.all, ∀ n ∈ mounts.all,
          m.path.components <+: n.path.components → m.path.components = n.path.components) →
        ∀ p m place, SeenBy mounts m p place → Mount.Governs mounts.all p m) := by
  intro given rewritten job
  rw [run_prepare] at h
  obtain ⟨st, rfl, -⟩ := exists_stages_of_answer h
  obtain ⟨hcontainer, hefs⟩ := mountedPath_eq_ok_iff.1 (directories_eq_ok_iff.1 st.dirs_eq).1
  rw [← hcontainer] at hefs
  refine ⟨st.mounts, st.dirs, st.mounts_eq, st.dirs_eq, rfl, rfl, st.get?_workingDir,
    st.seenBy (scratch_mem_all _) hefs (EfsPath.sameAs_refl _), ?_, ?_, ?_, ?_⟩
  · refine st.forall₂_inputSyncs.imp fun name sync ⟨hbrings, _⟩ => ?_
    obtain ⟨binding, remote, place, -, -, -, hplace, hleads⟩ := hbrings
    rw [hplace]
    exact st.valueSeenBy (ofInputs_mem_all _ _) hleads
  · refine st.forall₂_outputSyncs.imp fun name sync ⟨htakes, _⟩ => ?_
    obtain ⟨place, hplace, hleads⟩ := htakes
    rw [hplace]
    exact st.valueSeenBy (scratch_mem_all _) hleads
  · intro p m n hm hn
    exact Mount.governs_unique (checkDistinct_eq_ok_iff.1 st.distinct) hm hn
  · rintro hnested p m place ⟨hm, -, hgoverns⟩
    exact hgoverns.2 fun n hn hhides => hhides.2.1 (hnested m hm n hn hhides.1)

/-- The shared directory lies inside the mount of the working directory, but not on the way to the
working directory itself. -/
theorem own_mount_governs_iff_of_sample :
    let outcome := ((prepare .standard (layoutInventory "fs-1" "fs-2").resolver .acceptAll
      (layoutRequest "run-1" ⟨"/opt/efs/shared"⟩ ⟨"/opt/efs"⟩ none)).run ()).1
    ∃ response mounts dirs, outcome.answer = .ok response ∧
      directories mounts "run-1" = .ok dirs ∧
      response.setup.job.environment.get? "WORKING_DIR" = some "/opt/efs/run-1" ∧
      dirs.working.efs.text = "fs-1:/jobs/run-1" ∧
      Mount.Governs mounts.all ⟨"/opt/efs/run-1"⟩ mounts.scratch ∧
      mounts.shared.path.components = mounts.scratch.path.components ++ [.name "shared"] := by
  intro outcome
  have hanswer : ∃ response mounts dirs, outcome.answer = .ok response ∧
      (mountAll .standard (layoutInventory "fs-1" "fs-2").resolver "run-1"
        (layoutRequest "run-1" ⟨"/opt/efs/shared"⟩ ⟨"/opt/efs"⟩ none).placement).outcome =
          .ok mounts ∧
      directories mounts "run-1" = .ok dirs ∧
      dirs.working.container.text = "/opt/efs/run-1" ∧
      dirs.working.efs.text = "fs-1:/jobs/run-1" ∧
      (∀ n ∈ mounts.all, ¬ Mount.Hides n mounts.scratch ⟨"/opt/efs/run-1"⟩) ∧
      mounts.shared.path.components = mounts.scratch.path.components ++ [.name "shared"] :=
    ⟨_, _, _, rfl, rfl, rfl, rfl, rfl, by decide, by decide⟩
  obtain ⟨response, mounts, dirs, hresponse, hmounts, hdirs, hcontainer, hefs, hhidden, hinside⟩ :=
    hanswer
  obtain ⟨mounts', dirs', hmounts', hdirs', -, -, hworking, ⟨-, -, hgoverns⟩, -⟩ :=
    own_mount_governs_iff hresponse
  obtain rfl : mounts = mounts' := Except.ok.inj (hmounts.symm.trans hmounts')
  obtain rfl : dirs = dirs' := Except.ok.inj (hdirs.symm.trans hdirs')
  have hpath : dirs.working.container = ⟨"/opt/efs/run-1"⟩ := by
    rw [← hcontainer]
  rw [hpath] at hgoverns hworking
  exact ⟨response, mounts, dirs, hresponse, hdirs, hworking, hefs, hgoverns.2 hhidden, hinside⟩

/-- An execution whose identifier is the name of the shared directory inside the mount of the
working directory: what its job sees as its working directory is the shared directory, which it
cannot write to, and not the place that is taken for its working directory elsewhere. -/
theorem working_directory_is_hidden :
    let outcome := ((prepare .standard (layoutInventory "fs-1" "fs-2").resolver .acceptAll
      (layoutRequest "shared" ⟨"/opt/efs/shared"⟩ ⟨"/opt/efs"⟩ none)).run ()).1
    ∃ response mounts dirs, outcome.answer = .ok response ∧
      (mountAll .standard (layoutInventory "fs-1" "fs-2").resolver "shared"
        (layoutRequest "shared" ⟨"/opt/efs/shared"⟩ ⟨"/opt/efs"⟩ none).placement).outcome =
          .ok mounts ∧
      directories mounts "shared" = .ok dirs ∧
      response.setup.job.environment.get? "WORKING_DIR" = some "/opt/efs/shared" ∧
      mounts.scratch.efsPath ⟨"/opt/efs/shared"⟩ = .ok dirs.working.efs ∧
      dirs.working.efs.text = "fs-1:/jobs/shared" ∧
      Mount.Governs mounts.all ⟨"/opt/efs/shared"⟩ mounts.shared ∧
      ¬ Mount.Governs mounts.all ⟨"/opt/efs/shared"⟩ mounts.scratch ∧
      mounts.shared.fileSystem = "fs-2" ∧ mounts.shared.readOnly = true :=
  ⟨_, _, _, rfl, rfl, rfl, rfl, rfl, rfl, by decide, by decide, rfl, rfl⟩

end Assembly

end JobStaging
