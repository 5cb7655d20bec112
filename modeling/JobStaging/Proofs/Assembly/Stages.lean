import JobStaging.Assembly
import JobStaging.Proofs.Mount
import JobStaging.Proofs.Relocation

/-!
# The stages of a plan

Planning is a chain of steps of which any may refuse the request. `Stages` holds what each of them
finds for a request that none refuses, together with the fact that the step finds it; a plan comes
out exactly when there are such findings, and is made of them (`plan_eq_ok_iff`). Proofs about
answers start from the findings and never open the chain again.
-/

set_option autoImplicit false

namespace JobStaging.Assembly

variable {config : Config} {r : Resolver} {request : Request} {executionId : String}
  {placement : Placement} {strategy : Strategy} {role : Role} {candidates : List Candidate}
  {mounts : Mounts} {m : Mount} {dirs : Directories}

/-! ## Mounts -/

/-- An access point stands in where a candidate names none. -/
theorem accessPoint_withAccessPoint (name : String) (c : Candidate) :
    (withAccessPoint name c).accessPoint = some (c.accessPoint.getD name) := by
  unfold withAccessPoint
  cases c.accessPoint <;> rfl

/-- A role is mounted when a candidate is selected and, with the role's access point where it names
none, has a mount. -/
theorem mountRole_eq_ok_iff :
    (mountRole config r executionId strategy role candidates).outcome = .ok m ↔
      ∃ chosen, (Selection.select r (some config.envBase) strategy (some (role.seed executionId))
          candidates).outcome = .ok chosen ∧
        (Mount.resolve r (some config.envBase)
          (withAccessPoint (role.accessPoint config.accessPoints) chosen)
          (role.path config.mount) role.readOnly).outcome = .ok m := by
  unfold mountRole
  rw [Traced.outcome_bind, Fallible.bind_eq_ok_iff]

/-- Every role is mounted when each of them is. -/
theorem mountAll_eq_ok_iff : (mountAll config r executionId placement).outcome = .ok mounts ↔
    (mountRole config r executionId placement.strategy .scratch placement.scratch).outcome =
      .ok mounts.scratch ∧
    (mountRole config r executionId placement.strategy .shared placement.shared).outcome =
      .ok mounts.shared ∧
    (mountTmp config r executionId placement).outcome = .ok mounts.tmp := by
  unfold mountAll
  rw [Traced.outcome_bind, Fallible.bind_eq_ok_iff]
  simp only [Traced.outcome_bind, Fallible.bind_eq_ok_iff, Traced.outcome_pure, Except.ok.injEq]
  constructor
  · rintro ⟨scratch, hscratch, shared, hshared, tmp, htmp, rfl⟩
    exact ⟨hscratch, hshared, htmp⟩
  · rintro ⟨hscratch, hshared, htmp⟩
    exact ⟨_, hscratch, _, hshared, _, htmp, rfl⟩

/-- The temporary directory is mounted when there are candidates for it, and not otherwise. -/
theorem mountTmp_eq_ok_iff {tmp : Option Mount} :
    (mountTmp config r executionId placement).outcome = .ok tmp ↔
      List.Forall₂ (fun candidates m =>
          (mountRole config r executionId placement.strategy .tmp candidates).outcome = .ok m)
        placement.tmpCandidates.toList tmp.toList := by
  unfold mountTmp
  cases placement.tmpCandidates with
  | none => cases tmp <;> simp
  | some candidates =>
    dsimp only
    rw [Traced.outcome_map, Fallible.map_eq_ok_iff]
    cases tmp <;> simp

/-- The roles that an execution gets mounts for, in the order of the mounts, with the candidates of
each. -/
def roles (p : Placement) : List (Role × List Candidate) :=
  [(.shared, p.shared), (.scratch, p.scratch)] ++ p.tmpCandidates.toList.map fun cs => (.tmp, cs)

/-- Role by role, the mounts of an execution are those of its candidates. -/
theorem forall₂_roles (h : (mountAll config r executionId placement).outcome = .ok mounts) :
    List.Forall₂ (fun entry m =>
        (mountRole config r executionId placement.strategy entry.1 entry.2).outcome = .ok m)
      (roles placement) mounts.all := by
  obtain ⟨hscratch, hshared, htmp⟩ := mountAll_eq_ok_iff.1 h
  refine .cons hshared (.cons hscratch ?_)
  exact List.forall₂_map_left_iff.2 (mountTmp_eq_ok_iff.1 htmp)

/-- A role is mounted at an absolute path. -/
theorem isAbsolute_of_mountRole
    (h : (mountRole config r executionId strategy role candidates).outcome = .ok m) :
    m.path.isAbsolute = true := by
  obtain ⟨chosen, -, hresolve⟩ := mountRole_eq_ok_iff.1 h
  exact Mount.isAbsolute_of_resolve hresolve

/-- So is every one of them. -/
theorem isAbsolute_of_mem_all (h : (mountAll config r executionId placement).outcome = .ok mounts)
    (hm : m ∈ mounts.all) : m.path.isAbsolute = true := by
  obtain ⟨entry, -, hrole⟩ := Lists.exists_mem_of_forall₂ (forall₂_roles h) hm
  exact isAbsolute_of_mountRole hrole

/-- There is no collision exactly when all mounts are at different places. -/
theorem firstCollision_eq_none_iff {ms : List Mount} : Mounts.firstCollision ms = none ↔
    ms.Pairwise fun m n => m.path.components ≠ n.path.components := by
  induction ms with
  | nil => simp [Mounts.firstCollision]
  | cons m rest ih =>
    unfold Mounts.firstCollision
    rw [List.pairwise_cons]
    split
    · next hany =>
      obtain ⟨n, hn, hsame⟩ := List.any_eq_true.1 hany
      have hcomponents : m.path.components = n.path.components := by
        simpa [Path.sameAs] using hsame
      simp only [reduceCtorEq, false_iff, not_and]
      intro hdistinct
      exact absurd hcomponents (hdistinct n hn)
    · next hany =>
      rw [ih, iff_and_self]
      intro _ n hn hcomponents
      apply hany
      exact List.any_eq_true.2 ⟨n, hn, by simp [Path.sameAs, hcomponents]⟩

/-- Mounts pass when no two of them are at the same place in the container. -/
theorem checkDistinct_eq_ok_iff : mounts.checkDistinct = .ok () ↔
    mounts.all.Pairwise fun m n => m.path.components ≠ n.path.components := by
  rw [← firstCollision_eq_none_iff]
  unfold Mounts.checkDistinct
  cases Mounts.firstCollision mounts.all <;> simp

/-! ## Directories -/

/-- A path with its place is what the mount shows it as. -/
theorem mountedPath_eq_ok_iff {p : Path} {d : MountedPath} :
    mountedPath m p = .ok d ↔ d.container = p ∧ m.efsPath p = .ok d.efs := by
  unfold mountedPath
  rw [Fallible.map_eq_ok_iff]
  constructor
  · rintro ⟨e, he, rfl⟩
    exact ⟨rfl, he⟩
  · rintro ⟨rfl, he⟩
    exact ⟨d.efs, he, rfl⟩

/-- The working directory has the execution's name below the mount of its role, and the shared
directory is the mount itself; both have their places in the file systems of these mounts. -/
theorem directories_eq_ok_iff : directories mounts executionId = .ok dirs ↔
    mountedPath mounts.scratch (mounts.scratch.path.join ⟨executionId⟩) = .ok dirs.working ∧
    mountedPath mounts.shared mounts.shared.path = .ok dirs.shared ∧
    dirs.tmp = (mounts.tmp.map Mount.path).getD (mounts.scratch.path.join ⟨"tmp"⟩) := by
  unfold directories
  simp only [Fallible.bind_eq_ok_iff]
  constructor
  · rintro ⟨working, hworking, shared, hshared, h⟩
    cases h
    exact ⟨hworking, hshared, rfl⟩
  · rintro ⟨hworking, hshared, htmp⟩
    refine ⟨_, hworking, _, hshared, ?_⟩
    rw [← htmp]
    rfl

/-- A mount shows the paths that were given their places by it. -/
theorem shows_of_mountedPath {p : Path} {d : MountedPath} (h : mountedPath m p = .ok d) :
    m.Shows d := by
  obtain ⟨hcontainer, hefs⟩ := mountedPath_eq_ok_iff.1 h
  exact Mount.shows_of_efsPath (hcontainer ▸ hefs)

/-! ## Findings -/

/-- How the variables of a request are delivered once its directories and variables are known. -/
def deliveryOf (config : Config) (request : Request) (dirs : Directories)
    (vars : OrderedMap String) : Environment.Delivery :=
  Environment.plan config.fileThreshold request.execution.id (infrastructure config dirs) vars
    request.handling.envFileMode dirs.working

/-- What each step of planning finds for a request that no step refuses. -/
structure Stages (config : Config) (r : Resolver) (request : Request) where
  queue : String
  mounts : Mounts
  dirs : Directories
  relocated : Relocation.Relocated
  vars : OrderedMap String
  command : List String
  queue_eq : admittedQueue request = .ok queue
  mounts_eq : (mountAll config r request.execution.id request.placement).outcome = .ok mounts
  distinct : mounts.checkDistinct = .ok ()
  dirs_eq : directories mounts request.execution.id = .ok dirs
  relocated_eq : Relocation.relocate request.execution.parameters dirs.shared dirs.working
    request.handling.isolateInputs = .ok relocated
  vars_eq : Environment.jobVariables relocated.parameters = .ok vars
  command_eq : Environment.buildCommand relocated.parameters.command
    (deliveryOf config request dirs vars).preamble = .ok command

namespace Stages

/-- How the variables reach the job. -/
def delivery (st : Stages config r request) : Environment.Delivery :=
  deliveryOf config request st.dirs st.vars

/-- The answer that the findings make. -/
def response (st : Stages config r request) : Response :=
  ⟨{ request.execution with parameters := st.relocated.parameters },
    ⟨inputSyncs request.handling st.relocated.inputs,
      jobSpec config request.execution st.queue st.command st.delivery.inline st.mounts.all⟩,
    cleanup request.handling st.relocated st.dirs.working⟩

/-- The plan that the findings make. -/
def plan (st : Stages config r request) : Plan := ⟨st.response, st.delivery.file⟩

/-- The mount of the working directory lies at an absolute path. -/
theorem isAbsolute_scratch (st : Stages config r request) :
    st.mounts.scratch.path.isAbsolute = true :=
  isAbsolute_of_mountRole (mountAll_eq_ok_iff.1 st.mounts_eq).1

/-- The mount of the shared directory lies at an absolute path. -/
theorem isAbsolute_shared (st : Stages config r request) :
    st.mounts.shared.path.isAbsolute = true :=
  isAbsolute_of_mountRole (mountAll_eq_ok_iff.1 st.mounts_eq).2.1

/-- The removals are that of the inputs that were copied, if there are any, and that of the working
directory, as far as they are asked for. -/
theorem mem_removals_iff (st : Stages config r request) {removal : RemovalRequest} :
    removal ∈ st.response.cleanup.removals ↔
      request.handling.cleanupInputs = true ∧ st.relocated.inputs ≠ [] ∧
        removal = ⟨st.relocated.inputs.map fun b => .efs b.location.efs⟩ ∨
      request.handling.cleanupWorkingDir = true ∧ removal = ⟨[.efs st.dirs.working.efs]⟩ := by
  have hinputs : removal ∈ inputRemovals request.handling st.relocated.inputs ↔
      request.handling.cleanupInputs = true ∧ st.relocated.inputs ≠ [] ∧
        removal = ⟨st.relocated.inputs.map fun b => .efs b.location.efs⟩ := by
    unfold inputRemovals
    split
    · next h =>
      rw [Bool.and_eq_true, Bool.not_eq_true', List.isEmpty_eq_false_iff] at h
      rw [List.mem_singleton, and_iff_right h.1, and_iff_right h.2]
    · next h =>
      rw [Bool.and_eq_true, Bool.not_eq_true', List.isEmpty_eq_false_iff] at h
      exact iff_of_false List.not_mem_nil fun hasked => h ⟨hasked.1, hasked.2.1⟩
  have hworking : removal ∈ workingRemovals request.handling st.dirs.working ↔
      request.handling.cleanupWorkingDir = true ∧ removal = ⟨[.efs st.dirs.working.efs]⟩ := by
    unfold workingRemovals
    split
    · next h => rw [List.mem_singleton, and_iff_right h]
    · next h => exact iff_of_false List.not_mem_nil fun hasked => h hasked.1
  exact List.mem_append.trans (or_congr hinputs hworking)

/-- The working directory is shown by the mount of its role. -/
theorem shows_working (st : Stages config r request) : st.mounts.scratch.Shows st.dirs.working :=
  shows_of_mountedPath (directories_eq_ok_iff.1 st.dirs_eq).1

/-- The shared directory is shown by the mount of its role. -/
theorem shows_shared (st : Stages config r request) : st.mounts.shared.Shows st.dirs.shared :=
  shows_of_mountedPath (directories_eq_ok_iff.1 st.dirs_eq).2.1

end Stages

/-- A plan comes out exactly when every step finds something, and is made of the findings. -/
theorem plan_eq_ok_iff {p : Plan} : (plan config r request).outcome = .ok p ↔
    ∃ st : Stages config r request, st.plan = p := by
  unfold plan planMounted
  simp only [Traced.outcome_bind, Fallible.bind_eq_ok_iff, Traced.outcome_check_eq_ok_iff]
  constructor
  · rintro ⟨queue, hqueue, mounts, hmounts, _, hdistinct, dirs, hdirs, relocated, hrelocated, vars,
      hvars, command, hcommand, h⟩
    cases h
    exact ⟨⟨queue, mounts, dirs, relocated, vars, command, hqueue, hmounts, hdistinct, hdirs,
      hrelocated, hvars, hcommand⟩, rfl⟩
  · rintro ⟨st, rfl⟩
    exact ⟨_, st.queue_eq, _, st.mounts_eq, (), st.distinct, _, st.dirs_eq, _, st.relocated_eq, _,
      st.vars_eq, _, st.command_eq, rfl⟩

end JobStaging.Assembly
