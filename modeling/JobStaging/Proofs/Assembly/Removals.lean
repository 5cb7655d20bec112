import JobStaging.Proofs.Assembly.Isolation
import JobStaging.Proofs.Assembly.Places
import JobStaging.Proofs.Digest

/-!
# What is removed after an execution

After its job an execution may ask for two removals: of the inputs that were copied for it, and of
its working directory. Each belongs to a mount, and should stay strictly below the root of the
mount's access point, which other executions use as well. The working directory does, for it has the
identifier of the execution as its name. An input goes by a local name, and there are local names
with which it does not: `.` is a relative path that never leads up, so it is taken, and it leads
nowhere at all. `removals_stay_below_iff` says that this is the only way to lose a whole mount.
-/

set_option autoImplicit false

namespace JobStaging

namespace Mount

variable {m : Mount} {e : EfsPath} {names : List String}

/-- A mount contains a place when the place lies strictly below the root of its access point, so
that at least one name leads down to it. -/
def Contains (m : Mount) (place : DataPath) : Prop :=
  ∃ e first rest, place = .efs e ∧ e.fileSystem = m.fileSystem ∧
    e.path.components = m.root.components ++ (first :: rest).map .name

/-- Of the places that names lead to, a mount contains all but its root. -/
theorem contains_iff (hsystem : e.fileSystem = m.fileSystem)
    (hplace : e.path.components = m.root.components ++ names.map .name) :
    m.Contains (.efs e) ↔ names ≠ [] := by
  constructor
  · rintro ⟨_, first, rest, heq, -, hbelow⟩ rfl
    cases heq
    rw [hplace] at hbelow
    simp at hbelow
  · intro hne
    obtain ⟨first, rest, rfl⟩ := List.exists_cons_of_ne_nil hne
    exact ⟨e, first, rest, rfl, hsystem, hplace⟩

end Mount

namespace Relocation

variable {given : Parameters} {base : MountedPath} {name : String} {d : DataBinding}

/-- An input leads nowhere when its data is to be copied under a local name that has no step, such
as `.` or `./.`. -/
def LeadsNowhere (given : Parameters) (name : String) : Prop :=
  ∃ binding localName, bindingOf given name = .ok binding ∧ binding.remote.isSome = true ∧
    binding.localName = some localName ∧ (Path.mk localName).steps = []

/-- A digest names an entry of a directory. -/
theorem isSegment_digestName (remote : DataPath) : Assembly.IsSegment (digestName remote) := by
  have hlength : (digestName remote).toList.length = 64 := Digest.length_sha256Hex _
  have hne : ∀ text : String, text.toList.length ≠ 64 → digestName remote ≠ text := by
    rintro _ htext rfl
    exact htext hlength
  exact ⟨hne "" (by decide), hne "." (by decide), hne ".." (by decide),
    Digest.slash_notMem_sha256Hex _⟩

/-- The name that an input goes by has no step exactly when the input leads nowhere: the digest that
stands in for a local name has one. -/
theorem steps_eq_nil_iff {binding : Binding} {remote : DataPath}
    (hbinding : bindingOf given name = .ok binding) (hremote : binding.remote = some remote) :
    (Path.mk (binding.localName.getD (digestName remote))).steps = [] ↔
      LeadsNowhere given name := by
  constructor
  · intro hsteps
    cases hlocal : binding.localName with
    | none =>
      rw [hlocal, Option.getD_none, Assembly.steps_of_isSegment (isSegment_digestName remote)]
        at hsteps
      cases hsteps
    | some localName =>
      rw [hlocal] at hsteps
      have hsome : binding.remote.isSome = true := by
        rw [hremote]
        rfl
      exact ⟨binding, localName, hbinding, hsome, hlocal, hsteps⟩
  · rintro ⟨binding', localName, hbinding', -, hlocal, hsteps⟩
    obtain rfl : binding = binding' := Except.ok.inj (hbinding.symm.trans hbinding')
    rw [hlocal]
    exact hsteps

/-- The data of an input lies below its base by some names, and by none if the input leads
nowhere. -/
theorem exists_names_of_input (h : input given base name = .ok (some d)) :
    ∃ names : List String,
      d.location.efs.fileSystem = base.efs.fileSystem ∧
      d.location.efs.path.components = base.efs.path.components ++ names.map .name ∧
      (names = [] ↔ LeadsNowhere given name) := by
  obtain ⟨binding, remote, hbinding, hremote, -, hinside, rfl⟩ := exists_binding_of_input h
  obtain ⟨names, hnames⟩ := Path.exists_steps_of_staysInside hinside
  refine ⟨names, rfl, ?_, ?_⟩
  · rw [← hnames]
    exact EfsPath.components_join base.efs (Path.isAbsolute_of_staysInside hinside)
  · rw [← steps_eq_nil_iff hbinding hremote, hnames]
    exact List.map_eq_nil_iff.symm

end Relocation

namespace Assembly

variable {σ : Type} {config : Config} {r : Resolver} {storage : Storage (StateM σ)}
  {request : Request} {s : σ} {response : Response}

/-- The removals that an execution asks for, with the mount that each of them belongs to: the places
that the inputs were copied to are those of the mount through which the job sees its inputs, and the
working directory is one of the mount of its role. -/
inductive RemovedFrom (request : Request) (mounts : Mounts) (copies : List SyncRequest)
    (working : EfsPath) : RemovalRequest → Mount → Prop
  | inputs (hasked : request.handling.cleanupInputs = true) :
      RemovedFrom request mounts copies working ⟨copies.map SyncRequest.destination⟩
        (mounts.ofInputs request.handling.isolateInputs)
  | working (hasked : request.handling.cleanupWorkingDir = true) :
      RemovedFrom request mounts copies working ⟨[.efs working]⟩ mounts.scratch

/-- The names that lead from the root of the mount of the inputs to the directory of the inputs. -/
def namesToInputs (isolateInputs : Bool) (executionId : String) : List String :=
  if isolateInputs then [executionId] else []

/-- The inputs are at the root of their mount when they are not isolated. -/
theorem namesToInputs_eq_nil_iff {isolate : Bool} {executionId : String} :
    namesToInputs isolate executionId = [] ↔ isolate = false := by
  cases isolate <;> simp [namesToInputs]

namespace Stages

/-- The shared directory is the root of its mount's access point. -/
theorem components_shared (st : Stages config r request) :
    st.dirs.shared.efs.fileSystem = st.mounts.shared.fileSystem ∧
      st.dirs.shared.efs.path.components = st.mounts.shared.root.components := by
  obtain ⟨hcontainer, -⟩ := mountedPath_eq_ok_iff.1 (directories_eq_ok_iff.1 st.dirs_eq).2.1
  have hmount : st.dirs.shared.container.components = st.mounts.shared.path.components ++ [] := by
    rw [hcontainer, List.append_nil]
  obtain ⟨hsystem, hplace⟩ := st.shows_shared.place st.isAbsolute_shared hmount
  rw [List.append_nil] at hplace
  exact ⟨hsystem, hplace⟩

/-- The directory of the inputs is the root of its mount, or lies below it under the identifier of
the execution. -/
theorem components_inputBase (st : Stages config r request) (isolate : Bool) :
    (Relocation.inputBase isolate st.dirs.shared st.dirs.working).efs.fileSystem =
        (st.mounts.ofInputs isolate).fileSystem ∧
      (Relocation.inputBase isolate st.dirs.shared st.dirs.working).efs.path.components =
        (st.mounts.ofInputs isolate).root.components ++
          (namesToInputs isolate request.execution.id).map .name := by
  cases isolate with
  | true => exact st.components_working
  | false =>
    obtain ⟨hsystem, hplace⟩ := st.components_shared
    refine ⟨hsystem, ?_⟩
    rw [show namesToInputs false _ = [] from rfl, List.map_nil, List.append_nil]
    exact hplace

/-- The place of an input lies strictly below the root of its mount, unless the inputs are shared
and this one leads nowhere. -/
theorem contains_input_iff (st : Stages config r request) {isolate : Bool} {name : String}
    {d : Relocation.DataBinding}
    (h : Relocation.input request.execution.parameters
      (Relocation.inputBase isolate st.dirs.shared st.dirs.working) name = .ok (some d)) :
    (st.mounts.ofInputs isolate).Contains (.efs d.location.efs) ↔
      ¬ (isolate = false ∧ Relocation.LeadsNowhere request.execution.parameters name) := by
  obtain ⟨hsystem, hbase⟩ := st.components_inputBase isolate
  obtain ⟨below, hsystem', hplace, hbelow⟩ := Relocation.exists_names_of_input h
  rw [hbase, List.append_assoc, ← List.map_append] at hplace
  rw [Mount.contains_iff (hsystem'.trans hsystem) hplace, ← namesToInputs_eq_nil_iff, ← hbelow]
  exact not_congr List.append_eq_nil_iff

/-- The working directory lies strictly below the root of its mount. -/
theorem contains_working (st : Stages config r request) :
    st.mounts.scratch.Contains (.efs st.dirs.working.efs) :=
  ⟨_, request.execution.id, [], rfl, st.components_working.1, st.components_working.2⟩

/-- Inputs are copied to where their data is looked for. -/
theorem destinations_eq (st : Stages config r request) :
    st.response.setup.syncs.map SyncRequest.destination =
      st.relocated.inputs.map fun b => .efs b.location.efs := List.map_map

/-- Nothing but the copied inputs and the working directory is removed. -/
theorem exists_removedFrom (st : Stages config r request) {removal : RemovalRequest}
    (h : removal ∈ st.response.cleanup.removals) :
    ∃ m, RemovedFrom request st.mounts st.response.setup.syncs st.dirs.working.efs removal m := by
  rcases st.mem_removals_iff.1 h with ⟨hasked, -, rfl⟩ | ⟨hasked, rfl⟩
  · rw [← st.destinations_eq]
    exact ⟨_, .inputs hasked⟩
  · exact ⟨_, .working hasked⟩

/-- When the inputs are to be removed and one was copied, all copies are. -/
theorem mem_removals_of_copies (st : Stages config r request)
    (hasked : request.handling.cleanupInputs = true) {place : DataPath}
    (hplace : place ∈ st.response.setup.syncs.map SyncRequest.destination) :
    ⟨st.response.setup.syncs.map SyncRequest.destination⟩ ∈ st.response.cleanup.removals := by
  rw [st.destinations_eq] at hplace ⊢
  obtain ⟨d, hd, -⟩ := List.mem_map.1 hplace
  exact st.mem_removals_iff.2 (.inl ⟨hasked, List.ne_nil_of_mem hd, rfl⟩)

/-- The removal of the inputs stays strictly below the root of their mount, unless the inputs are
shared and one of them leads nowhere. -/
theorem contains_copies_iff (st : Stages config r request) :
    (∀ place ∈ st.response.setup.syncs.map SyncRequest.destination,
      (st.mounts.ofInputs request.handling.isolateInputs).Contains place) ↔
        ¬ (request.handling.isolateInputs = false ∧ ∃ name ∈ request.execution.parameters.inputs,
          Relocation.LeadsNowhere request.execution.parameters name) := by
  rw [st.destinations_eq]
  constructor
  · rintro hplaces ⟨hshared, name, hname, hnowhere⟩
    -- An input that leads nowhere has a place outside, so it is among those that are copied.
    have hbinds : Relocation.bindsRemote request.execution.parameters name = true := by
      obtain ⟨binding, -, hbinding, hremote, -⟩ := hnowhere
      exact Relocation.bindsRemote_of_isSome hbinding hremote
    obtain ⟨d, hd, hinput⟩ := Relocation.exists_mem_of_bindsRemote st.relocated_eq hname hbinds
    have hcontains := hplaces _ (List.mem_map_of_mem hd)
    exact (st.contains_input_iff hinput).1 hcontains ⟨hshared, hnowhere⟩
  · intro hwell place hplace
    obtain ⟨d, hd, rfl⟩ := List.mem_map.1 hplace
    obtain ⟨name, hname, -, hinput⟩ := Relocation.exists_input_of_mem st.relocated_eq hd
    refine (st.contains_input_iff hinput).2 ?_
    rintro ⟨hshared, hnowhere⟩
    exact hwell ⟨hshared, name, hname, hnowhere⟩

end Stages

/-- Every removal in an answer is that of the copied inputs or that of the working directory. All of
them stay strictly below the root of the access point of the mount that they belong to, except when
the inputs are to be removed, are not isolated, and one of them has a local name that leads
nowhere. -/
theorem removals_stay_below_iff
    (h : ((prepare config r storage request).run s).1.answer = .ok response) :
    let given := request.execution.parameters
    ∃ mounts dirs,
      (mountAll config r request.execution.id request.placement).outcome = .ok mounts ∧
      directories mounts request.execution.id = .ok dirs ∧
      (∀ removal ∈ response.cleanup.removals,
        ∃ m, RemovedFrom request mounts response.setup.syncs dirs.working.efs removal m) ∧
      ((∀ removal ∈ response.cleanup.removals, ∀ m,
          RemovedFrom request mounts response.setup.syncs dirs.working.efs removal m →
            ∀ place ∈ removal.paths, m.Contains place) ↔
        ¬ (request.handling.cleanupInputs = true ∧ request.handling.isolateInputs = false ∧
          ∃ name ∈ given.inputs, Relocation.LeadsNowhere given name)) := by
  intro given
  rw [run_prepare] at h
  obtain ⟨st, rfl, -⟩ := exists_stages_of_answer h
  refine ⟨st.mounts, st.dirs, st.mounts_eq, st.dirs_eq, fun removal => st.exists_removedFrom, ?_⟩
  constructor
  · rintro hremovals ⟨hasked, hlost⟩
    refine st.contains_copies_iff.1 (fun place hplace => ?_) hlost
    exact hremovals _ (st.mem_removals_of_copies hasked hplace) _ (.inputs hasked) place hplace
  · intro hwell removal _ m hfrom
    cases hfrom with
    | inputs hasked =>
      exact st.contains_copies_iff.2 fun hlost => hwell ⟨hasked, hlost⟩
    | working hasked =>
      intro place hplace
      obtain rfl := List.mem_singleton.1 hplace
      exact st.contains_working

/-- The sample execution on a given value of its input, with everything cleaned up after it. -/
def cleanedRequest (reads : String) : Request :=
  { sampleRequest with
    execution := { sampleRequest.execution with
      parameters := { sampleParameters with
        values := OrderedMap.ofList [("READS", .literal reads), ("MODE", .literal "fast"),
          ("HITS", .literal "out//hits.txt/")] } }
    handling := { Handling.standard with cleanupInputs := true, cleanupWorkingDir := true } }

/-- Two removals, of a shared input with a name of its own and of the working directory. -/
theorem removals_stay_below_iff_of_sample :
    let outcome := ((prepare .standard sampleInventory.resolver .acceptAll
      (cleanedRequest "./in/. @ s3://data/reads.fq")).run ()).1
    ∃ response mounts dirs, outcome.answer = .ok response ∧
      response.cleanup.removals.length = 2 ∧
      directories mounts "run-1" = .ok dirs ∧
      ∀ removal ∈ response.cleanup.removals, ∃ m,
        RemovedFrom (cleanedRequest "./in/. @ s3://data/reads.fq") mounts response.setup.syncs
          dirs.working.efs removal m ∧
        ∀ place ∈ removal.paths, m.Contains place := by
  intro outcome
  have hanswer : ∃ response, outcome.answer = .ok response ∧
      response.cleanup.removals.length = 2 := ⟨_, rfl, rfl⟩
  obtain ⟨response, hresponse, hlength⟩ := hanswer
  obtain ⟨mounts, dirs, -, hdirs, hfrom, hstay⟩ := removals_stay_below_iff hresponse
  refine ⟨response, mounts, dirs, hresponse, hlength, hdirs, ?_⟩
  intro removal hremoval
  obtain ⟨m, hm⟩ := hfrom removal hremoval
  refine ⟨m, hm, hstay.2 ?_ removal hremoval m hm⟩
  rintro ⟨-, -, name, hname, binding, localName, hbinding, hremote, hlocal, hsteps⟩
  -- The one input has a step in its name, and the other is not copied.
  have hnames : name = "READS" ∨ name = "MODE" := by
    simpa [cleanedRequest, sampleRequest, sampleParameters] using hname
  rcases hnames with rfl | rfl
  · obtain rfl : ⟨some "./in/.", some (.s3 ⟨"data", "reads.fq", by decide, by decide⟩)⟩ =
      binding := Except.ok.inj hbinding
    cases hlocal
    exact absurd hsteps (by decide)
  · obtain rfl : ⟨some "fast", none⟩ = binding := Except.ok.inj hbinding
    cases hremote

/-- An input whose local name is a single `.`: the place that it is copied to, and that is removed
after the job, is the whole of the shared directory. -/
theorem removal_takes_a_whole_mount :
    let outcome := ((prepare .standard sampleInventory.resolver .acceptAll
      (cleanedRequest ". @ s3://data/reads.fq")).run ()).1
    ∃ response mounts dirs e, outcome.answer = .ok response ∧
      (mountAll .standard sampleInventory.resolver "run-1" sampleRequest.placement).outcome =
        .ok mounts ∧
      directories mounts "run-1" = .ok dirs ∧
      ⟨[.efs e]⟩ ∈ response.cleanup.removals ∧
      RemovedFrom (cleanedRequest ". @ s3://data/reads.fq") mounts response.setup.syncs
        dirs.working.efs ⟨[.efs e]⟩ mounts.shared ∧
      e.fileSystem = mounts.shared.fileSystem ∧
      e.path.components = mounts.shared.root.components ∧
      ¬ mounts.shared.Contains (.efs e) := by
  intro outcome
  have hanswer : ∃ response mounts dirs e, outcome.answer = .ok response ∧
      (mountAll .standard sampleInventory.resolver "run-1" sampleRequest.placement).outcome =
        .ok mounts ∧
      directories mounts "run-1" = .ok dirs ∧
      response.setup.syncs.map SyncRequest.destination = [.efs e] ∧
      response.cleanup.removals = [⟨[.efs e]⟩, ⟨[.efs dirs.working.efs]⟩] ∧
      e.fileSystem = mounts.shared.fileSystem ∧
      e.path.components = mounts.shared.root.components ++ ([] : List String).map .name :=
    ⟨_, _, _, _, rfl, rfl, rfl, rfl, rfl, rfl, by decide⟩
  obtain ⟨response, mounts, dirs, e, hresponse, hmounts, hdirs, hcopies, hremovals, hsystem,
    hplace⟩ := hanswer
  have hfrom : RemovedFrom (cleanedRequest ". @ s3://data/reads.fq") mounts response.setup.syncs
      dirs.working.efs ⟨response.setup.syncs.map SyncRequest.destination⟩ mounts.shared :=
    .inputs rfl
  rw [hcopies] at hfrom
  refine ⟨response, mounts, dirs, e, hresponse, hmounts, hdirs, ?_, hfrom, hsystem, ?_, ?_⟩
  · rw [hremovals]
    exact List.mem_cons_self
  · rw [hplace, List.map_nil, List.append_nil]
  · rw [Mount.contains_iff hsystem hplace]
    exact fun hne => hne rfl

end Assembly

end JobStaging
