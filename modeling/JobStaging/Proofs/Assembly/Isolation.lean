import JobStaging.Proofs.Assembly.EnvFile

/-!
# Executions that keep apart

An execution with isolated inputs has all its data in its working directory, whose name is the
identifier of the execution. Identifiers are single segments and local names never lead up, so the
working directories of two executions lie side by side, and nothing that is done for the one reaches
the other's (`isolated_runs_keep_apart`).
-/

set_option autoImplicit false

namespace JobStaging

namespace EfsPath

variable {e base : EfsPath} {p : Path}

/-- A place lies in a directory when it is in the same file system and only names lead down to it
from there. -/
def LiesIn (e base : EfsPath) : Prop :=
  e.fileSystem = base.fileSystem ∧
    ∃ names : List String, e.path.components = base.path.components ++ names.map .name

/-- A place lies in itself. -/
theorem LiesIn.refl (e : EfsPath) : e.LiesIn e := ⟨rfl, [], (List.append_nil _).symm⟩

/-- What is joined to a directory and stays inside lies in it. -/
theorem liesIn_join (base : EfsPath) (hp : p.staysInside = true) : (base.join p).LiesIn base := by
  obtain ⟨names, hnames⟩ := Path.exists_steps_of_staysInside hp
  refine ⟨rfl, names, ?_⟩
  rw [components_join base (Path.isAbsolute_of_staysInside hp), hnames]

end EfsPath

namespace Relocation

variable {p : Parameters} {base : MountedPath} {name : String} {d : DataBinding}

/-- The data of an input lies in the directory that it is looked for in. -/
theorem liesIn_of_input (h : input p base name = .ok (some d)) :
    d.location.efs.LiesIn base.efs := by
  obtain ⟨localName, -, hinside, hlocation⟩ := exists_localName_of_input h
  rw [hlocation]
  exact EfsPath.liesIn_join base.efs hinside

/-- The data of an output lies in the working directory. -/
theorem liesIn_of_output (h : output p base name = .ok d) : d.location.efs.LiesIn base.efs := by
  obtain ⟨localName, -, hinside, hlocation⟩ := exists_localName_of_output h
  rw [hlocation]
  exact EfsPath.liesIn_join base.efs hinside

end Relocation

namespace Assembly

variable {config config' : Config} {r r' : Resolver} {request request' : Request}

/-- The places that are changed for an execution: the file that is written, where inputs are copied
to, where outputs are taken from, and what is removed. -/
def touched (writes : List Write) (response : Response) : List DataPath :=
  writes.map (fun w => .efs w.path) ++ response.setup.syncs.map SyncRequest.destination ++
    response.cleanup.syncs.map SyncRequest.source ++
    response.cleanup.removals.flatMap RemovalRequest.paths

namespace Stages

/-- The data of an isolated input lies in the working directory. -/
theorem liesIn_of_mem_inputs (st : Stages config r request)
    (hisolated : request.handling.isolateInputs = true) {d : Relocation.DataBinding}
    (hd : d ∈ st.relocated.inputs) : d.location.efs.LiesIn st.dirs.working.efs := by
  obtain ⟨name, -, -, hinput⟩ := Relocation.exists_input_of_mem st.relocated_eq hd
  rw [hisolated] at hinput
  exact Relocation.liesIn_of_input hinput

/-- All data of outputs lies in the working directory. -/
theorem liesIn_of_mem_outputs (st : Stages config r request) {d : Relocation.DataBinding}
    (hd : d ∈ st.relocated.outputs) : d.location.efs.LiesIn st.dirs.working.efs := by
  have hfound := Relocation.forall₂_outputs st.relocated_eq
  obtain ⟨name, -, houtput⟩ := Lists.exists_mem_of_forall₂ hfound hd
  exact Relocation.liesIn_of_output houtput

/-- The file of variables lies in the working directory. -/
theorem liesIn_of_file (st : Stages config r request) {file : Environment.EnvFile}
    (hfile : st.delivery.file = some file) : file.path.LiesIn st.dirs.working.efs := by
  rcases st.delivery_cases with hdelivery | hdelivery
  · rw [(st.of_deliverByFile hdelivery).1] at hfile
    cases hfile
    exact EfsPath.liesIn_join st.dirs.working.efs (by decide)
  · rw [(st.of_deliverInline hdelivery).1] at hfile
    cases hfile

/-- What is removed after an isolated execution lies in its working directory. -/
theorem liesIn_of_mem_removals (st : Stages config r request)
    (hisolated : request.handling.isolateInputs = true) {removal : RemovalRequest}
    (hremoval : removal ∈ st.response.cleanup.removals) {place : DataPath}
    (hplace : place ∈ removal.paths) :
    ∃ e, place = .efs e ∧ e.LiesIn st.dirs.working.efs := by
  rcases st.mem_removals_iff.1 hremoval with ⟨-, -, rfl⟩ | ⟨-, rfl⟩
  · obtain ⟨d, hd, rfl⟩ := List.mem_map.1 hplace
    exact ⟨_, rfl, st.liesIn_of_mem_inputs hisolated hd⟩
  · obtain rfl := List.mem_singleton.1 hplace
    exact ⟨_, rfl, .refl _⟩

/-- Everything that is changed for an isolated execution lies in its working directory. -/
theorem liesIn_of_mem_touched (st : Stages config r request)
    (hisolated : request.handling.isolateInputs = true) {place : DataPath}
    (hplace : place ∈ touched
      (st.delivery.file.toList.map fun file => ⟨file.path, file.content, none⟩) st.response) :
    ∃ e, place = .efs e ∧ e.LiesIn st.dirs.working.efs := by
  unfold touched at hplace
  simp only [List.mem_append, or_assoc] at hplace
  rcases hplace with hwrite | hinput | houtput | hremoval
  · rw [List.map_map] at hwrite
    obtain ⟨file, hfile, rfl⟩ := List.mem_map.1 hwrite
    exact ⟨_, rfl, st.liesIn_of_file (Option.mem_toList.1 hfile)⟩
  · obtain ⟨sync, hsync, rfl⟩ := List.mem_map.1 hinput
    obtain ⟨d, hd, rfl⟩ := List.mem_map.1 hsync
    exact ⟨_, rfl, st.liesIn_of_mem_inputs hisolated hd⟩
  · obtain ⟨sync, hsync, rfl⟩ := List.mem_map.1 houtput
    obtain ⟨d, hd, rfl⟩ := List.mem_map.1 hsync
    exact ⟨_, rfl, st.liesIn_of_mem_outputs hd⟩
  · obtain ⟨removal, hmem, hpath⟩ := List.mem_flatMap.1 hremoval
    exact st.liesIn_of_mem_removals hisolated hmem hpath

end Stages

/-- An entry of a directory lies above something in another only if they have one name. -/
theorem append_name_prefix_iff {root after : List Path.Component} {id id' : String} :
    root ++ [.name id'] <+: root ++ .name id :: after ↔ id' = id := by
  rw [List.prefix_append_right_inj, List.cons_prefix_cons]
  simp

/-- Directories of different names side by side: neither is the other, and neither lies above
anything in the other. -/
theorem not_prefix_of_ne {root : List Path.Component} {id id' : String} (hids : id ≠ id')
    (after : List Path.Component) : ¬ root ++ [.name id'] <+: root ++ [.name id] ++ after := by
  rw [List.append_assoc, List.singleton_append, append_name_prefix_iff]
  exact hids.symm

variable {σ σ' : Type} {storage : Storage (StateM σ)} {storage' : Storage (StateM σ')} {s : σ}
  {s' : σ'} {response response' : Response} {mounts mounts' : Mounts}

/-- Two executions under different identifiers whose working directories lie below the same root
have working directories of which neither is the other or lies above it. Everything that is written,
copied to, taken from or removed for the first one, if its inputs are isolated, lies in its own
working directory, and so not in the other's. -/
theorem isolated_runs_keep_apart
    (h : ((prepare config r storage request).run s).1.answer = .ok response)
    (h' : ((prepare config' r' storage' request').run s').1.answer = .ok response')
    (hmounts : (mountAll config r request.execution.id request.placement).outcome = .ok mounts)
    (hmounts' : (mountAll config' r' request'.execution.id request'.placement).outcome = .ok mounts')
    (hisolated : request.handling.isolateInputs = true)
    (hids : request.execution.id ≠ request'.execution.id)
    (hroot : mounts.scratch.root.components = mounts'.scratch.root.components) :
    let working := mounts.scratch.root.components ++ [.name request.execution.id]
    let working' := mounts'.scratch.root.components ++ [.name request'.execution.id]
    (∃ dirs dirs', directories mounts request.execution.id = .ok dirs ∧
      directories mounts' request'.execution.id = .ok dirs' ∧
      dirs.working.efs.path.components = working ∧
      dirs'.working.efs.path.components = working') ∧
    ¬ working <+: working' ∧ ¬ working' <+: working ∧
    ∀ place ∈ touched (run config r storage request s).writes response,
      ∃ e, place = .efs e ∧ e.fileSystem = mounts.scratch.fileSystem ∧
        (∃ names : List String, e.path.components = working ++ names.map .name) ∧
        ¬ working' <+: e.path.components := by
  intro working working'
  rw [run_prepare] at h h'
  obtain ⟨st, rfl, hwrites⟩ := exists_stages_of_answer h
  obtain ⟨st', rfl, -⟩ := exists_stages_of_answer h'
  obtain rfl : st.mounts = mounts := Except.ok.inj (st.mounts_eq.symm.trans hmounts)
  obtain rfl : st'.mounts = mounts' := Except.ok.inj (st'.mounts_eq.symm.trans hmounts')
  obtain ⟨hsystem, hworking⟩ := st.components_working
  have hapart : ∀ after, ¬ working' <+: working ++ after := by
    intro after
    show ¬ st'.mounts.scratch.root.components ++ _ <+: _
    rw [← hroot]
    exact not_prefix_of_ne hids after
  have hapart' : ¬ working <+: working' := by
    have hne := @not_prefix_of_ne st'.mounts.scratch.root.components _ _ hids.symm []
    rw [List.append_nil] at hne
    show ¬ st.mounts.scratch.root.components ++ _ <+: _
    rw [hroot]
    exact hne
  refine ⟨⟨st.dirs, st'.dirs, st.dirs_eq, st'.dirs_eq, hworking, st'.components_working.2⟩,
    hapart', ?_, ?_⟩
  · have hself := hapart []
    rw [List.append_nil] at hself
    exact hself
  · intro place hplace
    rw [hwrites] at hplace
    obtain ⟨e, rfl, hsame, names, hnames⟩ := st.liesIn_of_mem_touched hisolated hplace
    rw [hworking] at hnames
    refine ⟨e, rfl, hsame.trans hsystem, ⟨names, hnames⟩, ?_⟩
    rw [hnames]
    exact hapart _

/-- An execution with its inputs to itself and everything cleaned up after it. -/
def isolatedRequest (id : String) : Request :=
  { sampleRequest with
    execution := { sampleRequest.execution with id := id }
    handling := { Handling.standard with
      isolateInputs := true, cleanupInputs := true, cleanupWorkingDir := true } }

/-- Two executions of which one has an identifier that begins the other's. Five places are changed
for the first. -/
theorem isolated_runs_keep_apart_of_sample :
    let outcome := ((prepare .standard sampleInventory.resolver .acceptAll
      (isolatedRequest "run-1")).run ()).1
    let outcome' := ((prepare .standard sampleInventory.resolver .acceptAll
      (isolatedRequest "run-10")).run ()).1
    let writes := (run .standard sampleInventory.resolver .acceptAll
      (isolatedRequest "run-1") ()).writes
    let root : List Path.Component := [.root, .name "jobs"]
    ∃ response response', outcome.answer = .ok response ∧ outcome'.answer = .ok response' ∧
      (touched writes response).length = 5 ∧
      ∀ place ∈ touched writes response, ∃ e, place = .efs e ∧ e.fileSystem = "fs-1" ∧
        (∃ names : List String,
          e.path.components = root ++ [.name "run-1"] ++ names.map .name) ∧
        ¬ root ++ [.name "run-10"] <+: e.path.components := by
  intro outcome outcome' writes root
  have hanswer : ∃ response, outcome.answer = .ok response ∧
      (touched writes response).length = 5 := ⟨_, rfl, rfl⟩
  have hanswer' : ∃ response', outcome'.answer = .ok response' := ⟨_, rfl⟩
  have hmounts : ∃ mounts,
      (mountAll .standard sampleInventory.resolver "run-1" sampleRequest.placement).outcome =
        .ok mounts ∧
      (mountAll .standard sampleInventory.resolver "run-10" sampleRequest.placement).outcome =
        .ok mounts ∧
      mounts.scratch.fileSystem = "fs-1" ∧ mounts.scratch.root.components = root :=
    ⟨_, rfl, rfl, rfl, by decide⟩
  obtain ⟨response, hresponse, hlength⟩ := hanswer
  obtain ⟨response', hresponse'⟩ := hanswer'
  obtain ⟨mounts, hmount, hmount', hsystem, hroot⟩ := hmounts
  obtain ⟨-, -, -, hplaces⟩ := isolated_runs_keep_apart hresponse hresponse' hmount hmount' rfl
    (by decide) rfl
  rw [hsystem, hroot] at hplaces
  exact ⟨response, response', hresponse, hresponse', hlength, hplaces⟩

end Assembly

end JobStaging
