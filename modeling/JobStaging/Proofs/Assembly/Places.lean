import JobStaging.Proofs.Assembly.Running

/-!
# Where parameters point and where data goes

Of every parameter whose data moves the answer speaks twice: the rewritten value is the path at
which the job will look, and a request for a copy names the place in a shared file system. Nothing
in the answer ties the two together, and they are computed side by side. The main statement is
`syncs_agree_with_parameters`: the mount that the job gets turns the one into the other, for every
input that is copied and for every output.
-/

set_option autoImplicit false

namespace JobStaging.Assembly

variable {σ : Type} {config : Config} {r : Resolver} {storage : Storage (StateM σ)}
  {request : Request} {s : σ} {response : Response} {m : Mount}

/-- The value of a parameter leads to a place by a mount when, read as a path in the container, the
mount turns it into that place. -/
def LeadsTo (m : Mount) (p : Parameters) (name : String) (place : EfsPath) : Prop :=
  ∃ path e, p.values.get? name = some (.literal path) ∧ m.efsPath ⟨path⟩ = .ok e ∧
    e.sameAs place = true

/-- A copy brings in the data of an input: it starts at the place outside that the given value binds
the input to, and ends where the rewritten value leads. -/
def BringsIn (m : Mount) (given rewritten : Parameters) (name : String) (sync : SyncRequest) :
    Prop :=
  ∃ binding remote place, Relocation.bindingOf given name = .ok binding ∧
    binding.remote = some remote ∧ sync.source = remote ∧ sync.destination = .efs place ∧
    LeadsTo m rewritten name place

/-- A copy takes out the data of an output: it starts where the rewritten value leads. -/
def TakesOut (m : Mount) (rewritten : Parameters) (name : String) (sync : SyncRequest) : Prop :=
  ∃ place, sync.source = .efs place ∧ LeadsTo m rewritten name place

/-- The mount through which the job sees its inputs. -/
def Mounts.ofInputs (m : Mounts) (isolateInputs : Bool) : Mount :=
  if isolateInputs then m.scratch else m.shared

namespace Stages

/-- Data that a mount shows is where the rewritten value of its parameter leads. -/
theorem leadsTo (st : Stages config r request) {d : Relocation.DataBinding}
    (hd : d ∈ st.relocated.inputs ++ st.relocated.outputs) (hshows : m.Shows d.location) :
    LeadsTo m st.relocated.parameters d.name d.location.efs := by
  obtain ⟨e, he, hsame⟩ := hshows
  exact ⟨_, e, Relocation.get?_of_mem st.relocated_eq hd, he, hsame⟩

/-- The directory that inputs are relocated to is shown by the mount through which they are seen. -/
theorem shows_inputBase (st : Stages config r request) (isolate : Bool) :
    (st.mounts.ofInputs isolate).path.isAbsolute = true ∧
      (st.mounts.ofInputs isolate).Shows
        (Relocation.inputBase isolate st.dirs.shared st.dirs.working) := by
  cases isolate with
  | true => exact ⟨st.isAbsolute_scratch, st.shows_working⟩
  | false => exact ⟨st.isAbsolute_shared, st.shows_shared⟩

/-- The copies before the job belong, one by one, to the inputs that bind to a place outside. -/
theorem forall₂_inputSyncs (st : Stages config r request) :
    List.Forall₂ (fun name sync =>
        BringsIn (st.mounts.ofInputs request.handling.isolateInputs) request.execution.parameters
          st.relocated.parameters name sync ∧
        sync.source.isRemote = true)
      (request.execution.parameters.inputs.filter
        (Relocation.bindsRemote request.execution.parameters)) st.response.setup.syncs := by
  obtain ⟨hpath, hbase⟩ := st.shows_inputBase request.handling.isolateInputs
  have hfound := Lists.forall₂_and_mem (Relocation.forall₂_inputs st.relocated_eq)
  refine List.forall₂_map_right_iff.2 (hfound.imp fun name d ⟨hd, hinput⟩ => ?_)
  have hshows := Relocation.shows_of_input hpath hbase hinput
  have hleads := st.leadsTo (List.mem_append_left _ hd) hshows
  rw [Relocation.name_of_input hinput] at hleads
  obtain ⟨binding, remote, hbinding, hremote, hout, -, rfl⟩ :=
    Relocation.exists_binding_of_input hinput
  exact ⟨⟨binding, remote, _, hbinding, hremote, rfl, rfl, hleads⟩, hout⟩

/-- The copies after the job belong, one by one, to the outputs. -/
theorem forall₂_outputSyncs (st : Stages config r request) :
    List.Forall₂ (fun name sync =>
        TakesOut st.mounts.scratch st.relocated.parameters name sync ∧
        sync.destination.isRemote = true)
      request.execution.parameters.outputs st.response.cleanup.syncs := by
  have hfound := Lists.forall₂_and_mem (Relocation.forall₂_outputs st.relocated_eq)
  refine List.forall₂_map_right_iff.2 (hfound.imp fun name d ⟨hd, houtput⟩ => ?_)
  have hshows := Relocation.shows_of_output st.isAbsolute_scratch st.shows_working houtput
  have hleads := st.leadsTo (List.mem_append_right _ hd) hshows
  obtain ⟨binding, localName, -, -, hremote, -, hname, -⟩ := Relocation.output_eq_ok_iff.1 houtput
  rw [hname] at hleads
  exact ⟨⟨_, rfl, hleads⟩, Relocation.isRemote_of_outputRemote hremote⟩

/-- Nothing is copied from or to a path in the container. -/
theorem isRemote_of_mem_syncs (st : Stages config r request) {sync : SyncRequest}
    (hsync : sync ∈ st.response.setup.syncs ++ st.response.cleanup.syncs) :
    sync.source.isRemote = true ∧ sync.destination.isRemote = true := by
  rcases List.mem_append.1 hsync with hsync | hsync
  · obtain ⟨name, -, ⟨binding, remote, place, -, -, -, hplace, -⟩, hsource⟩ :=
      Lists.exists_mem_of_forall₂ st.forall₂_inputSyncs hsync
    exact ⟨hsource, hplace ▸ rfl⟩
  · obtain ⟨name, -, ⟨place, hplace, -⟩, hdestination⟩ :=
      Lists.exists_mem_of_forall₂ st.forall₂_outputSyncs hsync
    exact ⟨hplace ▸ rfl, hdestination⟩

/-- Only what lies in a shared file system is removed. -/
theorem isRemote_of_mem_removals (st : Stages config r request) {removal : RemovalRequest}
    {place : DataPath} (hremoval : removal ∈ st.response.cleanup.removals)
    (hplace : place ∈ removal.paths) : place.isRemote = true := by
  rcases st.mem_removals_iff.1 hremoval with ⟨-, -, rfl⟩ | ⟨-, rfl⟩
  · obtain ⟨d, -, rfl⟩ := List.mem_map.1 hplace
    rfl
  · obtain rfl := List.mem_singleton.1 hplace
    rfl

end Stages

/-- The copies and removals in an answer agree with its parameters. The copies before the job
belong, one by one and in order, to the inputs that bind to a place outside, and start from there;
those after it belong to the outputs. Where a copy ends, or starts, is what the mount through which
the job sees the data makes of the rewritten value of the parameter. Nothing that is copied or
removed is named by a path in the container. -/
theorem syncs_agree_with_parameters
    (h : ((prepare config r storage request).run s).1.answer = .ok response) :
    let given := request.execution.parameters
    let rewritten := response.execution.parameters
    ∃ mounts, (mountAll config r request.execution.id request.placement).outcome = .ok mounts ∧
      List.Forall₂ (BringsIn (mounts.ofInputs request.handling.isolateInputs) given rewritten)
        (given.inputs.filter (Relocation.bindsRemote given)) response.setup.syncs ∧
      List.Forall₂ (TakesOut mounts.scratch rewritten) given.outputs response.cleanup.syncs ∧
      (∀ sync ∈ response.setup.syncs ++ response.cleanup.syncs,
        sync.source.isRemote = true ∧ sync.destination.isRemote = true) ∧
      ∀ removal ∈ response.cleanup.removals, ∀ place ∈ removal.paths, place.isRemote = true := by
  intro given rewritten
  rw [run_prepare] at h
  obtain ⟨st, rfl, -⟩ := exists_stages_of_answer h
  exact ⟨st.mounts, st.mounts_eq, st.forall₂_inputSyncs.imp fun name sync hsync => hsync.1,
    st.forall₂_outputSyncs.imp fun name sync hsync => hsync.1,
    fun sync hsync => st.isRemote_of_mem_syncs hsync,
    fun removal hremoval place hplace => st.isRemote_of_mem_removals hremoval hplace⟩

/-- An input and an output whose local names are not in normal form, one input that does not move,
and an access point with a root that is not in normal form either. -/
theorem syncs_agree_with_parameters_of_sample :
    let outcome := ((prepare .standard sampleInventory.resolver .acceptAll sampleRequest).run ()).1
    let given := sampleRequest.execution.parameters
    ∃ response mounts, outcome.answer = .ok response ∧
      (mountAll .standard sampleInventory.resolver "run-1" sampleRequest.placement).outcome =
        .ok mounts ∧
      List.Forall₂ (BringsIn mounts.shared given response.execution.parameters) ["READS"]
        response.setup.syncs ∧
      List.Forall₂ (TakesOut mounts.scratch response.execution.parameters) ["HITS"]
        response.cleanup.syncs ∧
      (∀ sync ∈ response.setup.syncs ++ response.cleanup.syncs,
        sync.source.isRemote = true ∧ sync.destination.isRemote = true) ∧
      ∀ removal ∈ response.cleanup.removals, ∀ place ∈ removal.paths, place.isRemote = true := by
  intro outcome given
  have hanswer : ∃ response, outcome.answer = .ok response := ⟨_, rfl⟩
  obtain ⟨response, hresponse⟩ := hanswer
  obtain ⟨mounts, hmounts, hin, hout, hsyncs, hremovals⟩ := syncs_agree_with_parameters hresponse
  exact ⟨response, mounts, hresponse, hmounts, hin, hout, hsyncs, hremovals⟩

end JobStaging.Assembly
