import JobStaging.Proofs.Assembly.Collisions

/-!
# Sources of inputs and what is removed

Inputs are copied with the promise that their sources are kept, and their copies are removed after
the job if that is asked for. Sources are given with the request, and a source may lie anywhere, so
also where something is removed. Nothing in the assembly compares the two. A source is kept unless
it lies in the working directory or below the place of a copy (`Lost`), for a removal takes all that
is below with it; an input that is there already, so that its copy ends where it starts, is such a
source. `sources_kept_iff` puts it together from what the two kinds of removal cover.
-/

set_option autoImplicit false

namespace JobStaging

namespace DataPath

variable {base e : EfsPath} {steps : List Path.Component} {place : DataPath}

/-- A place covers those that its path leads to on the way down: all of them go when it is
removed. -/
def Covers : DataPath → DataPath → Prop
  | .efs e, .efs f => e.fileSystem = f.fileSystem ∧ e.path.components <+: f.path.components
  | _, _ => False

/-- Only what lies in a shared file system is covered. -/
theorem Covers.exists_efs {place' : DataPath} (h : place.Covers place') :
    ∃ f, place' = .efs f := by
  cases place with
  | efs e =>
    cases place' with
    | efs f => exact ⟨f, rfl⟩
    | s3 _ => exact h.elim
    | localPath _ => exact h.elim
  | s3 _ => exact h.elim
  | localPath _ => exact h.elim

/-- A place below a directory covers what the steps to it lead to. -/
theorem LiesAt.covers_iff (h : LiesAt base steps place) :
    place.Covers (.efs e) ↔
      base.fileSystem = e.fileSystem ∧ base.path.components ++ steps <+: e.path.components := by
  obtain ⟨f, rfl, hsystem, hpath⟩ := h
  show f.fileSystem = e.fileSystem ∧ f.path.components <+: e.path.components ↔ _
  rw [hsystem, hpath]

end DataPath

namespace Relocation

/-- The place outside that an input is bound to. -/
def IsSource (given : Parameters) (source : DataPath) : Prop :=
  ∃ name ∈ given.inputs, ∃ binding, bindingOf given name = .ok binding ∧
    binding.remote = some source

end Relocation

namespace Assembly

open DataPath (Covers LiesAt)
open Relocation (IsSource LeadsBy bindingOf bindsRemote inputBase)

variable {σ : Type} {config : Config} {r : Resolver} {storage : Storage (StateM σ)}
  {request : Request} {s : σ} {response : Response} {source : EfsPath}

/-- A place goes with what is removed after an execution when it lies in the working directory or
where an input is copied to, and the removal of that is asked for. -/
inductive Lost (request : Request) (mounts : Mounts) (source : EfsPath) : Prop
  | working (hasked : request.handling.cleanupWorkingDir = true)
      (hsystem : mounts.scratch.fileSystem = source.fileSystem)
      (hbelow : mounts.scratch.root.components ++ [.name request.execution.id] <+:
        source.path.components)
  | copy (hasked : request.handling.cleanupInputs = true) (name : String)
      (steps : List Path.Component) (hname : name ∈ request.execution.parameters.inputs)
      (hbinds : bindsRemote request.execution.parameters name = true)
      (hleads : LeadsBy request.execution.parameters name steps)
      (hsystem : (mounts.ofInputs request.handling.isolateInputs).fileSystem = source.fileSystem)
      (hbelow : (mounts.ofInputs request.handling.isolateInputs).root.components ++
        (namesToInputs request.handling.isolateInputs request.execution.id).map .name ++ steps <+:
          source.path.components)

namespace Stages

/-- Every input is copied with the promise to keep its source. -/
theorem retainSource_of_mem (st : Stages config r request) {sync : SyncRequest}
    (hsync : sync ∈ st.response.setup.syncs) : sync.retainSource = true := by
  obtain ⟨d, -, rfl⟩ := List.mem_map.1 hsync
  rfl

/-- The copies before the job start where the inputs are bound to. -/
theorem exists_sync_iff (st : Stages config r request) {place : DataPath} :
    (∃ sync ∈ st.response.setup.syncs, sync.source = place) ↔
      IsSource request.execution.parameters place := by
  constructor
  · rintro ⟨sync, hsync, rfl⟩
    obtain ⟨name, hname, ⟨binding, remote, -, hbinding, hremote, hsource, -⟩, -⟩ :=
      Lists.exists_mem_of_forall₂ st.forall₂_inputSyncs hsync
    rw [hsource]
    exact ⟨name, List.mem_of_mem_filter hname, binding, hbinding, hremote⟩
  · rintro ⟨name, hname, binding, hbinding, hremote⟩
    have hbinds : bindsRemote request.execution.parameters name = true :=
      Relocation.bindsRemote_of_isSome hbinding (by simp [hremote])
    have hcopied := List.mem_filter.2 ⟨hname, hbinds⟩
    obtain ⟨sync, hsync, ⟨binding', remote, -, hbinding', hremote', hsource, -⟩, -⟩ :=
      Lists.exists_mem_of_forall₂ st.forall₂_inputSyncs.flip hcopied
    obtain rfl : binding = binding' := Except.ok.inj (hbinding.symm.trans hbinding')
    refine ⟨sync, hsync, ?_⟩
    rw [hsource]
    exact Option.some.inj (hremote'.symm.trans hremote)

/-- The working directory covers what lies under the execution's identifier in its access point. -/
theorem covers_working_iff (st : Stages config r request) :
    Covers (.efs st.dirs.working.efs) (.efs source) ↔
      st.mounts.scratch.fileSystem = source.fileSystem ∧
        st.mounts.scratch.root.components ++ [.name request.execution.id] <+:
          source.path.components := by
  obtain ⟨hsystem, hplace⟩ := st.components_working
  rw [← hsystem, ← hplace]
  rfl

/-- What the place of a copy covers is told by the local name of its input. -/
theorem covers_copy_iff (st : Stages config r request) {place : DataPath}
    {steps : List Path.Component}
    (hlies : LiesAt (inputBase request.handling.isolateInputs st.dirs.shared
      st.dirs.working).efs steps place) :
    place.Covers (.efs source) ↔
      (st.mounts.ofInputs request.handling.isolateInputs).fileSystem = source.fileSystem ∧
        (st.mounts.ofInputs request.handling.isolateInputs).root.components ++
          (namesToInputs request.handling.isolateInputs request.execution.id).map .name ++ steps <+:
            source.path.components := by
  obtain ⟨hsystem, hbase⟩ := st.components_inputBase request.handling.isolateInputs
  rw [hlies.covers_iff, hsystem, hbase]

/-- What is removed covers a place exactly when the place is lost. -/
theorem exists_covers_iff (st : Stages config r request) :
    (∃ removal ∈ st.response.cleanup.removals, ∃ place ∈ removal.paths,
      place.Covers (.efs source)) ↔ Lost request st.mounts source := by
  constructor
  · rintro ⟨removal, hremoval, place, hplace, hcovers⟩
    rcases st.mem_removals_iff.1 hremoval with ⟨hasked, -, rfl⟩ | ⟨hasked, rfl⟩
    · obtain ⟨d, hd, rfl⟩ := List.mem_map.1 hplace
      obtain ⟨name, hlisted, hbinds, hinput⟩ := Relocation.exists_input_of_mem st.relocated_eq hd
      obtain ⟨steps, hleads, hlies⟩ := Relocation.exists_leadsBy_of_input hinput
      obtain ⟨hsystem, hbelow⟩ := (st.covers_copy_iff hlies).1 hcovers
      exact .copy hasked name steps hlisted hbinds hleads hsystem hbelow
    · obtain rfl := List.mem_singleton.1 hplace
      obtain ⟨hsystem, hbelow⟩ := st.covers_working_iff.1 hcovers
      exact .working hasked hsystem hbelow
  · intro hlost
    cases hlost with
    | working hasked hsystem hbelow =>
      have hremoval := st.mem_removals_iff.2 (.inr ⟨hasked, rfl⟩)
      have hcovers := st.covers_working_iff.2 ⟨hsystem, hbelow⟩
      exact ⟨_, hremoval, _, List.mem_singleton_self _, hcovers⟩
    | copy hasked name steps hname hbinds hleads hsystem hbelow =>
      obtain ⟨d, hd, hinput⟩ :=
        Relocation.exists_mem_of_bindsRemote st.relocated_eq hname hbinds
      obtain ⟨steps', hleads', hlies⟩ := Relocation.exists_leadsBy_of_input hinput
      obtain rfl := hleads.unique hleads'
      have hremoval := st.mem_removals_iff.2 (.inl ⟨hasked, List.ne_nil_of_mem hd, rfl⟩)
      have hcovers := (st.covers_copy_iff hlies).2 ⟨hsystem, hbelow⟩
      exact ⟨_, hremoval, _, List.mem_map_of_mem hd, hcovers⟩

end Stages

/-- Every input is copied with the promise to keep its source. What an execution removes keeps the
promise exactly when none of the places that its inputs are bound to is lost. -/
theorem sources_kept_iff
    (h : ((prepare config r storage request).run s).1.answer = .ok response) :
    ∃ mounts, (mountAll config r request.execution.id request.placement).outcome = .ok mounts ∧
      (∀ sync ∈ response.setup.syncs, sync.retainSource = true) ∧
      ((∀ removal ∈ response.cleanup.removals, ∀ place ∈ removal.paths,
          ∀ sync ∈ response.setup.syncs, ¬ place.Covers sync.source) ↔
        ∀ source, IsSource request.execution.parameters (.efs source) →
          ¬ Lost request mounts source) := by
  rw [run_prepare] at h
  obtain ⟨st, rfl, -⟩ := exists_stages_of_answer h
  refine ⟨st.mounts, st.mounts_eq, fun sync => st.retainSource_of_mem, ?_⟩
  constructor
  · intro hkept source hsource hlost
    obtain ⟨removal, hremoval, place, hplace, hcovers⟩ := st.exists_covers_iff.2 hlost
    obtain ⟨sync, hsync, heq⟩ := st.exists_sync_iff.2 hsource
    apply hkept removal hremoval place hplace sync hsync
    rw [heq]
    exact hcovers
  · intro hkept removal hremoval place hplace sync hsync hcovers
    obtain ⟨e, he⟩ := hcovers.exists_efs
    rw [he] at hcovers
    exact hkept e (st.exists_sync_iff.1 ⟨sync, hsync, he⟩)
      (st.exists_covers_iff.1 ⟨removal, hremoval, place, hplace, hcovers⟩)

/-- An execution on an input that the file system of the shared directory holds in another place. -/
def heldRequest : Request := cleanedRequest "in/reads.fq @ fs-2:/store/reads.fq"

/-- Everything is cleaned up after it, and the source stays. -/
theorem sources_kept_iff_of_sample :
    let outcome :=
      ((prepare .standard sampleInventory.resolver .acceptAll heldRequest).run ()).1
    ∃ response copied, outcome.answer = .ok response ∧ response.setup.syncs = [copied] ∧
      copied.source = .efs ⟨"fs-2", ⟨"/store/reads.fq"⟩, by decide, by decide⟩ ∧
      response.cleanup.removals.length = 2 ∧
      ∀ sync ∈ response.setup.syncs, sync.retainSource = true ∧
        ∀ removal ∈ response.cleanup.removals, ∀ place ∈ removal.paths,
          ¬ place.Covers sync.source := by
  intro outcome
  have hanswer : ∃ response copied, outcome.answer = .ok response ∧
      response.setup.syncs = [copied] ∧
      copied.source = .efs ⟨"fs-2", ⟨"/store/reads.fq"⟩, by decide, by decide⟩ ∧
      response.cleanup.removals.length = 2 := ⟨_, _, rfl, rfl, rfl, rfl⟩
  have hmounted : ∃ mounts, (mountAll .standard sampleInventory.resolver "run-1"
      heldRequest.placement).outcome = .ok mounts ∧ mounts.scratch.fileSystem = "fs-1" ∧
      mounts.shared.root.components = [.root] := ⟨_, rfl, rfl, by decide⟩
  have hreads : bindingOf heldRequest.execution.parameters "READS" = .ok
      ⟨some "in/reads.fq", some (.efs ⟨"fs-2", ⟨"/store/reads.fq"⟩, by decide, by decide⟩)⟩ := rfl
  have hmode : bindingOf heldRequest.execution.parameters "MODE" = .ok ⟨some "fast", none⟩ := rfl
  have hnames : ∀ n ∈ heldRequest.execution.parameters.inputs, n = "READS" ∨ n = "MODE" := by
    simp [heldRequest, cleanedRequest, sampleRequest, sampleParameters]
  obtain ⟨response, copied, hresponse, hcopied, hsource, hlength⟩ := hanswer
  obtain ⟨mounts, hmounts, hretain, hkept⟩ := sources_kept_iff hresponse
  obtain ⟨mounts', hmounts', hscratch, hshared⟩ := hmounted
  obtain rfl : mounts = mounts' := Except.ok.inj (hmounts.symm.trans hmounts')
  refine ⟨response, copied, hresponse, hcopied, hsource, hlength, ?_⟩
  refine fun sync hsync => ⟨hretain sync hsync, ?_⟩
  intro removal hremoval place hplace
  refine hkept.2 ?_ removal hremoval place hplace sync hsync
  rintro source ⟨name, hname, binding, hbinding, hremote⟩ hlost
  -- Only one of the inputs has a source.
  rcases hnames name hname with rfl | rfl
  · obtain rfl := Except.ok.inj (hreads.symm.trans hbinding)
    cases hremote
    cases hlost with
    | working _ hsystem _ =>
      rw [hscratch] at hsystem
      exact absurd hsystem (by decide)
    | copy _ other steps hother hbinds hleads _ hbelow =>
      rcases hnames other hother with rfl | rfl
      · have hsteps : LeadsBy heldRequest.execution.parameters "READS"
            (Path.mk "in/reads.fq").steps := ⟨_, ⟨_, hreads, rfl⟩, rfl⟩
        obtain rfl := hleads.unique hsteps
        have hprefix : [.root] ++ [] ++ (Path.mk "in/reads.fq").steps <+:
            (Path.mk "/store/reads.fq").components := by
          rw [← hshared]
          exact hbelow
        exact absurd hprefix (by decide)
      · unfold bindsRemote at hbinds
        rw [hmode] at hbinds
        cases hbinds
  · obtain rfl := Except.ok.inj (hmode.symm.trans hbinding)
    cases hremote

/-- An input that is in the shared directory already, under its local name: it is copied to itself,
and the removal of the copy takes the source that the copy promised to keep. -/
theorem removal_takes_a_source :
    let outcome := ((prepare .standard sampleInventory.resolver .acceptAll
      (cleanedRequest "reads.fq @ fs-2:/reads.fq")).run ()).1
    ∃ response sync e, outcome.answer = .ok response ∧ response.setup.syncs = [sync] ∧
      sync.retainSource = true ∧ sync.source = .efs e ∧ sync.destination = .efs e ∧
      ⟨[.efs e]⟩ ∈ response.cleanup.removals ∧ Covers (.efs e) sync.source := by
  intro outcome
  have hanswer : ∃ response sync e, outcome.answer = .ok response ∧
      response.setup.syncs = [sync] ∧ sync.retainSource = true ∧ sync.source = .efs e ∧
      sync.destination = .efs e ∧ response.cleanup.removals.head? = some ⟨[.efs e]⟩ :=
    ⟨_, _, _, rfl, rfl, rfl, rfl, rfl, rfl⟩
  obtain ⟨response, sync, e, hresponse, hsyncs, hretain, hsource, hplace, hremoval⟩ := hanswer
  refine ⟨response, sync, e, hresponse, hsyncs, hretain, hsource, hplace,
    List.mem_of_mem_head? hremoval, ?_⟩
  rw [hsource]
  exact ⟨rfl, List.prefix_rfl⟩

end Assembly

end JobStaging
