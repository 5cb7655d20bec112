import JobStaging.Proofs.Assembly.Removals

/-!
# Data that meets in one place

Everything that is copied for an execution lies below one of two directories, under a local name:
the name that the parameter gives, or the digest of its place outside. Nothing compares the places,
so what lies below one directory meets exactly where the local names lead down by the same steps
(`LiesAt.samePlace_iff`). Digests keep apart what differs, unless they collide, but given names need
not: `a` and `./a/` are the same place, and so is `.demand.env` that of the file of variables.
`places_decided_by_names` says this of all copies of an answer.
-/

set_option autoImplicit false

namespace JobStaging

namespace DataPath

/-- Places are the same when they lie in one file system and their paths have the same components.
-/
def SamePlace : DataPath → DataPath → Prop
  | .efs e, .efs f => e.fileSystem = f.fileSystem ∧ e.path.components = f.path.components
  | _, _ => False

/-- Data lies at some steps below a directory. -/
def LiesAt (base : EfsPath) (steps : List Path.Component) (place : DataPath) : Prop :=
  ∃ e, place = .efs e ∧ e.fileSystem = base.fileSystem ∧
    e.path.components = base.path.components ++ steps

variable {base base' : EfsPath} {steps steps' : List Path.Component} {place place' : DataPath}

/-- What a directory is joined with lies there by its steps. -/
theorem LiesAt.join {p : Path} (hp : p.staysInside = true) :
    LiesAt base p.steps (.efs (base.join p)) :=
  ⟨_, rfl, rfl, EfsPath.components_join base (Path.isAbsolute_of_staysInside hp)⟩

/-- What lies below two directories is the same place when the file systems are the same and both
ways down lead to the same components. -/
theorem LiesAt.samePlace_iff_of_bases (h : LiesAt base steps place)
    (h' : LiesAt base' steps' place') : SamePlace place place' ↔
      base.fileSystem = base'.fileSystem ∧
        base.path.components ++ steps = base'.path.components ++ steps' := by
  obtain ⟨e, rfl, hsystem, hpath⟩ := h
  obtain ⟨e', rfl, hsystem', hpath'⟩ := h'
  show e.fileSystem = e'.fileSystem ∧ _ ↔ _
  rw [hsystem, hsystem', hpath, hpath']

/-- Below one directory the same steps are needed. -/
theorem LiesAt.samePlace_iff (h : LiesAt base steps place) (h' : LiesAt base steps' place') :
    SamePlace place place' ↔ steps = steps' := by
  rw [h.samePlace_iff_of_bases h', List.append_cancel_left_eq]
  exact and_iff_right rfl

end DataPath

namespace Relocation

variable {given : Parameters} {base : MountedPath} {name name' : String} {d : DataBinding}
  {steps steps' : List Path.Component}

/-- The steps by which a parameter's data lies below its directory are those of its local name. -/
def LeadsBy (given : Parameters) (name : String) (steps : List Path.Component) : Prop :=
  ∃ localName, LocalName given name localName ∧ (Path.mk localName).steps = steps

/-- A parameter leads by one list of steps. -/
theorem LeadsBy.unique (h : LeadsBy given name steps) (h' : LeadsBy given name steps') :
    steps = steps' := by
  obtain ⟨localName, hlocal, rfl⟩ := h
  obtain ⟨localName', hlocal', rfl⟩ := h'
  rw [hlocal.unique hlocal']

/-- Two parameters have local names that lead to the same place. -/
def SameName (given : Parameters) (name name' : String) : Prop :=
  ∃ steps, LeadsBy given name steps ∧ LeadsBy given name' steps

/-- Two parameters lead to the same place when their steps are the same. -/
theorem sameName_iff (h : LeadsBy given name steps) (h' : LeadsBy given name' steps') :
    SameName given name name' ↔ steps = steps' := by
  constructor
  · rintro ⟨shared, hshared, hshared'⟩
    rw [h.unique hshared, h'.unique hshared']
  · rintro rfl
    exact ⟨steps, h, h'⟩

/-- A parameter gives no local name. -/
def Unnamed (given : Parameters) (name : String) : Prop :=
  ∃ binding, bindingOf given name = .ok binding ∧ binding.localName = none

/-- Data of a parameter without a local name lies right below its directory, under the digest of its
place outside. -/
theorem Unnamed.leadsBy (h : Unnamed given name) {binding : Binding} {remote : DataPath}
    (hbinding : bindingOf given name = .ok binding) (hremote : binding.remote = some remote) :
    LeadsBy given name [.name (digestName remote)] := by
  obtain ⟨binding', hbinding', hnone⟩ := h
  obtain rfl : binding = binding' := Except.ok.inj (hbinding.symm.trans hbinding')
  refine ⟨digestName remote, ⟨binding, hbinding, ?_⟩, ?_⟩
  · rw [hnone, hremote]
    rfl
  · exact Assembly.steps_of_isSegment (isSegment_digestName remote)

/-- The data of an input lies below its directory by the steps of its local name. -/
theorem exists_leadsBy_of_input (h : input given base name = .ok (some d)) :
    ∃ steps, LeadsBy given name steps ∧ DataPath.LiesAt base.efs steps (.efs d.location.efs) := by
  obtain ⟨localName, hlocal, hinside, hlocation⟩ := exists_localName_of_input h
  rw [hlocation]
  exact ⟨_, ⟨localName, hlocal, rfl⟩, .join hinside⟩

/-- So does the data of an output. -/
theorem exists_leadsBy_of_output (h : output given base name = .ok d) :
    ∃ steps, LeadsBy given name steps ∧ DataPath.LiesAt base.efs steps (.efs d.location.efs) := by
  obtain ⟨localName, hlocal, hinside, hlocation⟩ := exists_localName_of_output h
  rw [hlocation]
  exact ⟨_, ⟨localName, hlocal, rfl⟩, .join hinside⟩

end Relocation

namespace Assembly

open DataPath (SamePlace LiesAt)
open Relocation (LeadsBy SameName Unnamed)

variable {σ : Type} {config : Config} {r : Resolver} {storage : Storage (StateM σ)}
  {request : Request} {s : σ} {response : Response}

/-- Copies, each with the name of its parameter, meet exactly as the local names say. -/
structure MeetByName (given : Parameters) (isolate : Bool)
    (before after : List (String × SyncRequest)) : Prop where
  inputs : ∀ x ∈ before, ∀ y ∈ before,
    SamePlace x.2.destination y.2.destination ↔ SameName given x.1 y.1
  /-- Without local names they meet where the places outside have one text, or digests collide. -/
  unnamed : ∀ x ∈ before, ∀ y ∈ before, Unnamed given x.1 → Unnamed given y.1 →
    Digest.Apart x.2.source.text y.2.source.text →
      (SamePlace x.2.destination y.2.destination ↔ x.2.source.text = y.2.source.text)
  outputs : ∀ x ∈ after, ∀ y ∈ after,
    SamePlace x.2.source y.2.source ↔ SameName given x.1 y.1
  isolated : isolate = true → ∀ x ∈ before, ∀ y ∈ after,
    SamePlace x.2.destination y.2.source ↔ SameName given x.1 y.1

/-- Copies meet the file of variables exactly as the local names say: in the working directory under
the name of the file, and from the shared directory only by a way that leads to the same path. -/
structure MeetFile (given : Parameters) (isolate : Bool) (mounts : Mounts) (executionId : String)
    (before after : List (String × SyncRequest)) (file : EfsPath) : Prop where
  outputs : ∀ y ∈ after,
    SamePlace y.2.source (.efs file) ↔ LeadsBy given y.1 [.name ".demand.env"]
  isolated : isolate = true → ∀ x ∈ before,
    SamePlace x.2.destination (.efs file) ↔ LeadsBy given x.1 [.name ".demand.env"]
  shared : isolate = false → ∀ x ∈ before, SamePlace x.2.destination (.efs file) ↔
    mounts.shared.fileSystem = mounts.scratch.fileSystem ∧ ∃ steps, LeadsBy given x.1 steps ∧
      mounts.shared.root.components ++ steps =
        mounts.scratch.root.components ++ [.name executionId, .name ".demand.env"]

/-- The copies before the job, each with the name of the input that it is for. -/
def copiesBefore (given : Parameters) (response : Response) : List (String × SyncRequest) :=
  (given.inputs.filter (Relocation.bindsRemote given)).zip response.setup.syncs

/-- The copies after the job, each with the name of its output. -/
def copiesAfter (given : Parameters) (response : Response) : List (String × SyncRequest) :=
  given.outputs.zip response.cleanup.syncs

namespace Stages

/-- These are all copies before the job, in order. -/
theorem map_snd_copiesBefore (st : Stages config r request) :
    (copiesBefore request.execution.parameters st.response).map Prod.snd =
      st.response.setup.syncs :=
  List.map_snd_zip st.forall₂_inputSyncs.length_eq.ge

/-- These are all copies after the job, in order. -/
theorem map_snd_copiesAfter (st : Stages config r request) :
    (copiesAfter request.execution.parameters st.response).map Prod.snd =
      st.response.cleanup.syncs :=
  List.map_snd_zip st.forall₂_outputSyncs.length_eq.ge

/-- A copy before the job ends below the directory of the inputs, by the steps of a local name. -/
theorem exists_leadsBy_before (st : Stages config r request) {x : String × SyncRequest}
    (hx : x ∈ copiesBefore request.execution.parameters st.response) :
    ∃ steps, LeadsBy request.execution.parameters x.1 steps ∧
      LiesAt (Relocation.inputBase request.handling.isolateInputs st.dirs.shared
        st.dirs.working).efs steps x.2.destination := by
  have hfound := Relocation.forall₂_inputs st.relocated_eq
  have hsyncs : List.Forall₂ (fun name (sync : SyncRequest) =>
      ∃ steps, LeadsBy request.execution.parameters name steps ∧
        LiesAt (Relocation.inputBase request.handling.isolateInputs st.dirs.shared
          st.dirs.working).efs steps sync.destination)
      (request.execution.parameters.inputs.filter
        (Relocation.bindsRemote request.execution.parameters)) st.response.setup.syncs :=
    List.forall₂_map_right_iff.2 (hfound.imp fun _ _ => Relocation.exists_leadsBy_of_input)
  exact (List.forall₂_iff_zip.1 hsyncs).2 hx

/-- A copy after the job starts below the working directory, by the steps of a local name. -/
theorem exists_leadsBy_after (st : Stages config r request) {y : String × SyncRequest}
    (hy : y ∈ copiesAfter request.execution.parameters st.response) :
    ∃ steps, LeadsBy request.execution.parameters y.1 steps ∧
      LiesAt st.dirs.working.efs steps y.2.source := by
  have hfound := Relocation.forall₂_outputs st.relocated_eq
  have hsyncs : List.Forall₂ (fun name (sync : SyncRequest) =>
      ∃ steps, LeadsBy request.execution.parameters name steps ∧
        LiesAt st.dirs.working.efs steps sync.source)
      request.execution.parameters.outputs st.response.cleanup.syncs :=
    List.forall₂_map_right_iff.2 (hfound.imp fun _ _ => Relocation.exists_leadsBy_of_output)
  exact (List.forall₂_iff_zip.1 hsyncs).2 hy

/-- A copy before the job without a local name ends under the digest of where it starts. -/
theorem leadsBy_digestName (st : Stages config r request) {x : String × SyncRequest}
    (hx : x ∈ copiesBefore request.execution.parameters st.response)
    (hunnamed : Unnamed request.execution.parameters x.1) :
    LeadsBy request.execution.parameters x.1 [.name (Relocation.digestName x.2.source)] := by
  obtain ⟨⟨binding, remote, -, hbinding, hremote, hsource, -⟩, -⟩ :=
    (List.forall₂_iff_zip.1 st.forall₂_inputSyncs).2 hx
  rw [hsource]
  exact hunnamed.leadsBy hbinding hremote

/-- Copies meet as the local names say. -/
theorem meetByName (st : Stages config r request) :
    MeetByName request.execution.parameters request.handling.isolateInputs
      (copiesBefore request.execution.parameters st.response)
      (copiesAfter request.execution.parameters st.response) := by
  constructor
  case inputs =>
    intro x hx y hy
    obtain ⟨steps, hleads, hlies⟩ := st.exists_leadsBy_before hx
    obtain ⟨steps', hleads', hlies'⟩ := st.exists_leadsBy_before hy
    rw [hlies.samePlace_iff hlies', Relocation.sameName_iff hleads hleads']
  case unnamed =>
    intro x hx y hy hunnamed hunnamed' hapart
    obtain ⟨steps, hleads, hlies⟩ := st.exists_leadsBy_before hx
    obtain ⟨steps', hleads', hlies'⟩ := st.exists_leadsBy_before hy
    obtain rfl := hleads.unique (st.leadsBy_digestName hx hunnamed)
    obtain rfl := hleads'.unique (st.leadsBy_digestName hy hunnamed')
    rw [hlies.samePlace_iff hlies', ← Digest.sha256Hex_inj hapart]
    simp [Relocation.digestName]
  case outputs =>
    intro x hx y hy
    obtain ⟨steps, hleads, hlies⟩ := st.exists_leadsBy_after hx
    obtain ⟨steps', hleads', hlies'⟩ := st.exists_leadsBy_after hy
    rw [hlies.samePlace_iff hlies', Relocation.sameName_iff hleads hleads']
  case isolated =>
    intro hisolate x hx y hy
    obtain ⟨steps, hleads, hlies⟩ := st.exists_leadsBy_before hx
    obtain ⟨steps', hleads', hlies'⟩ := st.exists_leadsBy_after hy
    rw [hisolate] at hlies
    rw [hlies.samePlace_iff hlies', Relocation.sameName_iff hleads hleads']

/-- The file lies in the working directory. -/
theorem liesAt_file (st : Stages config r request) {file : Environment.EnvFile}
    (hfile : st.delivery.file = some file) :
    LiesAt st.dirs.working.efs [.name ".demand.env"] (.efs file.path) := by
  rcases st.delivery_cases with hdelivery | hdelivery
  · rw [(st.of_deliverByFile hdelivery).1] at hfile
    cases hfile
    rw [← Environment.steps_fileName]
    exact .join (by decide)
  · rw [(st.of_deliverInline hdelivery).1] at hfile
    cases hfile

/-- Copies meet the file of variables as the local names say. -/
theorem meetFile (st : Stages config r request) {file : Environment.EnvFile}
    (hfile : st.delivery.file = some file) :
    MeetFile request.execution.parameters request.handling.isolateInputs st.mounts
      request.execution.id (copiesBefore request.execution.parameters st.response)
      (copiesAfter request.execution.parameters st.response) file.path := by
  have hlies := st.liesAt_file hfile
  -- A local name leads by some steps, and by no others.
  have hname : ∀ {name steps}, LeadsBy request.execution.parameters name steps →
      (steps = [.name ".demand.env"] ↔
        LeadsBy request.execution.parameters name [.name ".demand.env"]) := by
    intro name steps hleads
    constructor
    · rintro rfl
      exact hleads
    · exact hleads.unique
  constructor
  case outputs =>
    intro y hy
    obtain ⟨steps, hleads, hlies'⟩ := st.exists_leadsBy_after hy
    rw [hlies'.samePlace_iff hlies, hname hleads]
  case isolated =>
    intro hisolate x hx
    obtain ⟨steps, hleads, hlies'⟩ := st.exists_leadsBy_before hx
    rw [hisolate] at hlies'
    rw [hlies'.samePlace_iff hlies, hname hleads]
  case shared =>
    intro hisolate x hx
    obtain ⟨steps, hleads, hlies'⟩ := st.exists_leadsBy_before hx
    rw [hisolate] at hlies'
    obtain ⟨hsystem, hroot⟩ := st.components_shared
    obtain ⟨hsystem', hroot'⟩ := st.components_working
    rw [hlies'.samePlace_iff_of_bases hlies]
    show st.dirs.shared.efs.fileSystem = _ ∧ st.dirs.shared.efs.path.components ++ _ = _ ↔ _
    rw [hsystem, hroot, hsystem', hroot', List.append_assoc, List.singleton_append]
    constructor
    · rintro ⟨hsame, hpath⟩
      exact ⟨hsame, steps, hleads, hpath⟩
    · rintro ⟨hsame, steps', hleads', hpath⟩
      rw [hleads.unique hleads']
      exact ⟨hsame, hpath⟩

end Stages

/-- The places of an execution's data are decided by the local names. All copies before the job end
below one directory and all copies after it start below the working directory, each by the steps of
its own local name, so two of them meet exactly when their names lead by the same steps, and one
meets the file of variables exactly when its name leads there. -/
theorem places_decided_by_names
    (h : ((prepare config r storage request).run s).1.answer = .ok response) :
    let given := request.execution.parameters
    let isolate := request.handling.isolateInputs
    let before := copiesBefore given response
    let after := copiesAfter given response
    ∃ mounts, (mountAll config r request.execution.id request.placement).outcome = .ok mounts ∧
      before.map Prod.snd = response.setup.syncs ∧ after.map Prod.snd = response.cleanup.syncs ∧
      MeetByName given isolate before after ∧
      ∀ w ∈ (run config r storage request s).writes,
        MeetFile given isolate mounts request.execution.id before after w.path := by
  intro given isolate before after
  rw [run_prepare] at h
  obtain ⟨st, rfl, hwrites⟩ := exists_stages_of_answer h
  refine ⟨st.mounts, st.mounts_eq, st.map_snd_copiesBefore, st.map_snd_copiesAfter, st.meetByName, ?_⟩
  intro w hw
  rw [hwrites] at hw
  obtain ⟨file, hfile, rfl⟩ := List.mem_map.1 hw
  exact st.meetFile (Option.mem_toList.1 hfile)

/-- Two isolated inputs and two outputs, all of which are called as the file of variables is. -/
def collidingRequest : Request :=
  { sampleRequest with
    execution := { sampleRequest.execution with
      parameters := { sampleParameters with
        inputs := ["READS", "REFS"]
        outputs := ["HITS", "LOGS"]
        values := OrderedMap.ofList [("READS", .literal ".demand.env @ s3://data/reads.fq"),
          ("REFS", .literal "./.demand.env @ s3://data/refs.fa"), ("HITS", .literal ".demand.env"),
          ("LOGS", .literal ".demand.env/.")] } }
    handling := { Handling.standard with isolateInputs := true } }

/-- An execution with its variables in a file, whose four copies have local names in three
spellings. -/
theorem places_decided_by_names_of_sample :
    let outcome :=
      ((prepare .standard sampleInventory.resolver .acceptAll collidingRequest).run ()).1
    let writes := (run .standard sampleInventory.resolver .acceptAll collidingRequest ()).writes
    let given := collidingRequest.execution.parameters
    ∃ response mounts w, outcome.answer = .ok response ∧ w ∈ writes ∧
      (copiesBefore given response).map Prod.fst = ["READS", "REFS"] ∧
      (copiesAfter given response).map Prod.fst = ["HITS", "LOGS"] ∧
      MeetByName given true (copiesBefore given response) (copiesAfter given response) ∧
      MeetFile given true mounts "run-1" (copiesBefore given response) (copiesAfter given response)
        w.path := by
  intro outcome writes given
  have hanswer : ∃ response, outcome.answer = .ok response ∧
      (copiesBefore given response).map Prod.fst = ["READS", "REFS"] ∧
      (copiesAfter given response).map Prod.fst = ["HITS", "LOGS"] := ⟨_, rfl, rfl, rfl⟩
  have hwritten : ∃ w, w ∈ writes := ⟨_, List.mem_cons_self⟩
  obtain ⟨response, hresponse, hbefore, hafter⟩ := hanswer
  obtain ⟨w, hw⟩ := hwritten
  obtain ⟨mounts, -, -, -, hmeet, hfile⟩ := places_decided_by_names hresponse
  exact ⟨response, mounts, w, hresponse, hw, hbefore, hafter, hmeet, hfile w hw⟩

/-- Two inputs from different places are copied to one, where two outputs are taken from and the
file of variables is written. -/
theorem different_data_in_one_place :
    let outcome :=
      ((prepare .standard sampleInventory.resolver .acceptAll collidingRequest).run ()).1
    let writes := (run .standard sampleInventory.resolver .acceptAll collidingRequest ()).writes
    ∃ response w reads refs hits logs, outcome.answer = .ok response ∧ writes = [w] ∧
      response.setup.syncs = [reads, refs] ∧ response.cleanup.syncs = [hits, logs] ∧
      reads.source ≠ refs.source ∧ SamePlace reads.destination refs.destination ∧
      SamePlace hits.source logs.source ∧ SamePlace reads.destination hits.source ∧
      SamePlace reads.destination (.efs w.path) ∧ SamePlace hits.source (.efs w.path) := by
  intro outcome writes
  have hanswer : ∃ response w reads refs hits logs, outcome.answer = .ok response ∧ writes = [w] ∧
      response.setup.syncs = [reads, refs] ∧ response.cleanup.syncs = [hits, logs] ∧
      reads.source.text = "s3://data/reads.fq" ∧ refs.source.text = "s3://data/refs.fa" :=
    ⟨_, _, _, _, _, _, rfl, rfl, rfl, rfl, rfl, rfl⟩
  obtain ⟨response, w, reads, refs, hits, logs, hresponse, hw, hin, hout, hreads, hrefs⟩ := hanswer
  have hrun : (run .standard sampleInventory.resolver .acceptAll collidingRequest
      ()).outcome.answer = .ok response := by
    rw [← hresponse]
    show _ = ((prepare .standard sampleInventory.resolver .acceptAll collidingRequest).run
      ()).1.answer
    rw [run_prepare]
  obtain ⟨st, rfl, hwrites⟩ := exists_stages_of_answer hrun
  obtain ⟨file, hfile, rfl⟩ : ∃ file, st.delivery.file = some file ∧
      w = ⟨file.path, file.content, none⟩ := by
    have hmem : w ∈ writes := hw ▸ List.mem_singleton_self w
    rw [show writes = _ from hwrites] at hmem
    obtain ⟨file, hfile, heq⟩ := List.mem_map.1 hmem
    exact ⟨file, Option.mem_toList.1 hfile, heq.symm⟩
  have hbefore : copiesBefore collidingRequest.execution.parameters st.response =
      [("READS", reads), ("REFS", refs)] := by
    unfold copiesBefore
    rw [hin]
    rfl
  have hafter : copiesAfter collidingRequest.execution.parameters st.response =
      [("HITS", hits), ("LOGS", logs)] := by
    unfold copiesAfter
    rw [hout]
    rfl
  have hleads : ∀ name ∈ ["READS", "REFS", "HITS", "LOGS"],
      LeadsBy collidingRequest.execution.parameters name [.name ".demand.env"] := by
    intro name hname
    simp only [List.mem_cons, List.not_mem_nil, or_false] at hname
    rcases hname with rfl | rfl | rfl | rfl
    all_goals exact ⟨_, ⟨_, rfl, rfl⟩, by decide⟩
  have hmeet := st.meetByName
  have hmeetFile := st.meetFile hfile
  rw [hbefore, hafter] at hmeet hmeetFile
  refine ⟨st.response, _, reads, refs, hits, logs, hresponse, hw, hin, hout, ?_, ?_, ?_, ?_, ?_, ?_⟩
  · intro hsame
    rw [hsame, hrefs] at hreads
    exact absurd hreads (by decide)
  · exact (hmeet.inputs ("READS", reads) (by simp) ("REFS", refs) (by simp)).2
      ⟨_, hleads "READS" (by simp), hleads "REFS" (by simp)⟩
  · exact (hmeet.outputs ("HITS", hits) (by simp) ("LOGS", logs) (by simp)).2
      ⟨_, hleads "HITS" (by simp), hleads "LOGS" (by simp)⟩
  · exact (hmeet.isolated rfl ("READS", reads) (by simp) ("HITS", hits) (by simp)).2
      ⟨_, hleads "READS" (by simp), hleads "HITS" (by simp)⟩
  · exact (hmeetFile.isolated rfl ("READS", reads) (by simp)).2 (hleads "READS" (by simp))
  · exact (hmeetFile.outputs ("HITS", hits) (by simp)).2 (hleads "HITS" (by simp))

end Assembly

end JobStaging
