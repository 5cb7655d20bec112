import JobStaging.Proofs.Assembly.EnvFile
import JobStaging.Proofs.Assembly.Running

/-!
# What staging leaves as it was

Of an execution only the values of those parameters change whose data moves: inputs that bind to a
place outside, and outputs. `Keeps` is the frame around them. Relocation sets the values one after
the other in a map that has all of the names already (`name_mem_keys`), so that no name is added or
moved, and each of them once, so that a value is the path of its own location (`keeps_of_relocate`).
`only_moving_values_change` says the same of an answer, and that the job has each value of the
answer under its name, whichever way its variables take.
-/

set_option autoImplicit false

namespace JobStaging.Relocation

variable {p rewritten : Parameters} {base shared working : MountedPath} {isolate : Bool}
  {name : String} {relocated : Relocated}

/-- The place of a parameter below a directory of the container is that of its local name. -/
def PlacedBelow (p : Parameters) (directory : Path) (name : String) (path : Path) : Prop :=
  ∃ localName, LocalName p name localName ∧ path = directory.join ⟨localName⟩

/-- Rewritten parameters keep the frame of the given ones: all that differs is the values of the
parameters that move, and each of these is the path at which it is placed. -/
structure Keeps (p rewritten : Parameters) (directory : String → Path) : Prop where
  rest : rewritten = { p with values := rewritten.values }
  names : rewritten.values.keys = p.values.keys
  moved : ∀ name, Moves p name → ∃ path, PlacedBelow p (directory name) name path ∧
    rewritten.values.get? name = some (.literal path.text)
  kept : ∀ name, ¬ Moves p name → rewritten.values.get? name = p.values.get? name

/-- The data of an input is placed below its base. -/
theorem placedBelow_of_input {d : DataBinding} (h : input p base name = .ok (some d)) :
    PlacedBelow p base.container name d.location.container := by
  obtain ⟨localName, hlocal, -, hlocation⟩ := exists_localName_of_input h
  rw [hlocation]
  exact ⟨localName, hlocal, rfl⟩

/-- The data of an output is placed below the working directory. -/
theorem placedBelow_of_output {d : DataBinding} (h : output p working name = .ok d) :
    PlacedBelow p working.container name d.location.container := by
  obtain ⟨localName, hlocal, -, hlocation⟩ := exists_localName_of_output h
  rw [hlocation]
  exact ⟨localName, hlocal, rfl⟩

/-- The directory that a parameter is relocated to. -/
def directoryOf (p : Parameters) (isolate : Bool) (shared working : Path) (name : String) : Path :=
  if name ∈ p.inputs ∧ isolate = false then shared else working

/-- Relocation keeps the frame of the parameters. -/
theorem keeps_of_relocate (h : relocate p shared working isolate = .ok relocated) :
    Keeps p relocated.parameters
      (directoryOf p isolate shared.container working.container) := by
  obtain ⟨hchecked, -, -, -, -, hparameters⟩ := relocate_eq_ok_iff.1 h
  obtain ⟨-, -, hapart⟩ := checkNames_eq_ok_iff.1 hchecked
  have hnames : ∀ n ∈ ((relocated.inputs ++ relocated.outputs).map DataBinding.entry).map Prod.fst,
      Moves p n ∧ n ∈ p.values.keys := by
    intro n hn
    rw [List.map_map] at hn
    obtain ⟨d, hd, rfl⟩ := List.mem_map.1 hn
    exact exists_moves_of_mem h hd
  constructor
  case rest => rw [hparameters]
  case names =>
    rw [hparameters]
    exact OrderedMap.keys_insertAll_of_known fun n hn => (hnames n hn).2
  case moved =>
    rintro n (⟨hlisted, hbinds⟩ | hlisted)
    · obtain ⟨d, hd, hinput⟩ := exists_mem_of_bindsRemote h hlisted hbinds
      have hdirectory : directoryOf p isolate shared.container working.container n =
          (inputBase isolate shared working).container := by
        unfold directoryOf inputBase
        cases isolate <;> simp [hlisted]
      have hvalue := get?_of_mem h (List.mem_append_left _ hd)
      rw [name_of_input hinput] at hvalue
      refine ⟨_, ?_, hvalue⟩
      rw [hdirectory]
      exact placedBelow_of_input hinput
    · obtain ⟨d, hd, houtput⟩ :=
        Lists.exists_mem_of_forall₂ (forall₂_outputs h).flip hlisted
      have hdirectory : directoryOf p isolate shared.container working.container n =
          working.container :=
        if_neg fun hinput => hapart n hinput.1 hlisted
      have hvalue := get?_of_mem h (List.mem_append_right _ hd)
      rw [name_of_output houtput] at hvalue
      refine ⟨_, ?_, hvalue⟩
      rw [hdirectory]
      exact placedBelow_of_output houtput
  case kept =>
    intro n hstays
    rw [hparameters]
    exact OrderedMap.get?_insertAll_of_notMem fun hn => hstays (hnames n hn).1

end JobStaging.Relocation

namespace JobStaging.Assembly

open Relocation (Keeps Moves PlacedBelow directoryOf)

variable {σ : Type} {config : Config} {r : Resolver} {storage : Storage (StateM σ)}
  {request : Request} {s : σ} {response : Response}

/-- The variables that a shell has set once it has sourced the file that was written, if one was. -/
def exportedBy (joins : Bool) : List Write → Option (List (String × String))
  | [] => some []
  | w :: _ => Environment.ShellText.read joins w.content

namespace Stages

/-- Both deliveries supply what says where the job runs and then its own variables. -/
theorem supplies (st : Stages config r request) (joins : Bool) :
    st.delivery.Supplies joins ((infrastructure config st.dirs).entries none ++ st.own.entries) := by
  rcases st.delivery_cases with hdelivery | hdelivery
  · rw [hdelivery]
    exact Environment.deliverByFile_supplies joins _ st.ownNames
  · rw [hdelivery]
    exact Environment.deliverInline_supplies joins st.ownNames

/-- The value of a rewritten parameter is supplied under its name, once. -/
theorem filter_environment (st : Stages config r request) (joins : Bool) {name : String}
    {value : ParameterValue} (h : st.relocated.parameters.values.get? name = some value) :
    ∃ exported, st.delivery.exported joins = some exported ∧
      (st.delivery.inline.entries ++ exported).filter (fun e => e.1 == name) =
        [(name, value.envValue)] := by
  have hown : (name, value.envValue) ∈ st.own.entries := by
    rw [st.entries_own]
    exact List.mem_cons_of_mem _ (List.mem_map.2 ⟨_, OrderedMap.mem_of_get? h, rfl⟩)
  exact (st.supplies joins).filter_eq (Environment.nodup_supplied _ st.ownNames)
    (List.mem_append_right _ hown)

/-- The directories of the container are the working directory and the mount that is shared. -/
theorem directoryOf_eq (st : Stages config r request) (isolate : Bool) :
    directoryOf request.execution.parameters isolate st.dirs.shared.container
        st.dirs.working.container =
      directoryOf request.execution.parameters isolate st.mounts.shared.path
        (st.mounts.scratch.path.join ⟨request.execution.id⟩) := by
  obtain ⟨hworking, hshared, -⟩ := directories_eq_ok_iff.1 st.dirs_eq
  rw [(mountedPath_eq_ok_iff.1 hworking).1, (mountedPath_eq_ok_iff.1 hshared).1]

end Stages

/-- A successful run answers with the execution that was asked for, in which only values of
parameters have changed. The names of the parameters and their order are the same; a parameter that
moves has as its value the path of its place below the working directory, or, if it is an input and
inputs are not isolated, below the shared one; the others have the values that were given. In what
the job has inline and from its file each name of a parameter stands once, with the text of the
value that the answer has for it. -/
theorem only_moving_values_change
    (h : ((prepare config r storage request).run s).1.answer = .ok response) :
    let given := request.execution.parameters
    let rewritten := response.execution.parameters
    response.execution = { request.execution with parameters := rewritten } ∧
    (∃ mounts, (mountAll config r request.execution.id request.placement).outcome = .ok mounts ∧
      Keeps given rewritten (directoryOf given request.handling.isolateInputs mounts.shared.path
        (mounts.scratch.path.join ⟨request.execution.id⟩))) ∧
    ∀ joins, ∃ exported,
      exportedBy joins (run config r storage request s).writes = some exported ∧
      ∀ name value, rewritten.values.get? name = some value →
        (response.setup.job.environment.entries ++ exported).filter (fun e => e.1 == name) =
          [(name, value.envValue)] := by
  intro given rewritten
  rw [run_prepare] at h
  obtain ⟨st, rfl, hwritten⟩ := exists_stages_of_answer h
  refine ⟨rfl, ⟨st.mounts, st.mounts_eq, ?_⟩, ?_⟩
  · rw [← st.directoryOf_eq]
    exact Relocation.keeps_of_relocate st.relocated_eq
  · intro joins
    have hexported : exportedBy joins (run config r storage request s).writes =
        st.delivery.exported joins := by
      rw [hwritten]
      unfold Environment.Delivery.exported
      cases st.delivery.file <;> rfl
    obtain ⟨exported, hread, -⟩ := st.supplies joins
    refine ⟨exported, hexported.trans hread, fun name value hvalue => ?_⟩
    obtain ⟨exported', hread', hfilter⟩ := st.filter_environment joins hvalue
    obtain rfl : exported = exported' := Option.some.inj (hread.symm.trans hread')
    exact hfilter

/-- An input that is bound by both of its halves, one that is in the container already, an output,
and a truth value that is neither. -/
def mixedParameters : Parameters :=
  { sampleParameters with
    values := OrderedMap.ofList
      [("READS", .pair ⟨some "in/./reads.fq", some (.s3 ⟨"archive", "r.fq", by decide, by decide⟩)⟩),
        ("STRICT", .flag true), ("MODE", .literal "fast"), ("HITS", .literal "hits.txt")] }

/-- The request for them. -/
def mixedRequest : Request :=
  { sampleRequest with
    execution := { sampleRequest.execution with parameters := mixedParameters } }

/-- Of four parameters two move; the truth value reaches the job as a text. -/
theorem only_moving_values_change_of_sample :
    let outcome := ((prepare .standard sampleInventory.resolver .acceptAll mixedRequest).run ()).1
    let writes := (run .standard sampleInventory.resolver .acceptAll mixedRequest ()).writes
    ∃ response mounts, outcome.answer = .ok response ∧
      (mountAll .standard sampleInventory.resolver "run-1" mixedRequest.placement).outcome =
        .ok mounts ∧
      response.execution.parameters.values.entries =
        [("READS", .literal "/opt/efs/shared/in/./reads.fq"), ("STRICT", .flag true),
          ("MODE", .literal "fast"), ("HITS", .literal "/opt/efs/scratch/run-1/hits.txt")] ∧
      Keeps mixedParameters response.execution.parameters (directoryOf mixedParameters false
        mounts.shared.path (mounts.scratch.path.join ⟨"run-1"⟩)) ∧
      ∀ joins, ∃ exported, exportedBy joins writes = some exported ∧
        (response.setup.job.environment.entries ++ exported).filter (fun e => e.1 == "STRICT") =
          [("STRICT", "true")] := by
  intro outcome writes
  have hanswer : ∃ response, outcome.answer = .ok response ∧
      response.execution.parameters.values.entries =
        [("READS", .literal "/opt/efs/shared/in/./reads.fq"), ("STRICT", .flag true),
          ("MODE", .literal "fast"), ("HITS", .literal "/opt/efs/scratch/run-1/hits.txt")] :=
    ⟨_, rfl, rfl⟩
  obtain ⟨response, hresponse, hvalues⟩ := hanswer
  obtain ⟨-, ⟨mounts, hmounts, hkeeps⟩, hjob⟩ := only_moving_values_change hresponse
  refine ⟨response, mounts, hresponse, hmounts, hvalues, hkeeps, fun joins => ?_⟩
  obtain ⟨exported, hread, hcarries⟩ := hjob joins
  have hstrict : response.execution.parameters.values.get? "STRICT" = some (.flag true) := by
    unfold OrderedMap.get?
    rw [hvalues]
    rfl
  exact ⟨exported, hread, hcarries "STRICT" _ hstrict⟩

end JobStaging.Assembly
