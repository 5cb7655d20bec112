import JobStaging.Proofs.Relocation
import Mathlib.Data.List.Perm.Basic

/-!
# The order in which inputs and outputs are listed

Relocation goes through the lists of inputs and outputs and sets the values of parameters on the
way. What it finds for a name it finds in the values that were given, so each name has the same data
whatever was looked at before it; and since no name is listed twice and all of them have a value
already, no two settings meet and none of them adds a name. So the lists may be reordered
(`relocate_of_perm`): what is set is the same map, and the data comes in the order of the names.
-/

set_option autoImplicit false

namespace JobStaging.Relocation

variable {p : Parameters} {inputs outputs : List String} {shared working : MountedPath}
  {isolate : Bool} {relocated : Relocated}

/-- Parameters with other lists of inputs and outputs. -/
def relisted (p : Parameters) (inputs outputs : List String) : Parameters :=
  { p with inputs := inputs, outputs := outputs }

/-- Two results of relocation differ in the lists alone: the values are the same map, and the data
is the same, on either side in the order in which its names are listed. -/
structure Reordered (p : Parameters) (inputs outputs : List String)
    (relocated relocated' : Relocated) : Prop where
  parameters : relocated'.parameters = relisted relocated.parameters inputs outputs
  inputData : relocated.inputs.Perm relocated'.inputs
  outputData : relocated.outputs.Perm relocated'.outputs
  inputNames : relocated.inputs.map DataBinding.name = p.inputs.filter (bindsRemote p) ∧
    relocated'.inputs.map DataBinding.name = inputs.filter (bindsRemote p)
  outputNames : relocated.outputs.map DataBinding.name = p.outputs ∧
    relocated'.outputs.map DataBinding.name = outputs

/-- Lists that pass the check for names pass it in any order. -/
theorem checkNames_of_perm (hin : p.inputs.Perm inputs) (hout : p.outputs.Perm outputs)
    (h : checkNames p = .ok ()) : checkNames (relisted p inputs outputs) = .ok () := by
  obtain ⟨hinputs, houtputs, hapart⟩ := checkNames_eq_ok_iff.1 h
  apply checkNames_eq_ok_iff.2
  refine ⟨hin.nodup_iff.1 hinputs, hout.nodup_iff.1 houtputs, ?_⟩
  intro n hn hmem
  exact hapart n (hin.mem_iff.2 hn) (hout.mem_iff.2 hmem)

/-- A run that succeeds on some lists succeeds on the same lists in another order. -/
theorem exists_relocate_of_perm (hin : p.inputs.Perm inputs) (hout : p.outputs.Perm outputs)
    (h : relocate p shared working isolate = .ok relocated) :
    ∃ relocated', relocate (relisted p inputs outputs) shared working isolate = .ok relocated' ∧
      Reordered p inputs outputs relocated relocated' := by
  obtain ⟨hnames, found, hfound, hinputs, houtputs, hparameters⟩ := relocate_eq_ok_iff.1 h
  -- What is found for a name does not depend on the lists, so it moves with the name.
  obtain ⟨found', hfound', hperm⟩ := List.perm_comp_forall₂ hin.symm hfound
  obtain ⟨data', hdata', hpermOut⟩ := List.perm_comp_forall₂ hout.symm houtputs
  have hpermIn : relocated.inputs.Perm (found'.filterMap id) := by
    rw [hinputs]
    exact (hperm.filterMap id).symm
  have hentries := (hpermIn.append hpermOut.symm).map DataBinding.entry
  have hknown : ∀ n ∈ ((relocated.inputs ++ relocated.outputs).map DataBinding.entry).map Prod.fst,
      n ∈ p.values.keys := by
    intro n hn
    rw [List.map_map] at hn
    obtain ⟨d, hd, rfl⟩ := List.mem_map.1 hn
    exact (exists_moves_of_mem h hd).2
  have hvalues := OrderedMap.insertAll_of_perm hentries (nodup_entries h) hknown
  have hrun : relocate (relisted p inputs outputs) shared working isolate =
      .ok ⟨relisted relocated.parameters inputs outputs, found'.filterMap id, data'⟩ := by
    apply relocate_eq_ok_iff.2
    refine ⟨checkNames_of_perm hin hout hnames, found', hfound', rfl, hdata', ?_⟩
    rw [hparameters, hvalues]
    rfl
  refine ⟨_, hrun, ?_⟩
  constructor
  case parameters => rfl
  case inputData => exact hpermIn
  case outputData => exact hpermOut.symm
  case inputNames =>
    exact ⟨map_name_eq ((forall₂_inputs h).imp fun n d hd => name_of_input hd),
      map_name_eq ((forall₂_inputs hrun).imp fun n d hd => name_of_input hd)⟩
  case outputNames =>
    exact ⟨map_name_eq ((forall₂_outputs h).imp fun n d hd => name_of_output hd),
      map_name_eq ((forall₂_outputs hrun).imp fun n d hd => name_of_output hd)⟩

/-- Relocation does not depend on the order in which inputs and outputs are listed. With the lists
in another order it succeeds where it did before, with the same values in the same order and the
same data, or it fails where it did before, either way because of the request. -/
theorem relocate_of_perm (hin : p.inputs.Perm inputs) (hout : p.outputs.Perm outputs)
    (shared working : MountedPath) (isolate : Bool) :
    let listed := (Traced.check (relocate p shared working isolate)).outcome
    let reordered :=
      (Traced.check (relocate (relisted p inputs outputs) shared working isolate)).outcome
    (∃ relocated relocated', listed = .ok relocated ∧ reordered = .ok relocated' ∧
      Reordered p inputs outputs relocated relocated') ∨
    ∃ cause cause', listed = .error (.invalidInput cause) ∧
      reordered = .error (.invalidInput cause') := by
  intro listed reordered
  cases h : relocate p shared working isolate with
  | ok relocated =>
    obtain ⟨relocated', h', hreordered⟩ := exists_relocate_of_perm hin hout h
    exact .inl ⟨relocated, relocated', Traced.outcome_check_eq_ok_iff.2 h,
      Traced.outcome_check_eq_ok_iff.2 h', hreordered⟩
  | error cause =>
    cases h' : relocate (relisted p inputs outputs) shared working isolate with
    | ok relocated' =>
      -- The order can be changed back, so what fails on one order fails on both.
      have hinBack : (relisted p inputs outputs).inputs.Perm p.inputs := hin.symm
      have houtBack : (relisted p inputs outputs).outputs.Perm p.outputs := hout.symm
      obtain ⟨relocated, hback, -⟩ := exists_relocate_of_perm hinBack houtBack h'
      have hsame : relocate p shared working isolate = .ok relocated := hback
      rw [hsame] at h
      cases h
    | error cause' =>
      exact .inr ⟨cause, cause', Traced.outcome_check_of_error h, Traced.outcome_check_of_error h'⟩

/-- Two inputs that are read from outside, one that is in the container already, and two outputs. -/
def listedParameters : Parameters :=
  { Parameters.empty with
    inputs := ["READS", "MODE", "REFS"]
    outputs := ["HITS", "LOGS"]
    values := OrderedMap.ofList [("MODE", .literal "fast"), ("HITS", .literal "hits @ s3://out/hits"),
      ("READS", .literal "reads.fq @ s3://data/reads.fq"), ("LOGS", .literal "logs @ s3://out/logs"),
      ("REFS", .pair ⟨some "refs.fa", some (.efs ⟨"fs-9", ⟨"/refs.fa"⟩, by decide, by decide⟩)⟩)] }

/-- The lists are read backwards. Where two parameters without a value are listed it fails on either
order, because of the one that comes first. -/
theorem relocate_of_perm_of_listed :
    let shared : MountedPath := ⟨⟨"/mnt/shared"⟩, ⟨"fs-1", ⟨"/shared"⟩, by decide, by decide⟩⟩
    let working : MountedPath := ⟨⟨"/mnt/run-1"⟩, ⟨"fs-2", ⟨"/run-1"⟩, by decide, by decide⟩⟩
    ["READS", "MODE", "REFS"].Perm ["REFS", "MODE", "READS"] ∧
    ["HITS", "LOGS"].Perm ["LOGS", "HITS"] ∧
    (∃ relocated relocated', relocate listedParameters shared working false = .ok relocated ∧
      relocate (relisted listedParameters ["REFS", "MODE", "READS"] ["LOGS", "HITS"]) shared working
        false = .ok relocated' ∧
      Reordered listedParameters ["REFS", "MODE", "READS"] ["LOGS", "HITS"] relocated relocated') ∧
    relocate (relisted listedParameters ["ONE", "TWO"] []) shared working false =
      .error (.undefinedParameter "ONE") ∧
    ∃ cause', (Traced.check (relocate (relisted listedParameters ["TWO", "ONE"] []) shared working
      false)).outcome = .error (.invalidInput cause') := by
  intro shared working
  have hin : ["READS", "MODE", "REFS"].Perm ["REFS", "MODE", "READS"] :=
    (List.reverse_perm ["READS", "MODE", "REFS"]).symm
  have hout : ["HITS", "LOGS"].Perm ["LOGS", "HITS"] := List.Perm.swap _ _ _
  have hfails : relocate (relisted listedParameters ["ONE", "TWO"] []) shared working false =
      .error (.undefinedParameter "ONE") := rfl
  refine ⟨hin, hout, ?_, hfails, ?_⟩
  · have hruns : ∃ relocated, relocate listedParameters shared working false = .ok relocated :=
      ⟨_, rfl⟩
    obtain ⟨given, hgiven⟩ := hruns
    rcases relocate_of_perm (p := listedParameters) hin hout shared working false with
      ⟨relocated, relocated', h, h', hreordered⟩ | ⟨cause, cause', h, -⟩
    · exact ⟨relocated, relocated', Traced.outcome_check_eq_ok_iff.1 h,
        Traced.outcome_check_eq_ok_iff.1 h', hreordered⟩
    · rw [Traced.outcome_check_eq_ok_iff.2 hgiven] at h
      cases h
  · have htwo : ["ONE", "TWO"].Perm ["TWO", "ONE"] := List.Perm.swap _ _ _
    rcases relocate_of_perm (p := relisted listedParameters ["ONE", "TWO"] []) htwo (.refl [])
      shared working false with ⟨relocated, relocated', h, -⟩ | ⟨cause, cause', -, h'⟩
    · rw [Traced.outcome_check_of_error hfails] at h
      cases h
    · exact ⟨cause', h'⟩

end JobStaging.Relocation
