import JobStaging.Environment.Delivery
import JobStaging.Proofs.Environment.ShellText
import JobStaging.Proofs.Fallible
import JobStaging.Proofs.OrderedMap

/-!
# What the job gets does not depend on the way it gets it

Variables reach a job inline or through a file that its shell sources. `exported` is what the shell
makes of the file, and `Supplies` says which variables the job has in the end, the helper variable
with the file's path left out. The main statement, `plan_supplies`, is that the job has the same
variables in the same order whatever the mode: those that say where it runs, its identifier and its
own, each once and through one channel only. It rests on three facts: the names that parameters may
have are none of those that staging sets, so that nothing is replaced when maps are put together
(`entries_ownVariables`, `entries_inlineVariables`); the names are valid, so that a shell can export
them; and escaping is undone by the shell's quoting rules (`ShellText.read_render`).
-/

set_option autoImplicit false

namespace JobStaging.Environment

variable {id : String} {i : Infrastructure} {vars own : OrderedMap String} {name : String}

/-! ## Names -/

/-- A name passes when a shell can export it and staging does not set it itself. -/
theorem checkName_eq_ok_iff :
    checkName name = .ok () ↔ isValidName name = true ∧ name ∉ reservedNames := by
  unfold checkName
  cases isValidName name with
  | false => simp
  | true => by_cases h : name ∈ reservedNames <;> simp [h]

/-- Names that all pass are valid, and staging sets none of them. -/
theorem checkNames_eq_ok_iff : vars.keys.forM checkName = .ok () ↔
    ∀ n ∈ vars.keys, isValidName n = true ∧ n ∉ reservedNames := by
  rw [Fallible.forM_eq_ok_iff]
  exact forall₂_congr fun n _ => checkName_eq_ok_iff

/-- The variables of parameters are their values as texts, under names that pass. -/
theorem jobVariables_eq_ok_iff {p : Parameters} : jobVariables p = .ok vars ↔
    p.values.keys.forM checkName = .ok () ∧ vars = p.values.mapValues ParameterValue.envValue := by
  unfold jobVariables
  rw [Fallible.bind_eq_ok_iff]
  constructor
  · rintro ⟨_, hnames, h⟩
    cases h
    exact ⟨hnames, rfl⟩
  · rintro ⟨hnames, rfl⟩
    exact ⟨(), hnames, rfl⟩

/-! ## Maps of variables -/

/-- The names of the variables that say where a job runs, and perhaps of the helper variable. -/
theorem map_fst_entries (i : Infrastructure) (file : Option Path) :
    (i.entries file).map Prod.fst =
      [envBase, region] ++ (if file.isSome then [environmentFile] else []) ++
        [workingDir, tmpDir] := by
  cases file <;> rfl

/-- Where a job runs is said by variables with different names that parameters may not have. -/
theorem nodup_entries (i : Infrastructure) (file : Option Path) :
    ((i.entries file).map Prod.fst).Nodup ∧
      ∀ n ∈ (i.entries file).map Prod.fst, n ∈ reservedNames ∧ n ≠ executionId := by
  rw [map_fst_entries]
  cases file with
  | none => decide
  | some path =>
    rw [Option.isSome_some]
    decide

/-- The identifier of the execution comes first, and then the variables of the parameters. -/
theorem entries_ownVariables (h : ∀ n ∈ vars.keys, n ∉ reservedNames) :
    (ownVariables id vars).entries = (executionId, id) :: vars.entries := by
  refine OrderedMap.entries_insertAll_of_new (fun n hn hid => h n hn ?_) vars.nodup
  have hkeys : (OrderedMap.ofList [(executionId, id)]).keys = [executionId] := rfl
  rw [hkeys, List.mem_singleton] at hid
  rw [hid]
  decide

/-- What is known of the names of a job's own variables: a shell can export them, and the only one
among them that staging sets is the identifier's. -/
structure OwnNames (own : OrderedMap String) : Prop where
  valid : ∀ n ∈ own.keys, isValidName n = true
  reserved : ∀ n ∈ own.keys, n ∈ reservedNames → n = executionId

/-- It is so when the names of the parameters pass. -/
theorem ownNames_ownVariables (id : String) (hnames : vars.keys.forM checkName = .ok ()) :
    OwnNames (ownVariables id vars) := by
  have hpass := checkNames_eq_ok_iff.1 hnames
  have hentries : (ownVariables id vars).entries = (executionId, id) :: vars.entries :=
    entries_ownVariables fun n hn => (hpass n hn).2
  have hkeys : (ownVariables id vars).keys = executionId :: vars.keys :=
    congrArg (List.map Prod.fst) hentries
  constructor
  · intro n hn
    rw [hkeys] at hn
    rcases List.mem_cons.1 hn with rfl | hn
    · decide
    · exact (hpass n hn).1
  · intro n hn hreserved
    rw [hkeys] at hn
    exact (List.mem_cons.1 hn).resolve_right fun hmem => (hpass n hmem).2 hreserved

/-- The variables that say where the job runs come first, and then its own. -/
theorem entries_inlineVariables (hown : OwnNames own) :
    (inlineVariables i own).entries = i.entries none ++ own.entries := by
  have hplaces : (OrderedMap.ofList (i.entries none)).entries = i.entries none :=
    OrderedMap.entries_ofList (nodup_entries i none).1
  unfold inlineVariables
  rw [OrderedMap.entries_insertAll_of_new _ own.nodup, hplaces]
  intro n hn hplace
  unfold OrderedMap.keys at hplace
  rw [hplaces] at hplace
  obtain ⟨hreserved, hother⟩ := (nodup_entries i none).2 n hplace
  exact hother (hown.reserved n hn hreserved)

/-! ## Channels -/

/-- The variables that the shell has set when it has sourced the file, if there is one. -/
def Delivery.exported (joins : Bool) (d : Delivery) : Option (List (String × String)) :=
  match d.file with
  | none => some []
  | some file => ShellText.read joins file.content

/-- A delivery supplies variables when they are what is passed inline, without the helper variable,
and then what the file sets, and no name comes through both channels. -/
def Delivery.Supplies (joins : Bool) (d : Delivery) (all : List (String × String)) : Prop :=
  ∃ exported, d.exported joins = some exported ∧
    (d.inline.entries ++ exported).filter (fun e => e.1 != environmentFile) = all ∧
    ∀ n ∈ d.inline.keys, n ∉ exported.map Prod.fst

/-- Leaving out the helper variable changes nothing where it does not occur. -/
theorem filter_eq_self_of_notMem {entries : List (String × String)}
    (h : environmentFile ∉ entries.map Prod.fst) :
    entries.filter (fun e => e.1 != environmentFile) = entries := by
  rw [List.filter_eq_self]
  intro e he
  rw [bne_iff_ne]
  intro hname
  exact h (hname ▸ List.mem_map_of_mem he)

/-- The job's own variables are not the helper variable. -/
theorem environmentFile_notMem_keys (hown : OwnNames own) : environmentFile ∉ own.keys := by
  intro hmem
  have hid : environmentFile = executionId := hown.reserved _ hmem (by decide)
  exact absurd hid (by decide)

/-- Without a file everything is passed inline: what says where the job runs, and then its own. -/
theorem entries_deliverInline (hown : OwnNames own) :
    (deliverInline i own).inline.entries = i.entries none ++ own.entries :=
  entries_inlineVariables hown

/-- With a file only what says where the job runs is passed inline, the file's path among it. -/
theorem entries_deliverByFile (i : Infrastructure) (own : OrderedMap String)
    (working : MountedPath) : (deliverByFile i own working).inline.entries =
      i.entries (some (working.join fileName).container) :=
  OrderedMap.entries_ofList (nodup_entries i _).1

/-- Without a file the job has its variables from what is passed inline. -/
theorem deliverInline_supplies (joins : Bool) (hown : OwnNames own) :
    (deliverInline i own).Supplies joins (i.entries none ++ own.entries) := by
  refine ⟨[], rfl, ?_, fun n _ => List.not_mem_nil⟩
  rw [entries_deliverInline hown, List.append_nil, List.filter_append,
    filter_eq_self_of_notMem (environmentFile_notMem_keys hown)]
  rfl

/-- The shell reads the job's own variables from their rendered form. -/
theorem read_own (joins : Bool) (hown : OwnNames own) :
    ShellText.read joins (render own) = some own.entries :=
  ShellText.read_render fun e he => hown.valid e.1 (List.mem_map_of_mem he)

/-- With a file the job's own variables are set by the shell and the others are passed inline. -/
theorem deliverByFile_supplies (joins : Bool) (working : MountedPath) (hown : OwnNames own) :
    (deliverByFile i own working).Supplies joins (i.entries none ++ own.entries) := by
  refine ⟨own.entries, read_own joins hown, ?_, ?_⟩
  · rw [entries_deliverByFile, List.filter_append,
      filter_eq_self_of_notMem (environmentFile_notMem_keys hown)]
    rfl
  · intro n hn hmem
    unfold OrderedMap.keys at hn
    rw [entries_deliverByFile] at hn
    obtain ⟨hreserved, hother⟩ := (nodup_entries i _).2 n hn
    exact hother (hown.reserved n hmem hreserved)

/-- No name occurs twice among the variables: a parameter may not have a name of the first list, and
the identifier's is none of them. -/
theorem nodup_supplied (i : Infrastructure) (hown : OwnNames own) :
    ((i.entries none ++ own.entries).map Prod.fst).Nodup := by
  rw [List.map_append, List.nodup_append]
  refine ⟨(nodup_entries i none).1, own.nodup, ?_⟩
  rintro n hplace m hmem rfl
  obtain ⟨hreserved, hother⟩ := (nodup_entries i none).2 n hplace
  exact hother (hown.reserved n hmem hreserved)

/-- A variable that is supplied occurs once in what the job has from both channels. -/
theorem Delivery.Supplies.filter_eq {joins : Bool} {d : Delivery} {all : List (String × String)}
    {e : String × String} (h : d.Supplies joins all) (hnodup : (all.map Prod.fst).Nodup)
    (he : e ∈ all) : ∃ exported, d.exported joins = some exported ∧
      (d.inline.entries ++ exported).filter (fun e' => e'.1 == e.1) = [e] := by
  obtain ⟨exported, hexported, rfl, -⟩ := h
  refine ⟨exported, hexported, ?_⟩
  have hhelper : e.1 ≠ environmentFile := bne_iff_ne.1 (List.mem_filter.1 he).2
  rw [← Lists.filter_eq_singleton hnodup he, List.filter_filter]
  refine List.filter_congr fun e' _ => ?_
  rw [Bool.eq_iff_iff, Bool.and_eq_true, bne_iff_ne, beq_iff_eq, iff_self_and]
  rintro hname
  rw [hname]
  exact hhelper

/-- A delivery either passes everything inline or uses a file. -/
theorem plan_cases (threshold : UInt64) (id : String) (i : Infrastructure)
    (vars : OrderedMap String) (mode : EnvFileMode) (working : MountedPath) :
    plan threshold id i vars mode working = deliverByFile i (ownVariables id vars) working ∨
      plan threshold id i vars mode working = deliverInline i (ownVariables id vars) := by
  unfold plan
  dsimp only
  split
  · exact .inl rfl
  · exact .inr rfl

/-! ## The helper variable -/

/-- Without a file there is no helper variable. -/
theorem environmentFile_notMem_deliverInline (hown : OwnNames own) :
    environmentFile ∉ (deliverInline i own).inline.keys := by
  have hkeys : (deliverInline i own).inline.keys =
      (i.entries none).map Prod.fst ++ own.keys := by
    unfold OrderedMap.keys
    rw [entries_deliverInline hown, List.map_append]
  rw [hkeys, List.mem_append, not_or]
  refine ⟨?_, environmentFile_notMem_keys hown⟩
  rw [map_fst_entries]
  decide

/-- With a file the helper variable holds the path at which the job finds it. -/
theorem get?_environmentFile (working : MountedPath) :
    (deliverByFile i own working).inline.get? environmentFile =
      some (working.join fileName).container.text := by
  unfold OrderedMap.get?
  rw [entries_deliverByFile]
  rfl

/-- Whatever the mode and the threshold, the job has the variables that say where it runs, its
identifier and its own variables, in this order, each once and through one channel, when the names
of its own variables pass. -/
theorem plan_supplies (joins : Bool) (threshold : UInt64) (id : String) (i : Infrastructure)
    (vars : OrderedMap String) (mode : EnvFileMode) (working : MountedPath)
    (hnames : vars.keys.forM checkName = .ok ()) :
    let all := [("ENV_BASE", i.envBase), ("AWS_REGION", i.region),
      ("WORKING_DIR", i.workingDir.text), ("TMPDIR", i.tmpDir.text), ("EXECUTION_ID", id)] ++
        vars.entries
    (plan threshold id i vars mode working).Supplies joins all ∧ (all.map Prod.fst).Nodup := by
  intro all
  have hentries : (ownVariables id vars).entries = (executionId, id) :: vars.entries :=
    entries_ownVariables fun n hn => (checkNames_eq_ok_iff.1 hnames n hn).2
  have hown : OwnNames (ownVariables id vars) := ownNames_ownVariables id hnames
  have hall : i.entries none ++ (ownVariables id vars).entries = all := by
    rw [hentries]
    rfl
  constructor
  · rw [← hall]
    rcases plan_cases threshold id i vars mode working with hplan | hplan
    · rw [hplan]
      exact deliverByFile_supplies joins working hown
    · rw [hplan]
      exact deliverInline_supplies joins hown
  · rw [← hall]
    exact nodup_supplied i hown

/-- Values full of quotes, dollars and line feeds reach a job through a file. -/
theorem plan_supplies_quoted_values :
    let i : Infrastructure := ⟨"dev", "us-west-2", ⟨"/scratch/run-1"⟩, ⟨"/scratch/tmp"⟩⟩
    let vars := OrderedMap.ofList [("A", "say \"hi\" to $HOME"), ("B", "1\nexport A=\"2\" \\")]
    let working : MountedPath :=
      ⟨⟨"/scratch/run-1"⟩, ⟨"fs-12345678", ⟨"/run-1"⟩, by decide, by decide⟩⟩
    let all := [("ENV_BASE", "dev"), ("AWS_REGION", "us-west-2"), ("WORKING_DIR", "/scratch/run-1"),
      ("TMPDIR", "/scratch/tmp"), ("EXECUTION_ID", "run-1"), ("A", "say \"hi\" to $HOME"),
      ("B", "1\nexport A=\"2\" \\")]
    vars.keys.forM checkName = .ok () ∧
      (plan 0 "run-1" i vars .always working).Supplies true all ∧ (all.map Prod.fst).Nodup :=
  ⟨rfl, plan_supplies true 0 "run-1" _ _ .always _ rfl⟩

end JobStaging.Environment
