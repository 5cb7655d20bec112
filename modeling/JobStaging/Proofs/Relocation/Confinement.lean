import JobStaging.Proofs.Relocation

/-!
# Local names stay below their directory

Joining a path to a directory may lead anywhere: an absolute path replaces the directory, and `..`
leads out of it again. Local names are checked before they are joined, and the check refuses exactly
these paths and the empty one (`Path.staysInside_iff`). What passes adds its names to the components
of the directory and nothing else, as the container sees it and in the shared file system alike
(`liesBelow_join`). A directory with an empty path in the container is none: there the local name
is the whole path, with a `.` that it may begin with. The main statement is
`locations_stay_below`.
-/

set_option autoImplicit false

namespace JobStaging.Relocation

variable {given : Parameters} {base shared working location : MountedPath} {isolate : Bool}
  {name localName : String} {relocated : Relocated} {d : DataBinding}

/-- A location lies below a directory by the names of a local name. -/
structure LiesBelow (base : MountedPath) (localName : String) (location : MountedPath) : Prop where
  fileSystem : location.efs.fileSystem = base.efs.fileSystem
  place : location.efs.path.components =
    base.efs.path.components ++ (Path.mk localName).names.map .name
  container : base.container.text ≠ "" → location.container.components =
    base.container.components ++ (Path.mk localName).names.map .name
  /-- Below no path at all the local name stands alone, and may begin with a `.`. -/
  alone : base.container.text = "" → location.container = ⟨localName⟩ ∧
    ∃ dot : List Path.Component, (dot = [] ∨ dot = [.here]) ∧
      location.container.components = dot ++ (Path.mk localName).names.map .name
  /-- The directory is not replaced. -/
  below : base.efs.path.components <+: location.efs.path.components ∧
    base.container.components <+: location.container.components
  /-- Nothing leads up that did not before. -/
  ups : location.efs.path.components.count .up = base.efs.path.components.count .up ∧
    location.container.components.count .up = base.container.components.count .up

/-- A local name that leaves its directory: it is absolute, empty or leads up. -/
def Strays (localName : String) : Prop :=
  (Path.mk localName).isAbsolute = true ∨ localName = "" ∨ .up ∈ (Path.mk localName).components

/-- The check for local names refuses those that stray, and no others. -/
theorem staysInside_iff_not_strays :
    (Path.mk localName).staysInside = true ↔ ¬ Strays localName := by
  unfold Strays
  rw [Path.staysInside_iff, not_or, not_or, Bool.not_eq_true]

/-- Names do not lead up. -/
theorem count_up_names (names : List String) :
    (names.map Path.Component.name).count .up = 0 := by
  simp [List.count_eq_zero]

/-- What a directory is joined with lies below it, if the local name stays inside. -/
theorem liesBelow_join (h : (Path.mk localName).staysInside = true) :
    LiesBelow base localName (base.join ⟨localName⟩) := by
  have hrelative := Path.isAbsolute_of_staysInside h
  have hsteps := Path.steps_eq_map_names h
  have hplace : (base.join ⟨localName⟩).efs.path.components =
      base.efs.path.components ++ (Path.mk localName).names.map .name := by
    rw [← hsteps]
    exact EfsPath.components_join base.efs hrelative
  have hcontainer : base.container.text ≠ "" → (base.join ⟨localName⟩).container.components =
      base.container.components ++ (Path.mk localName).names.map .name := by
    intro hne
    rw [← hsteps]
    exact Path.components_join_of_ne hrelative hne
  -- Whatever the directory is, at most a `.` comes between its components and the names.
  have hwhole : ∃ dot : List Path.Component, (dot = [] ∨ dot = [.here]) ∧
      (base.join ⟨localName⟩).container.components =
        base.container.components ++ (dot ++ (Path.mk localName).names.map .name) := by
    by_cases hempty : base.container.text = ""
    · have hjoin : (base.join ⟨localName⟩).container = ⟨localName⟩ :=
        Path.join_of_text_eq_empty hempty
      refine ⟨_, Path.start_of_staysInside h, ?_⟩
      rw [hjoin, Path.components_eq_nil_iff.2 hempty, ← hsteps]
      rfl
    · exact ⟨[], .inl rfl, hcontainer hempty⟩
  have hnew : ((Path.mk localName).names.map Path.Component.name).count .up = 0 := count_up_names _
  obtain ⟨dot, hdot, hdotted⟩ := hwhole
  constructor
  case fileSystem => rfl
  case place => exact hplace
  case container => exact hcontainer
  case alone =>
    intro hempty
    refine ⟨Path.join_of_text_eq_empty hempty, dot, hdot, ?_⟩
    rw [hdotted, Path.components_eq_nil_iff.2 hempty, List.nil_append]
  case below =>
    rw [hplace, hdotted]
    exact ⟨List.prefix_append _ _, List.prefix_append _ _⟩
  case ups =>
    have hstart : dot.count .up = 0 := by rcases hdot with rfl | rfl <;> simp
    simp [hplace, hdotted, hnew, hstart]

/-- Name by name, data lies below a directory under its local name. -/
def AllBelow (given : Parameters) (base : MountedPath) (names : List String)
    (data : List DataBinding) : Prop :=
  List.Forall₂ (fun name d => d.name = name ∧
    ∃ localName, LocalName given name localName ∧ LiesBelow base localName d.location) names data

/-- The data of the inputs lies below their base. -/
theorem allBelow_inputs (h : relocate given shared working isolate = .ok relocated) :
    AllBelow given (inputBase isolate shared working) (given.inputs.filter (bindsRemote given))
      relocated.inputs := by
  apply (forall₂_inputs h).imp
  intro name d hfound
  obtain ⟨localName, hlocal, hinside, hlocation⟩ := exists_localName_of_input hfound
  refine ⟨name_of_input hfound, localName, hlocal, ?_⟩
  rw [hlocation]
  exact liesBelow_join hinside

/-- The data of the outputs lies below the working directory. -/
theorem allBelow_outputs (h : relocate given shared working isolate = .ok relocated) :
    AllBelow given working given.outputs relocated.outputs := by
  apply (forall₂_outputs h).imp
  intro name d hfound
  obtain ⟨localName, hlocal, hinside, hlocation⟩ := exists_localName_of_output hfound
  refine ⟨name_of_output hfound, localName, hlocal, ?_⟩
  rw [hlocation]
  exact liesBelow_join hinside

/-- Where relocation succeeds, no local name that it used strays. -/
theorem not_strays_of_relocate (h : relocate given shared working isolate = .ok relocated)
    (hmoves : Moves given name) (hlocal : LocalName given name localName) :
    ¬ Strays localName := by
  have hfound : ∃ used, LocalName given name used ∧ (Path.mk used).staysInside = true := by
    rcases hmoves with ⟨hinput, hremote⟩ | houtput
    · obtain ⟨d, -, hd⟩ := exists_mem_of_bindsRemote h hinput hremote
      obtain ⟨used, hused, hinside, -⟩ := exists_localName_of_input hd
      exact ⟨used, hused, hinside⟩
    · obtain ⟨d, -, hd⟩ := Lists.exists_mem_of_forall₂ (forall₂_outputs h).flip houtput
      obtain ⟨used, hused, hinside, -⟩ := exists_localName_of_output hd
      exact ⟨used, hused, hinside⟩
  obtain ⟨used, hused, hinside⟩ := hfound
  rw [hlocal.unique hused]
  exact staysInside_iff_not_strays.1 hinside

/-- The data that moves lies below the directory that it is relocated to, each by the names of its
own local name. Local names that lead elsewhere are refused, whichever parameter uses one. -/
theorem locations_stay_below (given : Parameters) (shared working : MountedPath) (isolate : Bool) :
    (∀ relocated, relocate given shared working isolate = .ok relocated →
      AllBelow given (inputBase isolate shared working)
        (given.inputs.filter (bindsRemote given)) relocated.inputs ∧
      AllBelow given working given.outputs relocated.outputs) ∧
    ∀ name localName, Moves given name → LocalName given name localName → Strays localName →
      ∃ cause, (Traced.check (relocate given shared working isolate)).outcome =
        .error (.invalidInput cause) := by
  constructor
  · intro relocated h
    exact ⟨allBelow_inputs h, allBelow_outputs h⟩
  · intro name localName hmoves hlocal hstrays
    cases h : relocate given shared working isolate with
    | error cause => exact ⟨cause, Traced.outcome_check_of_error rfl⟩
    | ok relocated => exact absurd hstrays (not_strays_of_relocate h hmoves hlocal)

/-- An input that is read from a store and an output, with the value of the input left open. -/
def readsParameters (reads : String) : Parameters :=
  { Parameters.empty with
    inputs := ["READS"]
    outputs := ["HITS"]
    values := OrderedMap.ofList [("READS", .literal reads),
      ("HITS", .literal "out//hits.txt/ @ s3://data/hits.txt")] }

/-- A shared directory, at a path that ends with a slash. -/
def sharedDirectory : MountedPath := ⟨⟨"/mnt/shared"⟩, ⟨"fs-1", ⟨"/shared/"⟩, by decide, by decide⟩⟩

/-- A working directory on another file system. -/
def workingDirectory : MountedPath := ⟨⟨"/mnt/run-1"⟩, ⟨"fs-2", ⟨"/run-1"⟩, by decide, by decide⟩⟩

/-- Two local names with parts that lead nowhere are taken, and one that leads up is refused. -/
theorem locations_stay_below_of_reads :
    (∃ relocated,
      relocate (readsParameters "./in//reads.fq @ s3://data/reads.fq") sharedDirectory
        workingDirectory false = .ok relocated ∧
      AllBelow (readsParameters "./in//reads.fq @ s3://data/reads.fq") sharedDirectory ["READS"]
        relocated.inputs ∧
      AllBelow (readsParameters "./in//reads.fq @ s3://data/reads.fq") workingDirectory ["HITS"]
        relocated.outputs) ∧
    LocalName (readsParameters "in/../reads.fq @ s3://data/reads.fq") "READS" "in/../reads.fq" ∧
    Strays "in/../reads.fq" ∧
    ∃ cause, (Traced.check (relocate (readsParameters "in/../reads.fq @ s3://data/reads.fq")
      sharedDirectory workingDirectory false)).outcome = .error (.invalidInput cause) := by
  have htaken : ∃ relocated, relocate (readsParameters "./in//reads.fq @ s3://data/reads.fq")
      sharedDirectory workingDirectory false = .ok relocated := ⟨_, rfl⟩
  have hlocal : LocalName (readsParameters "in/../reads.fq @ s3://data/reads.fq") "READS"
      "in/../reads.fq" := ⟨_, rfl, rfl⟩
  have hmoves : Moves (readsParameters "in/../reads.fq @ s3://data/reads.fq") "READS" :=
    .inl ⟨List.mem_cons_self, rfl⟩
  have hstrays : Strays "in/../reads.fq" := .inr (.inr (by decide))
  obtain ⟨relocated, hrelocated⟩ := htaken
  obtain ⟨hinputs, houtputs⟩ := (locations_stay_below _ _ _ _).1 relocated hrelocated
  refine ⟨⟨relocated, hrelocated, hinputs, houtputs⟩, hlocal, hstrays, ?_⟩
  exact (locations_stay_below _ _ _ _).2 "READS" _ hmoves hlocal hstrays

/-- Below a directory whose path in the container is empty there is nothing in front of the local
name, and so the `.` that it begins with is a component of the place. -/
theorem empty_directory_keeps_a_dot :
    ∃ relocated d, relocate (readsParameters "./reads.fq @ s3://data/reads.fq")
        { sharedDirectory with container := ⟨""⟩ } workingDirectory false = .ok relocated ∧
      relocated.inputs = [d] ∧
      LocalName (readsParameters "./reads.fq @ s3://data/reads.fq") "READS" "./reads.fq" ∧
      (Path.mk "./reads.fq").names = ["reads.fq"] ∧
      d.location.container.components = [.here, .name "reads.fq"] ∧
      d.location.container.components ≠
        (Path.mk "").components ++ (Path.mk "./reads.fq").names.map .name := by
  refine ⟨_, _, rfl, rfl, ⟨_, rfl, rfl⟩, by decide, by decide, by decide⟩

end JobStaging.Relocation
