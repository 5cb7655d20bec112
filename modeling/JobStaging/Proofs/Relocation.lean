import JobStaging.Relocation
import JobStaging.Proofs.Fallible
import JobStaging.Proofs.OrderedMap
import JobStaging.Proofs.Path.Components
import JobStaging.Proofs.Mount

/-!
# What relocation does with each parameter

Relocation goes through the inputs and then through the outputs. The lemmas below say what one step
of either loop finds (`input_eq_ok_iff`, `output_eq_ok_iff`) and what a run through both leaves
behind (`relocate_eq_ok_iff`): the data that moves for the inputs belongs, name by name, to exactly
those inputs that bind to a place outside (`forall₂_inputs`), and every parameter whose data moves
has the path of its location as its value (`get?_of_mem`).
-/

set_option autoImplicit false

namespace JobStaging.Relocation

variable {p : Parameters} {base shared working : MountedPath} {isolate : Bool} {name : String}
  {relocated : Relocated}

/-! ## One parameter -/

/-- A place outside is anything but a path in the container. -/
theorem requireRemote_eq_ok_iff {given remote : DataPath} :
    requireRemote name given = .ok remote ↔ given.isRemote = true ∧ remote = given := by
  have hkept : (Except.ok given : Except Rejection DataPath) = .ok remote ↔ remote = given := by
    rw [Except.ok.injEq]
    exact eq_comm
  cases given with
  | s3 uri => simpa [requireRemote, DataPath.isRemote] using hkept
  | efs path => simpa [requireRemote, DataPath.isRemote] using hkept
  | localPath path => simp [requireRemote, DataPath.isRemote]

/-- A local name that stays inside has its place below the base. -/
theorem place_eq_ok_iff {localName : String} {location : MountedPath} :
    place base name localName = .ok location ↔
      (Path.mk localName).staysInside = true ∧ location = base.join ⟨localName⟩ := by
  unfold place
  split
  · next h =>
    rw [Except.ok.injEq]
    exact ⟨fun hjoin => ⟨h, hjoin.symm⟩, fun hjoin => hjoin.2.symm⟩
  · next h => simp [h]

/-- An input without a place outside is left alone; any other moves from there to the place of its
local name, or of its digest, below the base. -/
theorem input_eq_ok_iff {found : Option DataBinding} : input p base name = .ok found ↔
    ∃ binding, bindingOf p name = .ok binding ∧
      (binding.remote = none ∧ found = none ∨
        ∃ remote, binding.remote = some remote ∧ remote.isRemote = true ∧
          (Path.mk (binding.localName.getD (digestName remote))).staysInside = true ∧
          found = some ⟨name, base.join ⟨binding.localName.getD (digestName remote)⟩, remote⟩) := by
  unfold input
  rw [Fallible.bind_eq_ok_iff]
  refine exists_congr fun binding => and_congr_right fun _ => ?_
  cases hremote : binding.remote with
  | none =>
    constructor
    · intro h
      cases h
      exact .inl ⟨rfl, rfl⟩
    · rintro (⟨-, rfl⟩ | ⟨remote, hsome, -⟩)
      · rfl
      · cases hsome
  | some remote =>
    dsimp only
    rw [Fallible.bind_eq_ok_iff]
    constructor
    · rintro ⟨checked, hchecked, h⟩
      obtain ⟨hout, rfl⟩ := requireRemote_eq_ok_iff.1 hchecked
      obtain ⟨location, hlocation, h⟩ := Fallible.bind_eq_ok_iff.1 h
      obtain ⟨hinside, rfl⟩ := place_eq_ok_iff.1 hlocation
      cases h
      exact .inr ⟨checked, rfl, hout, hinside, rfl⟩
    · rintro (⟨hnone, -⟩ | ⟨remote, hsome, hout, hinside, rfl⟩)
      · cases hnone
      · cases hsome
        exact ⟨remote, requireRemote_eq_ok_iff.2 ⟨hout, rfl⟩,
          Fallible.bind_eq_ok_iff.2 ⟨_, place_eq_ok_iff.2 ⟨hinside, rfl⟩, rfl⟩⟩

/-- So an input whose data moves binds to the place from where it does. -/
theorem exists_binding_of_input {d : DataBinding} (h : input p base name = .ok (some d)) :
    ∃ binding remote, bindingOf p name = .ok binding ∧ binding.remote = some remote ∧
      remote.isRemote = true ∧
      (Path.mk (binding.localName.getD (digestName remote))).staysInside = true ∧
      d = ⟨name, base.join ⟨binding.localName.getD (digestName remote)⟩, remote⟩ := by
  obtain ⟨binding, hbinding, ⟨-, hnone⟩ | ⟨remote, hremote, hout, hinside, hsome⟩⟩ :=
    input_eq_ok_iff.1 h
  · cases hnone
  · exact ⟨binding, remote, hbinding, hremote, hout, hinside, Option.some.inj hsome⟩

/-- An output lies at the place of its local name below the working directory. -/
theorem output_eq_ok_iff {d : DataBinding} : output p working name = .ok d ↔
    ∃ binding localName, bindingOf p name = .ok binding ∧
      outputName name binding = .ok localName ∧
      outputRemote p name localName binding = .ok d.remote ∧
      (Path.mk localName).staysInside = true ∧ d.name = name ∧
      d.location = working.join ⟨localName⟩ := by
  unfold output
  constructor
  · intro h
    obtain ⟨binding, hbinding, h⟩ := Fallible.bind_eq_ok_iff.1 h
    obtain ⟨localName, hlocal, h⟩ := Fallible.bind_eq_ok_iff.1 h
    obtain ⟨remote, hremote, h⟩ := Fallible.bind_eq_ok_iff.1 h
    obtain ⟨location, hlocation, h⟩ := Fallible.bind_eq_ok_iff.1 h
    obtain ⟨hinside, rfl⟩ := place_eq_ok_iff.1 hlocation
    cases h
    exact ⟨binding, localName, hbinding, hlocal, hremote, hinside, rfl, rfl⟩
  · rintro ⟨binding, localName, hbinding, hlocal, hremote, hinside, hname, hlocation⟩
    obtain ⟨dname, dlocation, dremote⟩ := d
    subst hname hlocation
    exact Fallible.bind_eq_ok_iff.2 ⟨_, hbinding, Fallible.bind_eq_ok_iff.2 ⟨_, hlocal,
      Fallible.bind_eq_ok_iff.2 ⟨_, hremote, Fallible.bind_eq_ok_iff.2
        ⟨_, place_eq_ok_iff.2 ⟨hinside, rfl⟩, rfl⟩⟩⟩⟩

/-- Outputs go outside, to a place of their own or below the common root. -/
theorem isRemote_of_outputRemote {localName : String} {binding : Binding} {remote : DataPath}
    (h : outputRemote p name localName binding = .ok remote) : remote.isRemote = true := by
  unfold outputRemote at h
  split at h
  · obtain ⟨hout, rfl⟩ := requireRemote_eq_ok_iff.1 h
    exact hout
  · split at h <;> cases h
    rfl

/-! ## Local names -/

/-- What the data of a parameter is called below its directory: the local name of its value, or else
the digest of its place outside. -/
def LocalName (p : Parameters) (name localName : String) : Prop :=
  ∃ binding, bindingOf p name = .ok binding ∧
    (binding.localName <|> binding.remote.map digestName) = some localName

/-- A parameter has one local name. -/
theorem LocalName.unique {localName localName' : String} (h : LocalName p name localName)
    (h' : LocalName p name localName') : localName = localName' := by
  obtain ⟨binding, hbinding, hlocal⟩ := h
  obtain ⟨binding', hbinding', hlocal'⟩ := h'
  obtain rfl : binding = binding' := Except.ok.inj (hbinding.symm.trans hbinding')
  exact Option.some.inj (hlocal.symm.trans hlocal')

/-- The data of an input lies below its base under its local name. -/
theorem exists_localName_of_input {d : DataBinding} (h : input p base name = .ok (some d)) :
    ∃ localName, LocalName p name localName ∧ (Path.mk localName).staysInside = true ∧
      d.location = base.join ⟨localName⟩ := by
  obtain ⟨binding, remote, hbinding, hremote, -, hinside, rfl⟩ := exists_binding_of_input h
  refine ⟨_, ⟨binding, hbinding, ?_⟩, hinside, rfl⟩
  rw [hremote]
  cases binding.localName <;> rfl

/-- The data of an output lies below the working directory under its local name. -/
theorem exists_localName_of_output {d : DataBinding} (h : output p working name = .ok d) :
    ∃ localName, LocalName p name localName ∧ (Path.mk localName).staysInside = true ∧
      d.location = working.join ⟨localName⟩ := by
  obtain ⟨binding, localName, hbinding, hlocal, -, hinside, -, hlocation⟩ := output_eq_ok_iff.1 h
  refine ⟨localName, ⟨binding, hbinding, ?_⟩, hinside, hlocation⟩
  unfold outputName at hlocal
  cases hname : binding.localName <;> cases hremote : binding.remote <;> simp_all

/-! ## The lists of names -/

/-- No name is repeated when the names differ from each other and from what came earlier. -/
theorem firstRepeated_eq_none_iff {earlier names : List String} :
    firstRepeated earlier names = none ↔ names.Nodup ∧ ∀ n ∈ names, n ∉ earlier := by
  induction names generalizing earlier with
  | nil => simp [firstRepeated]
  | cons first rest ih =>
    unfold firstRepeated
    rw [List.nodup_cons, List.forall_mem_cons]
    split
    · next h => simp [h]
    · next h =>
      rw [ih]
      constructor
      · rintro ⟨hnodup, hnew⟩
        have hfirst : first ∉ rest := fun hmem => hnew first hmem List.mem_cons_self
        exact ⟨⟨hfirst, hnodup⟩, h, fun n hn hearlier =>
          hnew n hn (List.mem_cons_of_mem _ hearlier)⟩
      · rintro ⟨⟨hfirst, hnodup⟩, -, hnew⟩
        refine ⟨hnodup, fun n hn hearlier => ?_⟩
        rcases List.mem_cons.1 hearlier with rfl | hearlier
        · exact hfirst hn
        · exact hnew n hn hearlier

/-- The lists of names pass when neither repeats a name and they have none in common. -/
theorem checkNames_eq_ok_iff : checkNames p = .ok () ↔
    p.inputs.Nodup ∧ p.outputs.Nodup ∧ ∀ n ∈ p.inputs, n ∉ p.outputs := by
  have hfirst : ∀ names : List String, firstRepeated [] names = none ↔ names.Nodup := by
    intro names
    simp [firstRepeated_eq_none_iff]
  rw [← hfirst p.inputs, ← hfirst p.outputs]
  unfold checkNames
  cases firstRepeated [] p.inputs with
  | some repeated => simp
  | none =>
    cases firstRepeated [] p.outputs with
    | some repeated => simp
    | none =>
      cases hcommon : p.inputs.find? fun n => p.outputs.contains n with
      | some common =>
        have hin := List.mem_of_find?_eq_some hcommon
        have hout := List.find?_some hcommon
        simp only [List.contains_iff_mem] at hout
        simp only [reduceCtorEq, true_and, false_iff, not_forall]
        exact ⟨common, hin, fun h => h hout⟩
      | none => simpa using hcommon

/-! ## A whole run -/

/-- The directory that inputs are relocated to. -/
def inputBase (isolate : Bool) (shared working : MountedPath) : MountedPath :=
  if isolate then working else shared

/-- Relocation succeeds when the names are well and every input and every output finds its data. -/
theorem relocate_eq_ok_iff : relocate p shared working isolate = .ok relocated ↔
    checkNames p = .ok () ∧ ∃ found,
      List.Forall₂ (fun n f => input p (inputBase isolate shared working) n = .ok f)
        p.inputs found ∧
      relocated.inputs = found.filterMap id ∧
      List.Forall₂ (fun n d => output p working n = .ok d) p.outputs relocated.outputs ∧
      relocated.parameters = { p with
        values := p.values.insertAll
          ((relocated.inputs ++ relocated.outputs).map DataBinding.entry) } := by
  unfold relocate
  constructor
  · intro h
    obtain ⟨_, hnames, h⟩ := Fallible.bind_eq_ok_iff.1 h
    obtain ⟨found, hfound, h⟩ := Fallible.bind_eq_ok_iff.1 h
    obtain ⟨outputs, houtputs, h⟩ := Fallible.bind_eq_ok_iff.1 h
    cases h
    exact ⟨hnames, found, Fallible.mapM_eq_ok_iff.1 hfound, rfl,
      Fallible.mapM_eq_ok_iff.1 houtputs, rfl⟩
  · rintro ⟨hnames, found, hfound, hinputs, houtputs, hparameters⟩
    obtain ⟨parameters, inputs, outputs⟩ := relocated
    dsimp only at hinputs hparameters
    subst hinputs hparameters
    exact Fallible.bind_eq_ok_iff.2 ⟨(), hnames, Fallible.bind_eq_ok_iff.2
      ⟨found, Fallible.mapM_eq_ok_iff.2 hfound, Fallible.bind_eq_ok_iff.2
        ⟨outputs, Fallible.mapM_eq_ok_iff.2 houtputs, rfl⟩⟩⟩

/-- Whether a parameter's value binds it to a place outside. -/
def bindsRemote (p : Parameters) (name : String) : Bool :=
  match bindingOf p name with
  | .ok binding => binding.remote.isSome
  | .error _ => false

/-- A parameter moves when it is an input that binds to a place outside, or an output. -/
def Moves (p : Parameters) (name : String) : Prop :=
  name ∈ p.inputs ∧ bindsRemote p name = true ∨ name ∈ p.outputs

/-- An input moves data when its value binds it to a place outside, and no other does. -/
theorem bindsRemote_of_input {found : Option DataBinding} (h : input p base name = .ok found) :
    bindsRemote p name = found.isSome := by
  obtain ⟨binding, hbinding, ⟨hremote, rfl⟩ | ⟨remote, hremote, -, -, rfl⟩⟩ := input_eq_ok_iff.1 h
  · simp [bindsRemote, hbinding, hremote]
  · simp [bindsRemote, hbinding, hremote]

/-- The data that moves for the inputs belongs, in their order, to the inputs that bind to a place
outside. -/
theorem forall₂_inputs (h : relocate p shared working isolate = .ok relocated) :
    List.Forall₂ (fun n d => input p (inputBase isolate shared working) n = .ok (some d))
      (p.inputs.filter (bindsRemote p)) relocated.inputs := by
  obtain ⟨-, found, hfound, hinputs, -⟩ := relocate_eq_ok_iff.1 h
  rw [hinputs]
  exact Lists.forall₂_filter hfound fun n f hf => bindsRemote_of_input hf

/-- The data that moves for the outputs belongs to them in their order. -/
theorem forall₂_outputs (h : relocate p shared working isolate = .ok relocated) :
    List.Forall₂ (fun n d => output p working n = .ok d) p.outputs relocated.outputs := by
  obtain ⟨-, -, -, -, houtputs, -⟩ := relocate_eq_ok_iff.1 h
  exact houtputs

/-- An input with a place outside in its value binds to it. -/
theorem bindsRemote_of_isSome {binding : Binding} (hbinding : bindingOf p name = .ok binding)
    (hremote : binding.remote.isSome = true) : bindsRemote p name = true := by
  simp [bindsRemote, hbinding, hremote]

/-- All data that moves for the inputs is that of an input that binds to a place outside. -/
theorem exists_input_of_mem (h : relocate p shared working isolate = .ok relocated)
    {d : DataBinding} (hd : d ∈ relocated.inputs) :
    ∃ n ∈ p.inputs, bindsRemote p n = true ∧
      input p (inputBase isolate shared working) n = .ok (some d) := by
  obtain ⟨n, hn, hinput⟩ := Lists.exists_mem_of_forall₂ (forall₂_inputs h) hd
  obtain ⟨hlisted, hbinds⟩ := List.mem_filter.1 hn
  exact ⟨n, hlisted, hbinds, hinput⟩

/-- Every input that binds to a place outside has data that moves. -/
theorem exists_mem_of_bindsRemote (h : relocate p shared working isolate = .ok relocated)
    (hlisted : name ∈ p.inputs) (hbinds : bindsRemote p name = true) :
    ∃ d ∈ relocated.inputs, input p (inputBase isolate shared working) name = .ok (some d) :=
  Lists.exists_mem_of_forall₂ (forall₂_inputs h).flip (List.mem_filter.2 ⟨hlisted, hbinds⟩)

/-- Data is found under the name of its parameter. -/
theorem name_of_input {d : DataBinding} (h : input p base name = .ok (some d)) : d.name = name := by
  obtain ⟨binding, remote, -, -, -, -, rfl⟩ := exists_binding_of_input h
  rfl

/-- So it is with outputs. -/
theorem name_of_output {d : DataBinding} (h : output p working name = .ok d) : d.name = name := by
  obtain ⟨-, -, -, -, -, -, hname, -⟩ := output_eq_ok_iff.1 h
  exact hname

/-- Data found name by name goes by those names. -/
theorem map_name_eq {names : List String} {data : List DataBinding}
    (h : List.Forall₂ (fun n (d : DataBinding) => d.name = n) names data) :
    data.map DataBinding.name = names := by
  induction h with
  | nil => rfl
  | cons hname _ ih => rw [List.map_cons, hname, ih]

/-- No two parameters whose data moves have one name. -/
theorem nodup_entries (h : relocate p shared working isolate = .ok relocated) :
    (((relocated.inputs ++ relocated.outputs).map DataBinding.entry).map Prod.fst).Nodup := by
  obtain ⟨hnames, -⟩ := relocate_eq_ok_iff.1 h
  obtain ⟨hinputs, houtputs, hapart⟩ := checkNames_eq_ok_iff.1 hnames
  have hin : relocated.inputs.map DataBinding.name = p.inputs.filter (bindsRemote p) :=
    map_name_eq ((forall₂_inputs h).imp fun n d hd => name_of_input hd)
  have hout : relocated.outputs.map DataBinding.name = p.outputs :=
    map_name_eq ((forall₂_outputs h).imp fun n d hd => name_of_output hd)
  have hentries : ((relocated.inputs ++ relocated.outputs).map DataBinding.entry).map Prod.fst =
      p.inputs.filter (bindsRemote p) ++ p.outputs := by
    rw [← hin, ← hout, List.map_map, ← List.map_append]
    rfl
  -- The names are those of the parameters, and no name is listed twice.
  rw [hentries, List.nodup_append]
  refine ⟨hinputs.filter _, houtputs, ?_⟩
  rintro n hn m hm rfl
  exact hapart n (List.mem_of_mem_filter hn) hm

/-- A parameter whose data moves has the path of its location as its value. -/
theorem get?_of_mem (h : relocate p shared working isolate = .ok relocated) {d : DataBinding}
    (hd : d ∈ relocated.inputs ++ relocated.outputs) :
    relocated.parameters.values.get? d.name =
      some (.literal d.location.container.text) := by
  obtain ⟨-, -, -, -, -, hparameters⟩ := relocate_eq_ok_iff.1 h
  rw [hparameters]
  exact OrderedMap.get?_insertAll_of_mem (e := d.entry) (nodup_entries h)
    (List.mem_map_of_mem hd)

/-- What binds is the value of one of the names. -/
theorem exists_value_of_bindingOf {binding : Binding} (h : bindingOf p name = .ok binding) :
    ∃ value, p.values.get? name = some value ∧ value.binding = .ok binding := by
  unfold bindingOf at h
  split at h
  · next value hvalue => exact ⟨value, hvalue, h⟩
  · cases h

/-- A name with a binding has a value. -/
theorem name_mem_keys {binding : Binding} (h : bindingOf p name = .ok binding) :
    name ∈ p.values.keys := by
  obtain ⟨value, hvalue, -⟩ := exists_value_of_bindingOf h
  exact OrderedMap.contains_iff.1 (OrderedMap.contains_of_get? hvalue)

/-- The data that moves belongs to parameters that do. -/
theorem exists_moves_of_mem (h : relocate p shared working isolate = .ok relocated)
    {d : DataBinding} (hd : d ∈ relocated.inputs ++ relocated.outputs) :
    Moves p d.name ∧ d.name ∈ p.values.keys := by
  rcases List.mem_append.1 hd with hd | hd
  · obtain ⟨name, hlisted, hbinds, hinput⟩ := exists_input_of_mem h hd
    obtain ⟨binding, hbinding, -⟩ := input_eq_ok_iff.1 hinput
    rw [name_of_input hinput]
    exact ⟨.inl ⟨hlisted, hbinds⟩, name_mem_keys hbinding⟩
  · obtain ⟨name, hlisted, houtput⟩ := Lists.exists_mem_of_forall₂ (forall₂_outputs h) hd
    obtain ⟨binding, -, hbinding, -⟩ := output_eq_ok_iff.1 houtput
    rw [name_of_output houtput]
    exact ⟨.inr hlisted, name_mem_keys hbinding⟩

/-! ## Where the data lies -/

variable {m : Mount}

/-- The data of an input lies where the mount of its base shows it. -/
theorem shows_of_input (hm : m.path.isAbsolute = true) (hbase : m.Shows base) {d : DataBinding}
    (h : input p base name = .ok (some d)) : m.Shows d.location := by
  obtain ⟨localName, -, hinside, hlocation⟩ := exists_localName_of_input h
  rw [hlocation]
  exact hbase.join hm (Path.isAbsolute_of_staysInside hinside)

/-- The data of an output lies where the mount of the working directory shows it. -/
theorem shows_of_output (hm : m.path.isAbsolute = true) (hworking : m.Shows working)
    {d : DataBinding} (h : output p working name = .ok d) : m.Shows d.location := by
  obtain ⟨localName, -, hinside, hlocation⟩ := exists_localName_of_output h
  rw [hlocation]
  exact hworking.join hm (Path.isAbsolute_of_staysInside hinside)

end JobStaging.Relocation
