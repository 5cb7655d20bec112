import JobStaging.Proofs.Assembly.Collisions
import JobStaging.Proofs.Location.Classification
import JobStaging.Proofs.Relocation.Confinement
import JobStaging.Proofs.Relocation.Shorthand
import JobStaging.Proofs.Wire.Execution

/-!
# Inputs that are named by a digest

An input that gives a place outside and no local name lies under the digest of the text of its
place, so executions that read the same data from outside find it in one place below their common
directory. A request may give such a place in several ways: alone, behind a mark with nothing before
it, or as half of a pair, and a bucket with the slash after it or without. Reading leaves nothing of
these differences (`GivesPlace.parse_eq_ok`). The digest tells the text of what is left, unless it
collides, and the text tells the parts, unless the identifier of one file system goes on over its
colon into the path of the other place (`DataPath.text_eq_iff`). An identifier that was read holds
no colon, but one that a place is made of may. So two inputs of this kind meet exactly when the
parts of their places are the same or run together (`unnamed_inputs_meet`), and two that are made of
different parts can meet (`different_parts_meet`).
-/

set_option autoImplicit false

namespace JobStaging

namespace EfsPath

variable {e f : EfsPath}

/-- The identifier of a second file system goes on where that of a first ends, over the colon and
into the path. -/
def RunsInto (e f : EfsPath) : Prop :=
  Lists.RunsInto ":" e.fileSystem e.path.text f.fileSystem f.path.text

/-- An identifier that another runs into has a colon. -/
theorem colon_mem_of_runsInto (h : e.RunsInto f) : ':' ∈ f.fileSystem.toList := by
  obtain ⟨more, hsystem, -⟩ := h
  rw [hsystem]
  simp

/-- Shared paths are told by their texts, unless one identifier runs into the other path. -/
theorem text_eq_iff : e.text = f.text ↔
    e.fileSystem = f.fileSystem ∧ e.path.text = f.path.text ∨ e.RunsInto f ∨ f.RunsInto e :=
  Lists.append_separator_eq_iff ':'

end EfsPath

namespace DataPath

variable {d d' : DataPath} {text : String}

/-- Places outside that are of one kind and have the same parts as texts. -/
def SameParts : DataPath → DataPath → Prop
  | .s3 u, .s3 v => u.bucket = v.bucket ∧ u.key = v.key
  | .efs e, .efs f => e.fileSystem = f.fileSystem ∧ e.path.text = f.path.text
  | _, _ => False

/-- A place outside has no other parts. -/
theorem sameParts_iff_eq (h : d.isRemote = true) : SameParts d d' ↔ d = d' := by
  cases d with
  | localPath path => cases h
  | s3 u =>
    cases d' with
    | s3 v =>
      obtain ⟨bucket, key, hne, hslash⟩ := u
      obtain ⟨bucket', key', hne', hslash'⟩ := v
      simp [SameParts]
    | efs f => simp [SameParts]
    | localPath path => simp [SameParts]
  | efs e =>
    cases d' with
    | s3 v => simp [SameParts]
    | efs f =>
      obtain ⟨fileSystem, ⟨path⟩, hid, habs⟩ := e
      obtain ⟨fileSystem', ⟨path'⟩, hid', habs'⟩ := f
      simp [SameParts]
    | localPath path => simp [SameParts]

/-- Shared paths run together when the identifier of one runs into the path of the other. -/
def RunTogether : DataPath → DataPath → Prop
  | .efs e, .efs f => e.RunsInto f ∨ f.RunsInto e
  | _, _ => False

/-- A place is free of colons when its file system is. -/
def ColonFree : DataPath → Prop
  | .efs e => ':' ∉ e.fileSystem.toList
  | _ => True

/-- Places that are free of colons do not run together. -/
theorem not_runTogether (h : d.ColonFree) (h' : d'.ColonFree) : ¬ d.RunTogether d' := by
  cases d with
  | localPath path => exact not_false
  | s3 u => exact not_false
  | efs e =>
    cases d' with
    | localPath path => exact not_false
    | s3 v => exact not_false
    | efs f =>
      rintro (hruns | hruns)
      · exact h' (EfsPath.colon_mem_of_runsInto hruns)
      · exact h (EfsPath.colon_mem_of_runsInto hruns)

/-- What was read is free of colons. -/
theorem colonFree_of_spelled (h : d.Spelled) : d.ColonFree := by
  cases d with
  | localPath path => trivial
  | s3 u => trivial
  | efs e => exact EfsPath.colon_notMem_of_parse (parse_eq_efs_iff.1 h)

/-- Places are told by their texts when these are read as the places. -/
theorem text_inj (h : d.Spelled) (h' : d'.Spelled) : d.text = d'.text ↔ d = d' := by
  constructor
  · intro htext
    have hread : parse d.text = .ok d' := htext ▸ h'
    exact Except.ok.inj (h.symm.trans hread)
  · rintro rfl
    rfl

/-- Objects are always spelled. -/
theorem spelled_s3 (u : S3Uri) : (s3 u).Spelled := parse_eq_s3_iff.2 u.parse_text

/-- No object has the text of a shared path. -/
theorem text_s3_ne_text_efs (u : S3Uri) (e : EfsPath) : (s3 u).text ≠ (efs e).text := by
  intro htext
  apply e.not_hasScheme_text
  have hsame : u.text = e.text := htext
  rw [← hsame]
  exact u.hasScheme_text

/-- Places outside have one text exactly when their parts are the same or run together. -/
theorem text_eq_iff (h : d.isRemote = true) (h' : d'.isRemote = true) :
    d.text = d'.text ↔ d.SameParts d' ∨ d.RunTogether d' := by
  cases d with
  | localPath path => cases h
  | s3 u =>
    cases d' with
    | localPath path => cases h'
    | s3 v =>
      rw [text_inj (spelled_s3 u) (spelled_s3 v), sameParts_iff_eq h]
      exact (or_false _).symm.to_iff
    | efs f => simp [text_s3_ne_text_efs, SameParts, RunTogether]
  | efs e =>
    cases d' with
    | localPath path => cases h'
    | s3 v => simp [(text_s3_ne_text_efs v e).symm, SameParts, RunTogether]
    | efs f => exact EfsPath.text_eq_iff

/-- Places outside with one text are of one kind. -/
theorem sameKind_of_text_eq (h : d.isRemote = true) (h' : d'.isRemote = true)
    (htext : d.text = d'.text) :
    (∃ u v, d = .s3 u ∧ d' = .s3 v) ∨ ∃ e f, d = .efs e ∧ d' = .efs f := by
  cases d with
  | localPath path => cases h
  | s3 u =>
    cases d' with
    | localPath path => cases h'
    | s3 v => exact .inl ⟨u, v, rfl, rfl⟩
    | efs f => exact absurd htext (text_s3_ne_text_efs u f)
  | efs e =>
    cases d' with
    | localPath path => cases h'
    | s3 v => exact absurd htext.symm (text_s3_ne_text_efs v e)
    | efs f => exact .inr ⟨e, f, rfl, rfl⟩

/-- A bucket that stands alone is read as it is with a slash after it. -/
theorem parse_append_slash (halone : S3Uri.BucketAlone text) (h : parse text = .ok d) :
    parse (text ++ "/") = .ok d := by
  rw [← (text_of_parse h).1 halone]
  exact spelled_of_parse h

end DataPath

namespace MountedPath

variable {m n base base' : MountedPath} {id id' : String}

/-- Whether two directories are the same, as the container sees them and in the file system. -/
def sameAs (m n : MountedPath) : Bool := m.container.sameAs n.container && m.efs.sameAs n.efs

/-- Two directories are the same when the container sees them at one path and they are the same
place. -/
theorem sameAs_iff : m.sameAs n = true ↔
    m.container.components = n.container.components ∧ m.efs.sameAs n.efs = true := by
  simp [sameAs, Path.sameAs]

/-- Below the same directory of a file system, entries are the same when their names are. -/
theorem efs_sameAs_join_iff (hbase : base.efs.sameAs base'.efs = true)
    (h : Assembly.IsSegment id) (h' : Assembly.IsSegment id') :
    (base.join ⟨id⟩).efs.sameAs (base'.join ⟨id'⟩).efs = true ↔ id = id' := by
  obtain ⟨hsystem, hpath⟩ := EfsPath.sameAs_iff.1 hbase
  rw [EfsPath.sameAs_iff]
  show base.efs.fileSystem = base'.efs.fileSystem ∧
    (base.efs.path.join ⟨id⟩).components = (base'.efs.path.join ⟨id'⟩).components ↔ _
  rw [Assembly.components_join_of_isSegment _ h, Assembly.components_join_of_isSegment _ h', hpath,
    List.append_cancel_left_eq]
  simp [hsystem]

/-- Entries of the same directory are the same, for the container too, when their names are. -/
theorem sameAs_join_iff (hbase : base.sameAs base' = true) (h : Assembly.IsSegment id)
    (h' : Assembly.IsSegment id') :
    (base.join ⟨id⟩).sameAs (base'.join ⟨id'⟩) = true ↔ id = id' := by
  obtain ⟨hcontainer, hefs⟩ := sameAs_iff.1 hbase
  rw [sameAs_iff, efs_sameAs_join_iff hefs h h']
  show (base.container.join ⟨id⟩).components = (base'.container.join ⟨id'⟩).components ∧ _ ↔ _
  rw [Assembly.components_join_of_isSegment _ h, Assembly.components_join_of_isSegment _ h',
    hcontainer, List.append_cancel_left_eq]
  simp

end MountedPath

namespace ParameterValue

variable {value : ParameterValue} {b : Binding} {text : String} {remote : DataPath}

/-- The ways in which a value gives a place by its text and no local name. -/
inductive GivesPlace : ParameterValue → String → Prop
  | alone {text : String} : Text.cutAtText halvesMark text.toList = none →
      GivesPlace (.literal text) text
  | marked {text : String} {left right : List Char} :
      Text.cutAtText halvesMark text.toList = some (left, right) → Text.trim left = [] →
      GivesPlace (.literal text) (String.ofList (Text.trim right))
  | paired {text : String} {d : DataPath} : DataPath.parse text = .ok d →
      GivesPlace (.pair ⟨none, some d⟩) text

/-- In whatever way it is given, the place is what the text is read as. -/
theorem GivesPlace.parse_eq_ok (h : GivesPlace value text) (hbinding : value.binding = .ok b)
    (hremote : b.remote = some remote) : DataPath.parse text = .ok remote := by
  cases h with
  | alone hcut =>
    rw [binding_of_no_mark hcut] at hbinding
    obtain ⟨d, hd, rfl⟩ := Fallible.map_eq_ok_iff.1 hbinding
    -- A place in the container would be the local name.
    split at hremote <;> cases hremote
    exact hd
  | marked hcut hleft =>
    rw [binding_of_mark hcut] at hbinding
    obtain ⟨d, hd, rfl⟩ := Fallible.map_eq_ok_iff.1 hbinding
    cases hremote
    exact hd
  | paired hparse =>
    cases hbinding
    cases hremote
    exact hparse

/-- A spelled value with a place and no local name gives the place by some text. -/
theorem exists_givesPlace (hspelled : value.Spelled) (hbinding : value.binding = .ok b)
    (hname : b.localName = none) (hremote : b.remote = some remote) :
    ∃ text, GivesPlace value text := by
  cases value with
  | pair given =>
    cases hbinding
    obtain ⟨localName, place⟩ := b
    dsimp only at hname hremote
    subst hname hremote
    exact ⟨remote.text, .paired (hspelled remote rfl)⟩
  | literal given =>
    cases hcut : Text.cutAtText halvesMark given.toList with
    | none => exact ⟨given, .alone hcut⟩
    | some halves =>
      obtain ⟨left, right⟩ := halves
      refine ⟨_, .marked hcut ?_⟩
      rw [binding_of_mark hcut] at hbinding
      obtain ⟨d, -, rfl⟩ := Fallible.map_eq_ok_iff.1 hbinding
      by_contra hleft
      dsimp only at hname
      rw [if_neg hleft] at hname
      cases hname
  | number n =>
    cases hbinding
    cases hremote
  | flag flag =>
    cases hbinding
    cases hremote

end ParameterValue

namespace Relocation

variable {p p' : Parameters} {base base' shared working shared' working' : MountedPath}
  {isolate isolate' : Bool} {relocated relocated' : Relocated} {b b' : DataBinding}
  {name text : String}

/-- The value of a name gives a place by its text and no local name. -/
def GivenBy (p : Parameters) (name text : String) : Prop :=
  ∃ value, p.values.get? name = some value ∧ value.GivesPlace text

/-- The data of an input without a local name lies below its base under the digest of its place. -/
theorem location_of_unnamed (h : relocate p shared working isolate = .ok relocated)
    (hb : b ∈ relocated.inputs) (hunnamed : Unnamed p b.name) :
    b.location = (inputBase isolate shared working).join ⟨digestName b.remote⟩ ∧
      b.remote.isRemote = true ∧ ∃ binding, bindingOf p b.name = .ok binding ∧
        binding.localName = none ∧ binding.remote = some b.remote := by
  obtain ⟨name, -, -, hinput⟩ := exists_input_of_mem h hb
  obtain ⟨binding, hbinding, hname⟩ := hunnamed
  rw [name_of_input hinput] at hbinding ⊢
  obtain ⟨binding', remote, hbinding', hremote, hout, -, rfl⟩ := exists_binding_of_input hinput
  obtain rfl : binding = binding' := Except.ok.inj (hbinding.symm.trans hbinding')
  refine ⟨?_, hout, binding, hbinding, hname, hremote⟩
  rw [hname, Option.getD_none]

/-- What relocation takes the data from is what the given text is read as. -/
theorem GivenBy.parse_eq_ok (h : GivenBy p name text) {binding : Binding} {remote : DataPath}
    (hbinding : bindingOf p name = .ok binding) (hremote : binding.remote = some remote) :
    DataPath.parse text = .ok remote := by
  obtain ⟨value, hvalue, hgives⟩ := h
  obtain ⟨value', hvalue', hhalves⟩ := exists_value_of_bindingOf hbinding
  obtain rfl : value = value' := Option.some.inj (hvalue.symm.trans hvalue')
  exact hgives.parse_eq_ok hhalves hremote

/-- A spelled value with a place and no local name gives the place by a text. -/
theorem exists_givenBy (hspelled : p.Spelled) {binding : Binding} {remote : DataPath}
    (hbinding : bindingOf p name = .ok binding) (hname : binding.localName = none)
    (hremote : binding.remote = some remote) : ∃ text, GivenBy p name text := by
  obtain ⟨value, hvalue, hhalves⟩ := exists_value_of_bindingOf hbinding
  have hentry : value.Spelled := hspelled _ (OrderedMap.mem_of_get? hvalue)
  obtain ⟨text, hgives⟩ := ParameterValue.exists_givesPlace hentry hhalves hname hremote
  exact ⟨text, value, hvalue, hgives⟩

/-- An input that gives only a place outside is never refused. -/
theorem input_of_unnamed {remote : DataPath} (hbinding : bindingOf p name = .ok ⟨none, some remote⟩)
    (hout : remote.isRemote = true) :
    input p base name = .ok (some ⟨name, base.join ⟨digestName remote⟩, remote⟩) := by
  have hinside := Assembly.staysInside_of_isSegment (isSegment_digestName remote)
  exact input_eq_ok_iff.2 ⟨_, hbinding, .inr ⟨remote, rfl, hout, hinside, rfl⟩⟩

/-- Where nothing but inputs is listed, finding the data of each is all that relocation needs. -/
theorem exists_relocate_of_inputs {data : List DataBinding} (hnodup : p.inputs.Nodup)
    (houtputs : p.outputs = [])
    (hdata : List.Forall₂ (fun n d => input p (inputBase isolate shared working) n = .ok (some d))
      p.inputs data) :
    ∃ relocated, relocate p shared working isolate = .ok relocated ∧ relocated.inputs = data := by
  have hnames : checkNames p = .ok () := by
    apply checkNames_eq_ok_iff.2
    simp [hnodup, houtputs]
  have hfound : List.Forall₂ (fun n f => input p (inputBase isolate shared working) n = .ok f)
      p.inputs (data.map some) := List.forall₂_map_right_iff.2 hdata
  have hall : (data.map some).filterMap id = data := by simp
  have hnone : List.Forall₂ (fun n d => output p working n = .ok d) p.outputs [] := by
    rw [houtputs]
    exact .nil
  refine ⟨⟨{ p with values := p.values.insertAll ((data ++ []).map DataBinding.entry) }, data, []⟩,
    ?_, rfl⟩
  exact relocate_eq_ok_iff.2 ⟨hnames, data.map some, hfound, hall.symm, hnone, rfl⟩

/-- Two inputs without local names, below one base, lie in one place as their places outside say. -/
structure MeetByRemote (p p' : Parameters) (b b' : DataBinding) : Prop where
  digests : b.location.sameAs b'.location = true ↔ b.remote.text = b'.remote.text
  /-- What is copied to the file system ends in one place when the container sees one place. -/
  copies : b.location.efs.sameAs b'.location.efs = true ↔ b.location.sameAs b'.location = true
  parts : b.location.sameAs b'.location = true ↔
    b.remote.SameParts b'.remote ∨ b.remote.RunTogether b'.remote
  colonFree : b.remote.ColonFree → b'.remote.ColonFree →
    (b.location.sameAs b'.location = true ↔ b.remote.SameParts b'.remote)
  /-- Parameters that were read are spelled (`Parameters.yields_spelled`). -/
  spelled : p.Spelled → p'.Spelled →
    (b.location.sameAs b'.location = true ↔ b.remote.SameParts b'.remote)
  kinds : b.location.sameAs b'.location = true →
    (∃ u v, b.remote = .s3 u ∧ b'.remote = .s3 v) ∨ ∃ e f, b.remote = .efs e ∧ b'.remote = .efs f
  given : ∀ text text', GivenBy p b.name text → GivenBy p' b'.name text' →
    (b.location.sameAs b'.location = true ↔ DataPath.parse text = DataPath.parse text')
  slash : ∀ bucket, S3Uri.BucketAlone bucket → GivenBy p b.name bucket →
    GivenBy p' b'.name (bucket ++ "/") → b.location.sameAs b'.location = true

/-- Inputs without local names, of one run or of two that bring their inputs to the same directory,
lie in one place exactly when their places outside are of one kind and have the same parts, or are
shared paths of which the identifier of one runs into the path of the other, unless the digests of
the two texts collide. Identifiers without a colon never run into a path, and such are all that were
read. In which way a request gives the places makes no difference. -/
theorem unnamed_inputs_meet (h : relocate p shared working isolate = .ok relocated)
    (h' : relocate p' shared' working' isolate' = .ok relocated')
    (hbase : (inputBase isolate shared working).sameAs (inputBase isolate' shared' working') = true)
    (hb : b ∈ relocated.inputs) (hb' : b' ∈ relocated'.inputs)
    (hunnamed : Unnamed p b.name) (hunnamed' : Unnamed p' b'.name)
    (hapart : Digest.Apart b.remote.text b'.remote.text) : MeetByRemote p p' b b' := by
  obtain ⟨hlocation, hout, binding, hbinding, hname, hremote⟩ := location_of_unnamed h hb hunnamed
  obtain ⟨hlocation', hout', binding', hbinding', hname', hremote'⟩ :=
    location_of_unnamed h' hb' hunnamed'
  have hsegment := isSegment_digestName b.remote
  have hsegment' := isSegment_digestName b'.remote
  have hdigest : digestName b.remote = digestName b'.remote ↔ b.remote.text = b'.remote.text :=
    Digest.sha256Hex_inj hapart
  have hmeet : b.location.sameAs b'.location = true ↔ b.remote.text = b'.remote.text := by
    rw [hlocation, hlocation', MountedPath.sameAs_join_iff hbase hsegment hsegment', hdigest]
  -- A place that is what some text is read as is spelled, and so it is told by its own text.
  have hgiven : ∀ text text', GivenBy p b.name text → GivenBy p' b'.name text' →
      (b.location.sameAs b'.location = true ↔ b.remote = b'.remote) := by
    intro text text' htext htext'
    have hspelled := DataPath.spelled_of_parse (htext.parse_eq_ok hbinding hremote)
    have hspelled' := DataPath.spelled_of_parse (htext'.parse_eq_ok hbinding' hremote')
    rw [hmeet, DataPath.text_inj hspelled hspelled']
  have hcolonFree : b.remote.ColonFree → b'.remote.ColonFree →
      (b.location.sameAs b'.location = true ↔ b.remote.SameParts b'.remote) := by
    intro hfree hfree'
    rw [hmeet, DataPath.text_eq_iff hout hout', or_iff_left (DataPath.not_runTogether hfree hfree')]
  constructor
  case digests => exact hmeet
  case copies =>
    have hefs := (MountedPath.sameAs_iff.1 hbase).2
    rw [hmeet, hlocation, hlocation', MountedPath.efs_sameAs_join_iff hefs hsegment hsegment',
      hdigest]
  case parts => rw [hmeet, DataPath.text_eq_iff hout hout']
  case colonFree => exact hcolonFree
  case spelled =>
    intro hspelled hspelled'
    obtain ⟨text, htext⟩ := exists_givenBy hspelled hbinding hname hremote
    obtain ⟨text', htext'⟩ := exists_givenBy hspelled' hbinding' hname' hremote'
    have hread := DataPath.spelled_of_parse (htext.parse_eq_ok hbinding hremote)
    have hread' := DataPath.spelled_of_parse (htext'.parse_eq_ok hbinding' hremote')
    exact hcolonFree (DataPath.colonFree_of_spelled hread) (DataPath.colonFree_of_spelled hread')
  case kinds =>
    intro hsame
    exact DataPath.sameKind_of_text_eq hout hout' (hmeet.1 hsame)
  case given =>
    intro text text' htext htext'
    rw [hgiven text text' htext htext', htext.parse_eq_ok hbinding hremote,
      htext'.parse_eq_ok hbinding' hremote', Except.ok.injEq]
  case slash =>
    intro bucket halone htext htext'
    rw [hgiven bucket (bucket ++ "/") htext htext']
    have hread := DataPath.parse_append_slash halone (htext.parse_eq_ok hbinding hremote)
    exact Except.ok.inj (hread.symm.trans (htext'.parse_eq_ok hbinding' hremote'))

/-- An input that is given alone, by a bucket without a slash. -/
def aloneParameters : Parameters :=
  { Parameters.empty with
    inputs := ["READS"]
    values := OrderedMap.ofList [("READS", .literal "s3://data")] }

/-- The same bucket behind a mark, with blanks and a slash, and a directory as half of a pair. -/
def mixedParameters : Parameters :=
  { Parameters.empty with
    inputs := ["COPY", "OTHER"]
    values := OrderedMap.ofList [("COPY", .literal " @   s3://data/ "),
      ("OTHER", .pair ⟨none, some (.efs ⟨"fs-5", ⟨"/data"⟩, by decide, by decide⟩)⟩)] }

/-- The bucket is brought to one place by both runs, and the directory to another. -/
theorem unnamed_inputs_meet_of_mixed :
    let shared : MountedPath := ⟨⟨"/mnt/shared"⟩, ⟨"fs-1", ⟨"/shared"⟩, by decide, by decide⟩⟩
    let shared' : MountedPath := ⟨⟨"/mnt//shared/"⟩, ⟨"fs-1", ⟨"/shared/."⟩, by decide, by decide⟩⟩
    let working : MountedPath := ⟨⟨"/mnt/run-1"⟩, ⟨"fs-2", ⟨"/run-1"⟩, by decide, by decide⟩⟩
    let bucket : DataPath := .s3 ⟨"data", "", by decide, by decide⟩
    let directory : DataPath := .efs ⟨"fs-5", ⟨"/data"⟩, by decide, by decide⟩
    let reads : DataBinding := ⟨"READS", shared.join ⟨digestName bucket⟩, bucket⟩
    let copy : DataBinding := ⟨"COPY", shared'.join ⟨digestName bucket⟩, bucket⟩
    let other : DataBinding := ⟨"OTHER", shared'.join ⟨digestName directory⟩, directory⟩
    shared.sameAs shared' = true ∧
    (∃ relocated, relocate aloneParameters shared working false = .ok relocated ∧
      relocated.inputs = [reads]) ∧
    (∃ relocated, relocate mixedParameters shared' working false = .ok relocated ∧
      relocated.inputs = [copy, other]) ∧
    Unnamed aloneParameters "READS" ∧ Unnamed mixedParameters "COPY" ∧
    Unnamed mixedParameters "OTHER" ∧ Digest.Apart bucket.text directory.text ∧
    aloneParameters.Spelled ∧ mixedParameters.Spelled ∧ ¬ bucket.SameParts directory ∧
    reads.location.sameAs copy.location = true ∧ reads.location.sameAs other.location = false := by
  intro shared shared' working bucket directory reads copy other
  have hreads : bindingOf aloneParameters "READS" = .ok ⟨none, some bucket⟩ := rfl
  have hcopy : bindingOf mixedParameters "COPY" = .ok ⟨none, some bucket⟩ := rfl
  have hother : bindingOf mixedParameters "OTHER" = .ok ⟨none, some directory⟩ := rfl
  have hruns : ∃ relocated, relocate aloneParameters shared working false = .ok relocated ∧
      relocated.inputs = [reads] :=
    exists_relocate_of_inputs (by decide) rfl (.cons (input_of_unnamed hreads rfl) .nil)
  have hruns' : ∃ relocated, relocate mixedParameters shared' working false = .ok relocated ∧
      relocated.inputs = [copy, other] :=
    exists_relocate_of_inputs (by decide) rfl
      (.cons (input_of_unnamed hcopy rfl) (.cons (input_of_unnamed hother rfl) .nil))
  have hbase : shared.sameAs shared' = true := by decide
  have hunnamed : Unnamed aloneParameters "READS" := ⟨_, hreads, rfl⟩
  have hunnamedCopy : Unnamed mixedParameters "COPY" := ⟨_, hcopy, rfl⟩
  have hunnamedOther : Unnamed mixedParameters "OTHER" := ⟨_, hother, rfl⟩
  have hapart : Digest.Apart bucket.text directory.text := by
    intro hdigest
    have hdiffer : Digest.sha256 (Text.utf8 "s3://data/") ≠
        Digest.sha256 (Text.utf8 "fs-5:/data") := by
      decide +kernel
    exact absurd hdigest hdiffer
  have hspelled : aloneParameters.Spelled := List.forall_mem_singleton.2 trivial
  have hspelled' : mixedParameters.Spelled := by
    refine List.forall_mem_cons.2 ⟨trivial, List.forall_mem_singleton.2 ?_⟩
    intro place hplace
    cases hplace
    rfl
  have hdiffer : ¬ bucket.SameParts directory := not_false
  refine ⟨hbase, hruns, hruns', hunnamed, hunnamedCopy, hunnamedOther, hapart, hspelled, hspelled',
    hdiffer, ?_, ?_⟩
  all_goals
    obtain ⟨relocated, hrun, hinputs⟩ := hruns
    obtain ⟨relocated', hrun', hinputs'⟩ := hruns'
    have hmem : reads ∈ relocated.inputs := by simp [hinputs]
  · have hmem' : copy ∈ relocated'.inputs := by simp [hinputs']
    have hmeet := unnamed_inputs_meet hrun hrun' hbase hmem hmem' hunnamed hunnamedCopy fun _ => rfl
    have hmark : Text.cutAtText ParameterValue.halvesMark " @   s3://data/ ".toList =
        some ([], "  s3://data/ ".toList) := rfl
    apply hmeet.slash "s3://data" ⟨"data", rfl, by decide⟩
    · exact ⟨_, rfl, .alone rfl⟩
    · exact ⟨_, rfl, .marked hmark rfl⟩
  · have hmem' : other ∈ relocated'.inputs := by simp [hinputs']
    have hmeet := unnamed_inputs_meet hrun hrun' hbase hmem hmem' hunnamed hunnamedOther hapart
    rw [Bool.eq_false_iff]
    intro hsame
    exact hdiffer ((hmeet.spelled hspelled hspelled').1 hsame)

/-- Two inputs that are given by shared paths as halves of pairs. -/
def pairedParameters (plain odd : EfsPath) : Parameters :=
  { Parameters.empty with
    inputs := ["PLAIN", "ODD"]
    values := OrderedMap.ofList [("PLAIN", .pair ⟨none, some (.efs plain)⟩),
      ("ODD", .pair ⟨none, some (.efs odd)⟩)] }

/-- A file system with a colon in its identifier can go on where the identifier of another ends. Both
paths can be made, both are written `fs-1:/x:/y`, and so the data of one is taken for that of the
other. -/
theorem different_parts_meet :
    let e : EfsPath := ⟨"fs-1", ⟨"/x:/y"⟩, by decide, by decide⟩
    let f : EfsPath := ⟨"fs-1:/x", ⟨"/y"⟩, by decide, by decide⟩
    let given := pairedParameters e f
    let plain : DataBinding := ⟨"PLAIN", sharedDirectory.join ⟨digestName (.efs e)⟩, .efs e⟩
    let odd : DataBinding := ⟨"ODD", sharedDirectory.join ⟨digestName (.efs f)⟩, .efs f⟩
    EfsPath.ofParts "fs-1" ⟨"/x:/y"⟩ = .ok e ∧ EfsPath.ofParts "fs-1:/x" ⟨"/y"⟩ = .ok f ∧
    (∃ relocated, relocate given sharedDirectory workingDirectory false = .ok relocated ∧
      relocated.inputs = [plain, odd]) ∧
    Unnamed given "PLAIN" ∧ Unnamed given "ODD" ∧
    Digest.Apart plain.remote.text odd.remote.text ∧ ¬ plain.remote.SameParts odd.remote ∧
    plain.location.sameAs odd.location = true := by
  intro e f given plain odd
  have hplain : bindingOf given "PLAIN" = .ok ⟨none, some (.efs e)⟩ := rfl
  have hodd : bindingOf given "ODD" = .ok ⟨none, some (.efs f)⟩ := rfl
  have hruns : ∃ relocated,
      relocate given sharedDirectory workingDirectory false = .ok relocated ∧
        relocated.inputs = [plain, odd] :=
    exists_relocate_of_inputs (by decide) rfl
      (.cons (input_of_unnamed hplain rfl) (.cons (input_of_unnamed hodd rfl) .nil))
  have htext : plain.remote.text = odd.remote.text := by decide
  have hdiffer : ¬ plain.remote.SameParts odd.remote := by
    rintro ⟨hsystem, -⟩
    exact absurd hsystem (by decide)
  have hlocation : plain.location = odd.location :=
    congrArg (fun text => sharedDirectory.join ⟨Digest.sha256Hex text⟩) htext
  refine ⟨rfl, rfl, hruns, ⟨_, hplain, rfl⟩, ⟨_, hodd, rfl⟩, fun _ => htext, hdiffer, ?_⟩
  rw [hlocation]
  exact MountedPath.sameAs_iff.2 ⟨rfl, EfsPath.sameAs_iff.2 ⟨rfl, rfl⟩⟩

end Relocation

end JobStaging
