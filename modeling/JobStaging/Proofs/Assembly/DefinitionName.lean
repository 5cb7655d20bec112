import JobStaging.Proofs.Assembly.EnvFile
import JobStaging.Proofs.Digest
import JobStaging.Proofs.Json.ReadBack

/-!
# Names of job definitions

The name of a job definition ends with the digest of the definition's document, and begins with the
label of the environment and the family of the execution. Both of these are arbitrary texts with a
hyphen between them, so the beginning alone does not tell where the one ends. It is the document
that does: it is read back from its text as it was (`Json.compact_inj`), and among its variables is
the label of the environment, which no parameter can replace (`Stages.get?_envBase`). The main
statement is `definitionName_eq_iff`: names are the same for the same definitions of the same
family, and for no others.
-/

set_option autoImplicit false

namespace JobStaging

/-! ## Documents -/

namespace Json

variable {α : Type} {write : α → Json} {depth : Nat}

/-- Whether a value is a truth value or a text. -/
def isLeaf : Json → Bool
  | .bool _ | .string _ => true
  | _ => false

/-- Members that are leaves are plain at any depth. -/
theorem plain_of_mem_leaves {members : List (String × Json)} {e : String × Json}
    (h : (members.all fun e => e.2.isLeaf) = true) (he : e ∈ members) : Plain depth e.2 := by
  have hleaf := List.all_eq_true.1 h e he
  cases hvalue : e.2 with
  | bool b => exact .bool depth b
  | string s => exact .string depth s
  | null | number | array | object => simp [hvalue, isLeaf] at hleaf

/-- So an object of leaves is plain at the depth of one container. -/
theorem plain_object_of_leaves {members : List (String × Json)}
    (h : (members.all fun e => e.2.isLeaf) = true) : Plain (depth + 1) (.object members) :=
  .object fun _ he => plain_of_mem_leaves h he

/-- A list of texts is plain. -/
theorem plain_strings (texts : List String) : Plain (depth + 1) (strings texts) := by
  refine .array fun j hj => ?_
  obtain ⟨text, -, rfl⟩ := List.mem_map.1 hj
  exact .string depth text

/-- A map of texts is plain. -/
theorem plain_stringMap (m : OrderedMap String) : Plain (depth + 1) (stringMap m) := by
  refine .object fun e he => ?_
  obtain ⟨entry, -, rfl⟩ := List.mem_map.1 he
  exact .string depth entry.2

/-- A list is plain when its elements are, one level below it. -/
theorem plain_list (h : ∀ a, Plain depth (write a)) (values : List α) :
    Plain (depth + 1) (list write values) := by
  refine .array fun j hj => ?_
  obtain ⟨a, -, rfl⟩ := List.mem_map.1 hj
  exact h a

/-- A list of texts is told by its JSON. -/
theorem strings_inj {texts texts' : List String} : strings texts = strings texts' ↔
    texts = texts' := by
  have hstring : Function.Injective Json.string := fun _ _ h => Json.string.inj h
  unfold strings
  rw [Json.array.injEq, List.map_inj_right fun _ _ h => hstring h]

/-- So is a map of texts, with the order of its entries. -/
theorem stringMap_inj {m m' : OrderedMap String} : stringMap m = stringMap m' ↔ m = m' := by
  constructor
  · intro h
    have hentries := Json.object.inj h
    rw [List.map_inj_right] at hentries
    · exact OrderedMap.ext hentries
    · rintro ⟨name, value⟩ ⟨name', value'⟩ hentry
      cases hentry
      rfl
  · rintro rfl
    rfl

/-- A list is told by its JSON when its elements are. -/
theorem list_inj (hwrite : Function.Injective write) {values values' : List α} :
    list write values = list write values' ↔ values = values' := by
  unfold list
  rw [Json.array.injEq, List.map_inj_right fun _ _ h => hwrite h]

end Json

namespace Batch

variable {depth : Nat}

/-- A mount point has only leaves. -/
theorem plain_mountPoint (m : MountPoint) : Json.Plain (depth + 1) m.toJson :=
  Json.plain_object_of_leaves rfl

/-- So has a requirement of a resource. -/
theorem plain_resource (r : ResourceRequirement) : Json.Plain (depth + 1) r.toJson :=
  Json.plain_object_of_leaves rfl

/-- So has an authorization. -/
theorem plain_authorization (a : Authorization) : Json.Plain (depth + 1) a.toJson :=
  Json.plain_object_of_leaves rfl

/-- The member that may be left out is the only one that is no leaf. -/
theorem plain_efsVolume (v : EfsVolume) : Json.Plain (depth + 2) v.toJson := by
  refine .object fun e he => ?_
  rcases List.mem_append.1 he with he | he
  · exact Json.plain_of_mem_leaves rfl he
  · cases hauthorization : v.authorization with
    | none => simp [hauthorization, Json.optionalMember] at he
    | some a =>
      simp only [hauthorization, Json.optionalMember, List.mem_singleton] at he
      subst he
      exact plain_authorization a

/-- A volume holds a leaf and an object. -/
theorem plain_volume (v : Volume) : Json.Plain (depth + 3) v.toJson := by
  refine .object fun e he => ?_
  simp only [List.mem_cons, List.not_mem_nil, or_false] at he
  rcases he with rfl | rfl
  · constructor
  · exact plain_efsVolume v.efs

/-- A mount point is told by its JSON. -/
theorem injective_mountPoint : Function.Injective MountPoint.toJson := by
  rintro ⟨path, readOnly, volume⟩ ⟨path', readOnly', volume'⟩ h
  simpa [MountPoint.toJson] using h

/-- A requirement is told by its JSON, since no two kinds of resource have one name. -/
theorem injective_resource : Function.Injective ResourceRequirement.toJson := by
  rintro ⟨kind, value⟩ ⟨kind', value'⟩ h
  simp only [ResourceRequirement.toJson, Json.object.injEq, List.cons.injEq, Prod.mk.injEq,
    Json.string.injEq, true_and, and_true] at h
  obtain ⟨hkind, rfl⟩ := h
  have hsame : kind = kind' := by
    cases kind <;> cases kind' <;> simp_all [ResourceKind.name]
  rw [hsame]

/-- A volume's file system is told by its JSON, and whether it has an authorization. -/
theorem injective_efsVolume : Function.Injective EfsVolume.toJson := by
  rintro ⟨system, root, encryption, authorization⟩ ⟨system', root', encryption', authorization'⟩ h
  simp only [EfsVolume.toJson, Json.object.injEq, List.cons_append, List.nil_append,
    List.cons.injEq, Prod.mk.injEq, Json.string.injEq, true_and] at h
  obtain ⟨rfl, rfl, rfl, hauthorization⟩ := h
  cases authorization with
  | none =>
    cases authorization' with
    | none => rfl
    | some a => simp [Json.optionalMember] at hauthorization
  | some a =>
    cases authorization' with
    | none => simp [Json.optionalMember] at hauthorization
    | some a' =>
      obtain ⟨accessPoint, iam⟩ := a
      obtain ⟨accessPoint', iam'⟩ := a'
      simp only [Json.optionalMember, Authorization.toJson, List.cons.injEq, Prod.mk.injEq,
        Json.object.injEq, Json.string.injEq, true_and, and_true] at hauthorization
      obtain ⟨rfl, rfl⟩ := hauthorization
      rfl

/-- A volume is told by its JSON. -/
theorem injective_volume : Function.Injective Volume.toJson := by
  rintro ⟨name, efs⟩ ⟨name', efs'⟩ h
  simp only [Volume.toJson, Json.object.injEq, List.cons.injEq, Prod.mk.injEq, Json.string.injEq,
    true_and, and_true] at h
  rw [h.1, injective_efsVolume h.2]

end Batch

namespace Assembly

variable {image image' : String} {command command' : List String}
  {environment environment' : OrderedMap String} {mountPoints mountPoints' : List Batch.MountPoint}
  {volumes volumes' : List Batch.Volume} {resources resources' : List Batch.ResourceRequirement}

/-- The document of a definition is plain, at a depth far below the limit of the reader. -/
theorem plain_definitionDocument : Json.Plain 5
    (definitionDocument image command environment mountPoints volumes resources) := by
  refine .object fun e he => ?_
  simp only [List.mem_cons, List.not_mem_nil, or_false] at he
  rcases he with rfl | rfl | rfl | rfl | rfl | rfl | rfl
  · exact .string _ _
  · exact Json.plain_strings _
  · exact Json.plain_stringMap _
  · exact Json.plain_list Batch.plain_mountPoint _
  · exact Json.plain_list Batch.plain_volume _
  · exact Json.plain_list Batch.plain_resource _
  · exact .bool _ _

/-- A document tells everything that it was made of. -/
theorem definitionDocument_inj :
    definitionDocument image command environment mountPoints volumes resources =
      definitionDocument image' command' environment' mountPoints' volumes' resources' ↔
    image = image' ∧ command = command' ∧ environment = environment' ∧ mountPoints = mountPoints' ∧
      volumes = volumes' ∧ resources = resources' := by
  unfold definitionDocument
  simp only [Json.object.injEq, List.cons.injEq, Prod.mk.injEq, Json.string.injEq, true_and,
    and_true, Json.strings_inj, Json.stringMap_inj, Json.list_inj Batch.injective_mountPoint,
    Json.list_inj Batch.injective_volume, Json.list_inj Batch.injective_resource]

/-! ## Names -/

/-- The document of a job's definition. -/
def documentOf (job : Batch.JobSpec) : Json :=
  definitionDocument job.image job.command job.environment job.mountPoints job.volumes
    job.resources

/-- Documents have the same text when the definitions agree in everything that they hold. -/
theorem compact_documentOf_inj {job job' : Batch.JobSpec} :
    (documentOf job).compact = (documentOf job').compact ↔
      job.image = job'.image ∧ job.command = job'.command ∧ job.environment = job'.environment ∧
        job.mountPoints = job'.mountPoints ∧ job.volumes = job'.volumes ∧
        job.resources = job'.resources := by
  have hplain : ∀ job, Json.Plain 5 (documentOf job) := fun _ => plain_definitionDocument
  rw [Json.compact_inj (hplain job) (hplain job')]
  exact definitionDocument_inj

/-- Once the label of the environment is known, the family can be told from the beginning of the
name. -/
theorem jobFamily_inj {config config' : Config} {e e' : Execution}
    (hbase : config.envBase = config'.envBase) :
    jobFamily config e = jobFamily config' e' ↔ e.family = e'.family := by
  unfold jobFamily
  rw [hbase]
  constructor
  · intro h
    have hchars := congrArg String.toList h
    simp only [String.toList_append] at hchars
    have hfamily := List.append_cancel_left (List.append_cancel_right hchars)
    exact String.ext hfamily
  · intro h
    rw [h]

variable {config config' : Config} {r r' : Resolver} {request request' : Request}

namespace Stages

/-- The label of the environment is among the variables that are passed inline, however the others
are delivered. -/
theorem get?_envBase (st : Stages config r request) :
    st.response.setup.job.environment.get? "ENV_BASE" = some config.envBase :=
  st.get?_environment fun _ => rfl

/-- Jobs with the same variables belong to one environment. -/
theorem envBase_eq (st : Stages config r request) (st' : Stages config' r' request')
    (h : st.response.setup.job.environment = st'.response.setup.job.environment) :
    config.envBase = config'.envBase := by
  have hvalue := st.get?_envBase
  rw [h, st'.get?_envBase] at hvalue
  exact (Option.some.inj hvalue).symm

/-- The name of a definition, in terms of its own document. -/
theorem definitionName_eq (st : Stages config r request) :
    st.response.setup.job.definitionName = jobFamily config request.execution ++
      Digest.sha256Hex (documentOf st.response.setup.job).compact := rfl

end Stages

variable {σ σ' : Type} {storage : Storage (StateM σ)} {storage' : Storage (StateM σ')} {s : σ}
  {s' : σ'} {response response' : Response}

/-- The definitions of two jobs have the same name exactly when the executions are of one family and
the definitions agree in image, command, variables, mount points, volumes and resources, as far as
the digest keeps their documents apart. Definitions of the same name then belong to one environment
and have the same tags, although both labels in the name may hold hyphens. -/
theorem definitionName_eq_iff
    (h : ((prepare config r storage request).run s).1.answer = .ok response)
    (h' : ((prepare config' r' storage' request').run s').1.answer = .ok response')
    (hapart : Digest.Apart (documentOf response.setup.job).compact
      (documentOf response'.setup.job).compact) :
    let job := response.setup.job
    let job' := response'.setup.job
    (job.definitionName = job'.definitionName ↔
      request.execution.family = request'.execution.family ∧ job.image = job'.image ∧
        job.command = job'.command ∧ job.environment = job'.environment ∧
        job.mountPoints = job'.mountPoints ∧ job.volumes = job'.volumes ∧
        job.resources = job'.resources) ∧
    (job.definitionName = job'.definitionName →
      config.envBase = config'.envBase ∧ job.definitionTags = job'.definitionTags) := by
  intro job job'
  rw [run_prepare] at h h'
  obtain ⟨st, rfl, -⟩ := exists_stages_of_answer h
  obtain ⟨st', rfl, -⟩ := exists_stages_of_answer h'
  have hname : job.definitionName = job'.definitionName ↔
      jobFamily config request.execution = jobFamily config' request'.execution ∧
        job.image = job'.image ∧ job.command = job'.command ∧
        job.environment = job'.environment ∧ job.mountPoints = job'.mountPoints ∧
        job.volumes = job'.volumes ∧ job.resources = job'.resources := by
    rw [st.definitionName_eq, st'.definitionName_eq, Digest.append_sha256Hex_inj hapart,
      compact_documentOf_inj]
  have hfamily : job.environment = job'.environment →
      (jobFamily config request.execution = jobFamily config' request'.execution ↔
        request.execution.family = request'.execution.family) :=
    fun henvironment => jobFamily_inj (st.envBase_eq st' henvironment)
  constructor
  · rw [hname]
    constructor
    · rintro ⟨hbegin, himage, hcommand, henvironment, hrest⟩
      exact ⟨(hfamily henvironment).1 hbegin, himage, hcommand, henvironment, hrest⟩
    · rintro ⟨hsame, himage, hcommand, henvironment, hrest⟩
      exact ⟨(hfamily henvironment).2 hsame, himage, hcommand, henvironment, hrest⟩
  · intro heq
    obtain ⟨hbegin, -, -, henvironment, -⟩ := hname.1 heq
    have hbase : config.envBase = config'.envBase := st.envBase_eq st' henvironment
    have hsame : request.execution.family = request'.execution.family :=
      (hfamily henvironment).1 hbegin
    refine ⟨hbase, ?_⟩
    show definitionTags config.envBase request.execution.family =
      definitionTags config'.envBase request'.execution.family
    rw [hbase, hsame]

/-- An execution of a family with a hyphen in its label, for a queue. -/
def sampleRequestFor (queue : String) : Request :=
  { sampleRequest with execution :=
    { sampleRequest.execution with family := "b-c", platform := ⟨some ⟨queue⟩⟩ } }

/-- Two executions of one family, in an environment with a hyphen in its label too, go to different
queues and are retried differently: they share a definition. -/
theorem definitionName_eq_iff_of_sample :
    let outcome := ((prepare { Config.standard with envBase := "dev-a" }
      sampleInventory.resolver .acceptAll (sampleRequestFor "first")).run ()).1
    let outcome' := ((prepare { Config.standard with envBase := "dev-a", retryAttempts := 3 }
      sampleInventory.resolver .acceptAll (sampleRequestFor "second")).run ()).1
    ∃ response response', outcome.answer = .ok response ∧ outcome'.answer = .ok response' ∧
      Digest.Apart (documentOf response.setup.job).compact
        (documentOf response'.setup.job).compact ∧
      response.setup.job.definitionName = response'.setup.job.definitionName ∧
      response.setup.job.definitionTags = response'.setup.job.definitionTags := by
  intro outcome outcome'
  have hanswers : ∃ response response', outcome.answer = .ok response ∧
      outcome'.answer = .ok response' ∧
      documentOf response.setup.job = documentOf response'.setup.job :=
    ⟨_, _, rfl, rfl, rfl⟩
  obtain ⟨response, response', hresponse, hresponse', hdocument⟩ := hanswers
  have hapart : Digest.Apart (documentOf response.setup.job).compact
      (documentOf response'.setup.job).compact := fun _ => congrArg Json.compact hdocument
  obtain ⟨hname, htags⟩ := definitionName_eq_iff hresponse hresponse' hapart
  have hsame : response.setup.job.definitionName = response'.setup.job.definitionName :=
    hname.2 ⟨rfl, definitionDocument_inj.1 hdocument⟩
  exact ⟨response, response', hresponse, hresponse', hapart, hsame, (htags hsame).2⟩

end Assembly

end JobStaging
