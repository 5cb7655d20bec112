import JobStaging.Proofs.Assembly.Running
import JobStaging.Proofs.Selection

/-!
# Environments side by side

Several environments may have their file systems and access points in one inventory. What is staged
for one of them does not depend on the others: resources of other environments may come and go, and
carry the very names that are asked for, as long as their identifiers are fresh
(`prepare_of_enlarged`). Each lookup of staging is made for the environment of the configuration,
under a name that the request or the configuration gives, or under an identifier that an earlier
answer gave, and on all of these the two inventories agree.
-/

set_option autoImplicit false

namespace JobStaging

/-- The names of file systems and access points that a candidate gives. -/
def Candidate.names (c : Candidate) : List String := c.fileSystem.toList ++ c.accessPoint.toList

/-- The names of file systems and access points that a placement gives. -/
def Placement.names (p : Placement) : List String :=
  (p.shared ++ p.scratch ++ p.tmp.getD []).flatMap Candidate.names

/-- The names of the access points that stand in where a candidate names none. -/
def DefaultAccessPoints.names (d : DefaultAccessPoints) : List String :=
  [d.shared, d.scratch, d.tmp]

variable {names : List String} {envBase : String} {r r' : Resolver} {c : Candidate}

/-- A candidate keeps to any names that include its own. -/
theorem Candidate.keepsTo_of_subset (h : c.names ⊆ names) : c.KeepsTo names := by
  constructor
  · intro name hname
    exact h (List.mem_append_left _ (Option.mem_toList.2 hname))
  · intro name hname
    exact h (List.mem_append_right _ (Option.mem_toList.2 hname))

namespace Mount

variable {defaultPath : Path} {readOnly : Bool}

/-- Resolvers that agree on a name find the same owner under it. -/
theorem askOwner_of_agree (h : r.Agree names envBase r') {name : Option String}
    (hname : ∀ n, name = some n → n ∈ names) :
    askOwner r' (some envBase) name = askOwner r (some envBase) name := by
  unfold askOwner
  cases name with
  | none => rfl
  | some n =>
    dsimp only
    rw [h.askFileSystem (hname n rfl)]

/-- Resolvers that agree on the names of a candidate give it the same mount. -/
theorem resolve_of_agree (h : r.Agree names envBase r') (hc : c.KeepsTo names) :
    resolve r' (some envBase) c defaultPath readOnly =
      resolve r (some envBase) c defaultPath readOnly := by
  unfold resolve
  dsimp only
  split
  · cases hname : c.accessPoint with
    | none => rfl
    | some name =>
      dsimp only
      rw [askOwner_of_agree h hc.1]
      refine Traced.bind_congr fun owner _ => ?_
      rw [h.askAccessPoint (hc.2 name hname)]
  · rfl

end Mount

namespace Assembly

variable {config : Config} {executionId : String} {strategy : Strategy} {role : Role}
  {candidates : List Candidate} {placement : Placement} {request : Request} {i j : Inventory}

/-- An access point that stands in may be named too. -/
theorem keepsTo_withAccessPoint {name : String} (hname : name ∈ names) (hc : c.KeepsTo names) :
    (withAccessPoint name c).KeepsTo names := by
  refine ⟨hc.1, ?_⟩
  intro n hn
  unfold withAccessPoint at hn
  cases haccess : c.accessPoint with
  | none =>
    rw [haccess] at hn
    cases hn
    exact hname
  | some name =>
    rw [haccess] at hn
    cases hn
    exact hc.2 n haccess

/-- The access point that stands in for a role is one of the configured ones. -/
theorem accessPoint_mem_names (role : Role) (d : DefaultAccessPoints) :
    role.accessPoint d ∈ d.names := by
  cases role <;> simp [Role.accessPoint, DefaultAccessPoints.names]

/-- Resolvers that agree on the names give a role the same mount. -/
theorem mountRole_of_agree (h : r.Agree names config.envBase r')
    (hdefaults : config.accessPoints.names ⊆ names)
    (hcandidates : ∀ c ∈ candidates, c.KeepsTo names) :
    mountRole config r' executionId strategy role candidates =
      mountRole config r executionId strategy role candidates := by
  unfold mountRole
  rw [Selection.select_of_agree h hcandidates]
  refine Traced.bind_congr fun chosen hchosen => ?_
  have hdefault := hdefaults (accessPoint_mem_names role config.accessPoints)
  have hkeeps := Selection.keepsTo_of_select h hcandidates hchosen
  exact Mount.resolve_of_agree h (keepsTo_withAccessPoint hdefault hkeeps)

/-- Resolvers that agree on the names that a placement and the configuration give mount the same. -/
theorem mountAll_of_agree (h : r.Agree names config.envBase r')
    (hdefaults : config.accessPoints.names ⊆ names) (hplacement : placement.names ⊆ names) :
    mountAll config r' executionId placement = mountAll config r executionId placement := by
  have hkeeps : ∀ c ∈ placement.shared ++ placement.scratch ++ placement.tmp.getD [],
      c.KeepsTo names := by
    intro c hc
    apply Candidate.keepsTo_of_subset
    intro name hname
    exact hplacement (List.mem_flatMap.2 ⟨c, hc, hname⟩)
  have htmp : mountTmp config r' executionId placement =
      mountTmp config r executionId placement := by
    unfold mountTmp
    cases hcandidates : placement.tmpCandidates with
    | none => rfl
    | some candidates =>
      dsimp only
      rw [mountRole_of_agree h hdefaults]
      intro c hc
      have hgiven : placement.tmp = some candidates := (Option.filter_eq_some_iff.1 hcandidates).1
      refine hkeeps c (List.mem_append_right _ ?_)
      rw [hgiven]
      exact hc
  unfold mountAll
  rw [htmp, mountRole_of_agree h hdefaults fun c hc => hkeeps c (by simp [hc]),
    mountRole_of_agree h hdefaults fun c hc => hkeeps c (by simp [hc])]

/-- They make the same plan. -/
theorem plan_of_agree (h : r.Agree names config.envBase r')
    (hdefaults : config.accessPoints.names ⊆ names)
    (hplacement : request.placement.names ⊆ names) :
    plan config r' request = plan config r request := by
  unfold plan
  rw [mountAll_of_agree h hdefaults hplacement]

/-- Staging does the same when the inventory is enlarged by resources of other environments whose
identifiers are fresh: they are not among the identifiers that the inventory mentions, nor among the
names that the request or the configuration gives. The answer is the same, or the same fault, with
the same questions asked for it and the same done to the storage. -/
theorem prepare_of_enlarged {m : Type → Type} [Monad m] (storage : Storage m)
    (h : i.Enlarges config.envBase
      (i.ids ++ request.placement.names ++ config.accessPoints.names) j) :
    prepare config j.resolver storage request = prepare config i.resolver storage request := by
  have hids : i.ids ⊆ i.ids ++ request.placement.names ++ config.accessPoints.names :=
    fun name hname => List.mem_append_left _ (List.mem_append_left _ hname)
  have hagree := Inventory.agree_of_enlarges h hids
  unfold prepare
  rw [plan_of_agree hagree (List.subset_append_right _ _)
    fun name hname => List.mem_append_left _ (List.mem_append_right _ hname)]

/-- The labels of a resource that goes by a name in an environment. -/
def namedTags (name envBase : String) : OrderedMap String :=
  OrderedMap.ofList [(Labels.nameTag, name), (Labels.envBaseTag, envBase)]

/-- Two file systems of one environment, with an access point for each role. -/
def namedInventory : Inventory :=
  ⟨[⟨"fs-1", none, 2000, namedTags "first" "dev"⟩, ⟨"fs-2", none, 1000, namedTags "second" "dev"⟩],
    [⟨"fsap-1", "fs-1", none, ⟨"/one"⟩, namedTags "scratch" "dev"⟩,
      ⟨"fsap-2", "fs-2", none, ⟨"/two"⟩, namedTags "scratch" "dev"⟩,
      ⟨"fsap-3", "fs-2", none, ⟨"/all"⟩, namedTags "shared" "dev"⟩]⟩

/-- The same with resources of another environment, and one of none, before and between them, which
go by the same names. -/
def crowdedInventory : Inventory :=
  ⟨⟨"fs-7", none, 0, namedTags "second" "prod"⟩ :: ⟨"fs-8", none, 0, .empty⟩ ::
      namedInventory.fileSystems,
    ⟨"fsap-7", "fs-2", none, ⟨"/"⟩, namedTags "scratch" "prod"⟩ ::
      ⟨"fsap-1", "fs-1", none, ⟨"/one"⟩, namedTags "scratch" "dev"⟩ ::
      ⟨"fsap-8", "fs-1", none, ⟨"/"⟩, namedTags "shared" "prod"⟩ ::
      namedInventory.accessPoints.tail⟩

/-- An execution on whichever of two file systems holds the fewest bytes. -/
def namedRequest : Request :=
  { sampleRequest with
    placement := ⟨[⟨none, none, none⟩], [⟨some "first", none, none⟩, ⟨some "second", none, none⟩],
      none, .leastUtilized⟩ }

/-- Without the other environment's resources the second file system is taken for its use, and so it
is with them, although one that holds nothing has its name. -/
theorem prepare_of_enlarged_of_sample :
    let alone := ((prepare .standard namedInventory.resolver .acceptAll namedRequest).run ()).1
    let crowded := ((prepare .standard crowdedInventory.resolver .acceptAll namedRequest).run ()).1
    crowded = alone ∧ ∃ response, crowded.answer = .ok response ∧
      response.setup.job.volumes.map (fun v => v.efs.authorization.map (·.accessPoint)) =
        [some "fsap-3", some "fsap-2"] := by
  intro alone crowded
  have henlarges : namedInventory.Enlarges Config.standard.envBase
      (namedInventory.ids ++ namedRequest.placement.names ++ Config.standard.accessPoints.names)
      crowdedInventory := by
    refine ⟨.add _ ⟨by decide, by decide⟩ (.add _ ⟨by decide, by decide⟩ (.keep _ (.keep _ .nil))),
      .add _ ⟨by decide, by decide⟩ (.keep _ (.add _ ⟨by decide, by decide⟩
        (.keep _ (.keep _ .nil))))⟩
  have hsame : crowded = alone :=
    congrArg (fun staged : StateM Unit Outcome => (staged.run ()).1)
      (prepare_of_enlarged Storage.acceptAll henlarges)
  have hanswer : ∃ response, alone.answer = .ok response ∧
      response.setup.job.volumes.map (fun v => v.efs.authorization.map (·.accessPoint)) =
        [some "fsap-3", some "fsap-2"] := ⟨_, rfl, rfl⟩
  rw [hsame]
  exact ⟨rfl, hanswer⟩

end Assembly

end JobStaging
