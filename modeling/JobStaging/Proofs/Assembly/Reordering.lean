import JobStaging.Proofs.Assembly.Neighbours
import JobStaging.Proofs.Lookup

/-!
# Reordered inventories

Staging asks for resources and goes on with the answers: it measures candidates and remembers what
it found, mounts access points and builds paths from their roots. Each of these steps does alike
work when it is given alike resolvers, one after the other and whatever was found before. So an
inventory may list its resources in any order: `prepare_of_perm` says that the answers, the
questions and what is written are the same, and that a failure differs at most in the order in which
it lists resources that have one name.
-/

set_option autoImplicit false

namespace JobStaging

variable {r r' : Resolver} {envBase : Option String}

namespace Selection

variable {known : Known} {best : Option (Candidate × UInt64)} {candidates : List Candidate}

/-- Resolvers that are alike describe file systems alike. -/
theorem describe_alike (h : r.Alike envBase r') (known : Known) (name : String) :
    (describe r envBase known name).Alike (describe r' envBase known name) := by
  unfold describe
  cases known.lookup name with
  | some found => exact .refl _
  | none => exact (h.askFileSystem name).bind fun found => .refl _

/-- They measure candidates alike. -/
theorem measure_alike (h : r.Alike envBase r') (known : Known) (c : Candidate) :
    (measure r envBase known c).Alike (measure r' envBase known c) := by
  unfold measure
  cases c.fileSystem with
  | some name => exact (describe_alike h known name).bind fun described => .refl _
  | none =>
    cases c.accessPoint with
    | none => exact .refl _
    | some name =>
      refine (h.askAccessPoint name none).bind fun a => ?_
      exact (describe_alike h known a.fileSystem).bind fun described => .refl _

/-- Whatever is known and best so far, the rest is compared alike. -/
theorem compare_alike (h : r.Alike envBase r') :
    (compare r envBase known best candidates).Alike (compare r' envBase known best candidates) := by
  induction candidates generalizing known best with
  | nil => exact .refl _
  | cons c rest ih => exact (measure_alike h known c).bind fun measured => ih

/-- They select alike, whatever is drawn. -/
theorem select_alike (h : r.Alike envBase r') (strategy : Strategy) (seed : Option UInt64)
    (unseeded : Draw.Source) :
    (select r envBase strategy seed candidates unseeded).Alike
      (select r' envBase strategy seed candidates unseeded) := by
  unfold select
  split
  · exact .refl _
  · exact .refl _
  · cases strategy with
    | random => exact .refl _
    | leastUtilized => exact (compare_alike h).bind fun best => .refl _

end Selection

namespace Mount

/-- They find the owners of access points alike. -/
theorem askOwner_alike (h : r.Alike envBase r') (name : Option String) :
    (askOwner r envBase name).Alike (askOwner r' envBase name) := by
  unfold askOwner
  cases name with
  | none => exact .refl _
  | some name => exact (h.askFileSystem name).map some

/-- They resolve candidates alike. -/
theorem resolve_alike (h : r.Alike envBase r') (c : Candidate) (defaultPath : Path)
    (readOnly : Bool) : (resolve r envBase c defaultPath readOnly).Alike
      (resolve r' envBase c defaultPath readOnly) := by
  unfold resolve
  dsimp only
  split
  · cases c.accessPoint with
    | none => exact .refl _
    | some name =>
      refine (askOwner_alike h c.fileSystem).bind fun owner => ?_
      exact (h.askAccessPoint name (owner.map FileSystem.id)).bind fun a => .refl _
  · exact .refl _

end Mount

namespace Assembly

variable {σ : Type} {config : Config} {storage : Storage (StateM σ)} {request : Request} {s : σ}
  {i j : Inventory}

/-- They mount a role alike. -/
theorem mountRole_alike (h : r.Alike (some config.envBase) r') (executionId : String)
    (strategy : Strategy) (role : Role) (candidates : List Candidate) :
    (mountRole config r executionId strategy role candidates).Alike
      (mountRole config r' executionId strategy role candidates) :=
  (Selection.select_alike h strategy _ _).bind fun _ => Mount.resolve_alike h _ _ _

/-- They mount the directory for temporary files alike, if there is one. -/
theorem mountTmp_alike (h : r.Alike (some config.envBase) r') (executionId : String)
    (p : Placement) : (mountTmp config r executionId p).Alike (mountTmp config r' executionId p) := by
  unfold mountTmp
  cases p.tmpCandidates with
  | none => exact .refl _
  | some candidates => exact (mountRole_alike h executionId p.strategy .tmp candidates).map some

/-- They mount all roles alike. -/
theorem mountAll_alike (h : r.Alike (some config.envBase) r') (executionId : String)
    (p : Placement) : (mountAll config r executionId p).Alike (mountAll config r' executionId p) := by
  unfold mountAll
  refine (mountRole_alike h executionId p.strategy .scratch p.scratch).bind fun _ => ?_
  refine (mountRole_alike h executionId p.strategy .shared p.shared).bind fun _ => ?_
  exact (mountTmp_alike h executionId p).bind fun _ => .refl _

/-- Resolvers that are alike lead to plans that are. -/
theorem plan_alike (h : r.Alike (some config.envBase) r') (request : Request) :
    (plan config r request).Alike (plan config r' request) := by
  unfold plan
  -- What is checked before and after the lookups does not see the resolver.
  refine (Traced.Alike.refl _).bind fun _ => ?_
  exact (mountAll_alike h request.execution.id request.placement).bind fun _ => .refl _

/-- Runs after plans that are alike end alike, and do the same to the storage. -/
theorem run_alike (h : (plan config r request).Alike (plan config r' request)) :
    Fallible.Alike Error.Alike (run config r storage request s).outcome.answer
        (run config r' storage request s).outcome.answer ∧
      (run config r storage request s).outcome.queries =
        (run config r' storage request s).outcome.queries ∧
      (run config r storage request s).state = (run config r' storage request s).state ∧
      (run config r storage request s).writes = (run config r' storage request s).writes := by
  obtain ⟨houtcome, hqueries⟩ := h
  cases hplan : (plan config r request).outcome with
  | ok p =>
    have hplan' := houtcome.eq_ok_iff.1 hplan
    have hsame : prepare config r storage.recorded request =
        prepare config r' storage.recorded request := by
      unfold prepare
      dsimp only
      rw [hplan, hplan', hqueries]
    unfold run
    rw [hsame]
    exact ⟨.refl Error.Alike.refl _, rfl, rfl, rfl⟩
  | error e =>
    obtain ⟨e', hplan', halike⟩ := houtcome.exists_error hplan
    rw [run_of_error hplan, run_of_error hplan']
    exact ⟨.error halike, hqueries, rfl, rfl⟩

/-- Staging does not depend on the order in which an inventory lists its resources, as long as no
two file systems and no two access points have one identifier. On either order the same requests are
answered, with the same answer, and with the same file written for it. A request that fails does so
alike, and nothing else is different: the same questions are asked, and the storage is left the
same. -/
theorem prepare_of_perm (hsystems : i.fileSystems.Perm j.fileSystems)
    (haccess : i.accessPoints.Perm j.accessPoints)
    (hids : (i.fileSystems.map FileSystem.id).Nodup)
    (hids' : (i.accessPoints.map AccessPoint.id).Nodup) :
    let staged := (prepare config i.resolver storage request).run s
    let staged' := (prepare config j.resolver storage request).run s
    (∀ response, staged.1.answer = .ok response ↔ staged'.1.answer = .ok response) ∧
    (∀ e, staged.1.answer = .error e → ∃ e', staged'.1.answer = .error e' ∧ e.Alike e') ∧
    (run config i.resolver storage request s).writes =
      (run config j.resolver storage request s).writes ∧
    staged.1.queries = staged'.1.queries ∧ staged.2 = staged'.2 := by
  intro staged staged'
  have hplans := plan_alike
    (Inventory.alike_of_perm hsystems haccess hids hids' (some config.envBase)) request
  obtain ⟨hanswers, hqueries, hstates, hwrites⟩ := @run_alike _ _ _ _ storage _ s hplans
  have hstaged : staged = _ := run_prepare config i.resolver storage request s
  have hstaged' : staged' = _ := run_prepare config j.resolver storage request s
  rw [hstaged, hstaged']
  exact ⟨fun _ => hanswers.eq_ok_iff, fun _ he => hanswers.exists_error he, hwrites, hqueries,
    hstates⟩

/-- The sample inventory of two file systems, listed the other way round. -/
def reversedInventory : Inventory :=
  ⟨namedInventory.fileSystems.reverse, namedInventory.accessPoints.reverse⟩

/-- An execution that names no access point for its working directory, for which two have the name
that stands in. -/
def unnamedRequest : Request :=
  { namedRequest with placement := ⟨[⟨none, none, none⟩], [⟨none, none, none⟩], none, .random⟩ }

/-- The execution that is placed by use is answered on both orders. The one that is not fails on
both, and the failures list the two access points in the order of the inventories. -/
theorem prepare_of_perm_of_sample :
    let answer := fun (i : Inventory) (request : Request) =>
      ((prepare .standard i.resolver .acceptAll request).run ()).1.answer
    namedInventory.fileSystems.Perm reversedInventory.fileSystems ∧
    namedInventory.accessPoints.Perm reversedInventory.accessPoints ∧
    (namedInventory.fileSystems.map FileSystem.id).Nodup ∧
    (namedInventory.accessPoints.map AccessPoint.id).Nodup ∧
    (∃ response, answer namedInventory namedRequest = .ok response ∧
      answer reversedInventory namedRequest = .ok response) ∧
    ∃ e e', answer namedInventory unnamedRequest = .error e ∧
      answer reversedInventory unnamedRequest = .error e' ∧ e.Alike e' ∧
      e.message = some
        "Failed to resolve access point scratch: ambiguous, 2 matches: fsap-1, fsap-2" ∧
      e'.message = some
        "Failed to resolve access point scratch: ambiguous, 2 matches: fsap-2, fsap-1" := by
  intro answer
  have hsystems : namedInventory.fileSystems.Perm reversedInventory.fileSystems :=
    (List.reverse_perm _).symm
  have haccess : namedInventory.accessPoints.Perm reversedInventory.accessPoints :=
    (List.reverse_perm _).symm
  have hids : (namedInventory.fileSystems.map FileSystem.id).Nodup := by decide
  have hids' : (namedInventory.accessPoints.map AccessPoint.id).Nodup := by decide
  refine ⟨hsystems, haccess, hids, hids', ?_, ?_⟩
  · obtain ⟨hok, -⟩ := @prepare_of_perm _ .standard .acceptAll namedRequest () _ _ hsystems haccess
      hids hids'
    have hanswer : ∃ response, answer namedInventory namedRequest = .ok response := ⟨_, rfl⟩
    obtain ⟨response, hresponse⟩ := hanswer
    exact ⟨response, hresponse, (hok response).1 hresponse⟩
  · obtain ⟨-, hfails, -⟩ := @prepare_of_perm _ .standard .acceptAll unnamedRequest () _ _ hsystems
      haccess hids hids'
    let listed := fun ids => Error.resolution "access point scratch" (.ambiguous ids)
    have hanswer : answer namedInventory unnamedRequest = .error (listed ["fsap-1", "fsap-2"]) :=
      rfl
    have hanswer' : answer reversedInventory unnamedRequest =
        .error (listed ["fsap-2", "fsap-1"]) := rfl
    obtain ⟨e', he', halike⟩ := hfails _ hanswer
    obtain rfl : listed ["fsap-2", "fsap-1"] = e' := Except.error.inj (hanswer'.symm.trans he')
    exact ⟨_, _, hanswer, hanswer', halike, by decide, by decide⟩

end Assembly

end JobStaging
