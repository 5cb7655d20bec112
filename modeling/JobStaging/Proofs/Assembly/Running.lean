import JobStaging.Proofs.Assembly.Admission
import JobStaging.Proofs.Assembly.Stages

/-!
# What a run writes

The storage is the only thing that staging changes. A run is watched by giving it a storage that
keeps a list of the writes it was asked for with what it said to each; watching changes neither the
answer nor what becomes of the storage (`run_prepare`). Either planning fails and nothing is
written, or all findings are there and the file of the plan, if it has one, is written as the last
step (`run_cases`). The main statement is `run_all_or_nothing`.
-/

set_option autoImplicit false

namespace JobStaging

/-- A write that a storage was asked for, and why it failed, if it did. -/
structure Write where
  path : EfsPath
  content : String
  fault : Option Error

/-- A storage that also keeps a list of the writes it was asked for, the first one first. -/
def Storage.recorded {σ : Type} (storage : Storage (StateM σ)) :
    Storage (StateM (σ × List Write)) where
  write path content := fun (s, writes) =>
    let (fault, after) := storage.write path content s
    (fault, after, writes ++ [⟨path, content, fault⟩])

/-- A storage that takes whatever it is given. -/
def Storage.acceptAll : Storage (StateM Unit) := ⟨fun _ _ => pure none⟩

namespace Assembly

variable {σ : Type} {config : Config} {r : Resolver} {storage : Storage (StateM σ)}
  {request : Request} {s : σ}

/-- What a run answers, what becomes of the storage, and the writes that it was asked for. -/
structure Run (σ : Type) where
  outcome : Outcome
  state : σ
  writes : List Write

/-- Stages a request, with an eye on the storage. -/
def run (config : Config) (r : Resolver) (storage : Storage (StateM σ)) (request : Request)
    (s : σ) : Run σ :=
  let (outcome, state, writes) := (prepare config r storage.recorded request).run (s, [])
  ⟨outcome, state, writes⟩

/-- A request that cannot be planned is answered with the fault, whatever the storage. -/
theorem prepare_of_error {m : Type → Type} [Monad m] (storage : Storage m) {fault : Error}
    (h : (plan config r request).outcome = .error fault) :
    prepare config r storage request = pure ⟨.error fault, (plan config r request).queries⟩ := by
  unfold prepare
  dsimp only
  rw [h]

/-- A request that no step of planning refuses is carried out. -/
theorem prepare_of_stages {m : Type → Type} [Monad m] (storage : Storage m)
    (st : Stages config r request) : prepare config r storage request = do
      let answer ← carryOut storage st.plan
      return ⟨answer, (plan config r request).queries⟩ := by
  have hplan : (plan config r request).outcome = .ok st.plan := plan_eq_ok_iff.2 ⟨st, rfl⟩
  unfold prepare
  dsimp only
  rw [hplan]

/-- The answer once the file is written, or why it was not. -/
def Stages.answer (st : Stages config r request) : Option Error → Except Error Response
  | none => .ok st.response
  | some fault => .error fault

/-- A request that can be planned fails with nothing but the fault of its write. -/
theorem Stages.answer_eq_error_iff (st : Stages config r request) {said : Option Error}
    {fault : Error} : st.answer said = .error fault ↔ said = some fault := by
  cases said <;> simp [answer]

/-- A request that can be planned is answered by its findings when its write succeeds. -/
theorem Stages.answer_eq_ok_iff (st : Stages config r request) {said : Option Error}
    {response : Response} :
    st.answer said = .ok response ↔ said = none ∧ st.response = response := by
  cases said <;> simp [answer]

/-- A plan without a file is carried out by answering. -/
theorem carryOut_of_inline {m : Type → Type} [Monad m] (storage : Storage m)
    (st : Stages config r request) (hfile : st.delivery.file = none) :
    carryOut storage st.plan = pure (.ok st.response) := by
  unfold carryOut
  rw [show st.plan.file = none from hfile]
  rfl

/-- A plan with a file is carried out by one write, on which the answer depends. -/
theorem carryOut_of_file {τ : Type} {storage : Storage (StateM τ)} {t after : τ}
    {fault : Option Error} {file : Environment.EnvFile} (st : Stages config r request)
    (hfile : st.delivery.file = some file)
    (hwrite : storage.write file.path file.content t = (fault, after)) :
    (carryOut storage st.plan).run t = (st.answer fault, after) := by
  unfold carryOut
  rw [show st.plan.file = some file from hfile]
  dsimp only
  rw [StateT.run_bind]
  cases fault <;> rw [StateT.run, hwrite] <;> rfl

/-- A request that cannot be planned changes nothing. -/
theorem run_of_error {fault : Error} (h : (plan config r request).outcome = .error fault) :
    run config r storage request s = ⟨⟨.error fault, (plan config r request).queries⟩, s, []⟩ := by
  unfold run
  rw [prepare_of_error _ h]
  rfl

/-- Without a file nothing is written. -/
theorem run_of_inline (st : Stages config r request) (hfile : st.delivery.file = none) :
    run config r storage request s =
      ⟨⟨.ok st.response, (plan config r request).queries⟩, s, []⟩ := by
  unfold run
  rw [prepare_of_stages _ st, carryOut_of_inline _ st hfile]
  rfl

/-- A file is written once, and the answer depends on whether that succeeds. -/
theorem run_of_file (st : Stages config r request) {file : Environment.EnvFile}
    {fault : Option Error} {after : σ} (hfile : st.delivery.file = some file)
    (hwrite : storage.write file.path file.content s = (fault, after)) :
    run config r storage request s =
      ⟨⟨st.answer fault, (plan config r request).queries⟩, after,
        [⟨file.path, file.content, fault⟩]⟩ := by
  have hrecorded : storage.recorded.write file.path file.content (s, []) =
      (fault, after, [⟨file.path, file.content, fault⟩]) := by
    dsimp only [Storage.recorded]
    rw [hwrite]
    rfl
  unfold run
  rw [prepare_of_stages _ st, StateT.run_bind, carryOut_of_file st hfile hrecorded]
  rfl

/-- A run ends in one of three ways: planning fails, there is no file to be written, or there is one
and it is written. -/
theorem run_cases (config : Config) (r : Resolver) (storage : Storage (StateM σ))
    (request : Request) (s : σ) :
    (∃ fault, (plan config r request).outcome = .error fault) ∨
    (∃ st : Stages config r request, st.delivery.file = none) ∨
    ∃ (st : Stages config r request) (file : Environment.EnvFile) (fault : Option Error)
      (after : σ), st.delivery.file = some file ∧
        storage.write file.path file.content s = (fault, after) := by
  cases hplan : (plan config r request).outcome with
  | error fault => exact .inl ⟨fault, rfl⟩
  | ok p =>
    obtain ⟨st, -⟩ := plan_eq_ok_iff.1 hplan
    cases hfile : st.delivery.file with
    | none => exact .inr (.inl ⟨st, hfile⟩)
    | some file => exact .inr (.inr ⟨st, file, _, _, hfile, rfl⟩)

/-- Keeping a list of the writes changes neither the answer nor the storage. -/
theorem run_prepare (config : Config) (r : Resolver) (storage : Storage (StateM σ))
    (request : Request) (s : σ) : (prepare config r storage request).run s =
      ((run config r storage request s).outcome, (run config r storage request s).state) := by
  rcases run_cases config r storage request s with
    ⟨fault, hplan⟩ | ⟨st, hfile⟩ | ⟨st, file, fault, after, hfile, hwrite⟩
  · rw [run_of_error hplan, prepare_of_error storage hplan]
    rfl
  · rw [run_of_inline st hfile, prepare_of_stages storage st, carryOut_of_inline storage st hfile]
    rfl
  · rw [run_of_file st hfile hwrite, prepare_of_stages storage st, StateT.run_bind,
      carryOut_of_file st hfile hwrite]
    rfl

/-- The storage is asked at most once. -/
theorem length_writes_le_one (config : Config) (r : Resolver) (storage : Storage (StateM σ))
    (request : Request) (s : σ) : (run config r storage request s).writes.length ≤ 1 := by
  rcases run_cases config r storage request s with
    ⟨fault, hplan⟩ | ⟨st, hfile⟩ | ⟨st, file, fault, after, hfile, hwrite⟩
  · rw [run_of_error hplan]
    exact Nat.zero_le 1
  · rw [run_of_inline st hfile]
    exact Nat.zero_le 1
  · rw [run_of_file st hfile hwrite]
    exact Nat.le_refl 1

/-- What the storage is asked to write is the file of a plan, and the answer is the plan's if that
succeeds. -/
theorem exists_stages_of_mem_writes {w : Write} (h : w ∈ (run config r storage request s).writes) :
    ∃ st : Stages config r request, st.delivery.file = some ⟨w.path, w.content⟩ ∧
      (run config r storage request s).outcome.answer = st.answer w.fault := by
  rcases run_cases config r storage request s with
    ⟨fault, hplan⟩ | ⟨st, hfile⟩ | ⟨st, file, fault, after, hfile, hwrite⟩
  · rw [run_of_error hplan] at h
    cases h
  · rw [run_of_inline st hfile] at h
    cases h
  · rw [run_of_file st hfile hwrite] at h ⊢
    obtain rfl := List.mem_singleton.1 h
    exact ⟨st, hfile, rfl⟩

/-- An answer that is given is made of findings, and the file of their delivery, if there is one,
has been written. -/
theorem exists_stages_of_answer {response : Response}
    (h : (run config r storage request s).outcome.answer = .ok response) :
    ∃ st : Stages config r request, st.response = response ∧
      (run config r storage request s).writes =
        st.delivery.file.toList.map fun file => ⟨file.path, file.content, none⟩ := by
  rcases run_cases config r storage request s with
    ⟨fault, hplan⟩ | ⟨st, hfile⟩ | ⟨st, file, fault, after, hfile, hwrite⟩
  · rw [run_of_error hplan] at h
    cases h
  · rw [run_of_inline st hfile] at h ⊢
    exact ⟨st, Except.ok.inj h, by rw [hfile]; rfl⟩
  · rw [run_of_file st hfile hwrite] at h ⊢
    obtain ⟨rfl, hresponse⟩ := st.answer_eq_ok_iff.1 h
    exact ⟨st, hresponse, by rw [hfile]; rfl⟩

/-- What is not written to stays as it is. -/
theorem state_of_writes_eq_nil (h : (run config r storage request s).writes = []) :
    (run config r storage request s).state = s := by
  rcases run_cases config r storage request s with
    ⟨fault, hplan⟩ | ⟨st, hfile⟩ | ⟨st, file, fault, after, hfile, hwrite⟩
  · rw [run_of_error hplan]
  · rw [run_of_inline st hfile]
  · rw [run_of_file st hfile hwrite] at h
    cases h

/-- The findings for a request are determined by it, and so is whether there is a file. -/
theorem Stages.delivery_eq (st st' : Stages config r request) : st.delivery = st'.delivery := by
  -- Each finding is fixed by the step that found it and by the findings before it.
  have hmounts : st.mounts = st'.mounts := Except.ok.inj (st.mounts_eq.symm.trans st'.mounts_eq)
  have hdirs : st.dirs = st'.dirs :=
    Except.ok.inj (st.dirs_eq.symm.trans (hmounts ▸ st'.dirs_eq))
  have hrelocated : st.relocated = st'.relocated :=
    Except.ok.inj (st.relocated_eq.symm.trans (hdirs ▸ st'.relocated_eq))
  have hvars : st.vars = st'.vars :=
    Except.ok.inj (st.vars_eq.symm.trans (hrelocated ▸ st'.vars_eq))
  unfold delivery
  rw [hdirs, hvars]

/-- A run succeeds without writing exactly when the plan has no file. -/
theorem succeeds_without_writing_iff :
    (∃ response, (run config r storage request s).outcome.answer = .ok response) ∧
      (run config r storage request s).writes = [] ↔
        ∃ st : Stages config r request, st.delivery.file = none := by
  rcases run_cases config r storage request s with
    ⟨fault, hplan⟩ | ⟨st, hfile⟩ | ⟨st, file, fault, after, hfile, hwrite⟩
  · rw [run_of_error hplan]
    constructor
    · rintro ⟨⟨response, h⟩, -⟩
      cases h
    · rintro ⟨st, -⟩
      rw [plan_eq_ok_iff.2 ⟨st, rfl⟩] at hplan
      cases hplan
  · rw [run_of_inline st hfile]
    exact ⟨fun _ => ⟨st, hfile⟩, fun _ => ⟨⟨_, rfl⟩, rfl⟩⟩
  · rw [run_of_file st hfile hwrite]
    constructor
    · rintro ⟨-, h⟩
      cases h
    · rintro ⟨st', hnone⟩
      rw [st'.delivery_eq st, hfile] at hnone
      cases hnone

/-- Staging asks for at most one write, and only when nothing else can fail any more. A run that
fails has written nothing, unless it is that write which failed; a run whose write succeeds
succeeds; and a run succeeds without writing exactly when there is no file in its plan. A request
that lacks a directory, a proper identifier or a queue is refused as invalid before anything is
asked. -/
theorem run_all_or_nothing (config : Config) (r : Resolver) (storage : Storage (StateM σ))
    (request : Request) (s : σ) :
    let outcome := (run config r storage request s).outcome
    let writes := (run config r storage request s).writes
    (∃ after, (prepare config r storage request).run s = (outcome, after) ∧
      (writes = [] → after = s)) ∧
    writes.length ≤ 1 ∧
    (∀ w ∈ writes, ∃ st : Stages config r request, st.delivery.file = some ⟨w.path, w.content⟩) ∧
    (∀ fault, outcome.answer = .error fault → ∀ w ∈ writes, w.fault = some fault) ∧
    (∀ w ∈ writes, w.fault = none → ∃ response, outcome.answer = .ok response) ∧
    ((∃ response, outcome.answer = .ok response) ∧ writes = [] ↔
      ∃ st : Stages config r request, st.delivery.file = none) ∧
    (request.placement.scratch = [] ∨ request.placement.shared = [] ∨
        ¬ IsSegment request.execution.id ∨ ¬ HasQueue request.execution →
      (∃ cause, outcome.answer = .error (.invalidInput cause)) ∧ outcome.queries = [] ∧
        writes = []) := by
  intro outcome writes
  refine ⟨⟨_, run_prepare config r storage request s, state_of_writes_eq_nil⟩,
    length_writes_le_one config r storage request s, ?_, ?_, ?_, succeeds_without_writing_iff, ?_⟩
  · intro w hw
    obtain ⟨st, hfile, -⟩ := exists_stages_of_mem_writes hw
    exact ⟨st, hfile⟩
  · intro fault hfault w hw
    obtain ⟨st, -, hanswer⟩ := exists_stages_of_mem_writes hw
    have hend : st.answer w.fault = .error fault := hanswer.symm.trans hfault
    exact st.answer_eq_error_iff.1 hend
  · intro w hw hnone
    obtain ⟨st, -, hanswer⟩ := exists_stages_of_mem_writes hw
    rw [hnone] at hanswer
    exact ⟨st.response, hanswer⟩
  · intro hlack
    obtain ⟨cause, hcause⟩ := exists_admittedQueue_eq_error hlack
    obtain ⟨hplan, hqueries⟩ := plan_of_not_admitted config r hcause
    have hrun : run config r storage request s =
        ⟨⟨.error (.invalidInput cause), (plan config r request).queries⟩, s, []⟩ :=
      run_of_error hplan
    exact ⟨⟨cause, congrArg (·.outcome.answer) hrun⟩,
      (congrArg (·.outcome.queries) hrun).trans hqueries, congrArg (·.writes) hrun⟩

/-! ## A request that can be staged -/

/-- An access point for the jobs and one for what they share. -/
def sampleInventory : Inventory :=
  ⟨[], [⟨"fsap-1", "fs-1", none, ⟨"/jobs//./"⟩, .empty⟩, ⟨"fsap-2", "fs-2", none, ⟨"/"⟩, .empty⟩]⟩

/-- Two inputs, of which one moves, and an output. -/
def sampleParameters : Parameters :=
  { command := ["tool", "$READS"]
    inputs := ["READS", "MODE"]
    outputs := ["HITS"]
    values := OrderedMap.ofList [("READS", .literal "in/./reads.fq @ s3://data/reads.fq"),
      ("MODE", .literal "fast"), ("HITS", .literal "out//hits.txt/")]
    outputRoot := some ⟨"data", "out", by decide, by decide⟩
    verbose := false }

/-- An execution on shared inputs, with its variables in a file. -/
def sampleRequest : Request :=
  { execution :=
      ⟨"run-1", "align", "tool", sampleParameters, .standard, .empty, ⟨some ⟨"queue"⟩⟩⟩
    placement := ⟨[⟨none, some "fsap-2", none⟩], [⟨none, some "fsap-1", none⟩], none, .random⟩
    handling := .standard }

end Assembly

end JobStaging
