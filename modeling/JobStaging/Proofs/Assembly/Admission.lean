import JobStaging.Assembly
import JobStaging.Proofs.Fallible
import JobStaging.Proofs.Path.Components

/-!
# Which requests are admitted

Before anything is looked up a request must have candidates for both directories that every job
needs, an identifier that can name a directory, and a queue. The lemmas say this without the
functions that check it (`admittedQueue_eq_ok_iff`), and that a request which is not admitted fails
as an invalid one and asks for nothing (`plan_of_not_admitted`).
-/

set_option autoImplicit false

namespace JobStaging.Assembly

variable {request : Request} {id queue : String}

/-- A text is one segment of a path when it holds no slash and names an entry of a directory: it is
not empty and neither of the names that every directory has. -/
def IsSegment (id : String) : Prop := id ≠ "" ∧ id ≠ "." ∧ id ≠ ".." ∧ '/' ∉ id.toList

/-- A segment is told from what is none by its characters. -/
theorem toList_ne_of_isSegment (h : IsSegment id) :
    id.toList ≠ [] ∧ id.toList ≠ ['.'] ∧ id.toList ≠ ['.', '.'] := by
  have hchars : ∀ text : String, id ≠ text → id.toList ≠ text.toList :=
    fun text hne heq => hne (String.ext heq)
  exact ⟨hchars "" h.1, hchars "." h.2.1, hchars ".." h.2.2.1⟩

/-- A segment has one part, which leads to an entry. -/
theorem steps_of_isSegment (h : IsSegment id) : (Path.mk id).steps = [.name id] := by
  have hparts : (Path.mk id).parts = [id.toList] := Text.split_of_notMem h.2.2.2
  obtain ⟨hempty, hhere, hdots⟩ := toList_ne_of_isSegment h
  have hidle : Path.isIdle id.toList = false := by
    simp only [Path.isIdle, Bool.or_eq_false_iff, beq_eq_false_iff_ne]
    exact ⟨hempty, hhere⟩
  have hpart : Path.Component.ofPart id.toList = .name id := by
    unfold Path.Component.ofPart
    rw [if_neg hdots, String.ofList_toList]
  unfold Path.steps
  rw [hparts, List.filter_cons_of_pos (by simp [hidle]), List.filter_nil, List.map_cons, hpart]
  rfl

/-- A segment starts at no root. -/
theorem isAbsolute_of_isSegment (h : IsSegment id) : (Path.mk id).isAbsolute = false := by
  rw [Bool.eq_false_iff]
  intro habs
  obtain ⟨cs, hcs⟩ := Path.isAbsolute_iff.1 habs
  have htext : id.toList = '/' :: cs := hcs
  exact h.2.2.2 (htext ▸ List.mem_cons_self)

/-- A segment means the one entry. -/
theorem components_of_isSegment (h : IsSegment id) : (Path.mk id).components = [.name id] := by
  have hparts : (Path.mk id).parts = [id.toList] := Text.split_of_notMem h.2.2.2
  have hhere : id.toList ≠ ['.'] := (toList_ne_of_isSegment h).2.1
  unfold Path.components Path.start
  rw [isAbsolute_of_isSegment h, hparts, steps_of_isSegment h]
  simp [hhere]

/-- Below any base a segment adds the entry. -/
theorem components_join_of_isSegment (base : Path) (h : IsSegment id) :
    (base.join ⟨id⟩).components = base.components ++ [.name id] := by
  by_cases hbase : base.text = ""
  · rw [Path.join_of_text_eq_empty hbase, Path.components_eq_nil_iff.2 hbase,
      components_of_isSegment h, List.nil_append]
  · rw [Path.components_join_of_ne (isAbsolute_of_isSegment h) hbase, steps_of_isSegment h]

/-- A segment stays inside whatever it is joined to. -/
theorem staysInside_of_isSegment (h : IsSegment id) : (Path.mk id).staysInside = true := by
  unfold Path.staysInside
  rw [components_of_isSegment h]
  rfl

/-- An identifier passes when it is one segment and has a character that is not blank. -/
theorem checkExecutionId_eq_ok_iff :
    checkExecutionId id = .ok () ↔ IsSegment id ∧ Text.isBlankText id = false := by
  unfold checkExecutionId
  constructor
  · intro h
    split at h
    · next name hname =>
      split at h
      · cases h
      · next hgood =>
        rw [not_or, Bool.not_eq_true] at hgood
        refine ⟨⟨?_, ?_, ?_, hgood.2⟩, hgood.1⟩
        · rintro rfl
          exact absurd hgood.1 (by decide)
        · rintro rfl
          have hhere : (Path.mk ".").components = [.here] := by decide
          rw [hhere] at hname
          cases hname
        · rintro rfl
          have hup : (Path.mk "..").components = [.up] := by decide
          rw [hup] at hname
          cases hname
    · cases h
  · rintro ⟨hsegment, hblank⟩
    rw [components_of_isSegment hsegment]
    dsimp only
    rw [if_neg (by simp [hblank, hsegment.2.2.2])]

/-- An execution has a queue when it names one that is not blank. -/
def HasQueue (e : Execution) : Prop :=
  ∃ choice, e.platform.batch = some choice ∧ Text.isBlankText choice.queueName = false

/-- The queue of an execution is the one that it names. -/
theorem queueName_eq_ok_iff {e : Execution} : e.queueName = .ok queue ↔
    ∃ choice, e.platform.batch = some choice ∧ Text.isBlankText choice.queueName = false ∧
      choice.queueName = queue := by
  unfold Execution.queueName
  cases e.platform.batch with
  | none => simp
  | some choice =>
    cases hblank : Text.isBlankText choice.queueName with
    | true => simp [hblank]
    | false => simp [hblank]

/-- A placement is complete when both directories that every job needs have a candidate. -/
theorem validate_eq_ok_iff {p : Placement} :
    p.validate = .ok () ↔ p.scratch ≠ [] ∧ p.shared ≠ [] := by
  unfold Placement.validate
  cases p.scratch with
  | nil => simp
  | cons c cs => cases p.shared <;> simp

/-- Exactly what an admitted request must have. -/
theorem admittedQueue_eq_ok_iff : admittedQueue request = .ok queue ↔
    (request.placement.scratch ≠ [] ∧ request.placement.shared ≠ []) ∧
      (IsSegment request.execution.id ∧ Text.isBlankText request.execution.id = false) ∧
      request.execution.queueName = .ok queue := by
  rw [← validate_eq_ok_iff, ← checkExecutionId_eq_ok_iff]
  unfold admittedQueue
  simp only [Fallible.bind_eq_ok_iff]
  constructor
  · rintro ⟨_, hplacement, _, hid, hqueue⟩
    exact ⟨hplacement, hid, hqueue⟩
  · rintro ⟨hplacement, hid, hqueue⟩
    exact ⟨(), hplacement, (), hid, hqueue⟩

/-- A request that lacks one of these is not admitted. -/
theorem exists_admittedQueue_eq_error
    (h : request.placement.scratch = [] ∨ request.placement.shared = [] ∨
      ¬ IsSegment request.execution.id ∨ ¬ HasQueue request.execution) :
    ∃ cause, admittedQueue request = .error cause := by
  cases hqueue : admittedQueue request with
  | error cause => exact ⟨cause, rfl⟩
  | ok queue =>
    obtain ⟨⟨hscratch, hshared⟩, ⟨hsegment, -⟩, hnamed⟩ := admittedQueue_eq_ok_iff.1 hqueue
    obtain ⟨choice, hchoice, hblank, -⟩ := queueName_eq_ok_iff.1 hnamed
    rcases h with h | h | h | h
    · exact absurd h hscratch
    · exact absurd h hshared
    · exact absurd hsegment h
    · exact absurd ⟨choice, hchoice, hblank⟩ h

/-- A request that is not admitted is refused as invalid, and nothing is asked for it. -/
theorem plan_of_not_admitted (config : Config) (r : Resolver) {cause : Rejection}
    (h : admittedQueue request = .error cause) :
    (plan config r request).outcome = .error (.invalidInput cause) ∧
      (plan config r request).queries = [] := by
  have hcheck := Traced.outcome_check_of_error h
  unfold plan
  constructor
  · rw [Traced.outcome_bind, hcheck]
    rfl
  · rw [Traced.queries_bind_of_error _ hcheck]
    rfl

end JobStaging.Assembly
