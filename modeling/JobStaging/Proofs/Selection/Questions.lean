import JobStaging.Proofs.Selection.Course

/-!
# What a selection asks

A selection by use asks for the access points of those candidates that name nothing else, and for
file systems as long as it does not know them. Whoever answers may be slow, so it should not ask for
a file system twice. What is known is a record of all questions so far, so the next one is for a
name that was not asked for and is no identifier of what was found (`isNew_of_recorded`). Every step
keeps to that (`sparing_of_measure`), and so does the comparison of all candidates, however the
answers change (`sparing_of_compareOver`). Questions for access points are not spared: there is one
for each candidate that needs it, until something fails (`exists_reaches`).
-/

set_option autoImplicit false

namespace JobStaging

/-- Whether a question is for an access point. -/
def Query.isAccessPoint : Query → Bool
  | .accessPoint _ _ _ => true
  | .fileSystem _ _ => false

namespace Selection

variable {r : Course} {s : Resolver} {envBase : Option String} {asked : List Query} {known : Known}
  {name : String} {best : Option (Candidate × UInt64)} {candidates : List Candidate}

/-! ## File systems -/

/-- A name is new after certain questions when none of them was for a file system under this name,
and it is not the identifier of a file system that was found by them. -/
structure IsNew (r : Course) (envBase : Option String) (asked : List Query) (name : String) :
    Prop where
  notAsked : .fileSystem name envBase ∉ asked
  notFound : ∀ other f, Found r envBase asked other f → f.id ≠ name

/-- Questions are sparing when each one for a file system is for the environment at hand and under a
name that is new after those before it. -/
def Sparing (r : Course) (envBase : Option String) (asked : List Query) : Prop :=
  ∀ before name environment after, asked = before ++ .fileSystem name environment :: after →
    environment = envBase ∧ IsNew r envBase before name

/-- A name that is not known is new, when what is known is a record of the questions. -/
theorem isNew_of_recorded (h : Recorded r envBase asked known)
    (hlookup : known.lookup name = none) : IsNew r envBase asked name where
  notAsked hasked := by
    have hknown := h.askedFor name hasked
    rw [hlookup] at hknown
    cases hknown
  notFound other f hf := by
    rintro rfl
    have hknown := h.found other f hf
    rw [hlookup] at hknown
    cases hknown

/-- The question for a candidate's own access point is sparing, since it is for no file system. -/
theorem Sparing.ask_own (h : Sparing r envBase asked) (c : Candidate) :
    Sparing r envBase (asked ++ (accessQuestion? envBase c).toList) := by
  unfold accessQuestion?
  split
  · intro before name environment after hsplit
    rcases Lists.concat_eq_append_cons_iff.1 hsplit with ⟨-, hq, -⟩ | ⟨rest, -, hasked⟩
    · cases hq
    · exact h before name environment rest hasked
  · rw [Option.toList_none, List.append_nil]
    exact h

/-- A question for a file system is sparing when its name is new. -/
theorem Sparing.ask_fileSystem (h : Sparing r envBase asked) (hnew : IsNew r envBase asked name) :
    Sparing r envBase (asked ++ [.fileSystem name envBase]) := by
  intro before other environment after hsplit
  rcases Lists.concat_eq_append_cons_iff.1 hsplit with ⟨rfl, hq, -⟩ | ⟨rest, -, hasked⟩
  · cases hq
    exact ⟨rfl, hnew⟩
  · exact h before other environment rest hasked

/-- Describing a file system goes on sparingly. -/
theorem sparing_of_describe (hrecorded : Recorded r envBase asked known)
    (h : Sparing r envBase asked) :
    Sparing r envBase (asked ++ (describe s envBase known name).queries) := by
  cases hlookup : known.lookup name with
  | some f =>
    rw [describe_of_known hlookup, Traced.queries_pure, List.append_nil]
    exact h
  | none =>
    rw [describe_of_unknown hlookup]
    exact h.ask_fileSystem (isNew_of_recorded hrecorded hlookup)

/-- So does measuring a candidate, whose access point is asked for first. -/
theorem sparing_of_measure (hrecorded : Recorded r envBase asked known)
    (h : Sparing r envBase asked) (c : Candidate) :
    Sparing r envBase (asked ++ (measure s envBase known c).queries) := by
  rcases measure_cases with ⟨fault, hfault⟩ | ⟨name, -, hqueries, -⟩
  · rw [hfault]
    exact h.ask_own c
  · rw [hqueries, ← List.append_assoc]
    exact sparing_of_describe (hrecorded.ask_own c) (h.ask_own c)

/-- However the answers change, comparing candidates goes on sparingly after sparing questions of
which a record is known. -/
theorem sparing_of_compareOver (hrecorded : Recorded r envBase asked known)
    (h : Sparing r envBase asked) :
    Sparing r envBase
      (asked ++ (compareOver r envBase asked known best candidates).queries) := by
  induction candidates generalizing asked known best with
  | nil =>
    rw [compareOver, Traced.queries_pure, List.append_nil]
    exact h
  | cons c rest ih =>
    have hstep := sparing_of_measure (s := met r envBase asked c) hrecorded h c
    cases hmeasure : (measure (met r envBase asked c) envBase known c).outcome with
    | error fault =>
      rw [compareOver_of_error hmeasure]
      exact hstep
    | ok found =>
      rw [compareOver_of_ok hmeasure]
      dsimp only
      rw [← List.append_assoc]
      exact ih (hrecorded.measure hmeasure) hstep

/-! ## Access points -/

/-- A candidate's own question is for an access point. -/
theorem filter_accessQuestion (c : Candidate) :
    (accessQuestion? envBase c).toList.filter Query.isAccessPoint =
      (accessQuestion? envBase c).toList := by
  unfold accessQuestion?
  split <;> rfl

/-- Describing a file system asks for no access point. -/
theorem filter_describe :
    (describe s envBase known name).queries.filter Query.isAccessPoint = [] := by
  cases hlookup : known.lookup name with
  | some f =>
    rw [describe_of_known hlookup]
    rfl
  | none =>
    rw [describe_of_unknown hlookup]
    rfl

/-- Measuring a candidate asks for its access point and for no other. -/
theorem filter_measure (c : Candidate) :
    (measure s envBase known c).queries.filter Query.isAccessPoint =
      (accessQuestion? envBase c).toList := by
  rcases measure_cases with ⟨fault, hfault⟩ | ⟨name, -, hqueries, -⟩
  · rw [hfault]
    exact filter_accessQuestion c
  · rw [hqueries, List.filter_append, filter_accessQuestion, filter_describe, List.append_nil]

/-- The candidates to which work on one after the other comes: all of them, or those up to the first
at which it fails. -/
inductive Reaches {α : Type} (work : List Candidate → Traced α) (candidates : List Candidate) :
    List Candidate → Prop
  | all {a : α} (hwork : (work candidates).outcome = .ok a) : Reaches work candidates candidates
  | upTo {before after : List Candidate} {c : Candidate} {a : α} {fault : Error}
      (hsplit : candidates = before ++ c :: after) (hbefore : (work before).outcome = .ok a)
      (hfails : (work (before ++ [c])).outcome = .error fault) :
      Reaches work candidates (before ++ [c])

/-- A candidate that could be measured is reached, and whatever is reached from then on. -/
theorem Reaches.cons {c measured : Candidate} {f : FileSystem} {kept : Known}
    {reached : List Candidate}
    (hmeasure : (measure (met r envBase asked c) envBase known c).outcome =
      .ok ((measured, f), kept))
    (h : Reaches (compareOver r envBase
        (asked ++ (measure (met r envBase asked c) envBase known c).queries) kept
        (some (better best measured f.usedBytes))) candidates reached) :
    Reaches (compareOver r envBase asked known best) (c :: candidates) (c :: reached) := by
  have hcons : ∀ rest, (compareOver r envBase asked known best (c :: rest)).outcome =
      (compareOver r envBase
        (asked ++ (measure (met r envBase asked c) envBase known c).queries) kept
        (some (better best measured f.usedBytes)) rest).outcome := by
    intro rest
    rw [compareOver_of_ok hmeasure]
  cases h with
  | all hwork => exact .all ((hcons _).trans hwork)
  | upTo hsplit hbefore hfails =>
    rw [← List.cons_append]
    exact .upTo (congrArg (List.cons c) hsplit) ((hcons _).trans hbefore) ((hcons _).trans hfails)

/-- Of the candidates that a comparison comes to, each one that names an access point alone is asked
for, in order. -/
theorem exists_reaches : ∃ reached,
    Reaches (compareOver r envBase asked known best) candidates reached ∧
      (compareOver r envBase asked known best candidates).queries.filter Query.isAccessPoint =
        reached.filterMap (accessQuestion? envBase) := by
  induction candidates generalizing asked known best with
  | nil => exact ⟨[], .all rfl, rfl⟩
  | cons c rest ih =>
    cases hmeasure : (measure (met r envBase asked c) envBase known c).outcome with
    | error fault =>
      have hfails :
          (compareOver r envBase asked known best ([] ++ [c])).outcome = .error fault := by
        rw [List.nil_append, compareOver_of_error hmeasure]
      refine ⟨[c], .upTo rfl rfl hfails, ?_⟩
      rw [compareOver_of_error hmeasure, filter_measure]
      cases h : accessQuestion? envBase c <;> simp [h]
    | ok found =>
      obtain ⟨reached, hreached, hqueries⟩ := ih
      refine ⟨c :: reached, hreached.cons hmeasure, ?_⟩
      rw [compareOver_of_ok hmeasure]
      dsimp only
      rw [List.filter_append, filter_measure, hqueries]
      cases h : accessQuestion? envBase c <;> simp [h]

/-! ## Selections -/

/-- Whatever the resolver answers, and however its answers change, a selection by use never asks for
a file system under a name for which it asked before or that is the identifier of one it found, and
it asks for an access point once for each candidate that names nothing else, in order, up to the
first candidate at which it fails. A selection at random asks nothing, nor does one among fewer than
two candidates. If the answers do not change, these are the selections of every job. -/
theorem selection_asks_sparingly (r : Course) (envBase : Option String)
    (candidates : List Candidate) :
    Sparing r envBase (leastUtilizedOver r envBase candidates).queries ∧
    (∃ reached, Reaches (compareOver r envBase [] [] none) candidates reached ∧
      (leastUtilizedOver r envBase candidates).queries.filter Query.isAccessPoint =
        reached.filterMap (accessQuestion? envBase)) ∧
    (∀ strategy seed unseeded, strategy = .random ∨ candidates.length < 2 →
      (selectOver r envBase strategy seed candidates unseeded).queries = []) ∧
    ∀ s : Resolver,
      leastUtilizedOver (fun _ => s) envBase candidates = leastUtilized s envBase candidates ∧
      ∀ strategy seed unseeded, selectOver (fun _ => s) envBase strategy seed candidates unseeded =
        select s envBase strategy seed candidates unseeded := by
  rw [queries_leastUtilizedOver]
  refine ⟨?_, exists_reaches, ?_, fun s => ⟨leastUtilizedOver_const s envBase candidates,
    fun strategy seed => selectOver_const s envBase strategy seed candidates⟩⟩
  · have hnone : Sparing r envBase [] := by
      intro before name environment after hsplit
      simp at hsplit
    rw [← List.nil_append (Traced.queries _)]
    exact sparing_of_compareOver .nil hnone
  · rintro strategy seed unseeded hquiet
    match strategy, candidates, hquiet with
    | .random, [], _ | .random, [_], _ | .random, _ :: _ :: _, _ => rfl
    | .leastUtilized, [], _ | .leastUtilized, [_], _ => rfl
    | .leastUtilized, _ :: _ :: _, .inr hshort => exact absurd hshort (by simp)

/-- A file system that was found by its name is known by its identifier, and by that of an access
point to it. -/
example :
    let f : FileSystem := ⟨"fs-1", none, 2000, OrderedMap.ofList [(Labels.nameTag, "archive")]⟩
    let r := Inventory.resolver ⟨[f], [⟨"fsap-1", "fs-1", none, ⟨"/jobs"⟩, .empty⟩]⟩
    (leastUtilized r none [⟨some "archive", none, none⟩, ⟨some "fs-1", none, none⟩,
      ⟨none, some "fsap-1", none⟩]).queries =
        [.fileSystem "archive" none, .accessPoint "fsap-1" none none] :=
  rfl

end Selection

end JobStaging
