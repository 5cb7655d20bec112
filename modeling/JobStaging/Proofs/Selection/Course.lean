import JobStaging.Proofs.Selection.LeastUtilized

/-!
# Selection while answers change

A resolver that looks its answers up elsewhere may answer a question differently the next time it is
asked: file systems fill up, and access points come and go, while a selection is made. Such a
resolver follows a course, which says how it answers once certain questions were asked (`Course`). A
selection takes the same steps with it, each with the resolver of the moment, and where nothing
changes it is the same selection (`selectOver_const`).

What was learned by then is a record of the questions and their answers: all of it was found, and
all that was asked for or found is in it (`Recorded`). Every step keeps it so (`Recorded.measure`).
-/

set_option autoImplicit false

namespace JobStaging

namespace Traced

variable {α β : Type} {t : Traced α}

/-- Work goes on with the result of what comes first, and asks its questions after those of that. -/
theorem bind_of_ok {a : α} (f : α → Traced β) (h : t.outcome = .ok a) :
    t >>= f = ⟨(f a).outcome, t.queries ++ (f a).queries⟩ := by
  show t.andThen f = _
  unfold andThen
  rw [h]

/-- Work ends with the fault of what comes first. -/
theorem bind_of_error {e : Error} (f : α → Traced β) (h : t.outcome = .error e) :
    t >>= f = ⟨.error e, t.queries⟩ := by
  show t.andThen f = _
  unfold andThen
  rw [h]

/-- Changing the result of a piece of work asks nothing. -/
theorem queries_map (f : α → β) (t : Traced α) : (f <$> t).queries = t.queries := by
  show (t >>= fun a => pure (f a)).queries = _
  cases h : t.outcome with
  | ok a => rw [queries_bind_of_ok _ h, queries_pure, List.append_nil]
  | error e => exact queries_bind_of_error _ h

end Traced

/-- The course of a resolver: which resolver it is once certain questions were asked. -/
abbrev Course := List Query → Resolver

namespace Selection

variable {r : Course} {s : Resolver} {envBase : Option String} {asked : List Query}
  {known known' : Known} {name : String} {c measured : Candidate} {f : FileSystem}
  {best : Option (Candidate × UInt64)} {candidates : List Candidate}

/-! ## The steps -/

/-- The question for the access point of a candidate that names no file system. -/
def accessQuestion? (envBase : Option String) (c : Candidate) : Option Query :=
  match c.fileSystem, c.accessPoint with
  | none, some name => some (.accessPoint name none envBase)
  | _, _ => none

/-- The resolver that a candidate meets. It is asked for the file system after the access point. -/
def met (r : Course) (envBase : Option String) (asked : List Query) (c : Candidate) : Resolver :=
  ⟨(r (asked ++ (accessQuestion? envBase c).toList)).fileSystem, (r asked).accessPoint⟩

/-- Measures candidates one after the other and keeps the best, while answers may change. -/
def compareOver (r : Course) (envBase : Option String) (asked : List Query) (known : Known)
    (best : Option (Candidate × UInt64)) : List Candidate → Traced (Option (Candidate × UInt64))
  | [] => pure best
  | candidate :: rest => do
    let t := measure (met r envBase asked candidate) envBase known candidate
    let ((measured, found), known) ← t
    compareOver r envBase (asked ++ t.queries) known (some (better best measured found.usedBytes))
      rest

/-- The candidate whose file system holds the fewest bytes, while answers may change. -/
def leastUtilizedOver (r : Course) (envBase : Option String) (candidates : List Candidate) :
    Traced Candidate := do
  match ← compareOver r envBase [] [] none candidates with
  | some (candidate, _) => return candidate
  | none => Traced.fail (.invalidInput .noCandidatesToCompare)

/-- Picks a candidate by a strategy, while answers may change. Only where the use of several
candidates is compared is there a difference. -/
def selectOver (r : Course) (envBase : Option String) (strategy : Strategy) (seed : Option UInt64)
    (candidates : List Candidate) (unseeded : Draw.Source) : Traced Candidate :=
  match strategy, candidates with
  | .leastUtilized, _ :: _ :: _ => leastUtilizedOver r envBase candidates
  | _, _ => select (r []) envBase strategy seed candidates unseeded

/-! ## No changes -/

/-- With a resolver that does not change, it is the comparison as it is. -/
theorem compareOver_const (s : Resolver) :
    compareOver (fun _ => s) envBase asked known best candidates =
      compare s envBase known best candidates := by
  induction candidates generalizing asked known best with
  | nil => rfl
  | cons c rest ih =>
    unfold compareOver compare
    exact Traced.bind_congr fun m _ => ih

/-- With a resolver that does not change, it is the least utilized candidate as it is. -/
theorem leastUtilizedOver_const (s : Resolver) (envBase : Option String)
    (candidates : List Candidate) :
    leastUtilizedOver (fun _ => s) envBase candidates = leastUtilized s envBase candidates := by
  unfold leastUtilizedOver leastUtilized
  exact congrArg (· >>= _) (compareOver_const s)

/-- With a resolver that does not change, it is the selection as it is. -/
theorem selectOver_const (s : Resolver) (envBase : Option String) (strategy : Strategy)
    (seed : Option UInt64) (candidates : List Candidate) (unseeded : Draw.Source) :
    selectOver (fun _ => s) envBase strategy seed candidates unseeded =
      select s envBase strategy seed candidates unseeded := by
  unfold selectOver
  split
  · exact leastUtilizedOver_const s envBase _
  · rfl

/-! ## One step -/

/-- What is known is not asked for. -/
theorem describe_of_known (h : known.lookup name = some f) :
    describe s envBase known name = pure (f, known) := by
  unfold describe
  rw [h]

/-- What is not known is asked for once. -/
theorem describe_of_unknown (h : known.lookup name = none) :
    describe s envBase known name =
      ⟨(s.fileSystem name envBase).map fun f => (f, known.learn name f),
        [.fileSystem name envBase]⟩ := by
  unfold describe
  rw [h]
  dsimp only
  cases hanswer : (s.askFileSystem name envBase).outcome with
  | ok f =>
    rw [Traced.bind_of_ok _ hanswer, show s.fileSystem name envBase = _ from hanswer]
    rfl
  | error fault =>
    rw [Traced.bind_of_error _ hanswer, show s.fileSystem name envBase = _ from hanswer]
    rfl

/-- The name by which a candidate's file system is described: the candidate's own, or the identifier
that its access point gives. -/
inductive LiesOn (s : Resolver) (envBase : Option String) (c : Candidate) : String → Prop
  | named {name : String} (hsystem : c.fileSystem = some name) : LiesOn s envBase c name
  | located {name : String} {a : AccessPoint} (hsystem : c.fileSystem = none)
      (hname : c.accessPoint = some name) (ha : s.accessPoint name none envBase = .ok a) :
      LiesOn s envBase c a.fileSystem

/-- A candidate is measured by asking for its access point, if that is all it names, and then by a
description of its file system, unless it fails before. -/
theorem measure_cases :
    (∃ fault, measure s envBase known c =
      ⟨.error fault, (accessQuestion? envBase c).toList⟩) ∨
    ∃ name, LiesOn s envBase c name ∧
      (measure s envBase known c).queries =
        (accessQuestion? envBase c).toList ++ (describe s envBase known name).queries ∧
      (measure s envBase known c).outcome = (describe s envBase known name).outcome.map
        fun p => ((locatedOn c p.1, p.1), p.2) := by
  obtain ⟨system, access, path⟩ := c
  unfold measure accessQuestion? locatedOn
  cases system with
  | some name =>
    exact .inr ⟨name, .named rfl, Traced.queries_map _ _, Traced.outcome_map _ _⟩
  | none =>
    cases access with
    | none => exact .inl ⟨_, rfl⟩
    | some name =>
      dsimp only
      cases hanswer : (s.askAccessPoint name none envBase).outcome with
      | error fault => exact .inl ⟨fault, Traced.bind_of_error _ hanswer⟩
      | ok a =>
        rw [Traced.bind_of_ok _ hanswer]
        exact .inr ⟨a.fileSystem, .located rfl rfl hanswer,
          congrArg (List.cons _) (Traced.queries_map _ _), Traced.outcome_map _ _⟩

/-- The rest is compared after the questions of the first candidate, with what was learned from
them. -/
theorem compareOver_of_ok {kept : Known}
    (h : (measure (met r envBase asked c) envBase known c).outcome = .ok ((measured, f), kept)) :
    compareOver r envBase asked known best (c :: candidates) =
      let t := measure (met r envBase asked c) envBase known c
      let rest := compareOver r envBase (asked ++ t.queries) kept
        (some (better best measured f.usedBytes)) candidates
      ⟨rest.outcome, t.queries ++ rest.queries⟩ :=
  Traced.bind_of_ok _ h

/-- A candidate that cannot be measured ends the comparison. -/
theorem compareOver_of_error {fault : Error}
    (h : (measure (met r envBase asked c) envBase known c).outcome = .error fault) :
    compareOver r envBase asked known best (c :: candidates) =
      ⟨.error fault, (measure (met r envBase asked c) envBase known c).queries⟩ :=
  Traced.bind_of_error _ h

/-! ## After the comparison -/

/-- Once candidates are compared, nothing more is asked. -/
theorem queries_leastUtilizedOver : (leastUtilizedOver r envBase candidates).queries =
    (compareOver r envBase [] [] none candidates).queries := by
  unfold leastUtilizedOver
  cases h : (compareOver r envBase [] [] none candidates).outcome with
  | error fault => exact Traced.queries_bind_of_error _ h
  | ok found =>
    rw [Traced.queries_bind_of_ok _ h]
    cases found <;> exact List.append_nil _

/-- The candidate that is chosen is the best one of the comparison. -/
theorem leastUtilizedOver_eq_ok_iff :
    (leastUtilizedOver r envBase candidates).outcome = .ok c ↔
      ∃ used, (compareOver r envBase [] [] none candidates).outcome = .ok (some (c, used)) :=
  best_eq_ok_iff

/-! ## What is known -/

/-- In the course of certain questions a file system was found under a name. -/
def Found (r : Course) (envBase : Option String) (asked : List Query) (name : String)
    (f : FileSystem) : Prop :=
  ∃ before after, asked = before ++ .fileSystem name envBase :: after ∧
    (r before).fileSystem name envBase = .ok f

/-- What was found is still found after more questions. -/
theorem Found.append (h : Found r envBase asked name f) (more : List Query) :
    Found r envBase (asked ++ more) name f := by
  obtain ⟨before, after, rfl, hf⟩ := h
  exact ⟨before, after ++ more, by simp, hf⟩

/-- With one question more, what was found before is found, and the answer if it is a file system.
-/
theorem found_concat_iff {q : Query} : Found r envBase (asked ++ [q]) name f ↔
    Found r envBase asked name f ∨
      q = .fileSystem name envBase ∧ (r asked).fileSystem name envBase = .ok f := by
  constructor
  · rintro ⟨before, after, hsplit, hf⟩
    rcases Lists.concat_eq_append_cons_iff.1 hsplit with ⟨rfl, rfl, -⟩ | ⟨rest, -, hasked⟩
    · exact .inr ⟨rfl, hf⟩
    · exact .inl ⟨before, rest, hasked, hf⟩
  · rintro (h | ⟨rfl, hf⟩)
    · exact h.append _
    · exact ⟨asked, [], rfl, hf⟩

/-- After a file system is learned, it is known under the name and its identifier, and the rest as
before. -/
theorem Known.isSome_lookup_learn_iff {key : String} :
    ((known.learn name f).lookup key).isSome ↔
      key = name ∨ key = f.id ∨ (known.lookup key).isSome := by
  have hcons : ∀ (kept : Known) first, (List.lookup key ((first, f) :: kept)).isSome ↔
      key = first ∨ (kept.lookup key).isSome := by
    intro kept first
    rw [List.lookup_cons]
    by_cases h : key = first
    · simp [h]
    · rw [beq_false_of_ne h]
      simp only [h, false_or]
  unfold Known.learn
  split
  · next hid =>
    rw [hcons, hid]
    tauto
  · rw [hcons, hcons]
    tauto

/-- What is known is a record of certain questions when all of it was found by them, and all that
was asked for, by name, or found, by identifier, is known. -/
structure Recorded (r : Course) (envBase : Option String) (asked : List Query) (known : Known) :
    Prop where
  kept : ∀ e ∈ known, ∃ name, Found r envBase asked name e.2 ∧ (e.1 = name ∨ e.1 = e.2.id)
  askedFor : ∀ name, .fileSystem name envBase ∈ asked → (known.lookup name).isSome
  found : ∀ name f, Found r envBase asked name f → (known.lookup f.id).isSome

namespace Recorded

/-- Before the first question there is nothing to record. -/
theorem nil : Recorded r envBase [] [] where
  kept _ he := absurd he List.not_mem_nil
  askedFor _ hname := absurd hname List.not_mem_nil
  found _ _ hf := by
    obtain ⟨before, after, hsplit, -⟩ := hf
    simp at hsplit

/-- Questions for access points leave the record as it is. -/
theorem ask_accessPoint (h : Recorded r envBase asked known) (name : String)
    (owner envBase' : Option String) :
    Recorded r envBase (asked ++ [.accessPoint name owner envBase']) known where
  kept e he := by
    obtain ⟨name, hf, hkey⟩ := h.kept e he
    exact ⟨name, hf.append _, hkey⟩
  askedFor name hname := by
    rcases List.mem_append.1 hname with hname | hname
    · exact h.askedFor name hname
    · simp at hname
  found name f hf := by
    rcases found_concat_iff.1 hf with hf | ⟨hq, -⟩
    · exact h.found name f hf
    · cases hq

/-- A file system that is found is added to the record. -/
theorem learn (h : Recorded r envBase asked known)
    (hf : (r asked).fileSystem name envBase = .ok f) :
    Recorded r envBase (asked ++ [.fileSystem name envBase]) (known.learn name f) where
  kept e he := by
    have hnew : Found r envBase (asked ++ [.fileSystem name envBase]) name f :=
      found_concat_iff.2 (.inr ⟨rfl, hf⟩)
    have hold : ∀ e ∈ known, ∃ other,
        Found r envBase (asked ++ [.fileSystem name envBase]) other e.2 ∧
          (e.1 = other ∨ e.1 = e.2.id) := by
      intro e he
      obtain ⟨other, hother, hkey⟩ := h.kept e he
      exact ⟨other, hother.append _, hkey⟩
    unfold Known.learn at he
    split at he
    · rcases List.mem_cons.1 he with rfl | he
      · exact ⟨name, hnew, .inl rfl⟩
      · exact hold e he
    · rcases List.mem_cons.1 he with rfl | he
      · exact ⟨name, hnew, .inr rfl⟩
      · rcases List.mem_cons.1 he with rfl | he
        · exact ⟨name, hnew, .inl rfl⟩
        · exact hold e he
  askedFor other hother := by
    rw [Known.isSome_lookup_learn_iff]
    rcases List.mem_append.1 hother with hother | hother
    · exact .inr (.inr (h.askedFor other hother))
    · left
      simpa using hother
  found other g hg := by
    rw [Known.isSome_lookup_learn_iff]
    rcases found_concat_iff.1 hg with hg | ⟨hq, hg⟩
    · exact .inr (.inr (h.found other g hg))
    · cases hq
      rw [hf] at hg
      cases hg
      exact .inr (.inl rfl)

/-- The question for a candidate's own access point leaves the record as it is. -/
theorem ask_own (h : Recorded r envBase asked known) (c : Candidate) :
    Recorded r envBase (asked ++ (accessQuestion? envBase c).toList) known := by
  unfold accessQuestion?
  split
  · exact h.ask_accessPoint _ none envBase
  · rw [Option.toList_none, List.append_nil]
    exact h

/-- A description keeps the record, and gives a file system that was found, under its name or for
its identifier. -/
theorem describe (h : Recorded r envBase asked known)
    (hanswer : s.fileSystem = (r asked).fileSystem)
    (hf : (describe s envBase known name).outcome = .ok (f, known')) :
    let asked' := asked ++ (Selection.describe s envBase known name).queries
    Recorded r envBase asked' known' ∧
      ∃ other, Found r envBase asked' other f ∧ (name = other ∨ name = f.id) := by
  intro asked'
  rcases describe_eq_ok_iff.1 hf with ⟨hlookup, rfl⟩ | ⟨hlookup, hfound, rfl⟩
  · have hasked : asked' = asked := by
      rw [show asked' = asked ++ _ from rfl, describe_of_known hlookup]
      exact List.append_nil asked
    rw [hasked]
    exact ⟨h, h.kept _ (Known.mem_of_lookup hlookup)⟩
  · have hasked : asked' = asked ++ [.fileSystem name envBase] := by
      rw [show asked' = asked ++ _ from rfl, describe_of_unknown hlookup]
    rw [hanswer] at hfound
    rw [hasked]
    exact ⟨h.learn hfound, name, found_concat_iff.2 (.inr ⟨rfl, hfound⟩), .inl rfl⟩

/-- So does measuring a candidate. -/
theorem measure (h : Recorded r envBase asked known) {m : Candidate × FileSystem}
    (hm : (Selection.measure (met r envBase asked c) envBase known c).outcome = .ok (m, known')) :
    Recorded r envBase
      (asked ++ (Selection.measure (met r envBase asked c) envBase known c).queries) known' := by
  rcases measure_cases with ⟨fault, hfault⟩ | ⟨name, -, hqueries, houtcome⟩
  · rw [hfault] at hm
    cases hm
  · rw [houtcome, Fallible.map_eq_ok_iff] at hm
    obtain ⟨⟨f, kept⟩, hdescribe, hpair⟩ := hm
    cases hpair
    rw [hqueries, ← List.append_assoc]
    exact ((h.ask_own c).describe rfl hdescribe).1

end Recorded

end Selection

end JobStaging
