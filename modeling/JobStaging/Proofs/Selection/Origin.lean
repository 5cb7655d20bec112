import JobStaging.Proofs.Selection.Course

/-!
# Where a selected candidate comes from

Whatever a resolver answers, and however its answers change, a selection makes up no candidate of
its own. What is known while file systems are compared are answers that were given (`Recorded`). So
a candidate that is measured stays as it is, or it gets the identifier of a file system that was
found (`takes_of_measure`), and the comparison keeps one of them (`takes_of_compareOver`). A draw
points at a candidate, from a seed or not, since it stays below their number. All that any strategy
does is said by `selects_one_of_the_candidates`, and for a resolver that does not change by
`exists_takes_of_select`.
-/

set_option autoImplicit false

namespace JobStaging.Selection

variable {r : Course} {s : Resolver} {envBase : Option String} {asked : List Query}
  {known known' : Known} {name : String} {c chosen : Candidate} {f : FileSystem}
  {strategy : Strategy} {seed : Option UInt64} {candidates : List Candidate}
  {unseeded : Draw.Source}

/-! ## Answers that change -/

/-- In the course of certain questions an access point was found under a name, among all. -/
def Located (r : Course) (envBase : Option String) (asked : List Query) (name : String)
    (a : AccessPoint) : Prop :=
  ∃ before after, asked = before ++ .accessPoint name none envBase :: after ∧
    (r before).accessPoint name none envBase = .ok a

/-- What a strategy may take for a candidate in the course of certain questions: the candidate as it
is, or, for its use, one that names only an access point with the identifier of a file system that
was found for it, under its name or with its identifier. -/
inductive TakesOver (r : Course) (envBase : Option String) (asked : List Query)
    (strategy : Strategy) (c : Candidate) : Candidate → Prop
  | asGiven : TakesOver r envBase asked strategy c c
  | located {name other : String} {a : AccessPoint} {f : FileSystem}
      (hstrategy : strategy = .leastUtilized) (hsystem : c.fileSystem = none)
      (hname : c.accessPoint = some name) (ha : Located r envBase asked name a)
      (hf : Found r envBase asked other f)
      (hother : a.fileSystem = other ∨ a.fileSystem = f.id) :
      TakesOver r envBase asked strategy c { c with fileSystem := some f.id }

/-- What was located stays located when more is asked. -/
theorem Located.append {a : AccessPoint} (h : Located r envBase asked name a) (more : List Query) :
    Located r envBase (asked ++ more) name a := by
  obtain ⟨before, after, rfl, ha⟩ := h
  exact ⟨before, after ++ more, by simp, ha⟩

/-- What was taken over stays so when more is asked. -/
theorem TakesOver.append (h : TakesOver r envBase asked strategy c chosen) (more : List Query) :
    TakesOver r envBase (asked ++ more) strategy c chosen := by
  cases h with
  | asGiven => exact .asGiven
  | located hstrategy hsystem hname ha hf hother =>
    exact .located hstrategy hsystem hname (ha.append more) (hf.append more) hother

/-- A candidate that names a file system is located as it is. -/
theorem locatedOn_of_some (h : c.fileSystem = some name) : locatedOn c f = c := by
  unfold locatedOn
  rw [h]
  exact congrArg (Candidate.mk · _ _) h.symm

/-- One that names none is located on the file system that was found. -/
theorem locatedOn_of_none (h : c.fileSystem = none) :
    locatedOn c f = { c with fileSystem := some f.id } := by
  unfold locatedOn
  rw [h]
  rfl

/-- A measured candidate is taken for the one that was given. -/
theorem takes_of_measure (h : Recorded r envBase asked known) {m : Candidate × FileSystem}
    (hm : (measure (met r envBase asked c) envBase known c).outcome = .ok (m, known')) :
    TakesOver r envBase (asked ++ (measure (met r envBase asked c) envBase known c).queries)
      .leastUtilized c m.1 := by
  rcases measure_cases with ⟨fault, hfault⟩ | ⟨name, hlies, hqueries, houtcome⟩
  · rw [hfault] at hm
    cases hm
  · rw [houtcome, Fallible.map_eq_ok_iff] at hm
    obtain ⟨⟨f, kept⟩, hdescribe, hpair⟩ := hm
    cases hpair
    have hfound := ((h.ask_own c).describe (s := met r envBase asked c) rfl hdescribe).2
    rw [List.append_assoc, ← hqueries] at hfound
    cases hlies with
    | named hsystem =>
      rw [locatedOn_of_some hsystem]
      exact .asGiven
    | @located name a hsystem hname ha =>
      obtain ⟨other, hf, hother⟩ := hfound
      have hown : accessQuestion? envBase c = some (.accessPoint name none envBase) := by
        unfold accessQuestion?
        rw [hsystem, hname]
      have hlocated : Located r envBase
          (asked ++ (measure (met r envBase asked c) envBase known c).queries) name a := by
        rw [hqueries, hown]
        exact ⟨asked, _, rfl, ha⟩
      rw [locatedOn_of_none hsystem]
      exact .located rfl hsystem hname hlocated hf hother

/-- The best of the candidates is taken for one of them, or it is the one that was best before. -/
theorem takes_of_compareOver {best : Option (Candidate × UInt64)} {b : Candidate × UInt64}
    (h : Recorded r envBase asked known)
    (hb : (compareOver r envBase asked known best candidates).outcome = .ok (some b)) :
    best = some b ∨ ∃ c ∈ candidates, TakesOver r envBase
      (asked ++ (compareOver r envBase asked known best candidates).queries) .leastUtilized c
        b.1 := by
  induction candidates generalizing asked known best with
  | nil =>
    cases hb
    exact .inl rfl
  | cons c rest ih =>
    cases hmeasure : (measure (met r envBase asked c) envBase known c).outcome with
    | error fault =>
      rw [compareOver_of_error hmeasure] at hb
      cases hb
    | ok found =>
      obtain ⟨⟨measured, f⟩, kept⟩ := found
      rw [compareOver_of_ok hmeasure] at hb ⊢
      dsimp only at hb ⊢
      rw [← List.append_assoc]
      rcases ih (h.measure hmeasure) hb with hbest | ⟨c', hmem, htakes⟩
      · -- Either the candidate at hand was better, or the best before it was kept.
        rcases better_cases best measured f.usedBytes with hbetter | hheld
        · rw [Option.some.inj hbest] at hbetter
          rw [hbetter]
          exact .inr ⟨c, List.mem_cons_self, (takes_of_measure h hmeasure).append _⟩
        · exact .inl (hheld.trans hbest)
      · exact .inr ⟨c', List.mem_cons_of_mem c hmem, htakes⟩

/-- What is selected is taken for one of the candidates, whatever the strategy and the answers. -/
theorem exists_takes_of_selectOver
    (h : (selectOver r envBase strategy seed candidates unseeded).outcome = .ok chosen) :
    ∃ c ∈ candidates, TakesOver r envBase
      (selectOver r envBase strategy seed candidates unseeded).queries strategy c chosen := by
  match strategy, candidates with
  | .random, [] | .leastUtilized, [] => cases h
  | .random, [_] | .leastUtilized, [_] =>
    cases h
    exact ⟨chosen, List.mem_singleton_self chosen, .asGiven⟩
  | .random, first :: second :: rest =>
    rcases select_cases h with hmem | ⟨hother, -⟩
    · exact ⟨chosen, hmem, .asGiven⟩
    · cases hother
  | .leastUtilized, first :: second :: rest =>
    obtain ⟨used, hcompare⟩ := leastUtilizedOver_eq_ok_iff.1 h
    show ∃ c ∈ _, TakesOver r envBase (leastUtilizedOver r envBase _).queries _ c chosen
    rw [queries_leastUtilizedOver]
    rcases takes_of_compareOver .nil hcompare with hnone | hmem
    · cases hnone
    · exact hmem

/-! ## Draws -/

/-- A draw among candidates picks the one at its number, which is below how many there are. -/
theorem random_eq_ok (seed : Option UInt64) (unseeded : Draw.Source) (h : candidates ≠ []) :
    ∃ hlt : (unseeded.seeded seed).below candidates.length < candidates.length,
      random seed candidates unseeded =
        .ok candidates[(unseeded.seeded seed).below candidates.length] := by
  have hlt := (unseeded.seeded seed).below_lt _ (List.length_pos_iff.2 h)
  refine ⟨hlt, ?_⟩
  unfold random
  rw [List.getElem?_eq_getElem hlt]

/-- A candidate that stands alone is not drawn, but it is the one that would be. So a selection at
random gives the candidate at the number that is drawn. -/
theorem selectOver_random (seed : Option UInt64) (unseeded : Draw.Source) (h : candidates ≠ []) :
    ∃ hlt : (unseeded.seeded seed).below candidates.length < candidates.length,
      selectOver r envBase .random seed candidates unseeded =
        pure candidates[(unseeded.seeded seed).below candidates.length] := by
  obtain ⟨hlt, hrandom⟩ := random_eq_ok seed unseeded h
  refine ⟨hlt, ?_⟩
  rcases candidates with _ | ⟨only, _ | ⟨second, rest⟩⟩
  · exact absurd rfl h
  · rw [List.getElem_singleton]
    rfl
  · show Traced.check (random seed _ unseeded) = _
    rw [hrandom]
    rfl

/-! ## All selections -/

/-- Whatever the resolver answers, and however its answers change, a selection gives one of the
candidates. There is none to give only if the list is empty. A number that is drawn from a seed
stays below its bound, so with a seed a selection at random gives the candidate at this number as it
is, whatever draws where there is no seed; without one it gives the candidate at the number that is
drawn then. And whatever any strategy gives is taken for one of the candidates: it has the access
point and the path of this candidate, and its file system too, unless the candidate named only an
access point and its use was compared, where it gets the identifier of what was found. If the
answers do not change, these are the selections of every job. -/
theorem selects_one_of_the_candidates (r : Course) (envBase : Option String) (strategy : Strategy)
    (seed : Option UInt64) (candidates : List Candidate) (unseeded : Draw.Source) :
    (selectOver r envBase strategy seed [] unseeded).outcome =
      .error (.invalidInput .noCandidatesToSelect) ∧
    (∀ number n, 0 < n → Draw.below number n < n) ∧
    (∀ number, candidates ≠ [] →
      ∃ hlt : Draw.below number candidates.length < candidates.length,
        selectOver r envBase .random (some number) candidates unseeded =
          pure candidates[Draw.below number candidates.length]) ∧
    (candidates ≠ [] → ∃ hlt : unseeded.below candidates.length < candidates.length,
      selectOver r envBase .random none candidates unseeded =
        pure candidates[unseeded.below candidates.length]) ∧
    (∀ chosen, (selectOver r envBase strategy seed candidates unseeded).outcome = .ok chosen →
      ∃ c ∈ candidates, TakesOver r envBase
        (selectOver r envBase strategy seed candidates unseeded).queries strategy c chosen) ∧
    ∀ s : Resolver, selectOver (fun _ => s) envBase strategy seed candidates unseeded =
      select s envBase strategy seed candidates unseeded := by
  refine ⟨?_, fun number n => Draw.below_lt number, fun number => selectOver_random (some number) _,
    selectOver_random none unseeded, fun chosen => exists_takes_of_selectOver,
    fun s => selectOver_const s envBase strategy seed candidates unseeded⟩
  cases strategy <;> rfl

/-! ## Answers that do not change -/

/-- A file system is known as a name when the resolver answers with it for the name, or when the
name is its identifier and the resolver answers with it for another. -/
def KnownAs (s : Resolver) (envBase : Option String) (f : FileSystem) (name : String) : Prop :=
  s.fileSystem name envBase = .ok f ∨ f.id = name ∧ ∃ other, s.fileSystem other envBase = .ok f

/-- What a strategy may take for a candidate: the candidate as it is, or, for its use, one that
names only an access point with the identifier of the file system that it was measured by. -/
inductive Takes (s : Resolver) (envBase : Option String) (strategy : Strategy) (c : Candidate) :
    Candidate → Prop
  | asGiven : Takes s envBase strategy c c
  | located {name : String} {a : AccessPoint} {f : FileSystem}
      (hstrategy : strategy = .leastUtilized) (hsystem : c.fileSystem = none)
      (hname : c.accessPoint = some name) (ha : s.accessPoint name none envBase = .ok a)
      (hf : KnownAs s envBase f a.fileSystem) : Takes s envBase strategy c (locatedOn c f)

namespace Takes

/-- The path in the container is that of the candidate. -/
theorem containerPath_eq (h : Takes s envBase strategy c chosen) :
    chosen.containerPath = c.containerPath := by
  cases h <;> rfl

/-- So is the access point. -/
theorem accessPoint_eq (h : Takes s envBase strategy c chosen) :
    chosen.accessPoint = c.accessPoint := by
  cases h <;> rfl

/-- A file system that a candidate names itself is not put in another's place. -/
theorem fileSystem_eq (h : Takes s envBase strategy c chosen) (hname : c.fileSystem = some name) :
    chosen.fileSystem = some name := by
  cases h with
  | asGiven => exact hname
  | located _ hsystem => simp [hsystem] at hname

end Takes

/-- Where nothing changes, it does not matter when something was found. -/
theorem TakesOver.takes (h : TakesOver (fun _ => s) envBase asked strategy c chosen) :
    Takes s envBase strategy c chosen := by
  cases h with
  | asGiven => exact .asGiven
  | located hstrategy hsystem hname ha hf hother =>
    obtain ⟨_, _, -, ha⟩ := ha
    obtain ⟨_, _, -, hf⟩ := hf
    rw [← locatedOn_of_none hsystem]
    refine .located hstrategy hsystem hname ha ?_
    rcases hother with rfl | hid
    · exact .inl hf
    · exact .inr ⟨hid.symm, _, hf⟩

/-- A selected candidate is taken for one of the list. -/
theorem exists_takes_of_select
    (h : (select s envBase strategy seed candidates unseeded).outcome = .ok chosen) :
    ∃ c ∈ candidates, Takes s envBase strategy c chosen := by
  rw [← selectOver_const] at h
  obtain ⟨c, hmem, htakes⟩ := exists_takes_of_selectOver h
  exact ⟨c, hmem, htakes.takes⟩

end JobStaging.Selection
