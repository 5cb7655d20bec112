import JobStaging.Proofs.Inventory
import JobStaging.Selection

/-!
# Selection under resolvers that agree

A selection asks for the file systems of its candidates, and for their access points where these are
all that is named, and it keeps what it learned. What each of its steps finds is said first, from a
single description (`describe_eq_ok_iff`) to the candidate that is selected (`select_cases`).

The questions of a selection follow from the names of the candidates and from earlier answers. Two
resolvers that agree on the names of the candidates are asked the same questions and make the same
selection (`select_of_agree`), and the names of the candidate that is selected are among those on
which they agree (`keepsTo_of_select`).
-/

set_option autoImplicit false

namespace JobStaging

/-- Work that goes on in the same way after every outcome that it can have is the same work. -/
theorem Traced.bind_congr {α β : Type} {t : Traced α} {f g : α → Traced β}
    (h : ∀ a, t.outcome = .ok a → f a = g a) : t >>= f = t >>= g := by
  show t.andThen f = t.andThen g
  unfold Traced.andThen
  cases houtcome : t.outcome with
  | error e => rfl
  | ok a =>
    dsimp only
    rw [h a houtcome]

/-- A candidate keeps to some names when it names nothing else. -/
def Candidate.KeepsTo (names : List String) (c : Candidate) : Prop :=
  (∀ name, c.fileSystem = some name → name ∈ names) ∧
    ∀ name, c.accessPoint = some name → name ∈ names

namespace Resolver

variable {names : List String} {envBase name : String} {r r' : Resolver} {owner : Option String}

/-- Resolvers that agree describe the same file systems under the names. -/
theorem Agree.askFileSystem (h : r.Agree names envBase r') (hname : name ∈ names) :
    r'.askFileSystem name (some envBase) = r.askFileSystem name (some envBase) := by
  unfold Resolver.askFileSystem
  rw [h.fileSystem_eq name hname]

/-- They find the same access points under the names. -/
theorem Agree.askAccessPoint (h : r.Agree names envBase r') (hname : name ∈ names) :
    r'.askAccessPoint name owner (some envBase) = r.askAccessPoint name owner (some envBase) := by
  unfold Resolver.askAccessPoint
  rw [h.accessPoint_eq name hname]

end Resolver

namespace Selection

variable {known known' : Known} {c : Candidate} {best : Option (Candidate × UInt64)}
  {candidates : List Candidate} {strategy : Strategy} {seed : Option UInt64}
  {unseeded : Draw.Source}

/-! ## What each step finds -/

section Steps

variable {r : Resolver} {envBase : Option String} {name : String} {f : FileSystem}
  {measured : Candidate}

/-- What is looked up is among what is known. -/
theorem Known.mem_of_lookup (h : known.lookup name = some f) : (name, f) ∈ known := by
  obtain ⟨before, after, rfl, -⟩ := List.lookup_eq_some_iff.1 h
  exact List.mem_append_right _ List.mem_cons_self

/-- A file system is described by what is known, or by an answer that is then known too. -/
theorem describe_eq_ok_iff :
    (describe r envBase known name).outcome = .ok (f, known') ↔
      known.lookup name = some f ∧ known' = known ∨
        known.lookup name = none ∧ r.fileSystem name envBase = .ok f ∧
          known' = known.learn name f := by
  unfold describe
  cases known.lookup name with
  | some found => simp [eq_comm]
  | none =>
    dsimp only
    rw [Traced.outcome_bind, Fallible.bind_eq_ok_iff]
    constructor
    · rintro ⟨found, hfound, hpair⟩
      cases hpair
      exact .inr ⟨rfl, hfound, rfl⟩
    · rintro (⟨hnone, -⟩ | ⟨-, hfound, rfl⟩)
      · cases hnone
      · exact ⟨f, hfound, rfl⟩

/-- A candidate is measured by the file system that it names, or by that of its access point, whose
identifier it gets. -/
theorem measure_eq_ok_iff :
    (measure r envBase known c).outcome = .ok ((measured, f), known') ↔
      (∃ name, c.fileSystem = some name ∧
        (describe r envBase known name).outcome = .ok (f, known') ∧ measured = c) ∨
      ∃ name a, c.fileSystem = none ∧ c.accessPoint = some name ∧
        r.accessPoint name none envBase = .ok a ∧
        (describe r envBase known a.fileSystem).outcome = .ok (f, known') ∧
        measured = { c with fileSystem := some f.id } := by
  unfold measure
  cases c.fileSystem with
  | some name =>
    dsimp only
    rw [Traced.outcome_bind, Fallible.bind_eq_ok_iff]
    constructor
    · rintro ⟨⟨found, kept⟩, hdescribe, hpair⟩
      cases hpair
      exact .inl ⟨name, rfl, hdescribe, rfl⟩
    · rintro (⟨_, hname, hdescribe, rfl⟩ | ⟨_, _, hnone, -⟩)
      · cases hname
        exact ⟨(f, known'), hdescribe, rfl⟩
      · cases hnone
  | none =>
    cases c.accessPoint with
    | none => simp [Traced.fail]
    | some name =>
      dsimp only
      rw [Traced.outcome_bind, Fallible.bind_eq_ok_iff]
      constructor
      · rintro ⟨a, ha, h⟩
        rw [Traced.outcome_bind, Fallible.bind_eq_ok_iff] at h
        obtain ⟨⟨found, kept⟩, hdescribe, hpair⟩ := h
        cases hpair
        exact .inr ⟨name, a, rfl, rfl, ha, hdescribe, rfl⟩
      · rintro (⟨_, hname, -⟩ | ⟨_, a, -, hname, ha, hdescribe, rfl⟩)
        · cases hname
        · cases hname
          refine ⟨a, ha, ?_⟩
          rw [Traced.outcome_bind, Fallible.bind_eq_ok_iff]
          exact ⟨(f, known'), hdescribe, rfl⟩

/-- Comparing goes on with what is known and best after the first candidate was measured. -/
theorem compare_cons_eq_ok_iff {found : Option (Candidate × UInt64)} :
    (compare r envBase known best (c :: candidates)).outcome = .ok found ↔
      ∃ measured f kept, (measure r envBase known c).outcome = .ok ((measured, f), kept) ∧
        (compare r envBase kept (some (better best measured f.usedBytes)) candidates).outcome =
          .ok found := by
  rw [compare, Traced.outcome_bind, Fallible.bind_eq_ok_iff]
  constructor
  · rintro ⟨⟨⟨measured, f⟩, kept⟩, hmeasure, hrest⟩
    exact ⟨measured, f, kept, hmeasure, hrest⟩
  · rintro ⟨measured, f, kept, hmeasure, hrest⟩
    exact ⟨((measured, f), kept), hmeasure, hrest⟩

/-- The better one is the candidate at hand, or it was the best before. -/
theorem better_cases (best : Option (Candidate × UInt64)) (c : Candidate) (used : UInt64) :
    (better best c used).1 = c ∨ best = some (better best c used) := by
  unfold better
  cases best with
  | none => exact .inl rfl
  | some held =>
    dsimp only
    split
    · exact .inl rfl
    · exact .inr rfl

/-- Whatever was compared, the best one is taken, if there is one. -/
theorem best_eq_ok_iff {t : Traced (Option (Candidate × UInt64))} :
    (do
      match ← t with
      | some (candidate, _) => return candidate
      | none => Traced.fail (.invalidInput .noCandidatesToCompare) : Traced Candidate).outcome =
        .ok c ↔ ∃ used, t.outcome = .ok (some (c, used)) := by
  rw [Traced.outcome_bind, Fallible.bind_eq_ok_iff]
  constructor
  · rintro ⟨found, hfound, h⟩
    cases found with
    | none => cases h
    | some b =>
      cases h
      exact ⟨b.2, hfound⟩
  · rintro ⟨used, hfound⟩
    exact ⟨some (c, used), hfound, rfl⟩

/-- The candidate that is chosen is the best one of a comparison. -/
theorem leastUtilized_eq_ok_iff :
    (leastUtilized r envBase candidates).outcome = .ok c ↔
      ∃ used, (compare r envBase [] none candidates).outcome = .ok (some (c, used)) :=
  best_eq_ok_iff

/-- A candidate is selected from the list as it is, or it is the best one of a comparison. -/
theorem select_cases
    (h : (select r envBase strategy seed candidates unseeded).outcome = .ok c) :
    c ∈ candidates ∨ strategy = .leastUtilized ∧
      ∃ used, (compare r envBase [] none candidates).outcome = .ok (some (c, used)) := by
  unfold select at h
  split at h
  · cases h
  · cases h
    exact .inl (List.mem_singleton_self c)
  · cases strategy with
    | random =>
      dsimp only at h
      rw [Traced.outcome_check_eq_ok_iff] at h
      unfold random at h
      split at h
      · next found hfound =>
        cases h
        exact .inl (List.mem_of_getElem? hfound)
      · cases h
    | leastUtilized => exact .inr ⟨rfl, leastUtilized_eq_ok_iff.1 h⟩

end Steps

/-! ## One candidate -/

variable {names : List String} {envBase name : String} {r r' : Resolver}

/-- What is known keeps to some names when the file systems that were found are among them. -/
def Known.KeepsTo (names : List String) (known : Known) : Prop :=
  ∀ e ∈ known, e.2.id ∈ names

/-- Nothing known keeps to any names. -/
theorem Known.keepsTo_nil (names : List String) : Known.KeepsTo names [] :=
  fun _ he => absurd he List.not_mem_nil

/-- Resolvers that agree describe a file system alike. -/
theorem describe_of_agree (h : r.Agree names envBase r') (hname : name ∈ names) :
    describe r' (some envBase) known name = describe r (some envBase) known name := by
  unfold describe
  rw [h.askFileSystem hname]

/-- A description keeps to the names. -/
theorem keepsTo_of_describe (h : r.Agree names envBase r') (hknown : known.KeepsTo names)
    {found : FileSystem}
    (hfound : (describe r (some envBase) known name).outcome = .ok (found, known')) :
    found.id ∈ names ∧ known'.KeepsTo names := by
  rcases describe_eq_ok_iff.1 hfound with ⟨hlookup, rfl⟩ | ⟨-, hf, rfl⟩
  · exact ⟨hknown _ (Known.mem_of_lookup hlookup), hknown⟩
  · have hid : found.id ∈ names := h.id_mem name found hf
    refine ⟨hid, ?_⟩
    -- Under the name and under its identifier, it is the same file system that is kept.
    unfold Known.learn
    split
    · exact List.forall_mem_cons.2 ⟨hid, hknown⟩
    · exact List.forall_mem_cons.2 ⟨hid, List.forall_mem_cons.2 ⟨hid, hknown⟩⟩

/-- Resolvers that agree measure a candidate alike. -/
theorem measure_of_agree (h : r.Agree names envBase r') (hc : c.KeepsTo names) :
    measure r' (some envBase) known c = measure r (some envBase) known c := by
  unfold measure
  cases hsystem : c.fileSystem with
  | some name =>
    dsimp only
    rw [describe_of_agree h (hc.1 name hsystem)]
  | none =>
    cases haccess : c.accessPoint with
    | none => rfl
    | some name =>
      dsimp only
      rw [h.askAccessPoint (hc.2 name haccess)]
      -- The file system is asked for under the identifier that the answer gives.
      refine Traced.bind_congr fun a ha => ?_
      rw [describe_of_agree h (h.owner_mem name none a ha)]

/-- A measured candidate keeps to the names, and so does what is known then. -/
theorem keepsTo_of_measure (h : r.Agree names envBase r') (hknown : known.KeepsTo names)
    (hc : c.KeepsTo names) {measured : Candidate} {found : FileSystem}
    (hfound : (measure r (some envBase) known c).outcome = .ok ((measured, found), known')) :
    measured.KeepsTo names ∧ known'.KeepsTo names := by
  rcases measure_eq_ok_iff.1 hfound with
    ⟨_, -, hdescribe, rfl⟩ | ⟨_, a, -, -, -, hdescribe, rfl⟩
  · exact ⟨hc, (keepsTo_of_describe h hknown hdescribe).2⟩
  · obtain ⟨hid, hkept⟩ := keepsTo_of_describe h hknown hdescribe
    refine ⟨⟨?_, hc.2⟩, hkept⟩
    rintro _ ⟨⟩
    exact hid

/-! ## All candidates -/

/-- Resolvers that agree compare candidates alike. -/
theorem compare_of_agree (h : r.Agree names envBase r') (hknown : known.KeepsTo names)
    (hcandidates : ∀ c ∈ candidates, c.KeepsTo names) :
    compare r' (some envBase) known best candidates =
      compare r (some envBase) known best candidates := by
  induction candidates generalizing known best with
  | nil => rfl
  | cons c rest ih =>
    obtain ⟨hc, hrest⟩ := List.forall_mem_cons.1 hcandidates
    unfold compare
    rw [measure_of_agree h hc]
    refine Traced.bind_congr ?_
    rintro ⟨⟨measured, found⟩, kept⟩ hmeasure
    -- The rest starts from what was learned here, which is among the names again.
    exact ih (keepsTo_of_measure h hknown hc hmeasure).2 hrest

/-- The best of the candidates keeps to the names, if all candidates do and the best before them
did. -/
theorem keepsTo_of_compare (h : r.Agree names envBase r') (hknown : known.KeepsTo names)
    (hbest : ∀ b, best = some b → b.1.KeepsTo names)
    (hcandidates : ∀ c ∈ candidates, c.KeepsTo names) {b : Candidate × UInt64}
    (hb : (compare r (some envBase) known best candidates).outcome = .ok (some b)) :
    b.1.KeepsTo names := by
  induction candidates generalizing known best with
  | nil =>
    cases hb
    exact hbest b rfl
  | cons c rest ih =>
    obtain ⟨hc, hrest⟩ := List.forall_mem_cons.1 hcandidates
    obtain ⟨measured, found, kept, hmeasure, hb⟩ := compare_cons_eq_ok_iff.1 hb
    obtain ⟨hmeasured, hkept⟩ := keepsTo_of_measure h hknown hc hmeasure
    refine ih hkept ?_ hrest hb
    rintro _ ⟨⟩
    rcases better_cases best measured found.usedBytes with hbetter | hheld
    · rw [hbetter]
      exact hmeasured
    · exact hbest _ hheld

/-- They choose the same one of them. -/
theorem leastUtilized_of_agree (h : r.Agree names envBase r')
    (hcandidates : ∀ c ∈ candidates, c.KeepsTo names) :
    leastUtilized r' (some envBase) candidates = leastUtilized r (some envBase) candidates := by
  unfold leastUtilized
  rw [compare_of_agree h (Known.keepsTo_nil names) hcandidates]

/-- Resolvers that agree on the names of the candidates make the same selection. -/
theorem select_of_agree (h : r.Agree names envBase r')
    (hcandidates : ∀ c ∈ candidates, c.KeepsTo names) :
    select r' (some envBase) strategy seed candidates unseeded =
      select r (some envBase) strategy seed candidates unseeded := by
  unfold select
  split
  · rfl
  · rfl
  · cases strategy with
    | random => rfl
    | leastUtilized => exact leastUtilized_of_agree h hcandidates

/-- The candidate that is selected keeps to the names. -/
theorem keepsTo_of_select (h : r.Agree names envBase r')
    (hcandidates : ∀ c ∈ candidates, c.KeepsTo names)
    (hc : (select r (some envBase) strategy seed candidates unseeded).outcome = .ok c) :
    c.KeepsTo names := by
  rcases select_cases hc with hmem | ⟨-, used, hcompare⟩
  · exact hcandidates c hmem
  · have hbest : ∀ b : Candidate × UInt64, none = some b → b.1.KeepsTo names := by
      rintro b ⟨⟩
    exact keepsTo_of_compare h (Known.keepsTo_nil names) hbest hcandidates hcompare

end Selection

end JobStaging
