import JobStaging.Proofs.Selection

/-!
# Selection by use

A selection by use looks every file system up once and keeps what it learned under two keys, the
name that was asked for and the identifier that was answered. What is kept is always what the
resolver would say again, as long as the resolver answers for an identifier what it answered for a
name (`Resolver.Stable`), so keeping it changes nothing: the selection is the one that measures
every candidate on its own and then takes the earliest of those that hold the fewest bytes
(`leastUtilized_eq_unaided`).
-/

set_option autoImplicit false

namespace JobStaging

/-- A resolver is stable in an environment when it answers for the identifier of a file system as it
did for the name under which it found it. -/
def Resolver.Stable (r : Resolver) (envBase : Option String) : Prop :=
  ∀ name found, r.fileSystem name envBase = .ok found →
    r.fileSystem found.id envBase = .ok found

/-- An inventory in which no two file systems have one identifier is stable. -/
theorem Inventory.stable_of_nodup {i : Inventory} (h : (i.fileSystems.map FileSystem.id).Nodup)
    (envBase : Option String) : i.resolver.Stable envBase := by
  intro name found hfound
  have hmem : found ∈ i.fileSystems := mem_of_matchOne (Fallible.mapError_eq_ok_iff.1 hfound)
  exact Fallible.mapError_eq_ok_iff.2 (matchOne_id envBase h hmem)

namespace Selection

variable {r : Resolver} {envBase : Option String} {known : Known} {name : String} {c : Candidate}
  {best : Option (Candidate × UInt64)} {candidates : List Candidate}

/-! ## Candidates on their own -/

/-- The file system of a candidate that is looked at on its own: the one it names, or else the one
that its access point belongs to. -/
def systemOf (r : Resolver) (envBase : Option String) (c : Candidate) : Except Error FileSystem :=
  match c.fileSystem, c.accessPoint with
  | some name, _ => r.fileSystem name envBase
  | none, some name => do
    let a ← r.accessPoint name none envBase
    r.fileSystem a.fileSystem envBase
  | none, none => .error (.invalidInput .anonymousCandidate)

/-- A candidate with the identifier of its file system, if it names none itself. -/
def locatedOn (c : Candidate) (f : FileSystem) : Candidate :=
  { c with fileSystem := c.fileSystem <|> some f.id }

/-- A candidate that was located names a file system that the resolver finds again. -/
theorem exists_fileSystem_locatedOn (hstable : r.Stable envBase) {f : FileSystem}
    (h : systemOf r envBase c = .ok f) :
    ∃ name, (locatedOn c f).fileSystem = some name ∧ r.fileSystem name envBase = .ok f := by
  obtain ⟨system, access, path⟩ := c
  cases system with
  | some name => exact ⟨name, rfl, h⟩
  | none =>
    cases access with
    | none => cases h
    | some name =>
      obtain ⟨a, -, hf⟩ := Fallible.bind_eq_ok_iff.1 h
      exact ⟨f.id, rfl, hstable a.fileSystem f hf⟩

/-- The selection by use without any help from memory: every candidate is measured on its own, in
order, and the first of those that hold the fewest bytes is taken. -/
def unaided (r : Resolver) (envBase : Option String) (candidates : List Candidate) :
    Except Error Candidate := do
  let measured ← candidates.mapM fun c => (systemOf r envBase c).map fun f => (c, f)
  match measured.argmin fun m => m.2.usedBytes.toNat with
  | some (c, f) => return locatedOn c f
  | none => .error (.invalidInput .noCandidatesToCompare)

/-! ## What is kept -/

/-- What is known is sound when it is what the resolver says under each name. -/
def Known.Sound (r : Resolver) (envBase : Option String) (known : Known) : Prop :=
  ∀ name found, known.lookup name = some found → r.fileSystem name envBase = .ok found

/-- What is not known at all is sound. -/
theorem Known.sound_nil : Known.Sound r envBase [] := by
  rintro name found ⟨⟩

/-- What a stable resolver says under a name may be kept under the name and under the identifier. -/
theorem Known.Sound.learn (hstable : r.Stable envBase) (hknown : known.Sound r envBase)
    {found : FileSystem} (hfound : r.fileSystem name envBase = .ok found) :
    (known.learn name found).Sound r envBase := by
  have hcons : ∀ (kept : Known) key, kept.Sound r envBase →
      r.fileSystem key envBase = .ok found → Known.Sound r envBase ((key, found) :: kept) := by
    intro kept key hkept hkey other f hf
    rw [List.lookup_cons] at hf
    split at hf
    · next heq =>
      cases hf
      rw [beq_iff_eq.1 heq]
      exact hkey
    · exact hkept other f hf
  unfold Known.learn
  split
  · exact hcons known name hknown hfound
  · exact hcons _ _ (hcons known name hknown hfound) (hstable name found hfound)

/-- Whatever is known, a file system is described as the resolver would, and what is known stays
sound. -/
theorem exists_outcome_describe (hstable : r.Stable envBase) (hknown : known.Sound r envBase)
    (name : String) : ∃ kept : Known, kept.Sound r envBase ∧
      (describe r envBase known name).outcome =
        (r.fileSystem name envBase).map fun found => (found, kept) := by
  unfold describe
  cases hlookup : known.lookup name with
  | some found =>
    refine ⟨known, hknown, ?_⟩
    rw [hknown name found hlookup]
    rfl
  | none =>
    cases hfound : r.fileSystem name envBase with
    | error fault =>
      refine ⟨known, hknown, ?_⟩
      dsimp only
      rw [Traced.outcome_bind, show (r.askFileSystem name envBase).outcome = _ from hfound]
      rfl
    | ok found =>
      refine ⟨known.learn name found, hknown.learn hstable hfound, ?_⟩
      dsimp only
      rw [Traced.outcome_bind, show (r.askFileSystem name envBase).outcome = _ from hfound]
      rfl

/-- So is every candidate measured as if it stood alone. -/
theorem exists_outcome_measure (hstable : r.Stable envBase) (hknown : known.Sound r envBase)
    (c : Candidate) : ∃ kept : Known, kept.Sound r envBase ∧
      (measure r envBase known c).outcome =
        (systemOf r envBase c).map fun f => ((locatedOn c f, f), kept) := by
  obtain ⟨system, access, path⟩ := c
  unfold measure systemOf
  cases system with
  | some name =>
    obtain ⟨kept, hkept, hdescribe⟩ := exists_outcome_describe hstable hknown name
    refine ⟨kept, hkept, ?_⟩
    dsimp only
    rw [Traced.outcome_bind, hdescribe]
    cases r.fileSystem name envBase <;> rfl
  | none =>
    cases access with
    | none => exact ⟨known, hknown, rfl⟩
    | some name =>
      dsimp only
      rw [Traced.outcome_bind]
      cases haccess : r.accessPoint name none envBase with
      | error fault =>
        refine ⟨known, hknown, ?_⟩
        rw [show (r.askAccessPoint name none envBase).outcome = _ from haccess]
        rfl
      | ok a =>
        obtain ⟨kept, hkept, hdescribe⟩ := exists_outcome_describe hstable hknown a.fileSystem
        refine ⟨kept, hkept, ?_⟩
        rw [show (r.askAccessPoint name none envBase).outcome = _ from haccess]
        show ((describe r envBase known a.fileSystem) >>= _).outcome = _
        rw [Traced.outcome_bind, hdescribe]
        show _ = Except.map _ (r.fileSystem a.fileSystem envBase)
        cases r.fileSystem a.fileSystem envBase <;> rfl

/-! ## The loop -/

/-- Comparing candidates keeps the better one for each of them, measured on its own. -/
theorem outcome_compare (hstable : r.Stable envBase) (hknown : known.Sound r envBase) :
    (compare r envBase known best candidates).outcome =
      (candidates.mapM fun c => (systemOf r envBase c).map fun f => (c, f)).map fun measured =>
        measured.foldl (fun best m => some (better best (locatedOn m.1 m.2) m.2.usedBytes)) best := by
  induction candidates generalizing known best with
  | nil => rfl
  | cons c rest ih =>
    obtain ⟨kept, hkept, hmeasure⟩ := exists_outcome_measure hstable hknown c
    unfold compare
    rw [Traced.outcome_bind, hmeasure, List.mapM_cons]
    cases systemOf r envBase c with
    | error fault => rfl
    | ok f =>
      refine (ih hkept).trans ?_
      cases rest.mapM fun c => (systemOf r envBase c).map fun f => (c, f) <;> rfl

/-- The better one of all is the first of those that hold the fewest bytes. -/
theorem foldl_better (measured : List (Candidate × FileSystem)) :
    measured.foldl (fun best m => some (better best (locatedOn m.1 m.2) m.2.usedBytes)) none =
      (measured.argmin fun m => m.2.usedBytes.toNat).map fun m =>
        (locatedOn m.1 m.2, m.2.usedBytes) := by
  induction measured using List.reverseRecOn with
  | nil => rfl
  | append_singleton earlier m ih =>
    rw [List.foldl_append, ih, List.argmin_concat]
    cases earlier.argmin fun m => m.2.usedBytes.toNat with
    | none => rfl
    | some held =>
      show some (better (some _) _ _) = Option.map _ (ite _ _ _)
      unfold better
      dsimp only
      -- The program compares words, and the fewest bytes are meant as numbers.
      simp only [UInt64.lt_iff_toNat_lt]
      split <;> rfl

/-- With a stable resolver, what is known makes no difference to the outcome. -/
theorem outcome_leastUtilized (hstable : r.Stable envBase) :
    (leastUtilized r envBase candidates).outcome = unaided r envBase candidates := by
  unfold leastUtilized unaided
  rw [Traced.outcome_bind, outcome_compare hstable Known.sound_nil]
  simp only [foldl_better]
  cases candidates.mapM fun c => (systemOf r envBase c).map fun f => (c, f) with
  | error fault => rfl
  | ok measured =>
    dsimp only [Except.map, bind, Except.bind]
    cases measured.argmin fun m => m.2.usedBytes.toNat <;> rfl

/-! ## The candidate that is taken -/

/-- A candidate is the earliest of those that hold the fewest bytes when its file system holds fewer
than that of any candidate before it, and not more than that of any after it. Every candidate has a
file system then. -/
def EarliestLeast (r : Resolver) (envBase : Option String) (candidates : List Candidate)
    (c : Candidate) (f : FileSystem) : Prop :=
  ∃ before after, candidates = before ++ c :: after ∧ systemOf r envBase c = .ok f ∧
    (∀ b ∈ before, ∃ g, systemOf r envBase b = .ok g ∧ f.usedBytes < g.usedBytes) ∧
    ∀ a ∈ after, ∃ g, systemOf r envBase a = .ok g ∧ f.usedBytes ≤ g.usedBytes

namespace EarliestLeast

variable {c' : Candidate} {f f' : FileSystem}

/-- Of two such candidates neither comes before the other: it would hold both more and not more. -/
theorem not_before {before after : List Candidate} (hf : systemOf r envBase c = .ok f)
    (hf' : systemOf r envBase c' = .ok f')
    (hbefore : ∀ b ∈ before, ∃ g, systemOf r envBase b = .ok g ∧ f'.usedBytes < g.usedBytes)
    (hafter : ∀ a ∈ after, ∃ g, systemOf r envBase a = .ok g ∧ f.usedBytes ≤ g.usedBytes)
    (hc : c ∈ before) : c' ∉ after := by
  intro hc'
  obtain ⟨g, hg, hless⟩ := hbefore c hc
  obtain ⟨g', hg', hleast⟩ := hafter c' hc'
  cases hf.symm.trans hg
  cases hf'.symm.trans hg'
  rw [UInt64.lt_iff_toNat_lt] at hless
  rw [UInt64.le_iff_toNat_le] at hleast
  omega

/-- There is at most one such candidate. -/
theorem unique (h : EarliestLeast r envBase candidates c f)
    (h' : EarliestLeast r envBase candidates c' f') : c = c' ∧ f = f' := by
  obtain ⟨before, after, hsplit, hf, hbefore, hafter⟩ := h
  obtain ⟨before', after', hsplit', hf', hbefore', hafter'⟩ := h'
  have hsame : c = c' := by
    rcases List.append_eq_append_iff.1 (hsplit.symm.trans hsplit') with
      ⟨_ | ⟨d, more⟩, rfl, hmore⟩ | ⟨_ | ⟨d, more⟩, rfl, hmore⟩
    · exact (List.cons.inj hmore).1
    · obtain ⟨rfl, rfl⟩ := List.cons.inj hmore
      exact (not_before hf hf' hbefore' hafter (by simp) (by simp)).elim
    · exact (List.cons.inj hmore).1.symm
    · obtain ⟨rfl, rfl⟩ := List.cons.inj hmore
      exact (not_before hf' hf hbefore hafter' (by simp) (by simp)).elim
  subst hsame
  cases hf.symm.trans hf'
  exact ⟨rfl, rfl⟩

/-- The earliest least candidate has the file system that it was compared by. -/
theorem systemOf_eq (h : EarliestLeast r envBase candidates c f) :
    systemOf r envBase c = .ok f := by
  obtain ⟨before, after, -, hf, -⟩ := h
  exact hf

/-- Where there is one, every candidate has a file system. -/
theorem exists_system (h : EarliestLeast r envBase candidates c f) :
    ∀ b ∈ candidates, ∃ g, systemOf r envBase b = .ok g := by
  obtain ⟨before, after, rfl, hf, hbefore, hafter⟩ := h
  intro b hb
  rcases List.mem_append.1 hb with hb | hb
  · obtain ⟨g, hg, -⟩ := hbefore b hb
    exact ⟨g, hg⟩
  · rcases List.mem_cons.1 hb with rfl | hb
    · exact ⟨f, hf⟩
    · obtain ⟨g, hg, -⟩ := hafter b hb
      exact ⟨g, hg⟩

end EarliestLeast

/-- When every candidate could be measured, the earliest of those that hold the fewest bytes is
taken. -/
theorem exists_earliestLeast {measured : List (Candidate × FileSystem)} (hne : candidates ≠ [])
    (h : (candidates.mapM fun c => (systemOf r envBase c).map fun f => (c, f)) = .ok measured) :
    ∃ c f, EarliestLeast r envBase candidates c f ∧
      unaided r envBase candidates = .ok (locatedOn c f) := by
  obtain ⟨hfirst, hsystems⟩ := Fallible.mapM_pair_eq_ok_iff.1 h
  cases hleast : measured.argmin fun m => m.2.usedBytes.toNat with
  | none =>
    rw [List.argmin_eq_none.1 hleast] at hfirst
    exact absurd hfirst.symm hne
  | some m =>
    obtain ⟨c, f⟩ := m
    refine ⟨c, f, ?_, ?_⟩
    · obtain ⟨before, after, rfl, hbefore, hafter⟩ := Lists.exists_split_of_argmin hleast
      refine ⟨before.map Prod.fst, after.map Prod.fst, ?_, hsystems (c, f) (by simp), ?_, ?_⟩
      · rw [← hfirst, List.map_append, List.map_cons]
      · intro _ hmem
        obtain ⟨b, hb, rfl⟩ := List.mem_map.1 hmem
        exact ⟨b.2, hsystems b (by simp [hb]), UInt64.lt_iff_toNat_lt.2 (hbefore b hb)⟩
      · intro _ hmem
        obtain ⟨a, ha, rfl⟩ := List.mem_map.1 hmem
        exact ⟨a.2, hsystems a (by simp [ha]), UInt64.le_iff_toNat_le.2 (hafter a ha)⟩
    · exact Fallible.bind_eq_ok_iff.2 ⟨measured, h, by rw [hleast]; rfl⟩

/-- Measuring every candidate on its own fails as it does for the first that has no file system. -/
theorem unaided_eq_error_iff (hne : candidates ≠ []) {fault : Error} :
    unaided r envBase candidates = .error fault ↔ ∃ before c after,
      candidates = before ++ c :: after ∧ (∀ b ∈ before, ∃ g, systemOf r envBase b = .ok g) ∧
        systemOf r envBase c = .error fault := by
  have hfault : unaided r envBase candidates = .error fault ↔
      (candidates.mapM fun c => (systemOf r envBase c).map fun f => (c, f)) = .error fault := by
    cases hmeasured : candidates.mapM fun c => (systemOf r envBase c).map fun f => (c, f) with
    | error other =>
      unfold unaided
      rw [hmeasured]
      exact ⟨by rintro ⟨⟩; rfl, by rintro ⟨⟩; rfl⟩
    | ok measured =>
      obtain ⟨c, f, -, hok⟩ := exists_earliestLeast hne hmeasured
      simp [hok]
  rw [hfault, Fallible.mapM_eq_error_iff]
  simp only [Fallible.map_eq_ok_iff, Fallible.map_eq_error_iff, exists_comm (α := Candidate × _),
    exists_eq_right']

/-- Otherwise the earliest of the candidates that hold the fewest bytes is taken, on its file
system. -/
theorem unaided_eq_ok_iff (hne : candidates ≠ []) {chosen : Candidate} :
    unaided r envBase candidates = .ok chosen ↔
      ∃ c f, EarliestLeast r envBase candidates c f ∧ chosen = locatedOn c f := by
  cases hmeasured : candidates.mapM fun c => (systemOf r envBase c).map fun f => (c, f) with
  | error fault =>
    obtain ⟨b, hb, hfault⟩ := Fallible.exists_mem_of_mapM_eq_error hmeasured
    rw [Fallible.map_eq_error_iff] at hfault
    constructor
    · unfold unaided
      rw [hmeasured]
      rintro ⟨⟩
    · rintro ⟨c, f, hleast, -⟩
      obtain ⟨g, hg⟩ := hleast.exists_system b hb
      cases hfault.symm.trans hg
  | ok measured =>
    obtain ⟨c, f, hleast, hok⟩ := exists_earliestLeast hne hmeasured
    rw [hok, Except.ok.injEq]
    constructor
    · rintro rfl
      exact ⟨c, f, hleast, rfl⟩
    · rintro ⟨c', f', hleast', rfl⟩
      obtain ⟨rfl, rfl⟩ := hleast.unique hleast'
      rfl

/-- What is selected by use among several candidates is the earliest of those that hold the fewest
bytes, on its file system. -/
theorem exists_earliestLeast_of_select (hstable : r.Stable envBase) {seed : Option UInt64}
    {unseeded : Draw.Source} (hseveral : 2 ≤ candidates.length) {chosen : Candidate}
    (h : (select r envBase .leastUtilized seed candidates unseeded).outcome = .ok chosen) :
    ∃ c f, EarliestLeast r envBase candidates c f ∧ chosen = locatedOn c f := by
  match candidates, hseveral with
  | first :: second :: rest, _ =>
    have hplain : (leastUtilized r envBase (first :: second :: rest)).outcome = .ok chosen := h
    rw [outcome_leastUtilized hstable] at hplain
    exact (unaided_eq_ok_iff (List.cons_ne_nil _ _)).1 hplain

/-- Where a resolver is stable, keeping what was learned changes nothing: a selection by use does
what it would do if it measured every candidate on its own. It fails as it does for the first
candidate that has no file system, and otherwise takes the earliest of the candidates that hold the
fewest bytes, with the identifier of its file system if it named none, and as it is apart from
that. -/
theorem leastUtilized_eq_unaided (hstable : r.Stable envBase) (hne : candidates ≠ []) :
    (leastUtilized r envBase candidates).outcome = unaided r envBase candidates ∧
    (∀ fault, unaided r envBase candidates = .error fault ↔ ∃ before c after,
      candidates = before ++ c :: after ∧ (∀ b ∈ before, ∃ g, systemOf r envBase b = .ok g) ∧
        systemOf r envBase c = .error fault) ∧
    ∀ chosen, unaided r envBase candidates = .ok chosen ↔
      ∃ c f, EarliestLeast r envBase candidates c f ∧ chosen = locatedOn c f :=
  ⟨outcome_leastUtilized hstable, fun _ => unaided_eq_error_iff hne,
    fun _ => unaided_eq_ok_iff hne⟩

/-- Three file systems, two of which hold as few bytes as each other, and an access point to one of
these. -/
def usageInventory : Inventory :=
  ⟨[⟨"fs-1", none, 2000, OrderedMap.ofList [(Labels.nameTag, "archive")]⟩,
      ⟨"fs-2", none, 1000, .empty⟩, ⟨"fs-3", none, 1000, .empty⟩],
    [⟨"fsap-3", "fs-3", none, ⟨"/jobs"⟩, .empty⟩]⟩

/-- A candidate that is found by name, one by the identifier that was answered for it, and two that
tie: the one that names only an access point comes first and is taken, with its file system. -/
theorem leastUtilized_eq_unaided_of_sample :
    let candidates : List Candidate := [⟨some "archive", none, none⟩, ⟨some "fs-1", none, none⟩,
      ⟨none, some "fsap-3", some ⟨"/scratch"⟩⟩, ⟨some "fs-2", none, none⟩]
    let r := usageInventory.resolver
    let chosen : Candidate := ⟨some "fs-3", some "fsap-3", some ⟨"/scratch"⟩⟩
    r.Stable none ∧ candidates ≠ [] ∧ (leastUtilized r none candidates).outcome = .ok chosen ∧
      ∃ c f, EarliestLeast r none candidates c f ∧ chosen = locatedOn c f := by
  intro candidates r chosen
  have hstable : r.Stable none := Inventory.stable_of_nodup (by decide) none
  have hne : candidates ≠ [] := List.cons_ne_nil _ _
  have hchosen : unaided r none candidates = .ok chosen := rfl
  obtain ⟨houtcome, -, hok⟩ := leastUtilized_eq_unaided hstable hne
  exact ⟨hstable, hne, houtcome.trans hchosen, (hok chosen).1 hchosen⟩

end Selection

end JobStaging
