import JobStaging.Proofs.Storage.Untouched

/-!
# Writes that are interrupted

A file is written in steps, and a call may end at any of them: a step fails, the operating system
refuses it for reasons of its own, or the machine stops, perhaps while directories are being made. A
`Course` is a call up to its end: the steps that it has done, and the tree that it leaves; the text
may be written in any pieces. Either the last step is not among those that are done, and then
nothing has happened but that the file beside the target was filled, or all steps are done
(`course_cases`). So `write_is_atomic`: before the last step the target is what it was, after it the
target holds the whole new text, a call that returns says which, and no other file is touched. There
is one way in which a target that was not there is there too soon: its path goes up from directories
that the call has only just made, and so comes to what was there all the time
(`failed_write_uncovers_a_file`).
-/

set_option autoImplicit false

namespace JobStaging.Storage

open FileTree

variable {t u before : FileTree} {place here : Place} {target : Path}
  {steps rest done : List Step} {pieces : List String}

/-! ## Courses -/

/-- How a call ends: the machine stops, or the call returns, with a fault if it failed. -/
inductive Ending where
  | crashed
  | returned (fault : Option IoFault)
  deriving DecidableEq, Repr

/-- How a call may end before the steps that are left, and the tree that it leaves. -/
inductive Halts (before : FileTree) : List Step → FileTree → Ending → Prop
  /-- Nothing is left to be done. -/
  | returned : Halts before [] before (.returned none)
  /-- The machine stops between two steps. -/
  | crashed (rest : List Step) : Halts before rest before .crashed
  /-- The next step is refused for a reason that lies outside the tree. -/
  | refused (step : Step) (rest : List Step) (fault : IoFault) :
      Halts before (step :: rest) before (.returned (some fault))
  /-- The next step fails on the tree. -/
  | failed {step : Step} (rest : List Step) {fault : IoFault}
      (h : (step.run before).2 = some fault) :
      Halts before (step :: rest) (step.run before).1 (.returned (some fault))
  /-- Of the directories that the next step makes, only the first are made. -/
  | halfway (path : Path) (count : Nat) (rest : List Step) {ending : Ending}
      (h : ending ≠ .returned none) : Halts before (.makeDirectories path :: rest)
        (before.makeDirectories (path.steps.take count).reverse).1 ending

/-- The course of a call: the steps that are done succeeded one after the other, and before the
others it ended. -/
def Course (steps : List Step) (t : FileTree) (done : List Step) (u : FileTree)
    (ending : Ending) : Prop :=
  ∃ before rest, steps = done ++ rest ∧ runSteps done t = (none, before) ∧
    Halts before rest u ending

variable {ending : Ending}

/-- A call that leaves steps undone does not return well. -/
theorem Halts.ending_ne (h : Halts before rest u ending) (hrest : rest ≠ []) :
    ending ≠ .returned none := by
  cases h with
  | returned => exact absurd rfl hrest
  | crashed => simp
  | refused => simp
  | failed => simp
  | halfway _ _ _ h => exact h

/-- Where nothing is left to be done the tree stays, and a call that returns does so well. -/
theorem Halts.of_nil (h : Halts before [] u ending) :
    u = before ∧ ∀ fault, ending = .returned fault → fault = none := by
  cases h with
  | returned => exact ⟨rfl, fun fault hfault => (Ending.returned.inj hfault).symm⟩
  | crashed => exact ⟨rfl, fun fault hfault => by cases hfault⟩

/-- A file that cannot be put in its place stays where it is. -/
theorem run_rename_of_fault {source : Path} {fault : IoFault}
    (h : (Step.run t (.rename source target)).2 = some fault) :
    (Step.run t (.rename source target)).1 = t := by
  unfold Step.run at h ⊢
  dsimp only at h ⊢
  cases hrename : t.rename source target with
  | error _ => rfl
  | ok moved =>
    rw [hrename] at h
    cases h

/-- Ending before a step that makes ready, or before the one that renames, adds nothing else. -/
theorem FileTree.OnlyFills.halts (h : OnlyFills target t before)
    (hrest : ∀ step ∈ rest, step.MakesReady target ∨ ∃ source place, step = .rename source place)
    (hhalts : Halts before rest u ending) : OnlyFills target t u := by
  cases hhalts with
  | returned => exact h
  | crashed => exact h
  | refused => exact h
  | halfway path count =>
    rcases hrest _ List.mem_cons_self with hready | ⟨source, place, hrename⟩
    · have hgrows := grows_makeDirectories before (path.steps.take count).reverse
      rw [List.reverse_reverse] at hgrows
      exact h.grow (hgrows.mono ((List.take_prefix count path.steps).trans hready))
    · cases hrename
  | @failed step _ _ hfault =>
    rcases hrest step List.mem_cons_self with hready | ⟨source, place, rfl⟩
    · exact h.run hready
    · rw [run_rename_of_fault hfault]
      exact h

/-- What a call does that nothing interrupts is one of its courses. -/
theorem exists_course_of_runSteps {fault : Option IoFault} (h : runSteps steps t = (fault, u)) :
    ∃ done, Course steps t done u (.returned fault) := by
  induction steps generalizing t with
  | nil =>
    cases h
    exact ⟨[], _, [], rfl, rfl, .returned⟩
  | cons step rest ih =>
    cases hfault : (step.run t).2 with
    | none =>
      rw [runSteps_cons_of_none rest hfault] at h
      obtain ⟨done, before, left, hsteps, hdone, hhalts⟩ := ih h
      refine ⟨step :: done, before, left, by rw [hsteps, List.cons_append], ?_, hhalts⟩
      rw [runSteps_cons_of_none done hfault, hdone]
    | some reason =>
      rw [runSteps_cons_of_some rest hfault] at h
      cases h
      exact ⟨[], t, step :: rest, rfl, rfl, .failed rest hfault⟩

/-! ## Courses of a write -/

/-- The steps before the one that puts the file in its place. -/
def readySteps (target : Path) (pieces : List String) : List Step :=
  parentSteps target ++ .create (besides target) ::
    pieces.map fun piece => .append (besides target) piece

/-- A write makes ready, and then puts the file in its place. -/
theorem writeSteps_eq (target : Path) (pieces : List String) :
    writeSteps target pieces = readySteps target pieces ++ [.rename (besides target) target] := rfl

/-- All steps before the last make ready. -/
theorem makesReady_of_mem_readySteps {step : Step} (h : step ∈ readySteps target pieces) :
    step.MakesReady target := by
  rcases List.mem_append.1 h with h | h
  · exact makesReady_of_mem_parentSteps h
  · rcases List.mem_cons.1 h with rfl | h
    · exact rfl
    · obtain ⟨piece, -, rfl⟩ := List.mem_map.1 h
      exact rfl

/-- A write ends before the file is put in its place, and then only the file beside was filled, or
all its steps are done. -/
theorem course_cases (h : Course (writeSteps target pieces) t done u ending) :
    (.rename (besides target) target ∉ done ∧ OnlyFills target t u ∧
      ending ≠ .returned none) ∨
    (.rename (besides target) target ∈ done ∧
      runSteps (writeSteps target pieces) t = (none, u) ∧
      ∀ fault, ending = .returned fault → fault = none) := by
  obtain ⟨before, rest, hsteps, hdone, hhalts⟩ := h
  -- The step that renames is the last one: it is left undone as soon as any step is.
  rcases List.eq_nil_or_concat rest with rfl | ⟨front, last, rfl⟩
  · right
    rw [List.append_nil] at hsteps
    obtain ⟨rfl, hending⟩ := hhalts.of_nil
    rw [← hsteps] at hdone ⊢
    exact ⟨List.mem_append_right _ List.mem_cons_self, hdone, hending⟩
  · left
    rw [writeSteps_eq, List.concat_eq_append, ← List.append_assoc] at hsteps
    obtain ⟨hready, hlast⟩ := List.append_inj' hsteps rfl
    obtain rfl := (List.singleton_inj.1 hlast)
    have hdoneReady : ∀ step ∈ done, step.MakesReady target := fun step hstep =>
      makesReady_of_mem_readySteps (hready ▸ List.mem_append_left _ hstep)
    refine ⟨fun hmem => hdoneReady _ hmem, ?_, hhalts.ending_ne (by simp)⟩
    have hbefore := (OnlyFills.refl target t).runSteps hdoneReady
    rw [hdone] at hbefore
    refine hbefore.halts (fun step hstep => ?_) hhalts
    rw [List.concat_eq_append, List.mem_append, List.mem_singleton] at hstep
    rcases hstep with hstep | rfl
    · exact .inl (makesReady_of_mem_readySteps (hready ▸ List.mem_append_right _ hstep))
    · exact .inr ⟨_, _, rfl⟩

/-- After all steps the target holds all the pieces. -/
theorem read_of_written (h : runSteps (writeSteps target pieces) t = (none, u)) :
    u.read target = .ok (String.join pieces) := by
  obtain ⟨made, source, place, -, hsource, hfree, -, hplace, hold, hnames, rfl⟩ :=
    runSteps_writeSteps_iff.1 h
  have hsame := sameDirectories_moved hfree hold (String.join pieces)
  exact read_eq_ok_iff.2 ⟨place, hsame.locate_iff.1 hplace,
    node?_set_self _ (ne_nil_of_isDirectory_eq_false hold) _, hnames.2⟩

/-- After all steps no text has changed but those of the target and of the file beside it. -/
theorem locate_of_written (h : runSteps (writeSteps target pieces) t = (none, u))
    (hne : u.textAt place ≠ t.textAt place) :
    u.locate target = .ok place ∨ u.locate (besides target) = .ok place := by
  obtain ⟨made, source, moved, hmade, hsource, hfree, -, hmoved, hold, -, rfl⟩ :=
    runSteps_writeSteps_iff.1 h
  have hsame := sameDirectories_moved hfree hold (String.join pieces)
  by_cases htarget : place = moved
  · exact .inl (htarget ▸ hsame.locate_iff.1 hmoved)
  · by_cases hbeside : place = source
    · exact .inr (hbeside ▸ hsame.locate_iff.1 hsource)
    · rw [← (grows_of_parentSteps hmade).textAt_eq place] at hne
      refine absurd (textAt_congr ?_) hne
      rw [node?_set _ _ _ _ (ne_nil_of_isDirectory_eq_false hold), if_neg htarget,
        node?_erase _ _ _ (ne_nil_of_isDirectory_eq_false hfree), if_neg hbeside]

/-! ## Writes -/

/-- A write to a place without a path on this machine fails and changes nothing. Otherwise, in
whatever pieces the text is written and wherever the call ends, the target is untouched until the
file beside takes its place, and can then be read with the whole new text; a call that returns
returns without a fault if and only if the file took its place; and no text changes but that of the
target and that of the file beside. A target that was not there and is there too soon has a path
that goes up, and so has the root of its file system. What the program does is one of these
courses. -/
theorem write_is_atomic (roots : Roots) (e : EfsPath) (content : String) (t : FileTree) :
    (∀ fault, roots.localPath e = .error fault →
      (roots.storage Step.take).write e content t = (some fault, t)) ∧
    ∀ target, roots.localPath e = .ok target →
      (∀ pieces done u ending, String.join pieces = content →
        Course (writeSteps target pieces) t done u ending →
        (.rename (besides target) target ∉ done → Untouched target t u) ∧
        (.rename (besides target) target ∈ done → u.read target = .ok content) ∧
        (∀ fault, ending = .returned fault →
          (fault = none ↔ .rename (besides target) target ∈ done)) ∧
        ∀ place, u.textAt place ≠ t.textAt place →
          u.locate target = .ok place ∨ u.locate (besides target) = .ok place) ∧
      (∀ root, roots.directories.get? e.fileSystem = some root → .up ∉ root.components →
        ¬ t.GoesUpFromNothing target) ∧
      ∀ result u, (roots.storage Step.take).write e content t = (result, u) →
        ∃ fault done, result = fault.map .io ∧
          Course (writeSteps target [content]) t done u (.returned fault) := by
  refine ⟨fun fault hlocal => Roots.write_of_error hlocal, ?_⟩
  intro target hlocal
  refine ⟨?_, fun root => not_goesUpFromNothing hlocal, ?_⟩
  · rintro pieces done u ending rfl hcourse
    rcases course_cases hcourse with ⟨hnot, hfills, hending⟩ | ⟨hdone, hwritten, hending⟩
    · refine ⟨fun _ => untouched_of_onlyFills hfills, fun h => absurd h hnot, ?_, ?_⟩
      · rintro fault rfl
        exact ⟨fun hnone => absurd (hnone ▸ rfl) hending, fun h => absurd h hnot⟩
      · exact fun place hne => .inr (hfills.locate_of_textAt_ne hne)
    · exact ⟨fun h => absurd hdone h, fun _ => read_of_written hwritten,
        fun fault hfault => ⟨fun _ => hdone, fun _ => hending fault hfault⟩,
        fun place hne => locate_of_written hwritten hne⟩
  · intro result u hwrite
    rw [Roots.write_eq hlocal] at hwrite
    obtain ⟨rfl, rfl⟩ := Prod.mk.inj hwrite
    have hsteps : runSteps (writeSteps target [content]) t =
        ((runSteps (writeSteps target [content]) t).1, _) := rfl
    obtain ⟨done, hcourse⟩ := exists_course_of_runSteps hsteps
    exact ⟨_, done, rfl, hcourse⟩

/-- With an old file in place and another left beside it, the machine stops after one piece of two:
the old text can still be read. It stops when the directory of another target is made: nothing is
there yet. A call that is not interrupted puts the new text in place. -/
theorem write_is_atomic_of_sample :
    let roots : Roots := ⟨OrderedMap.ofList [("fs-1", ⟨"/mnt"⟩)]⟩
    let e : EfsPath := ⟨"fs-1", ⟨"/x"⟩, by decide, by decide⟩
    let fresh : EfsPath := ⟨"fs-1", ⟨"/d/z"⟩, by decide, by decide⟩
    let t : FileTree := ⟨[(["mnt"], .directory), (["mnt", "x"], .file "old"),
      (["mnt", "x.tmp"], .file "stale")]⟩
    let done : List Step := [.makeDirectories ⟨"/mnt"⟩, .create ⟨"/mnt/x.tmp"⟩,
      .append ⟨"/mnt/x.tmp"⟩ "n"]
    let cut := (runSteps done t).2
    let made := (runSteps [.makeDirectories ⟨"/mnt/d"⟩] t).2
    roots.localPath e = .ok ⟨"/mnt/x"⟩ ∧ cut.textAt ["mnt", "x.tmp"] = some "n" ∧
      Course (writeSteps ⟨"/mnt/x"⟩ ["n", "ew"]) t done cut .crashed ∧
      cut.nodeOf ⟨"/mnt/x"⟩ = some (.file "old") ∧
      roots.localPath fresh = .ok ⟨"/mnt/d/z"⟩ ∧ t.Grounded ∧
      Course (writeSteps ⟨"/mnt/d/z"⟩ ["new"]) t [.makeDirectories ⟨"/mnt/d"⟩] made .crashed ∧
      made.isDirectory ["mnt", "d"] = true ∧ made.nodeOf ⟨"/mnt/d/z"⟩ = none ∧
      ∃ u, (roots.storage Step.take).write e "new" t = (none, u) ∧
        u.read ⟨"/mnt/x"⟩ = .ok "new" := by
  intro roots e fresh t done cut made
  have hlocal : roots.localPath e = .ok ⟨"/mnt/x"⟩ := by decide +kernel
  have hfresh : roots.localPath fresh = .ok ⟨"/mnt/d/z"⟩ := by decide +kernel
  have hgrounded : t.Grounded := grounded_of_all (by decide +kernel)
  have hcourse : Course (writeSteps ⟨"/mnt/x"⟩ ["n", "ew"]) t done cut .crashed :=
    ⟨cut, [.append ⟨"/mnt/x.tmp"⟩ "ew", .rename ⟨"/mnt/x.tmp"⟩ ⟨"/mnt/x"⟩], by decide +kernel,
      by decide +kernel, .crashed _⟩
  have hstops : Course (writeSteps ⟨"/mnt/d/z"⟩ ["new"]) t [.makeDirectories ⟨"/mnt/d"⟩] made
      .crashed :=
    ⟨made, [.create ⟨"/mnt/d/z.tmp"⟩, .append ⟨"/mnt/d/z.tmp"⟩ "new",
      .rename ⟨"/mnt/d/z.tmp"⟩ ⟨"/mnt/d/z"⟩], by decide +kernel, by decide +kernel, .crashed _⟩
  obtain ⟨hcourses, -, hcall⟩ := (write_is_atomic roots e "new" t).2 _ hlocal
  obtain ⟨hfreshCourses, hdown, -⟩ := (write_is_atomic roots fresh "new" t).2 _ hfresh
  have huntouched : Untouched ⟨"/mnt/x"⟩ t cut :=
    (hcourses _ _ _ _ (by decide +kernel) hcourse).1 (by decide +kernel)
  have hnothing : made.nodeOf ⟨"/mnt/d/z"⟩ = none := by
    have hleft := (hfreshCourses _ _ _ _ (by decide +kernel) hstops).1 (by decide +kernel)
    by_contra hthere
    exact hdown ⟨"/mnt"⟩ rfl (by decide) (hleft.absent hgrounded (by decide +kernel) hthere)
  refine ⟨hlocal, by decide +kernel, hcourse, huntouched.kept _ (by decide +kernel), hfresh,
    hgrounded, hstops, by decide +kernel, hnothing, ?_⟩
  have hnone : ((roots.storage Step.take).write e "new" t).1 = none := by decide +kernel
  have hwrite : (roots.storage Step.take).write e "new" t =
      (none, ((roots.storage Step.take).write e "new" t).2) := Prod.ext hnone rfl
  obtain ⟨fault, called, hresult, hends⟩ := hcall _ _ hwrite
  obtain ⟨-, hread, hreturned, -⟩ := hcourses _ _ _ _ (by decide +kernel) hends
  have hfault : fault = none := by simpa using hresult.symm
  exact ⟨_, hwrite, hread ((hreturned _ rfl).1 hfault)⟩

/-- The root of a second file system goes up from a directory that is not there, so its path to a
file of the first leads nowhere. A call that fails has made the directory, and the path leads to the
old file. -/
theorem failed_write_uncovers_a_file :
    let roots : Roots := ⟨OrderedMap.ofList [("fs-1", ⟨"/m"⟩), ("fs-2", ⟨"/m/x/.."⟩)]⟩
    let t : FileTree := ⟨[(["m"], .directory), (["m", "y"], .file "old"),
      (["m", "y.tmp"], .directory), (["m", "y.tmp", "z"], .file "1")]⟩
    let e : EfsPath := ⟨"fs-2", ⟨"/y"⟩, by decide, by decide⟩
    let target : Path := ⟨"/m/x/../y"⟩
    t.Grounded ∧ roots.localPath e = .ok target ∧ t.nodeOf target = none ∧
      ∃ done u, (roots.storage Step.take).write e "new" t = (some (.io .isDirectory), u) ∧
        Course (writeSteps target ["new"]) t done u (.returned (some .isDirectory)) ∧
        .rename (besides target) target ∉ done ∧ u.read target = .ok "old" := by
  intro roots t e target
  let before := (runSteps [.makeDirectories ⟨"/m/x/.."⟩] t).2
  let after := (Step.run before (.create ⟨"/m/x/../y.tmp"⟩)).1
  have hfault : ((roots.storage Step.take).write e "new" t).1 = some (.io .isDirectory) := by
    decide +kernel
  have hleft : ((roots.storage Step.take).write e "new" t).2 = after := by decide +kernel
  have hfails : (Step.run before (.create ⟨"/m/x/../y.tmp"⟩)).2 = some .isDirectory := by
    decide +kernel
  have hcourse : Course (writeSteps target ["new"]) t [.makeDirectories ⟨"/m/x/.."⟩] after
      (.returned (some .isDirectory)) :=
    ⟨before, [.create ⟨"/m/x/../y.tmp"⟩, .append ⟨"/m/x/../y.tmp"⟩ "new",
      .rename ⟨"/m/x/../y.tmp"⟩ target], by decide +kernel, by decide +kernel, .failed _ hfails⟩
  exact ⟨grounded_of_all (by decide +kernel), by decide +kernel, by decide +kernel, _, _,
    Prod.ext hfault hleft, hcourse, by decide +kernel, by decide +kernel⟩

end JobStaging.Storage
