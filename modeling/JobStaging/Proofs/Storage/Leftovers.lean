import JobStaging.Proofs.Storage.Interruption

/-!
# What a failed write leaves behind

A write that fails may have made directories. Whether it has touched a file depends on how far it
got. As long as the file beside the target cannot be created all files stay as they were, be it for
want of a mount, because the place leads up, or because something is in the way
(`textAt_of_not_fillsBeside`). But once that file is created it is filled, and if it then cannot
take the place of the target, nothing takes it away again (`eq_set_of_fillsBeside`). The only reason
for that is the target itself: a directory stands there, or the path does not name a file. The main
statement, `failed_write_keeps_files_iff`, says exactly when all files are kept, and
`failed_write_leaves_a_file` is a call that leaves one more.
-/

set_option autoImplicit false

namespace JobStaging.Storage

open FileTree

variable {roots : Roots} {e : EfsPath} {content : String} {t u made : FileTree}
  {place source : Place} {target : Path} {fault : Error}

/-- A call gets as far as to fill the file beside its target: the place has a path on this machine,
the directories above it can be made, and no directory stands where the file beside belongs. -/
structure FillsBeside (roots : Roots) (e : EfsPath) (t : FileTree) (target : Path)
    (made : FileTree) (source : Place) : Prop where
  localPath : roots.localPath e = .ok target
  parents : runSteps (parentSteps target) t = (none, made)
  located : made.locate (besides target) = .ok source
  free : made.isDirectory source = false

/-- Of a call that fails after it filled the file beside, that file is left. -/
theorem eq_set_of_fillsBeside (h : FillsBeside roots e t target made source)
    (hwrite : (roots.storage Step.take).write e content t = (some fault, u)) :
    u = made.set source (.file content) := by
  -- Up to the last step nothing can fail any more, so it is the last one that did.
  have hready : runSteps (readySteps target [content]) t =
      (none, made.set source (.file content)) := by
    have hjoin : String.join [content] = content := by simp [String.join]
    refine runSteps_append_iff.2 ⟨made, h.parents, runSteps_fill_iff.2 ⟨source, h.located, h.free,
      wantsDirectory_besides target, ?_⟩⟩
    rw [hjoin]
  rw [Roots.write_eq h.localPath, writeSteps_eq, runSteps_append_of_none _ hready] at hwrite
  rw [runSteps_singleton] at hwrite
  obtain ⟨hfault, rfl⟩ := Prod.mk.inj hwrite
  obtain ⟨reason, hrename, -⟩ := Option.map_eq_some_iff.1 hfault
  exact run_rename_of_fault hrename

/-- It was the target that stood in the way. -/
theorem blocked_of_fillsBeside (h : FillsBeside roots e t target made source)
    (hwrite : (roots.storage Step.take).write e content t = (some fault, u))
    (hplace : made.locate target = .ok place) (hnames : NamesFile target) :
    made.isDirectory place = true := by
  by_contra hfree
  rw [Bool.not_eq_true] at hfree
  have hwritten : runSteps (writeSteps target [content]) t = (none, _) :=
    runSteps_writeSteps_iff.2 ⟨made, source, place, h.parents, h.located, h.free,
      wantsDirectory_besides target, hplace, hfree, hnames, rfl⟩
  rw [Roots.write_eq_none_iff.2 ⟨target, h.localPath, hwritten⟩] at hwrite
  cases hwrite

/-- The texts of a call that fails after it filled the file beside: that of this file is the whole
new text, and the others stay as they were. -/
theorem textAt_of_fillsBeside (h : FillsBeside roots e t target made source)
    (hwrite : (roots.storage Step.take).write e content t = (some fault, u)) :
    u.textAt place = if place = source then some content else t.textAt place := by
  rw [eq_set_of_fillsBeside h hwrite, ← (grows_of_parentSteps h.parents).textAt_eq]
  unfold textAt
  rw [node?_set _ _ _ _ (ne_nil_of_isDirectory_eq_false h.free)]
  by_cases hsource : place = source
  · rw [if_pos hsource, if_pos hsource]
  · rw [if_neg hsource, if_neg hsource]

/-- A call that fails and never filled the file beside has touched no file. -/
theorem textAt_of_not_fillsBeside
    (h : ¬ ∃ target made source, FillsBeside roots e t target made source)
    (hwrite : (roots.storage Step.take).write e content t = (some fault, u)) :
    u.textAt place = t.textAt place := by
  cases hlocal : roots.localPath e with
  | error reason =>
    rw [Roots.write_of_error hlocal] at hwrite
    cases hwrite
    rfl
  | ok target =>
    rw [Roots.write_eq hlocal, writeSteps_eq, readySteps, List.append_assoc] at hwrite
    obtain ⟨-, rfl⟩ := Prod.mk.inj hwrite
    cases hparents : runSteps (parentSteps target) t with
    | mk reason made =>
      have hgrows := grows_of_parentSteps hparents
      cases reason with
      | some reason =>
        rw [runSteps_append_of_some _ hparents]
        exact hgrows.textAt_eq place
      | none =>
        rw [runSteps_append_of_none _ hparents, List.cons_append]
        cases hcreate : made.create (besides target) with
        | ok opened =>
          obtain ⟨source, hsource, hfree, -⟩ := create_eq_ok_iff.1 hcreate
          exact absurd ⟨target, made, source, hlocal, hparents, hsource, hfree⟩ h
        | error reason =>
          have hrun : Step.run made (.create (besides target)) = (made, some reason) :=
            congrArg made.orUnchanged hcreate
          rw [runSteps_cons_of_some _ (congrArg Prod.snd hrun), hrun]
          exact hgrows.textAt_eq place

/-- A failed write leaves all files with the texts that they had if and only if it never filled the
file beside its target, or that file held the very text before. If it filled it, that file is left
with the whole new text, all others are as they were, and the target is a directory unless its path
does not name a file or leads nowhere. -/
theorem failed_write_keeps_files_iff
    (hwrite : (roots.storage Step.take).write e content t = (some fault, u)) :
    ((∀ place, u.textAt place = t.textAt place) ↔
      ∀ target made source, FillsBeside roots e t target made source →
        t.textAt source = some content) ∧
    ∀ target made source, FillsBeside roots e t target made source →
      u.textAt source = some content ∧
      (∀ place, place ≠ source → u.textAt place = t.textAt place) ∧
      ∀ place, made.locate target = .ok place → NamesFile target →
        made.isDirectory place = true := by
  refine ⟨⟨?_, ?_⟩, ?_⟩
  · intro hsame target made source hfills
    rw [← hsame source, textAt_of_fillsBeside hfills hwrite, if_pos rfl]
  · intro hheld place
    by_cases hfills : ∃ target made source, FillsBeside roots e t target made source
    · obtain ⟨target, made, source, hfills⟩ := hfills
      rw [textAt_of_fillsBeside hfills hwrite]
      split
      · next hsource => rw [hsource, hheld target made source hfills]
      · rfl
    · exact textAt_of_not_fillsBeside hfills hwrite
  · intro target made source hfills
    refine ⟨?_, ?_, fun place => blocked_of_fillsBeside hfills hwrite⟩
    · rw [textAt_of_fillsBeside hfills hwrite, if_pos rfl]
    · intro place hne
      rw [textAt_of_fillsBeside hfills hwrite, if_neg hne]

/-- Where a file stands in place of a directory on the way all files are kept. Where a directory
stands in place of the target the file that was beside it is lost. -/
theorem failed_write_keeps_files_iff_of_samples :
    let roots : Roots := ⟨OrderedMap.ofList [("fs-1", ⟨"/mnt"⟩)]⟩
    let t : FileTree := ⟨[(["mnt"], .directory), (["mnt", "f"], .file "1"),
      (["mnt", "d"], .directory), (["mnt", "d.tmp"], .file "kept")]⟩
    let below : EfsPath := ⟨"fs-1", ⟨"/f/x"⟩, by decide, by decide⟩
    let onto : EfsPath := ⟨"fs-1", ⟨"/d"⟩, by decide, by decide⟩
    (∃ u, (roots.storage Step.take).write below "2" t = (some (.io .exists), u) ∧
      ∀ place, u.textAt place = t.textAt place) ∧
    ∃ u, (roots.storage Step.take).write onto "2" t = (some (.io .isDirectory), u) ∧
      ¬ (∀ place, u.textAt place = t.textAt place) ∧
      u.textAt ["mnt", "d.tmp"] = some "2" ∧
      ∀ place, place ≠ ["mnt", "d.tmp"] → u.textAt place = t.textAt place := by
  intro roots t below onto
  refine ⟨⟨((roots.storage Step.take).write below "2" t).2, ?_⟩,
    ⟨((roots.storage Step.take).write onto "2" t).2, ?_⟩⟩
  · have hfault : ((roots.storage Step.take).write below "2" t).1 = some (.io .exists) := by
      decide +kernel
    refine ⟨Prod.ext hfault rfl,
      (failed_write_keeps_files_iff (Prod.ext hfault rfl)).1.2 fun target made source hfills => ?_⟩
    have hlocal : roots.localPath below = .ok ⟨"/mnt/f/x"⟩ := by decide +kernel
    obtain rfl : target = ⟨"/mnt/f/x"⟩ := Except.ok.inj (hfills.localPath.symm.trans hlocal)
    have hparents : (runSteps (parentSteps ⟨"/mnt/f/x"⟩) t).1 = some .exists := by decide +kernel
    rw [hfills.parents] at hparents
    cases hparents
  · have hfault : ((roots.storage Step.take).write onto "2" t).1 = some (.io .isDirectory) := by
      decide +kernel
    have hfills : FillsBeside roots onto t ⟨"/mnt/d"⟩ t ["mnt", "d.tmp"] :=
      ⟨by decide +kernel, by decide +kernel, by decide +kernel, by decide +kernel⟩
    obtain ⟨hkeeps, hleft⟩ := failed_write_keeps_files_iff (Prod.ext hfault rfl)
    obtain ⟨htext, hothers, -⟩ := hleft _ _ _ hfills
    refine ⟨Prod.ext hfault rfl, fun hall => ?_, htext, hothers⟩
    have hheld := hkeeps.1 hall _ _ _ hfills
    revert hheld
    decide +kernel

/-- A directory stands in place of the target: the call fails, and a file is there that was not
there before. -/
theorem failed_write_leaves_a_file :
    let roots : Roots := ⟨OrderedMap.ofList [("fs-1", ⟨"/m"⟩)]⟩
    let t : FileTree := ⟨[(["m"], .directory), (["m", "d"], .directory),
      (["m", "d", "f"], .file "1")]⟩
    let e : EfsPath := ⟨"fs-1", ⟨"/d"⟩, by decide, by decide⟩
    ∃ u, (roots.storage Step.take).write e "2" t = (some (.io .isDirectory), u) ∧
      t.textAt ["m", "d.tmp"] = none ∧ u.textAt ["m", "d.tmp"] = some "2" := by
  intro roots t e
  have hfault : ((roots.storage Step.take).write e "2" t).1 = some (.io .isDirectory) := by
    decide +kernel
  exact ⟨_, Prod.ext hfault rfl, by decide +kernel⟩

end JobStaging.Storage
