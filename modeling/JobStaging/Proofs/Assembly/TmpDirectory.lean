import JobStaging.Proofs.Assembly.Isolation
import JobStaging.Proofs.Assembly.Visibility

/-!
# The directory for temporary files

Without a role of its own the directory for temporary files is `tmp` on the mount of the working
directories, and all executions there share it. It lies beside the working directories, which have
identifiers as names, so it is none of them and lies below none of them, with one exception: `tmp`
is a single segment and passes for an identifier. An execution of this name works among everybody's
temporary files, and cleaning up after it removes them. `tmp_directory_kept_iff` says that there is
no other way.
-/

set_option autoImplicit false

namespace JobStaging.Assembly

variable {σ σ' : Type} {config config' : Config} {r r' : Resolver} {storage : Storage (StateM σ)}
  {storage' : Storage (StateM σ')} {request request' : Request} {s : σ} {s' : σ'}
  {response response' : Response} {mounts mounts' : Mounts}

namespace Stages

/-- The job learns where its temporary files go. -/
theorem get?_tmpDir (st : Stages config r request) :
    st.response.setup.job.environment.get? "TMPDIR" = some st.dirs.tmp.text := by
  apply st.get?_environment
  intro file
  cases file <;> rfl

/-- Without a mount of its own the temporary directory lies right below that of the working
directory. -/
theorem components_tmp_of_none (st : Stages config r request) (hnone : st.mounts.tmp = none) :
    st.dirs.tmp.components = st.mounts.scratch.path.components ++ [.name "tmp"] := by
  have hrelative : (Path.mk "tmp").isAbsolute = false := by decide
  have hsteps : (Path.mk "tmp").steps = [.name "tmp"] := by decide
  rw [(directories_eq_ok_iff.1 st.dirs_eq).2.2, hnone, ← hsteps]
  exact Path.components_join st.isAbsolute_scratch hrelative

/-- With one it is the mount itself. -/
theorem tmp_eq_of_some (st : Stages config r request) {m : Mount}
    (hsome : st.mounts.tmp = some m) : st.dirs.tmp = m.path := by
  rw [(directories_eq_ok_iff.1 st.dirs_eq).2.2, hsome]
  rfl

/-- There is no mount for temporary files where there are no candidates for one. -/
theorem tmp_eq_none (st : Stages config r request)
    (hnone : request.placement.tmpCandidates = none) : st.mounts.tmp = none := by
  have htmp := mountTmp_eq_ok_iff.1 (mountAll_eq_ok_iff.1 st.mounts_eq).2.2
  rw [hnone] at htmp
  exact Option.toList_eq_nil_iff.1 (List.forall₂_nil_left_iff.1 htmp)

/-- The temporary directory beside the working directories has its place right below the root of
their access point. -/
theorem exists_efsPath_tmp (st : Stages config r request) (hnone : st.mounts.tmp = none) :
    ∃ place, st.mounts.scratch.efsPath st.dirs.tmp = .ok place ∧
      place.fileSystem = st.mounts.scratch.fileSystem ∧
      place.path.components = st.mounts.scratch.root.components ++ [.name "tmp"] := by
  have htmp := st.components_tmp_of_none hnone
  exact st.shows_working.exists_efsPath st.isAbsolute_scratch htmp

end Stages

/-- The working directory and the temporary directory of one job are different directories, except
where the one is called `tmp` and no mount is made for the other, or where such a mount is made at
the working directory itself. If another execution has its working directory in the same file system
and below the same root, and no mount for its temporary files, then the removal of the working
directory of the first reaches the temporary directory of the other exactly when the first is called
`tmp`. -/
theorem tmp_directory_kept_iff
    (h : ((prepare config r storage request).run s).1.answer = .ok response)
    (h' : ((prepare config' r' storage' request').run s').1.answer = .ok response')
    (hmounts : (mountAll config r request.execution.id request.placement).outcome = .ok mounts)
    (hmounts' : (mountAll config' r' request'.execution.id request'.placement).outcome =
      .ok mounts') :
    let id := request.execution.id
    ∃ dirs dirs', directories mounts id = .ok dirs ∧
      directories mounts' request'.execution.id = .ok dirs' ∧
      response.setup.job.environment.get? "WORKING_DIR" = some dirs.working.container.text ∧
      response.setup.job.environment.get? "TMPDIR" = some dirs.tmp.text ∧
      response'.setup.job.environment.get? "TMPDIR" = some dirs'.tmp.text ∧
      (request.handling.cleanupWorkingDir = true →
        ⟨[.efs dirs.working.efs]⟩ ∈ response.cleanup.removals) ∧
      (mounts.tmp = none →
        (dirs.working.container.components = dirs.tmp.components ↔ id = "tmp")) ∧
      (∀ m, mounts.tmp = some m → (dirs.working.container.components = dirs.tmp.components ↔
        m.path.components = mounts.scratch.path.components ++ [.name id])) ∧
      (request'.placement.tmpCandidates = none →
        mounts.scratch.fileSystem = mounts'.scratch.fileSystem →
        mounts.scratch.root.components = mounts'.scratch.root.components →
        dirs'.tmp = mounts'.scratch.path.join ⟨"tmp"⟩ ∧
        ∃ tmp', mounts'.scratch.efsPath dirs'.tmp = .ok tmp' ∧
          (dirs.working.efs.fileSystem = tmp'.fileSystem ∧
            dirs.working.efs.path.components <+: tmp'.path.components ↔ id = "tmp")) := by
  intro id
  rw [run_prepare] at h h'
  obtain ⟨st, rfl, -⟩ := exists_stages_of_answer h
  obtain ⟨st', rfl, -⟩ := exists_stages_of_answer h'
  obtain rfl : st.mounts = mounts := Except.ok.inj (st.mounts_eq.symm.trans hmounts)
  obtain rfl : st'.mounts = mounts' := Except.ok.inj (st'.mounts_eq.symm.trans hmounts')
  refine ⟨st.dirs, st'.dirs, st.dirs_eq, st'.dirs_eq, st.get?_workingDir, st.get?_tmpDir,
    st'.get?_tmpDir, ?_, ?_, ?_, ?_⟩
  · intro hasked
    exact st.mem_removals_iff.2 (.inr ⟨hasked, rfl⟩)
  · intro hnone
    rw [st.components_container, st.components_tmp_of_none hnone, List.append_cancel_left_eq]
    simp [id]
  · intro m hsome
    rw [st.components_container, st.tmp_eq_of_some hsome]
    exact eq_comm
  · intro hnone' hsystem hroot
    have htmp' := st'.tmp_eq_none hnone'
    obtain ⟨tmp', hplace, hsystem', hbelow⟩ := st'.exists_efsPath_tmp htmp'
    obtain ⟨hworking, hpath⟩ := st.components_working
    refine ⟨?_, tmp', hplace, ?_⟩
    · rw [(directories_eq_ok_iff.1 st'.dirs_eq).2.2, htmp']
      rfl
    · rw [hworking, hsystem', hpath, hbelow, hroot, append_name_prefix_iff]
      exact and_iff_right hsystem

/-- An execution whose identifier begins with `tmp` is cleaned up beside the temporary files of
another. -/
theorem tmp_directory_kept_iff_of_sample :
    let outcome := ((prepare .standard sampleInventory.resolver .acceptAll
      (isolatedRequest "tmp-1")).run ()).1
    let outcome' := ((prepare .standard sampleInventory.resolver .acceptAll
      (isolatedRequest "run-1")).run ()).1
    ∃ response response' mounts dirs dirs' tmp', outcome.answer = .ok response ∧
      outcome'.answer = .ok response' ∧ directories mounts "tmp-1" = .ok dirs ∧
      directories mounts "run-1" = .ok dirs' ∧
      ⟨[.efs dirs.working.efs]⟩ ∈ response.cleanup.removals ∧
      dirs.working.container.components ≠ dirs.tmp.components ∧
      response'.setup.job.environment.get? "TMPDIR" = some dirs'.tmp.text ∧
      mounts.scratch.efsPath dirs'.tmp = .ok tmp' ∧
      ¬ (dirs.working.efs.fileSystem = tmp'.fileSystem ∧
        dirs.working.efs.path.components <+: tmp'.path.components) := by
  intro outcome outcome'
  have hanswer : ∃ response, outcome.answer = .ok response := ⟨_, rfl⟩
  have hanswer' : ∃ response', outcome'.answer = .ok response' := ⟨_, rfl⟩
  have hmounts : ∃ mounts,
      (mountAll .standard sampleInventory.resolver "tmp-1" sampleRequest.placement).outcome =
        .ok mounts ∧
      (mountAll .standard sampleInventory.resolver "run-1" sampleRequest.placement).outcome =
        .ok mounts ∧ mounts.tmp = none := ⟨_, rfl, rfl, rfl⟩
  obtain ⟨response, hresponse⟩ := hanswer
  obtain ⟨response', hresponse'⟩ := hanswer'
  obtain ⟨mounts, hmount, hmount', hnone⟩ := hmounts
  obtain ⟨dirs, dirs', hdirs, hdirs', -, -, htmp, hremoval, hapart, -, hother⟩ :=
    tmp_directory_kept_iff hresponse hresponse' hmount hmount'
  obtain ⟨-, tmp', hplace, hreaches⟩ := hother rfl rfl rfl
  have hname : "tmp-1" ≠ "tmp" := by decide
  exact ⟨response, response', mounts, dirs, dirs', tmp', hresponse, hresponse', hdirs, hdirs',
    hremoval rfl, fun hsame => hname ((hapart hnone).1 hsame), htmp, hplace,
    fun hreached => hname (hreaches.1 hreached)⟩

/-- An execution with the identifier `tmp` works in its temporary directory, which is that of all
others, and the removal of the one removes the other. -/
theorem removal_takes_the_tmp_directory :
    let outcome := ((prepare .standard sampleInventory.resolver .acceptAll
      (isolatedRequest "tmp")).run ()).1
    let outcome' := ((prepare .standard sampleInventory.resolver .acceptAll
      (isolatedRequest "run-1")).run ()).1
    ∃ response response' mounts dirs dirs' tmp' copies, outcome.answer = .ok response ∧
      outcome'.answer = .ok response' ∧
      (mountAll .standard sampleInventory.resolver "tmp" sampleRequest.placement).outcome =
        .ok mounts ∧
      (mountAll .standard sampleInventory.resolver "run-1" sampleRequest.placement).outcome =
        .ok mounts ∧
      mounts.tmp = none ∧ directories mounts "tmp" = .ok dirs ∧
      directories mounts "run-1" = .ok dirs' ∧
      response.setup.job.environment.get? "WORKING_DIR" = some "/opt/efs/scratch/tmp" ∧
      response.setup.job.environment.get? "TMPDIR" = some "/opt/efs/scratch/tmp" ∧
      response'.setup.job.environment.get? "TMPDIR" = some "/opt/efs/scratch/tmp" ∧
      response.cleanup.removals = [copies, ⟨[.efs dirs.working.efs]⟩] ∧
      mounts.scratch.efsPath ⟨"/opt/efs/scratch/tmp"⟩ = .ok tmp' ∧
      dirs.working.efs.fileSystem = tmp'.fileSystem ∧
      dirs.working.efs.path.components = tmp'.path.components :=
  ⟨_, _, _, _, _, _, _, rfl, rfl, rfl, rfl, rfl, rfl, rfl, rfl, rfl, rfl, rfl, rfl, rfl, by decide⟩

end JobStaging.Assembly
