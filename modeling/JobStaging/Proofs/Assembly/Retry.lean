import JobStaging.Proofs.Assembly.Running
import JobStaging.Proofs.Storage.Writing

/-!
# Staging a request once more

Planning draws on nothing but the request, the configuration and what is answered to lookups: even
a random selection has its seed from the identifier of the execution. So a second run plans what the
first one planned, and asks for the same write. A storage that settles takes that write again and
stays as it is (`run_again`), and a file tree under mounted file systems settles. Hence
`prepare_again`: a call that was answered may be repeated, with the same answer and without a trace.
-/

set_option autoImplicit false

namespace JobStaging.Assembly

open Storage (FileTree Step)

variable {σ : Type} {config : Config} {r : Resolver} {storage : Storage (StateM σ)}
  {request : Request} {s : σ}

/-- A run on what an answered run leaves behind is that run again. -/
theorem run_again (hsettles : storage.Settles) {response : Response}
    (h : (run config r storage request s).outcome.answer = .ok response) :
    run config r storage request (run config r storage request s).state =
      run config r storage request s := by
  rcases run_cases config r storage request s with
    ⟨fault, hplan⟩ | ⟨st, hfile⟩ | ⟨st, file, fault, after, hfile, hwrite⟩
  · rw [run_of_error hplan] at h
    cases h
  · have hrun : run config r storage request s =
        ⟨⟨.ok st.response, (plan config r request).queries⟩, s, []⟩ := run_of_inline st hfile
    rw [hrun]
    exact hrun
  · have hrun := run_of_file st hfile hwrite
    rw [hrun] at h ⊢
    -- The answer shows that the write was taken, so it is taken again.
    obtain ⟨rfl, -⟩ := st.answer_eq_ok_iff.1 h
    exact run_of_file st hfile (hsettles _ _ _ _ hwrite)

/-- A request that was staged with its file written to a tree of files is staged again on the tree
that was left: the answer and the lookups are the same, and the tree stays as it is. -/
theorem prepare_again {roots : Storage.Roots} {tree after : FileTree} {outcome : Outcome}
    {response : Response}
    (h : (prepare config r (roots.storage Step.take) request).run tree = (outcome, after))
    (hanswer : outcome.answer = .ok response) :
    (prepare config r (roots.storage Step.take) request).run after = (outcome, after) := by
  rw [run_prepare] at h ⊢
  obtain ⟨houtcome, hafter⟩ := Prod.mk.inj h
  have hagain : run config r (roots.storage Step.take) request after =
      run config r (roots.storage Step.take) request tree := by
    rw [← hafter]
    apply run_again (Storage.Roots.settles_storage roots)
    rw [houtcome]
    exact hanswer
  rw [hagain, houtcome, hafter]

/-- The file system of the jobs at a directory of this machine. -/
def sampleRoots : Storage.Roots := ⟨OrderedMap.ofList [("fs-1", ⟨"/mnt/../mnt/efs/"⟩)]⟩

/-- A tree in which an earlier write for the sample execution was interrupted. -/
def sampleTree : FileTree :=
  ⟨[(["mnt"], .directory), (["mnt", "efs"], .directory), (["mnt", "efs", "jobs"], .directory),
    (["mnt", "efs", "jobs", "run-1"], .directory),
    (["mnt", "efs", "jobs", "run-1", ".demand.env.tmp"], .file "export EXEC")]⟩

/-- The first run takes the half-written file away, and the second finds nothing to do. -/
theorem prepare_again_of_sample :
    let stage := (prepare .standard sampleInventory.resolver (sampleRoots.storage Step.take)
      sampleRequest).run
    ∃ outcome after response, stage sampleTree = (outcome, after) ∧
      outcome.answer = .ok response ∧ after ≠ sampleTree ∧ stage after = (outcome, after) := by
  intro stage
  have hok : (stage sampleTree).1.answer.isOk = true := by decide +kernel
  have hgone : (stage sampleTree).2.node? ["mnt", "efs", "jobs", "run-1", ".demand.env.tmp"] =
      none := by decide +kernel
  have hthere : sampleTree.node? ["mnt", "efs", "jobs", "run-1", ".demand.env.tmp"] ≠ none := by
    decide +kernel
  have hfirst : stage sampleTree = ((stage sampleTree).1, (stage sampleTree).2) :=
    Prod.mk.eta.symm
  generalize (stage sampleTree).1 = outcome at hok hfirst
  generalize (stage sampleTree).2 = after at hgone hfirst
  obtain ⟨response, hresponse⟩ : ∃ response, outcome.answer = .ok response := by
    cases hanswer : outcome.answer with
    | error fault =>
      rw [hanswer] at hok
      cases hok
    | ok response => exact ⟨response, rfl⟩
  refine ⟨outcome, after, response, hfirst, hresponse, ?_, prepare_again hfirst hresponse⟩
  rintro rfl
  exact hthere hgone

end JobStaging.Assembly
