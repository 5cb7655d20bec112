import JobStaging.Proofs.Assembly.Running
import JobStaging.Proofs.Environment.Delivery

/-!
# The file of variables, the environment and the command

A job that reads its variables from a file needs three things that are made in three places: the
file itself, the helper variable with the path at which the job finds it, and a command that sources
it. `env_file_agrees` says that a successful run makes all of them or none, that the helper variable
leads through the mount of the working directory to the very file that was written, and what that
file holds.
-/

set_option autoImplicit false

namespace JobStaging.Environment

variable {command words : List String} {preamble : Option (List String)}

/-- The name of the file starts at no root. -/
theorem isAbsolute_fileName : fileName.isAbsolute = false := by decide

/-- It is one step. -/
theorem steps_fileName : fileName.steps = [.name ".demand.env"] := by decide

/-- A command is built when there is one, and runs its script. -/
theorem buildCommand_eq_ok_iff : buildCommand command preamble = .ok words ↔
    command ≠ [] ∧ words = ["/bin/bash", "-c", script command preamble] := by
  unfold buildCommand
  cases command with
  | nil => simp
  | cons first rest => simp [eq_comm]

/-- Without a preamble a script is the command behind what every script begins with. -/
theorem script_none (command : List String) :
    script command none = bootstrap ++ " ".intercalate command := by
  unfold script
  rw [String.append_empty]

/-- With one, the command comes after the file was sourced. -/
theorem script_readFile (command : List String) : script command (some readFile) =
    bootstrap ++ ". $\x7b_ENVIRONMENT_FILE\x7d && " ++ " ".intercalate command := rfl

/-- A script that sources the file is longer than the one of the same command that does not. -/
theorem script_readFile_ne (command : List String) :
    script command (some readFile) ≠ script command none := by
  intro h
  have hlength := congrArg String.length h
  have hword : 0 < ". $\x7b_ENVIRONMENT_FILE\x7d && ".length := by decide
  rw [script_readFile, script_none] at hlength
  simp only [String.length_append] at hlength
  omega

end JobStaging.Environment

namespace JobStaging.Assembly

variable {σ : Type} {config : Config} {r : Resolver} {storage : Storage (StateM σ)}
  {request : Request} {s : σ} {response : Response}

namespace Stages

/-- The variables of the job that a file may hold. -/
def own (st : Stages config r request) : OrderedMap String :=
  Environment.ownVariables request.execution.id st.vars

/-- The names of the variables passed. -/
theorem names_pass (st : Stages config r request) :
    st.vars.keys.forM Environment.checkName = .ok () := by
  obtain ⟨hnames, hvars⟩ := Environment.jobVariables_eq_ok_iff.1 st.vars_eq
  rw [hvars, OrderedMap.keys_mapValues]
  exact hnames

/-- So the names of the job's own variables are known. -/
theorem ownNames (st : Stages config r request) : Environment.OwnNames st.own :=
  Environment.ownNames_ownVariables request.execution.id st.names_pass

/-- The identifier comes first, and then the rewritten parameters in their order. -/
theorem entries_own (st : Stages config r request) : st.own.entries =
    ("EXECUTION_ID", request.execution.id) ::
      st.relocated.parameters.values.entries.map fun e => (e.1, e.2.envValue) := by
  have hnames := Environment.checkNames_eq_ok_iff.1 st.names_pass
  obtain ⟨-, hvars⟩ := Environment.jobVariables_eq_ok_iff.1 st.vars_eq
  unfold own
  rw [Environment.entries_ownVariables fun n hn => (hnames n hn).2, hvars]
  rfl

/-- Variables are delivered inline or by a file. -/
theorem delivery_cases (st : Stages config r request) :
    st.delivery = Environment.deliverByFile (infrastructure config st.dirs) st.own st.dirs.working ∨
      st.delivery = Environment.deliverInline (infrastructure config st.dirs) st.own :=
  Environment.plan_cases ..

/-- In the container the working directory lies right below the mount of its role. -/
theorem components_container (st : Stages config r request) :
    st.dirs.working.container.components =
      st.mounts.scratch.path.components ++ [.name request.execution.id] := by
  obtain ⟨-, ⟨hsegment, -⟩, -⟩ := admittedQueue_eq_ok_iff.1 st.queue_eq
  obtain ⟨hcontainer, -⟩ := mountedPath_eq_ok_iff.1 (directories_eq_ok_iff.1 st.dirs_eq).1
  rw [hcontainer, Path.components_join st.isAbsolute_scratch (isAbsolute_of_isSegment hsegment),
    steps_of_isSegment hsegment]

/-- The working directory lies right below the root of its mount's access point, under the
identifier of the execution. -/
theorem components_working (st : Stages config r request) :
    st.dirs.working.efs.fileSystem = st.mounts.scratch.fileSystem ∧
      st.dirs.working.efs.path.components =
        st.mounts.scratch.root.components ++ [.name request.execution.id] :=
  st.shows_working.place st.isAbsolute_scratch st.components_container

/-- The file lies in the working directory. -/
theorem components_file (st : Stages config r request) :
    (st.dirs.working.join Environment.fileName).efs.path.components =
      st.mounts.scratch.root.components ++
        [.name request.execution.id, .name ".demand.env"] := by
  calc (st.dirs.working.join Environment.fileName).efs.path.components
      = st.dirs.working.efs.path.components ++ Environment.fileName.steps :=
        EfsPath.components_join _ Environment.isAbsolute_fileName
    _ = _ := by
      rw [st.components_working.2, Environment.steps_fileName, List.append_assoc]
      rfl

/-- The mount of the working directory shows the file where it is written. -/
theorem shows_file (st : Stages config r request) :
    st.mounts.scratch.Shows (st.dirs.working.join Environment.fileName) :=
  st.shows_working.join st.isAbsolute_scratch Environment.isAbsolute_fileName

/-- The command of the job runs the script that fits the delivery. -/
theorem command_eq_script (st : Stages config r request) : st.response.setup.job.command =
    ["/bin/bash", "-c",
      Environment.script st.relocated.parameters.command st.delivery.preamble] :=
  (Environment.buildCommand_eq_ok_iff.1 st.command_eq).2

/-- With a file, everything that the job needs to read it is there. -/
theorem of_deliverByFile (st : Stages config r request)
    (hfile : st.delivery =
      Environment.deliverByFile (infrastructure config st.dirs) st.own st.dirs.working) :
    st.delivery.file =
        some ⟨(st.dirs.working.join Environment.fileName).efs, Environment.render st.own⟩ ∧
      st.response.setup.job.environment.get? "_ENVIRONMENT_FILE" =
        some (st.dirs.working.join Environment.fileName).container.text ∧
      st.response.setup.job.command = ["/bin/bash", "-c",
        Environment.script st.relocated.parameters.command (some Environment.readFile)] := by
  have henvironment : st.response.setup.job.environment = st.delivery.inline := rfl
  rw [henvironment, st.command_eq_script, hfile]
  exact ⟨rfl, Environment.get?_environmentFile _, rfl⟩

/-- Without a file, nothing speaks of one. -/
theorem of_deliverInline (st : Stages config r request)
    (hinline : st.delivery =
      Environment.deliverInline (infrastructure config st.dirs) st.own) :
    st.delivery.file = none ∧
      "_ENVIRONMENT_FILE" ∉ st.response.setup.job.environment.keys ∧
      st.response.setup.job.command = ["/bin/bash", "-c",
        Environment.script st.relocated.parameters.command none] := by
  have henvironment : st.response.setup.job.environment = st.delivery.inline := rfl
  rw [henvironment, st.command_eq_script, hinline]
  exact ⟨rfl, Environment.environmentFile_notMem_deliverInline st.ownNames, rfl⟩

/-- However the variables are delivered, those that say where the job runs are passed inline, before
all others. -/
theorem exists_entries_environment (st : Stages config r request) :
    ∃ file more, st.response.setup.job.environment.entries =
      (infrastructure config st.dirs).entries file ++ more := by
  have henvironment : st.response.setup.job.environment = st.delivery.inline := rfl
  rw [henvironment]
  rcases st.delivery_cases with hdelivery | hdelivery
  · rw [hdelivery, Environment.entries_deliverByFile]
    exact ⟨_, [], (List.append_nil _).symm⟩
  · rw [hdelivery, Environment.entries_deliverInline st.ownNames]
    exact ⟨none, _, rfl⟩

/-- So each of them has its value in the job's environment. -/
theorem get?_environment (st : Stages config r request) {name value : String}
    (h : ∀ file, ((infrastructure config st.dirs).entries file).lookup name = some value) :
    st.response.setup.job.environment.get? name = some value := by
  obtain ⟨file, more, hentries⟩ := st.exists_entries_environment
  unfold OrderedMap.get?
  rw [hentries, List.lookup_append, h file]
  rfl

/-- The file holds what its shell will read as the identifier and the rewritten parameters. -/
theorem read_own (st : Stages config r request) (joins : Bool) :
    Environment.ShellText.read joins (Environment.render st.own) =
      some (("EXECUTION_ID", request.execution.id) ::
        st.relocated.parameters.values.entries.map fun e => (e.1, e.2.envValue)) := by
  rw [← st.entries_own]
  exact Environment.read_own joins st.ownNames

end Stages

/-- A successful run writes a file of variables exactly when the job's environment has the helper
variable, and exactly when the job's command sources the file; otherwise the command follows the
bootstrap directly. The helper variable then leads, through the mount of the working directory, to
the place that was written, which lies below the root of the access point under the identifier of
the execution. The file lists the identifier and then the rewritten parameters in their order, and a
shell reads it so. -/
theorem env_file_agrees
    (h : ((prepare config r storage request).run s).1.answer = .ok response) :
    let writes := (run config r storage request s).writes
    let job := response.setup.job
    let command := " ".intercalate response.execution.parameters.command
    let listed := ("EXECUTION_ID", request.execution.id) ::
      response.execution.parameters.values.entries.map fun e => (e.1, e.2.envValue)
    ∃ mounts, (mountAll config r request.execution.id request.placement).outcome = .ok mounts ∧
      ((∃ w ∈ writes, w.fault = none) ↔ job.environment.contains "_ENVIRONMENT_FILE" = true) ∧
      ((∃ w ∈ writes, w.fault = none) ↔ job.command = ["/bin/bash", "-c",
        Environment.bootstrap ++ ". $\x7b_ENVIRONMENT_FILE\x7d && " ++ command]) ∧
      (¬ (∃ w ∈ writes, w.fault = none) →
        job.command = ["/bin/bash", "-c", Environment.bootstrap ++ command]) ∧
      ∀ w ∈ writes,
        (∃ path e, job.environment.get? "_ENVIRONMENT_FILE" = some path ∧
          mounts.scratch.efsPath ⟨path⟩ = .ok e ∧ e.sameAs w.path = true) ∧
        w.path.fileSystem = mounts.scratch.fileSystem ∧
        w.path.path.components = mounts.scratch.root.components ++
          [.name request.execution.id, .name ".demand.env"] ∧
        (∃ own, own.entries = listed ∧ w.content = Environment.render own) ∧
        ∀ joins, Environment.ShellText.read joins w.content = some listed := by
  intro writes job command listed
  rw [run_prepare] at h
  obtain ⟨st, rfl, hwritten⟩ := exists_stages_of_answer h
  refine ⟨st.mounts, st.mounts_eq, ?_⟩
  rcases st.delivery_cases with hdelivery | hdelivery
  · obtain ⟨hfile, hvariable, hcommand⟩ := st.of_deliverByFile hdelivery
    have hwrites : writes =
        [⟨(st.dirs.working.join Environment.fileName).efs, Environment.render st.own, none⟩] := by
      show (run config r storage request s).writes = _
      rw [hwritten, hfile]
      rfl
    have hexists : ∃ w ∈ writes, w.fault = none := ⟨_, hwrites ▸ List.mem_singleton_self _, rfl⟩
    have hcontains : job.environment.contains "_ENVIRONMENT_FILE" = true :=
      OrderedMap.contains_of_get? hvariable
    refine ⟨iff_of_true hexists hcontains, iff_of_true hexists hcommand, absurd hexists, ?_⟩
    intro w hw
    obtain rfl := List.mem_singleton.1 (hwrites ▸ hw)
    obtain ⟨e, he, hsame⟩ := st.shows_file
    exact ⟨⟨_, e, hvariable, he, hsame⟩, st.components_working.1, st.components_file,
      ⟨st.own, st.entries_own, rfl⟩, st.read_own⟩
  · obtain ⟨hfile, hkeys, hcommand⟩ := st.of_deliverInline hdelivery
    have hwrites : writes = [] := by
      show (run config r storage request s).writes = _
      rw [hwritten, hfile]
      rfl
    have hnone : ¬ ∃ w ∈ writes, w.fault = none := by
      rintro ⟨w, hw, -⟩
      exact absurd (hwrites ▸ hw) List.not_mem_nil
    have hplain : job.command = ["/bin/bash", "-c", Environment.bootstrap ++ command] := by
      rw [← Environment.script_none]
      exact hcommand
    refine ⟨iff_of_false hnone (mt OrderedMap.contains_iff.1 hkeys), iff_of_false hnone ?_,
      fun _ => hplain, ?_⟩
    · -- The same command cannot have both scripts.
      intro hsources
      have hwords := hcommand.symm.trans hsources
      rw [← Environment.script_readFile] at hwords
      simp only [List.cons.injEq, and_true, true_and] at hwords
      exact Environment.script_readFile_ne _ hwords.symm
    · intro w hw
      exact absurd (hwrites ▸ hw) List.not_mem_nil

/-- A job with its variables in a file, below a root that is not in normal form. -/
theorem env_file_agrees_of_sample :
    let outcome := ((prepare .standard sampleInventory.resolver .acceptAll sampleRequest).run ()).1
    let writes := (run .standard sampleInventory.resolver .acceptAll sampleRequest ()).writes
    let listed := [("EXECUTION_ID", "run-1"), ("READS", "/opt/efs/shared/in/./reads.fq"),
      ("MODE", "fast"), ("HITS", "/opt/efs/scratch/run-1/out//hits.txt/")]
    ∃ response mounts, outcome.answer = .ok response ∧
      (mountAll .standard sampleInventory.resolver "run-1" sampleRequest.placement).outcome =
        .ok mounts ∧
      (∃ w ∈ writes, w.fault = none) ∧
      response.setup.job.environment.contains "_ENVIRONMENT_FILE" = true ∧
      response.setup.job.command = ["/bin/bash", "-c",
        Environment.bootstrap ++ ". $\x7b_ENVIRONMENT_FILE\x7d && " ++ "tool $READS"] ∧
      ∀ w ∈ writes,
        (∃ path e, response.setup.job.environment.get? "_ENVIRONMENT_FILE" = some path ∧
          mounts.scratch.efsPath ⟨path⟩ = .ok e ∧ e.sameAs w.path = true) ∧
        w.path.fileSystem = mounts.scratch.fileSystem ∧
        w.path.path.components = mounts.scratch.root.components ++
          [.name "run-1", .name ".demand.env"] ∧
        (∃ own, own.entries = listed ∧ w.content = Environment.render own) ∧
        ∀ joins, Environment.ShellText.read joins w.content = some listed := by
  intro outcome writes listed
  have hanswer : ∃ response, outcome.answer = .ok response ∧
      response.execution.parameters.command = ["tool", "$READS"] ∧
      (("EXECUTION_ID", "run-1") ::
        response.execution.parameters.values.entries.map fun e => (e.1, e.2.envValue)) = listed :=
    ⟨_, rfl, rfl, rfl⟩
  have hwritten : ∃ w ∈ writes, w.fault = none := ⟨_, List.mem_cons_self, rfl⟩
  obtain ⟨response, hresponse, hwords, hlisted⟩ := hanswer
  obtain ⟨mounts, hmounts, hcontains, hcommand, -, hfile⟩ := env_file_agrees hresponse
  have hscript := hcommand.1 hwritten
  rw [hwords] at hscript
  refine ⟨response, mounts, hresponse, hmounts, hwritten, hcontains.1 hwritten, hscript, ?_⟩
  rw [← hlisted]
  exact hfile

end JobStaging.Assembly
