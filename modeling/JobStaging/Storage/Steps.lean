import JobStaging.Storage.Tree

/-!
# Steps on a file tree

What is done to a tree to write a file: the directories above it are made, a second file beside it
is created and filled, and that file takes the place of the first. Each step leaves a tree, also
when it fails; a sequence ends with the first step that fails. So at every moment the file holds
either what it held before or the whole new text.
-/

set_option autoImplicit false

namespace JobStaging.Path

/-- The part after the last slash, or before slashes at the end. -/
def lastPart (p : Path) : List Char := (p.parts.reverse.dropWhile (· == [])).headD []

/-- The directory that a path's last component lies in; the root lies in none. -/
def parent? (p : Path) : Option Path :=
  if p.steps = [] then none
  else
    let left := (((p.parts.reverse.dropWhile isIdle).drop 1).dropWhile isIdle).reverse
    some (if left = [] ∧ p.isAbsolute then ⟨"/"⟩ else ⟨String.ofList (Text.joinWith '/' left)⟩)

end JobStaging.Path

namespace JobStaging.Storage

/-- One step. -/
inductive Step where
  /-- Makes a directory and every directory above it that is not there. -/
  | makeDirectories (path : Path)
  /-- Makes an empty file, or empties the one that is there. -/
  | create (path : Path)
  /-- Puts text behind what a file holds. -/
  | append (path : Path) (text : String)
  /-- Puts a file in the place of another. -/
  | rename (source target : Path)
  deriving DecidableEq, Repr

namespace FileTree

/-- Makes one directory at the end of steps from the root. -/
def makeDirectory (t : FileTree) (steps : List Path.Component) : Except IoFault FileTree := do
  let place ← t.walk [] steps
  match t.node? place with
  | some _ => .error .exists
  | none => .ok (t.set place .directory)

/-- Whether steps from the root lead to a directory. -/
def leadsToDirectory (t : FileTree) (steps : List Path.Component) : Bool :=
  match t.walk [] steps with
  | .ok place => t.isDirectory place
  | .error _ => false

/-- Makes the directory at the end of steps, which are given in reverse, after those above it that
are not there. A directory that is there already is well. -/
def makeDirectories (t : FileTree) : List Path.Component → FileTree × Option IoFault
  | [] => (t, none)
  | step :: up =>
    let steps := (step :: up).reverse
    match t.makeDirectory steps with
    | .ok made => (made, none)
    | .error .notFound =>
      match makeDirectories t up with
      | (above, some fault) => (above, some fault)
      | (above, none) =>
        match above.makeDirectory steps with
        | .ok made => (made, none)
        | .error fault => (above, if above.leadsToDirectory steps then none else some fault)
    | .error fault => (t, if t.leadsToDirectory steps then none else some fault)

/-- Makes an empty file, or empties the one that is there. -/
def create (t : FileTree) (p : Path) : Except IoFault FileTree := do
  let place ← t.locate p
  match t.node? place with
  | some .directory => .error .isDirectory
  | _ => if wantsDirectory p then .error .isDirectory else .ok (t.set place (.file ""))

/-- Puts text behind what a file holds. -/
def append (t : FileTree) (p : Path) (text : String) : Except IoFault FileTree := do
  let place ← t.locate p
  match t.node? place with
  | some (.file held) => .ok (t.set place (.file (held ++ text)))
  | some .directory => .error .isDirectory
  | none => .error .notFound

/-- Puts a file in the place of another. -/
def rename (t : FileTree) (source target : Path) : Except IoFault FileTree := do
  let sourcePlace ← t.locate source
  let targetPlace ← t.locate target
  if target.lastPart = [] ∨ target.lastPart = ['.'] ∨ target.lastPart = ['.', '.'] then
    .error .busy
  else if wantsDirectory target then .error .notDirectory
  else
    match t.node? sourcePlace, t.node? targetPlace with
    | none, _ => .error .notFound
    | _, some .directory => .error .isDirectory
    | some node, _ => .ok ((t.erase sourcePlace).set targetPlace node)

/-- The tree after a step that changes nothing when it fails. -/
def orUnchanged (t : FileTree) : Except IoFault FileTree → FileTree × Option IoFault
  | .ok changed => (changed, none)
  | .error fault => (t, some fault)

/-- Makes the directory of a path and those above it. -/
def makeAll (t : FileTree) (p : Path) : FileTree × Option IoFault :=
  match checkText p with
  | .error fault => (t, some fault)
  | .ok () => t.makeDirectories p.steps.reverse

end FileTree

/-- The tree after a step, and why the step failed if it did. -/
def Step.run (t : FileTree) : Step → FileTree × Option IoFault
  | .makeDirectories path => t.makeAll path
  | .create path => t.orUnchanged (t.create path)
  | .append path text => t.orUnchanged (t.append path text)
  | .rename source target => t.orUnchanged (t.rename source target)

/-- Takes steps, up to the first that fails, where one step is taken in a given way. -/
def takeSteps {m : Type → Type} [Monad m] (take : Step → m (Option IoFault)) :
    List Step → m (Option IoFault)
  | [] => pure none
  | step :: rest => do
    match ← take step with
    | none => takeSteps take rest
    | some fault => return some fault

/-- Takes a step on a file tree that is kept as a state. -/
def Step.take (step : Step) : StateM FileTree (Option IoFault) := fun t =>
  ((step.run t).2, (step.run t).1)

/-- Why steps on a tree failed, if they did, and the tree after them. -/
def runSteps (steps : List Step) (t : FileTree) : Option IoFault × FileTree :=
  (takeSteps Step.take steps).run t

/-- No steps at all change nothing. -/
theorem runSteps_nil (t : FileTree) : runSteps [] t = (none, t) := rfl

/-- After a step that succeeds come the others. -/
theorem runSteps_cons_of_none {step : Step} {t : FileTree} (rest : List Step)
    (h : (step.run t).2 = none) : runSteps (step :: rest) t = runSteps rest (step.run t).1 := by
  show (takeSteps Step.take (step :: rest)) t = _
  simp only [takeSteps, bind, StateT.bind, Step.take, h]
  rfl

/-- After a step that fails nothing more is done. -/
theorem runSteps_cons_of_some {step : Step} {t : FileTree} {fault : IoFault} (rest : List Step)
    (h : (step.run t).2 = some fault) :
    runSteps (step :: rest) t = (some fault, (step.run t).1) := by
  show (takeSteps Step.take (step :: rest)) t = _
  simp only [takeSteps, bind, StateT.bind, Step.take, h]
  rfl

/-- The file that is filled before it takes the place of another. -/
def besides (target : Path) : Path := ⟨target.text ++ ".tmp"⟩

/-- The steps that make the directory of a file. -/
def parentSteps (target : Path) : List Step :=
  match target.parent? with
  | some parent => if parent.text = "" then [] else [.makeDirectories parent]
  | none => []

/-- The steps that write a file, with its text in pieces. -/
def writeSteps (target : Path) (pieces : List String) : List Step :=
  parentSteps target ++ .create (besides target) ::
    (pieces.map fun piece => .append (besides target) piece) ++
    [.rename (besides target) target]

end JobStaging.Storage
