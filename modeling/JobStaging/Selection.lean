import JobStaging.Lookup
import JobStaging.Placement
import JobStaging.Draw

/-!
# Selecting a candidate

One of several candidates is picked at random, from a seed or without one, or by the least bytes in
use. For the latter every candidate's file system is looked up, but none twice: what was learned
under a name or an identifier is kept for the rest of the selection. Of several that hold the fewest
bytes the earliest is picked.
-/

set_option autoImplicit false

namespace JobStaging.Selection

/-- The candidate that a seed picks, or, without a seed, whatever else draws. -/
def random (seed : Option UInt64) (candidates : List Candidate)
    (unseeded : Draw.Source := .first) : Except Rejection Candidate :=
  match candidates[(unseeded.seeded seed).below candidates.length]? with
  | some candidate => .ok candidate
  | none => .error .noCandidatesToSelect

/-- What was learned in a selection: file systems under the names that were asked for and under
their identifiers. -/
abbrev Known := List (String × FileSystem)

/-- What is known when a file system was found under a name. -/
def Known.learn (known : Known) (name : String) (found : FileSystem) : Known :=
  if found.id = name then (name, found) :: known
  else (found.id, found) :: (name, found) :: known

/-- The file system of a name: what is known, or what the resolver says. -/
def describe (r : Resolver) (envBase : Option String) (known : Known) (name : String) :
    Traced (FileSystem × Known) :=
  match known.lookup name with
  | some found => pure (found, known)
  | none => do
    let found ← r.askFileSystem name envBase
    return (found, known.learn name found)

/-- A candidate's file system, and the candidate itself; one that names only an access point gets
the file system of it. -/
def measure (r : Resolver) (envBase : Option String) (known : Known) (candidate : Candidate) :
    Traced ((Candidate × FileSystem) × Known) :=
  match candidate.fileSystem, candidate.accessPoint with
  | some name, _ => do
    let (found, known) ← describe r envBase known name
    return ((candidate, found), known)
  | none, some name => do
    let accessPoint ← r.askAccessPoint name none envBase
    let (found, known) ← describe r envBase known accessPoint.fileSystem
    return (({ candidate with fileSystem := some found.id }, found), known)
  | none, none => Traced.fail (.invalidInput .anonymousCandidate)

/-- The better of what was best so far and another: the other only if it holds fewer bytes. -/
def better (best : Option (Candidate × UInt64)) (candidate : Candidate) (used : UInt64) :
    Candidate × UInt64 :=
  match best with
  | none => (candidate, used)
  | some (held, least) => if used < least then (candidate, used) else (held, least)

/-- Measures candidates one after the other and keeps the best. -/
def compare (r : Resolver) (envBase : Option String) (known : Known)
    (best : Option (Candidate × UInt64)) : List Candidate → Traced (Option (Candidate × UInt64))
  | [] => pure best
  | candidate :: rest => do
    let ((measured, found), known) ← measure r envBase known candidate
    compare r envBase known (some (better best measured found.usedBytes)) rest

/-- The candidate whose file system holds the fewest bytes, the earliest of several. -/
def leastUtilized (r : Resolver) (envBase : Option String) (candidates : List Candidate) :
    Traced Candidate := do
  match ← compare r envBase [] none candidates with
  | some (candidate, _) => return candidate
  | none => Traced.fail (.invalidInput .noCandidatesToCompare)

/-- Picks a candidate by a strategy. A candidate that stands alone is taken as it is. What draws
without a seed makes a difference only where there is none, and jobs always have one. -/
def select (r : Resolver) (envBase : Option String) (strategy : Strategy) (seed : Option UInt64)
    (candidates : List Candidate) (unseeded : Draw.Source := .first) : Traced Candidate :=
  match candidates with
  | [] => Traced.fail (.invalidInput .noCandidatesToSelect)
  | [only] => pure only
  | several =>
    match strategy with
    | .random => Traced.check (random seed several unseeded)
    | .leastUtilized => leastUtilized r envBase several

end JobStaging.Selection
