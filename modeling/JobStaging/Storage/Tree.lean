import JobStaging.Error
import JobStaging.OrderedMap

/-!
# File trees

A tree of directories and files with text in them. A place in the tree is the list of the names
that lead to it from the root. A path is walked name by name: every place on the way must be a
directory, `..` leads one step back, and `.` leads nowhere but needs a directory to stand in.
-/

set_option autoImplicit false

namespace JobStaging.Storage

/-- What stands at a place. -/
inductive Node where
  | file (content : String)
  | directory
  deriving DecidableEq, Repr

/-- The names that lead to a place from the root. -/
abbrev Place := List String

/-- The places below the root at which something stands. -/
structure FileTree where
  entries : List (Place × Node)
  deriving DecidableEq, Repr

namespace FileTree

/-- A root with nothing below it. -/
def empty : FileTree := ⟨[]⟩

/-- The empty tree stands in where any will do. -/
instance : Inhabited FileTree := ⟨empty⟩

/-- What stands at a place; the root is always a directory. -/
def node? (t : FileTree) (place : Place) : Option Node :=
  if place = [] then some .directory else t.entries.lookup place

/-- Whether a directory stands at a place. -/
def isDirectory (t : FileTree) (place : Place) : Bool := t.node? place == some .directory

/-- The tree with something put at a place. -/
def set (t : FileTree) (place : Place) (node : Node) : FileTree :=
  ⟨OrderedMap.put place node t.entries⟩

/-- The tree with nothing at a place. -/
def erase (t : FileTree) (place : Place) : FileTree :=
  ⟨t.entries.filter fun e => !decide (e.1 = place)⟩

/-- What was put at a place is found there, and all else is as it was. -/
theorem node?_set (t : FileTree) (place other : Place) (node : Node) (h : place ≠ []) :
    (t.set place node).node? other = if other = place then some node else t.node? other := by
  by_cases ho : other = []
  · subst ho
    simp [node?, Ne.symm h]
  · simp [node?, set, ho, OrderedMap.lookup_put]

/-- What is taken away is not found, and all else is. -/
theorem lookup_filter_ne (place other : Place) (es : List (Place × Node)) :
    (es.filter fun e => !decide (e.1 = place)).lookup other =
      if other = place then none else es.lookup other := by
  induction es with
  | nil => simp
  | cons e es ih =>
    obtain ⟨key, held⟩ := e
    by_cases hk : key = place
    · subst hk
      by_cases h : other = key
      · simpa [h] using ih
      · simpa [h, List.lookup_cons, beq_false_of_ne h] using ih
    · rw [List.filter_cons_of_pos (by simpa using hk), List.lookup_cons, List.lookup_cons, ih]
      by_cases h : other = key
      · subst h
        simp [hk]
      · simp [beq_false_of_ne h]

/-- Nothing is found at a place that was erased, and all else is as it was. -/
theorem node?_erase (t : FileTree) (place other : Place) (h : place ≠ []) :
    (t.erase place).node? other = if other = place then none else t.node? other := by
  by_cases ho : other = []
  · subst ho
    simp [node?, Ne.symm h]
  · simp [node?, erase, ho, lookup_filter_ne]

/-- The length in bytes that a name may have. -/
def longestName : Nat := 255

/-- The length in bytes that a path may have. -/
def longestPath : Nat := 4095

/-- The place that steps lead to from another place. The place itself may be empty, but all places
before it must be directories. -/
def walk (t : FileTree) (here : Place) : List Path.Component → Except IoFault Place
  | [] => .ok here
  | step :: rest =>
    match t.node? here with
    | none => .error .notFound
    | some (.file _) => .error .notDirectory
    | some .directory =>
      match step with
      | .root | .here => walk t here rest
      | .up => walk t here.dropLast rest
      | .name name =>
        if longestName < name.utf8ByteSize then .error .nameTooLong
        else walk t (here ++ [name]) rest

/-- A path must be a proper text: without the character that ends names, and not too long. -/
def checkText (p : Path) : Except IoFault Unit :=
  if '\x00' ∈ p.chars then .error .nulInName
  else if longestPath < p.text.utf8ByteSize then .error .nameTooLong
  else if p.text = "" then .error .notFound
  else .ok ()

/-- The place of a path. -/
def locate (t : FileTree) (p : Path) : Except IoFault Place := do
  checkText p
  t.walk [] p.route

/-- Whether a path ends with a slash and so can only mean a directory. -/
def wantsDirectory (p : Path) : Bool := p.chars.getLast? == some '/'

/-- The text of the file at a path. -/
def read (t : FileTree) (p : Path) : Except IoFault String := do
  let place ← t.locate p
  match t.node? place with
  | none => .error .notFound
  | some .directory => .error .isDirectory
  | some (.file content) => if wantsDirectory p then .error .notDirectory else .ok content

end FileTree

end JobStaging.Storage
