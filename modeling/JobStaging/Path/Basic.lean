import JobStaging.Text.Split

/-!
# Paths

A path is kept as the text that was given. What it means is its list of components: empty parts and
`.` parts do not count, except a `.` that stands first; `..` is kept. Two paths are the same place
when their components are equal. Who walks a path through a file tree takes its route, where every
`.` counts: only from a directory a `.` leads on. `join` works on texts and `below?` takes the text
under a base, so both keep the spelling of the part they do not touch.
-/

set_option autoImplicit false

namespace JobStaging

/-- A path as it was written. -/
structure Path where
  /-- The text of the path. -/
  text : String
  deriving DecidableEq, Repr, Inhabited

namespace Path

/-- One step of a path. -/
inductive Component where
  /-- The root of an absolute path. -/
  | root
  /-- A `.`, which leads nowhere. Among the components it stands only at the beginning of a relative
  path. -/
  | here
  /-- A `..`. -/
  | up
  /-- An entry of a directory. -/
  | name (text : String)
  deriving DecidableEq, Repr

/-- The characters of a path. -/
def chars (p : Path) : List Char := p.text.toList

/-- Whether a path starts at the root. -/
def isAbsolute (p : Path) : Bool := p.chars.head? == some '/'

/-- The texts between the slashes of a path. -/
def parts (p : Path) : List (List Char) := Text.split '/' p.chars

/-- Whether a part between slashes leads nowhere: it is empty or `.`. -/
def isIdle (part : List Char) : Bool := part == [] || part == ['.']

/-- The component that a part stands for. -/
def Component.ofPart (part : List Char) : Component :=
  if part = ['.', '.'] then .up else .name (String.ofList part)

/-- How a path begins: at the root, with a `.`, or at once with its first name. -/
def start (p : Path) : List Component :=
  if p.isAbsolute then [.root] else if p.parts.head? = some ['.'] then [.here] else []

/-- The components after the beginning. -/
def steps (p : Path) : List Component :=
  (p.parts.filter fun part => !isIdle part).map Component.ofPart

/-- What a path means: its beginning and its steps. -/
def components (p : Path) : List Component := p.start ++ p.steps

/-- The step that a part stands for on a walk. -/
def Component.ofRoutePart (part : List Char) : Component :=
  if part = ['.'] then .here else .ofPart part

/-- The steps by which a path is walked, every `.` among them. -/
def route (p : Path) : List Component :=
  (p.parts.filter fun part => part != []).map Component.ofRoutePart

/-- Whether two paths have the same components. -/
def sameAs (p q : Path) : Bool := p.components == q.components

/-- A path seen from a base: an absolute path replaces the base, any other is appended to it. -/
def join (base p : Path) : Path :=
  if p.isAbsolute then p
  else if base.text = "" ∨ base.chars.getLast? = some '/' then ⟨base.text ++ p.text⟩
  else ⟨base.text ++ "/" ++ p.text⟩

/-- The parts that are left when so many steps have been taken. -/
def dropSteps : Nat → List (List Char) → List (List Char)
  | 0, parts => parts
  | _ + 1, [] => []
  | n + 1, part :: rest => if isIdle part then dropSteps (n + 1) rest else dropSteps n rest

/-- Parts without the idle ones at both ends. -/
def trimIdle (parts : List (List Char)) : List (List Char) :=
  ((parts.dropWhile isIdle).reverse.dropWhile isIdle).reverse

/-- The part of an absolute path under a base, if the base's components begin it: the text that
follows, without separators and `.` parts at its ends. -/
def below? (base p : Path) : Option Path :=
  if base.components.isPrefixOf p.components then
    some ⟨String.ofList (Text.joinWith '/' (trimIdle (dropSteps base.steps.length p.parts)))⟩
  else none

/-- Whether a path is relative, not empty, and never leads up: all its components are names, or a
`.` at the beginning. -/
def staysInside (p : Path) : Bool :=
  !p.components.isEmpty && p.components.all fun
    | .name _ => true
    | .here => true
    | _ => false

/-- Appending to a text that ends with a slash and putting a slash between give the same parts. -/
theorem steps_append_slash (xs ys : List Char) :
    steps ⟨String.ofList (xs ++ '/' :: ys)⟩ =
      steps ⟨String.ofList xs⟩ ++ steps ⟨String.ofList ys⟩ := by
  simp [steps, parts, chars, Text.split_append_sep]

/-- Appending to a text that ends with a slash and putting a slash between give the same route. -/
theorem route_append_slash (xs ys : List Char) :
    route ⟨String.ofList (xs ++ '/' :: ys)⟩ =
      route ⟨String.ofList xs⟩ ++ route ⟨String.ofList ys⟩ := by
  simp [route, parts, chars, Text.split_append_sep]

/-- The step of a part that is `.` leads nowhere, and that of any other part is its component. -/
theorem ofRoutePart_ne_here_iff {part : List Char} :
    Component.ofRoutePart part ≠ .here ↔ part ≠ ['.'] := by
  unfold Component.ofRoutePart Component.ofPart
  split
  · simp_all
  · split <;> simp_all

/-- Apart from every `.`, the steps of a walk are those of the path. -/
theorem filter_route (p : Path) : (p.route.filter fun c => c != .here) = p.steps := by
  unfold route steps
  rw [List.filter_map, List.filter_filter]
  have same : ∀ part, (((fun c => c != Component.here) ∘ Component.ofRoutePart) part &&
      part != []) = !isIdle part := by
    intro part
    by_cases h : part = ['.']
    · simp [h, isIdle, Component.ofRoutePart]
    · have hc := beq_false_of_ne (ofRoutePart_ne_here_iff.2 h)
      have hp := beq_false_of_ne h
      simp [isIdle, bne, hc, hp]
  rw [List.filter_congr fun part _ => same part]
  refine List.map_congr_left fun part h => ?_
  have : part ≠ ['.'] := by
    rintro rfl
    simp [isIdle] at h
  simp [Component.ofRoutePart, this]

end Path

end JobStaging
