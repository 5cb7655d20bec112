import JobStaging.OrderedMap
import JobStaging.Decimal.Double

/-!
# JSON values

A JSON value as a tree. The members of an object stay in the order in which they were written. A
text may give a name twice; `mergeRepeated` makes such a tree a proper value, in which the name has
its first place and its last value.
-/

set_option autoImplicit false

namespace JobStaging

/-- A JSON number: a whole number as it was written, or a double. -/
inductive Json.Number where
  | whole (n : Int)
  | double (d : Decimal.Double)
  deriving DecidableEq, Repr

/-- A JSON value. -/
inductive Json where
  | null
  | bool (b : Bool)
  | number (n : Json.Number)
  | string (s : String)
  | array (elements : List Json)
  | object (members : List (String × Json))
  deriving Repr, Inhabited

namespace Json

/-- The value of a member of an object. -/
def member? (name : String) : Json → Option Json
  | .object members => members.lookup name
  | _ => none

/-- A list of strings as a value. -/
def strings (texts : List String) : Json := .array (texts.map .string)

/-- A map of strings as a value. -/
def stringMap (m : OrderedMap String) : Json := .object (m.entries.map fun e => (e.1, .string e.2))

/-- A natural number as a value. -/
def ofNat (n : Nat) : Json := .number (.whole n)

/-- A list of values, each written by a function. -/
def list {α : Type} (write : α → Json) (values : List α) : Json := .array (values.map write)

/-- A member that is left out when there is no value. -/
def optionalMember {α : Type} (name : String) (write : α → Json) (value : Option α) :
    List (String × Json) :=
  match value with
  | none => []
  | some a => [(name, write a)]

/-- An object with the value of one member set; any other value is kept as it is. -/
def setMember (j : Json) (name : String) (value : Json) : Json :=
  match j with
  | .object members => .object (OrderedMap.put name value members)
  | other => other

mutual

/-- The value in which every name of an object comes once: in its first place with its last
value. -/
def mergeRepeated : Json → Json
  | .array elements => .array (mergeElements elements)
  | .object members => .object (mergeMembers [] members)
  | j => j

/-- The elements with their own repeated names merged. -/
def mergeElements : List Json → List Json
  | [] => []
  | j :: rest => j.mergeRepeated :: mergeElements rest

/-- The members put one after the other into what is there already. -/
def mergeMembers (done : List (String × Json)) : List (String × Json) → List (String × Json)
  | [] => done
  | (name, j) :: rest => mergeMembers (OrderedMap.put name j.mergeRepeated done) rest

end

end Json

end JobStaging
