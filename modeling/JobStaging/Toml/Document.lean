import JobStaging.Json.Basic

/-!
# TOML documents

A document is a table of values, arrays and further tables. How a table came about decides what may
be added to it later: a table in braces is complete, a table with a header of its own may not get
another one, a table that is only implied by the header of one below it may still get its own, and a
table made by dotted keys grows by dotted keys only. No name comes twice in a table.
-/

set_option autoImplicit false

namespace JobStaging.Toml

/-- How a table came about. -/
inductive Origin where
  /-- Written in braces. -/
  | braces
  /-- Opened by a header. -/
  | header
  /-- Implied by the header of a table below it. -/
  | implied
  /-- Made by a dotted key. -/
  | dotted
  deriving DecidableEq, Repr

/-- A value, or a table. -/
inductive Node where
  | string (s : String)
  | integer (n : Int)
  | float (d : Decimal.Double)
  | boolean (b : Bool)
  /-- A date, a time, or both, in its usual spelling. -/
  | date (text : String)
  | array (elements : List Node)
  | table (origin : Origin) (members : List (String × Node))
  /-- Several tables under one name, each opened by a header in double brackets. -/
  | tables (elements : List (List (String × Node)))
  deriving Repr, Inhabited

/-- The members of a table. -/
abbrev Members := List (String × Node)

/-- The last table under a name changed. -/
def changeLast (change : Members → Option Members) : List Members → Option (List Members)
  | [] => none
  | [last] => (change last).map fun m => [m]
  | first :: next :: rest => (changeLast change (next :: rest)).map fun ms => first :: ms

/-- Adds a name that a dotted key leads to. The tables on the way are made by dotted keys; only at
the beginning of the way may there be others, and none that has a header of its own. -/
def addKey (name : String) (value : Node) : List String → Members → Option Members
  | [], members =>
    if (members.map Prod.fst).contains name then none else some (members ++ [(name, value)])
  | step :: rest, members =>
    match members.lookup step with
    | none => (addKey name value rest []).map fun m => members ++ [(step, .table .dotted m)]
    | some (.table .dotted sub) =>
      (addKey name value rest sub).map fun m => OrderedMap.put step (.table .dotted m) members
    | some (.table .implied sub) =>
      if rest.isEmpty then none
      else (addKey name value rest sub).map fun m => OrderedMap.put step (.table .implied m) members
    | some (.tables elements) =>
      if rest.isEmpty then none
      else (changeLast (addKey name value rest) elements).map fun ms =>
        OrderedMap.put step (.tables ms) members
    | some _ => none

/-- Changes the table that the steps of a header lead to. Tables that are not there are implied. -/
def under (change : Members → Option Members) : List String → Members → Option Members
  | [], members => change members
  | step :: rest, members =>
    match members.lookup step with
    | none => (under change rest []).map fun m => members ++ [(step, .table .implied m)]
    | some (.table .braces _) => none
    | some (.table origin sub) =>
      (under change rest sub).map fun m => OrderedMap.put step (.table origin m) members
    | some (.tables elements) =>
      (changeLast (under change rest) elements).map fun ms =>
        OrderedMap.put step (.tables ms) members
    | some _ => none

/-- Opens the table of a name: a new one, or one that was only implied. -/
def openTable (name : String) (members : Members) : Option Members :=
  match members.lookup name with
  | none => some (members ++ [(name, .table .header [])])
  | some (.table .implied sub) => some (OrderedMap.put name (.table .header sub) members)
  | some _ => none

/-- Opens one more table among those of a name. -/
def openElement (name : String) (members : Members) : Option Members :=
  match members.lookup name with
  | none => some (members ++ [(name, .tables [[]])])
  | some (.tables elements) => some (OrderedMap.put name (.tables (elements ++ [[]])) members)
  | some _ => none

/-- The name under which a date is found in JSON. -/
def dateMember : String := "$__toml_private_datetime"

mutual

/-- A node as a JSON value. A date becomes an object with one member. -/
def Node.toJson : Node → Json
  | .string s => .string s
  | .integer n => .number (.whole n)
  | .float d => .number (.double d)
  | .boolean b => .bool b
  | .date text => .object [(dateMember, .string text)]
  | .array elements => .array (elementsToJson elements)
  | .table _ members => .object (membersToJson members)
  | .tables elements => .array (tablesToJson elements)

/-- The elements of an array as JSON values. -/
def elementsToJson : List Node → List Json
  | [] => []
  | n :: rest => n.toJson :: elementsToJson rest

/-- The members of a table as members of an object. -/
def membersToJson : List (String × Node) → List (String × Json)
  | [] => []
  | (name, n) :: rest => (name, n.toJson) :: membersToJson rest

/-- The tables under one name as objects. -/
def tablesToJson : List (List (String × Node)) → List Json
  | [] => []
  | members :: rest => .object (membersToJson members) :: tablesToJson rest

end

end JobStaging.Toml
