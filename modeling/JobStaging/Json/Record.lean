import JobStaging.Error
import JobStaging.Json.Basic

/-!
# Reading JSON values as values of other types

A decoder turns a JSON value into a value of a type or tells the fault. A `Record` describes how a
type with named fields is read. From an object each field takes the member with one of its names;
of several faults the one that stands first is told, and a missing field only if every member is
fine. From an array the elements are the fields in order, and fields at the end may be wanting if
they have defaults. Records are built up field by field with `<$>` and `<*>`.
-/

set_option autoImplicit false

namespace JobStaging

/-- Reads a JSON value as a value of a type. -/
abbrev Decoder (α : Type) := Json → Except DecodeFault α

namespace Decoder

variable {α β : Type}

/-- A string. -/
def string : Decoder String
  | .string s => .ok s
  | _ => .error .shape

/-- A truth value. -/
def bool : Decoder Bool
  | .bool b => .ok b
  | _ => .error .shape

/-- A whole number below a bound. -/
def natBelow (bound : Nat) : Decoder Nat
  | .number (.whole n) => if 0 ≤ n ∧ n < bound then .ok n.toNat else .error .shape
  | _ => .error .shape

/-- A whole number of thirty-two bits. -/
def word32 : Decoder UInt32 := fun j => (natBelow UInt32.size j).map UInt32.ofNat

/-- A whole number of sixty-four bits. -/
def word64 : Decoder UInt64 := fun j => (natBelow UInt64.size j).map UInt64.ofNat

/-- A path. -/
def path : Decoder Path := fun j => (string j).map Path.mk

/-- A string that has a form of its own. -/
def parsed (parse : String → Except Rejection α) : Decoder α := fun j => do
  let text ← string j
  (parse text).mapError .rejected

/-- A value, or nothing for `null`. -/
def nullable (decode : Decoder α) : Decoder (Option α)
  | .null => .ok none
  | j => (decode j).map some

/-- The elements of an array. -/
def list (decode : Decoder α) : Decoder (List α)
  | .array elements => elements.mapM decode
  | _ => .error .shape

/-- The members of an object. -/
def map (decode : Decoder α) : Decoder (OrderedMap α)
  | .object members => do
    let entries ← members.mapM fun e => (decode e.2).map fun a => (e.1, a)
    return OrderedMap.ofList entries
  | _ => .error .shape

/-- The member of a choice with a given name. -/
def named (choices : List (String × α)) (name : String) : Except DecodeFault α :=
  match choices.lookup name with
  | some a => .ok a
  | none => .error (.unknownVariant name (choices.map Prod.fst))

/-- One of several names: a string, or an object with the name as its only member and no value. -/
def choice (choices : List (String × α)) : Decoder α
  | .string name => named choices name
  | .object [(name, j)] => do
    let a ← named choices name
    match j with
    | .null => return a
    | _ => .error .shape
  | _ => .error .shape

/-- The first of two forms that the value has; a value of neither form has none of a type's. -/
def orElse (typeName : String) (first : Decoder α) (second : Decoder α) : Decoder α := fun j =>
  match first j with
  | .ok a => .ok a
  | .error _ =>
    match second j with
    | .ok a => .ok a
    | .error _ => .error (.noForm typeName)

/-- A list of values or one value: a list that can be read as a list is one. -/
def oneOrMany (one : Decoder α) : Decoder (List α) :=
  orElse "OneOrMany" (list one) fun j => (one j).map fun a => [a]

end Decoder

/-- A fault in an object and the number of members before it; a missing field comes after all. -/
structure LocatedFault where
  before : Nat
  fault : DecodeFault
  deriving DecidableEq, Repr

/-- How a type with named fields is read: from the members of an object, or from the elements of an
array, of which some may be left. -/
structure Record (α : Type) where
  ofMembers : List (String × Json) → Except LocatedFault α
  ofElements : List Json → Except DecodeFault (α × List Json)

/-- What an array with more elements than a record has fields is taken for. -/
inductive Surplus where
  | refused
  | ignored
  deriving DecidableEq, Repr

namespace Record

variable {α β : Type}

/-- The value of the first member with one of the names. A second such member is a fault. -/
def findMember (names : List String) (decode : Decoder α) :
    Nat → List (String × Json) → Except LocatedFault (Option α)
  | _, [] => .ok none
  | before, (name, j) :: rest =>
    if names.contains name then
      match decode j with
      | .error fault => .error ⟨before, fault⟩
      | .ok a =>
        match rest.findIdx? fun e => names.contains e.1 with
        | some i => .error ⟨before + 1 + i, .shape⟩
        | none => .ok (some a)
    else findMember names decode (before + 1) rest

/-- A field that may be wanting. -/
def fieldOr (names : List String) (decode : Decoder α) (default : α) : Record α where
  ofMembers members := (findMember names decode 0 members).map fun a => a.getD default
  ofElements
    | [] => .ok (default, [])
    | j :: rest => (decode j).map fun a => (a, rest)

/-- A field that must be there. -/
def field (name : String) (decode : Decoder α) : Record α where
  ofMembers members :=
    match findMember [name] decode 0 members with
    | .error fault => .error fault
    | .ok (some a) => .ok a
    | .ok none => .error ⟨members.length, .missingField name⟩
  ofElements
    | [] => .error .shape
    | j :: rest => (decode j).map fun a => (a, rest)

/-- A field that may be wanting or `null`. -/
def optional (names : List String) (decode : Decoder α) : Record (Option α) :=
  fieldOr names (Decoder.nullable decode) none

/-- Two outcomes as one; of two faults the one that stands first. -/
def both (f : Except LocatedFault (α → β)) (a : Except LocatedFault α) : Except LocatedFault β :=
  match f, a with
  | .ok f, .ok a => .ok (f a)
  | .ok _, .error e => .error e
  | .error e, .ok _ => .error e
  | .error e, .error e' => .error (if e'.before < e.before then e' else e)

/-- Fields are read one after the other, each by its name or in its turn. -/
instance : Applicative Record where
  pure a := { ofMembers := fun _ => .ok a, ofElements := fun elements => .ok (a, elements) }
  seq f a :=
    { ofMembers := fun members => both (f.ofMembers members) ((a ()).ofMembers members)
      ofElements := fun elements => do
        let (g, rest) ← f.ofElements elements
        let (x, rest) ← (a ()).ofElements rest
        return (g x, rest) }
  map f a :=
    { ofMembers := fun members => (a.ofMembers members).map f
      ofElements := fun elements => (a.ofElements elements).map fun r => (f r.1, r.2) }

/-- Reads a record; elements of an array beyond the fields are refused or ignored. -/
def decodeWith (surplus : Surplus) (r : Record α) : Decoder α
  | .object members => (r.ofMembers members).mapError LocatedFault.fault
  | .array elements => do
    let (a, rest) ← r.ofElements elements
    if rest.isEmpty || surplus = .ignored then return a else .error .shape
  | _ => .error .shape

/-- Reads a record from an object or from an array with no element too many. -/
def decode (r : Record α) : Decoder α := r.decodeWith .refused

end Record

end JobStaging
