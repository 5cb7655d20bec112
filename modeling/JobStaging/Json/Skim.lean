import JobStaging.Json.Reader

/-!
# Skimming JSON texts

Of a text that holds more than is asked for only the parts of interest are read, and the others are
passed over. What is passed over must be JSON too, but numbers in it may be of any size, the
digits of an escape may spell any unit, and containers may be nested to any depth.
-/

set_option autoImplicit false

namespace JobStaging.Json

/-- What is asked for in a text. -/
inductive Interest where
  /-- A whole value. -/
  | all
  /-- The same in every element of an array. -/
  | each (element : Interest)
  /-- The members of an object with some names, or the elements of an array in the order of the
  names. -/
  | members (wanted : List (String × Interest))

/-- What follows the rest of a string after its opening quote. -/
def skipString : List Char → Option (List Char)
  | '"' :: rest => some rest
  | '\\' :: 'u' :: a :: b :: c :: d :: rest =>
    if (hexUnit? a b c d).isSome then skipString rest else none
  | '\\' :: c :: rest => if (escaped? c).isSome then skipString rest else none
  | c :: rest => if c.toNat < 0x20 ∨ c = '\\' then none else skipString rest
  | [] => none

/-- What follows a fraction, if there is one. -/
def skipFraction : List Char → Option (List Char)
  | '.' :: rest =>
    match spanDigits rest with
    | ([], _) => none
    | (_, rest) => some rest
  | cs => some cs

/-- What follows the number at the front of a text. -/
def skipNumber (cs : List Char) : Option (List Char) :=
  let (digits, rest) := match cs with
    | '-' :: rest => spanDigits rest
    | cs => spanDigits cs
  if digits = [] ∨ (digits.head? = some '0' ∧ digits.length ≠ 1) then none
  else do
    let rest ← skipFraction rest
    let (_, rest) ← exponentPart rest
    return rest

mutual

/-- What follows the value at the front of a text without leading blanks. The number bounds the
steps. -/
def skipValue : Nat → List Char → Option (List Char)
  | 0, _ => none
  | steps + 1, cs =>
    match cs with
    | [] => none
    | c :: rest =>
      if c = '"' then skipString rest
      else if c = '[' then
        match skipBlanks rest with
        | ']' :: rest => some rest
        | rest => skipElements steps rest
      else if c = '\x7b' then
        match skipBlanks rest with
        | '\x7d' :: rest => some rest
        | rest => skipMembers steps rest
      else if c = 'n' then afterWord "null" cs
      else if c = 't' then afterWord "true" cs
      else if c = 'f' then afterWord "false" cs
      else skipNumber cs

/-- What follows the elements of an array and its end; at least one element. -/
def skipElements : Nat → List Char → Option (List Char)
  | 0, _ => none
  | steps + 1, cs =>
    match skipValue steps cs with
    | none => none
    | some rest =>
      match skipBlanks rest with
      | ']' :: rest => some rest
      | ',' :: rest => skipElements steps (skipBlanks rest)
      | _ => none

/-- What follows the members of an object and its end; at least one member. -/
def skipMembers : Nat → List Char → Option (List Char)
  | 0, _ => none
  | steps + 1, cs =>
    match cs with
    | '"' :: rest =>
      match (skipString rest).map skipBlanks with
      | some (':' :: rest) =>
        match skipValue steps (skipBlanks rest) with
        | none => none
        | some rest =>
          match skipBlanks rest with
          | '\x7d' :: rest => some rest
          | ',' :: rest => skipMembers steps (skipBlanks rest)
          | _ => none
      | _ => none
    | _ => none

end

mutual

/-- What is asked for in the value at the front of a text without leading blanks. A value of
another kind than is expected is read as a whole. The number bounds the steps. -/
def skimValue : Nat → Interest → List Char → Option (Json × List Char)
  | 0, _, _ => none
  | steps + 1, interest, cs =>
    match interest, cs with
    | .each element, '[' :: rest =>
      match skipBlanks rest with
      | ']' :: rest => some (.array [], rest)
      | rest => (skimElements steps element [] rest).map fun r => (.array r.1, r.2)
    | .members wanted, '[' :: rest =>
      match skipBlanks rest with
      | ']' :: rest => some (.array [], rest)
      | rest =>
        (skimElements steps .all (wanted.map Prod.snd) rest).map fun r => (.array r.1, r.2)
    | .members wanted, '\x7b' :: rest =>
      match skipBlanks rest with
      | '\x7d' :: rest => some (.object [], rest)
      | rest => (skimMembers steps wanted rest).map fun r => (.object r.1, r.2)
    | _, cs => readValue (steps + 1) maxDepth cs

/-- The elements of an array up to its end; at least one. The first ones are asked for as a list
says and all others in the same way. -/
def skimElements : Nat → Interest → List Interest → List Char → Option (List Json × List Char)
  | 0, _, _, _ => none
  | steps + 1, others, first, cs =>
    match skimValue steps (first.headD others) cs with
    | none => none
    | some (j, rest) =>
      match skipBlanks rest with
      | ']' :: rest => some ([j], rest)
      | ',' :: rest =>
        (skimElements steps others first.tail (skipBlanks rest)).map fun r => (j :: r.1, r.2)
      | _ => none

/-- The wanted members of an object up to its end; at least one member of any name. -/
def skimMembers :
    Nat → List (String × Interest) → List Char → Option (List (String × Json) × List Char)
  | 0, _, _ => none
  | steps + 1, wanted, cs =>
    match cs with
    | '"' :: rest =>
      match stringBody [] rest with
      | none => none
      | some (name, rest) =>
        match skipBlanks rest with
        | ':' :: rest =>
          let member : Option (List (String × Json) × List Char) := match wanted.lookup name with
            | some interest =>
              (skimValue steps interest (skipBlanks rest)).map fun r => ([(name, r.1)], r.2)
            | none => (skipValue steps (skipBlanks rest)).map fun rest => ([], rest)
          match member with
          | none => none
          | some (read, rest) =>
            match skipBlanks rest with
            | '\x7d' :: rest => some (read, rest)
            | ',' :: rest =>
              (skimMembers steps wanted (skipBlanks rest)).map fun r => (read ++ r.1, r.2)
            | _ => none
        | _ => none
    | _ => none

end

/-- What is asked for in a whole text. Names that come twice are kept twice. -/
def skim (interest : Interest) (text : String) : Option Json :=
  let cs := text.toList
  match skimValue (2 * cs.length + 1) interest (skipBlanks cs) with
  | some (j, rest) => if skipBlanks rest = [] then some j else none
  | none => none

end JobStaging.Json
