import JobStaging.Path.Basic
import JobStaging.Text.Hex

/-!
# Slugs of paths

A path turned into one word of letters, digits, hyphens and underscores: the names of the path are
written one after the other with a hyphen between them. Inside a name a hyphen is written `_-`, an
underscore `__`, and any other byte that is no letter or digit as `_` and its two hexadecimal
digits, so different absolute paths get different slugs.
-/

set_option autoImplicit false

namespace JobStaging.Path

/-- Whether a byte is an ASCII letter or digit. -/
def isPlainByte (b : UInt8) : Bool :=
  (48 ≤ b && b ≤ 57) || (65 ≤ b && b ≤ 90) || (97 ≤ b && b ≤ 122)

/-- How one byte of a name is written. -/
def slugByte (b : UInt8) : List Char :=
  if b = 45 then ['_', '-']
  else if b = 95 then ['_', '_']
  else if isPlainByte b then [Char.ofNat b.toNat]
  else '_' :: Text.hexByte b

/-- The bytes that a component adds to the slug, if it adds a word at all. -/
def Component.word : Component → Option (List UInt8)
  | .root | .here => none
  | .up => some [46, 46]
  | .name text => some (Text.utf8 text)

/-- The slug of a list of components. -/
def slugOf (cs : List Component) : List Char :=
  Text.joinWith '-' ((cs.filterMap Component.word).map fun word => word.flatMap slugByte)

/-- The slug of a path. -/
def slug (p : Path) : String :=
  String.ofList (slugOf p.components)

end JobStaging.Path
