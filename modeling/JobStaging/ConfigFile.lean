import JobStaging.Config
import JobStaging.Toml.Reader

/-!
# Configuration files

The settings come from a TOML file. Without a file that can be read they are the standard ones.
-/

set_option autoImplicit false

namespace JobStaging.Config

/-- The settings in a TOML text. -/
def ofToml (text : String) : Except Error Config :=
  match Toml.parse text with
  | none => .error .toml
  | some j => ((record .ignored).decodeWith .ignored j).mapError fun _ => .toml

/-- The settings in a file, given what reading it gave: the standard ones if it could not be read
or understood. -/
def ofFileOrStandard (content : Except IoFault String) : Config :=
  match content.mapError Error.io >>= ofToml with
  | .ok c => c
  | .error _ => standard

end JobStaging.Config
