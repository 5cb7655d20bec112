import JobStaging.CommandLine.Arguments

/-!
# Help texts

What the program says about itself.
-/

set_option autoImplicit false

namespace JobStaging.CommandLine

/-- The name and version of the program. -/
def versionText : String := "scaffolding 0.1.0\n"

/-- Lines one after the other. -/
def unlines (lines : List String) : String := String.join (lines.map (· ++ "\n"))

/-- The help on a topic. -/
def Topic.text : Topic → String
  | .program => unlines
    ["Demand execution scaffolding",
      "",
      "Usage: scaffolding [OPTIONS] <COMMAND>",
      "",
      "Commands:",
      "  prepare   Build scaffolding for a request and print the response JSON",
      "  validate  Validate the configuration file",
      "  help      Print this message or the help of the given subcommand(s)",
      "",
      "Options:",
      "  -c, --config <CONFIG>  Path to the configuration file [default: scaffolding.toml]",
      "  -v, --verbose          Enable verbose logging",
      "  -h, --help             Print help",
      "  -V, --version          Print version"]
  | .prepare => unlines
    ["Build scaffolding for a request and print the response JSON",
      "",
      "Usage: scaffolding prepare [OPTIONS] --request <REQUEST>",
      "",
      "Options:",
      "  -r, --request <REQUEST>      Request JSON file",
      "      --inventory <INVENTORY>  EFS inventory JSON used instead of the EFS API",
      "      --mount <MOUNTS>         Local EFS mount as FILE_SYSTEM_ID=PATH (repeatable, adds to config)",
      "      --strategy <STRATEGY>    Override the request's selection strategy",
      "  -o, --output <OUTPUT>        Write the response here instead of stdout",
      "  -h, --help                   Print help"]
  | .validate => unlines
    ["Validate the configuration file",
      "",
      "Usage: scaffolding validate",
      "",
      "Options:",
      "  -h, --help  Print help"]
  | .help => unlines
    ["Print this message or the help of the given subcommand(s)",
      "",
      "Usage: scaffolding help [COMMAND]...",
      "",
      "Arguments:",
      "  [COMMAND]...  Print help for the subcommand(s)"]

end JobStaging.CommandLine
