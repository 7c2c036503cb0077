import Hygiene.Check.Preset
import Hygiene.CommandLine.Arguments

/-!
What the commands say about themselves and about the checks.
-/

namespace Hygiene.CommandLine

def paragraph (lines : List String) : String := String.join (lines.map (· ++ "\n"))

def padRight (width : Nat) (s : String) : String :=
  String.ofList (s.toList.rightpad width ' ')

def row (code name description : String) : String :=
  s!"{padRight 10 code} {padRight 25 name} {description}"

def listing : String :=
  paragraph <|
    ["Available checks:", "", row "Code" "Name" "Description",
      String.ofList (List.replicate 80 '-')] ++
    (BuiltIn.all.map fun b => row b.kind.code b.kind.name b.kind.description) ++
    ["", "Presets:",
      "  recommended  - PS001, PS002, PS003 (default)",
      "  strict       - All checks, BUG field required",
      "  minimal      - PS003 only",
      "", "Use --checks to filter specific checks, e.g.:",
      "  presubmit check --checks gn-no-mixing-sources api/BUILD.gn",
      "  presubmit check --checks PS001 --bug webrtc:1234"]

def versionText : String := "presubmit 0.3.0\n"

def createdText : String :=
  paragraph
    ["Created presubmit.toml", "", "Next steps:", "  1. Edit presubmit.toml to configure checks",
      "  2. Run: presubmit check"]

def commonHelp : List String :=
  ["  -v, --verbose          Enable verbose output",
    "  -c, --config <CONFIG>  Path to configuration file",
    "  -h, --help             Print help"]

def helpText : Topic → String
  | .program =>
      paragraph <|
        ["Source-tree hygiene checks for changes under review", "",
          "Usage: presubmit [OPTIONS] <COMMAND>", "",
          "Commands:",
          "  check        Run presubmit checks",
          "  list-checks  List available checks",
          "  init         Initialize configuration file",
          "  help         Print this message or the help of the given subcommand(s)", "",
          "Options:"] ++ commonHelp ++
        ["  -V, --version          Print version"]
  | .check =>
      paragraph <|
        ["Run presubmit checks", "",
          "Usage: presubmit check [OPTIONS] [PATHS]...", "",
          "Arguments:",
          "  [PATHS]...  Changed files to check (default: every file under the root)", "",
          "Options:",
          "  -r, --root <ROOT>",
          "          Repository root [default: .]",
          "      --bug <BUG>",
          "          BUG field of the change, e.g. \"webrtc:1234,chromium:5678\"",
          "          [env: PRESUBMIT_BUG=]",
          "      --commit-message <COMMIT_MESSAGE>",
          "          Read the BUG field from a commit message file",
          "  -f, --format <FORMAT>",
          "          Output format [default: text] [possible values: text, json, compact, pretty]",
          "      --checks <CHECKS>",
          "          Only run specific checks (comma-separated names or codes)",
          "  -e, --exclude <EXCLUDE>",
          "          Exclude patterns (can be specified multiple times)",
          "  -v, --verbose",
          "          Enable verbose output",
          "  -c, --config <CONFIG>",
          "          Path to configuration file",
          "  -h, --help",
          "          Print help"]
  | .listChecks =>
      paragraph <|
        ["List available checks", "", "Usage: presubmit list-checks [OPTIONS]", "", "Options:"] ++
        commonHelp
  | .init =>
      paragraph <|
        ["Initialize configuration file", "", "Usage: presubmit init [OPTIONS]", "", "Options:",
          "      --force            Overwrite existing config"] ++ commonHelp
  | .help =>
      paragraph
        ["Print this message or the help of the given subcommand(s)", "",
          "Usage: presubmit help [COMMAND]...", "",
          "Arguments:",
          "  [COMMAND]...  Print help for the subcommand(s)"]

end Hygiene.CommandLine
