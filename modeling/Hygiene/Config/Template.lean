/-!
The configuration file that a new user starts from. It spells out the defaults, and shows in remarks
what else can be set.
-/

namespace Hygiene.Config

def template : String :=
  "# presubmit configuration

# Check preset: \"recommended\", \"strict\" or \"minimal\"
preset = \"recommended\"

# Lowest severity that fails the run
fail_on = \"error\"

[files]
# Root directory to walk when no paths are given (default: current directory)
# root = \".\"

# Glob patterns to skip during the walk
exclude = [
    \"**/out/**\",
    \"**/third_party/**\",
]

# Respect .gitignore files
respect_gitignore = true

# Check configurations
# Each check can be enabled/disabled and have its severity overridden

[checks.bug-entry-syntax]
enabled = true
# require = true
# chromium_threshold = 100000

[checks.proto-trailing-newline]
enabled = true
# severity = \"warning\"

[checks.gn-no-mixing-sources]
enabled = true
# patterns = [\"*.gn\", \"*.gni\"]
"

end Hygiene.Config
