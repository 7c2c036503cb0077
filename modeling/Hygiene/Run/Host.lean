import Hygiene.Run
import Hygiene.Source

/-!
Runs on a machine. The files of the change are collected first; unless it is said where they come
from, they are those of the tree at the root, with the settings of the configuration.
-/

namespace Hygiene

structure Run where
  config : Config
  root : Option Path
  source : Option Source
  checks : List Check
  bug : Option String

inductive RunError where
  | source (e : SourceError)
  | check (e : CheckError)
  deriving DecidableEq, Repr

def RunError.messages : RunError → List String
  | source e => e.messages
  | check e => e.messages

namespace Run

def workspaceOf (config : Config) (root : Path) : Workspace :=
  ⟨root, config.files.exclude, config.files.respectGitignore⟩

def outcome (r : Run) (h : Host) : Except RunError Outcome := do
  let root := rootOfRun r.config r.root h.currentPath
  let source := r.source.getD (.workspace (workspaceOf r.config root))
  let files ← (source.files h).mapError .source
  (runChecks r.config r.checks ⟨root, files, r.bug⟩).mapError .check

end Run

end Hygiene
