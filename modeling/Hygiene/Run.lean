import Hygiene.Check.Preset
import Hygiene.Outcome

/-!
Running checks over a change. Checks that the configuration turns off are never consulted; the
others run in the order in which they are given, and the first failure ends the run.
-/

namespace Hygiene

namespace Check

/-- The findings of a check with the severity that the configuration sets, if it sets one. -/
def override (config : Config) (check : Check) (found : List Diagnostic) : List Diagnostic :=
  match config.severity? check.name with
  | none => found
  | some severity => found.map fun d => { d with severity }

/-- The findings of the checks that are turned on, one check after the other. -/
def findings (config : Config) (change : Changeset) :
    List Check → Except CheckError (List Diagnostic)
  | [] => .ok []
  | check :: rest =>
      if config.isEnabled check.name then do
        let found ← check.run change
        return check.override config found ++ (← findings config change rest)
      else findings config change rest

end Check

def runChecks (config : Config) (checks : List Check) (change : Changeset) :
    Except CheckError Outcome := do
  let found ← Check.findings config change checks
  return Outcome.sort ⟨found, UInt64.ofNat change.files.length⟩

/-- The root of a run: the one that is asked for or else that of the configuration, seen from the
current directory. -/
def rootOfRun (config : Config) (root : Option Path) (cwd : Path) : Path :=
  cwd.join (root.getD config.files.root)

end Hygiene
