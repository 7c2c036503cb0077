import Hygiene.Changeset
import Hygiene.Diagnostic
import Hygiene.Regex.Reader

/-!
Checks. A check looks at a whole change and either reports findings or fails. What it can interpret
by itself, such as odd text in a build file, is no failure.
-/

namespace Hygiene

inductive OptionFault where
  | negative (value : Int)
  | glob (pattern : String) (fault : Glob.Fault)
  | regex (fault : Regex.Fault)
  | other (reason : String)
  deriving DecidableEq, Repr

def OptionFault.message : OptionFault → String
  | negative value => s!"must not be negative, got {value}"
  | glob pattern fault => s!"{pattern}: {fault.message}"
  | regex fault => fault.message
  | other reason => reason

inductive CheckError where
  | unrendered (check reason : String)
  | undecodable (check : String) (path : Path) (fault : Text.Utf8.Fault)
  | badOption (check option : String) (fault : OptionFault)
  deriving DecidableEq, Repr

def CheckError.message : CheckError → String
  | unrendered check reason => s!"failed to render report for {check}: {reason}"
  | undecodable check path fault =>
      s!"{check} cannot read {path.text}: not valid UTF-8 ({fault.message})"
  | badOption check option fault => s!"invalid option `{option}` for {check}: {fault.message}"

/-- The wording of a failure and of what brought it about, where that has a wording of its own. -/
def CheckError.messages (e : CheckError) : List String :=
  match e with
  | undecodable _ _ fault => [e.message, fault.message]
  | unrendered _ _ | badOption _ _ _ => [e.message]

structure Check where
  name : String
  code : String
  description : String
  severity : Severity
  run : Changeset → Except CheckError (List Diagnostic)

def ChangedFile.textFor (f : ChangedFile) (check : String) : Except CheckError String :=
  f.text.mapError fun fault => .undecodable check f.path fault

end Hygiene
