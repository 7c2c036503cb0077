import Hygiene.Path
import Hygiene.Severity

/-!
Findings of checks. A finding may be about several files at once, or about none when it concerns
the change as a whole. Findings are sorted by code, then by the first file, then by message; a
finding without files comes before those that name one.
-/

namespace Hygiene

structure Diagnostic where
  code : String
  check : String
  severity : Severity
  message : String
  files : List Path
  help : Option String
  deriving DecidableEq, Repr

namespace Diagnostic

/-- The order of findings: code, first file, message. -/
def compare (a b : Diagnostic) : Ordering :=
  (Ord.compare a.code b.code).then
    ((Ord.compare a.files.head? b.files.head?).then (Ord.compare a.message b.message))

def paragraph (d : Diagnostic) : String :=
  let location :=
    if d.files.isEmpty then "" else " in " ++ ", ".intercalate (d.files.map (·.text))
  let help :=
    match d.help with
    | none => ""
    | some text => s!"  = help: {text}\n"
  s!"{d.code} {d.check}{location}\n  {d.severity.name}: {d.message}\n" ++ help

/-- The heading of a finding: the code and the name of its check in front of the message. -/
def heading (d : Diagnostic) : String :=
  s!"[{d.code} {d.check}] {d.message}"

end Diagnostic

end Hygiene
