import Hygiene.Outcome.Encoding
import Hygiene.Text.Line

/-!
Outcomes as a command shows them: in paragraphs, as JSON, or in one line for each finding.
-/

namespace Hygiene

/-- A finding in one line. Of a message with several lines the first is shown. -/
def Diagnostic.line (d : Diagnostic) : String :=
  let location :=
    if d.files.isEmpty then "<change>" else ",".intercalate (d.files.map (·.text))
  let firstLine := (Text.lines d.message).headD ""
  s!"{location}: {d.severity.name} [{d.code}] {firstLine}"

namespace Outcome

inductive Format where
  | text
  | json
  | compact
  | pretty
  deriving DecidableEq, Repr

def Format.ofName? : String → Option Format
  | "text" => some text
  | "json" => some json
  | "compact" => some compact
  | "pretty" => some pretty
  | _ => none

def colorSequence (o : Outcome) : String :=
  if 0 < o.count .error then "\x1b[31m"
  else if 0 < o.count .warning then "\x1b[33m"
  else "\x1b[32m"

/-- How many findings of each severity there are, and in how many files. -/
def summary (o : Outcome) : String :=
  s!"{o.colorSequence}Found {o.count .error} error(s), {o.count .warning} warning(s), " ++
    s!"{o.count .info} info(s) in {o.filesChecked.toNat} file(s)\x1b[0m\n"

def display (o : Outcome) : Format → String
  | .text => String.join (o.diagnostics.map fun d => d.paragraph ++ "\n") ++ o.summary
  | .json => o.toJsonText ++ "\n"
  | .compact => String.join (o.diagnostics.map fun d => d.line ++ "\n")
  | .pretty => o.summary

/-- What a command tells besides, apart from its output. -/
def aside (o : Outcome) : Format → String
  | .pretty =>
      String.join (o.diagnostics.map fun d =>
        d.heading ++ "\n" ++ (d.help.elim "" fun text => s!"  help: {text}\n"))
  | _ => ""

end Outcome

end Hygiene
