import Hygiene.Bug.Footer
import Hygiene.CommandLine.Usage
import Hygiene.Config.File
import Hygiene.Config.Template
import Hygiene.Outcome.Display
import Hygiene.Run.Host

/-!
The commands. A command starts from a machine and ends with what it prints and with the disk as it
leaves it. The command that checks a change ends badly in two ways: its findings block the change,
or something kept it from coming to an end.
-/

namespace Hygiene.CommandLine

structure Failure where
  context : String
  causes : List String
  deriving DecidableEq, Repr

/-- A text whose lines after the first are indented. -/
def indentAfter (width : Nat) (s : String) : String :=
  ("\n" ++ String.ofList (List.replicate width ' ')).intercalate (Text.splitOn '\n' s)

def numbered (first : Nat) : List String → String
  | [] => ""
  | cause :: rest =>
      let number := toString first
      let padding := String.ofList (List.replicate (5 - number.length) ' ')
      s!"\n{padding}{number}: {indentAfter 7 cause}{numbered (first + 1) rest}"

/-- The wording of a failure. Several causes are numbered, a single one is not. -/
def Failure.message (f : Failure) : String :=
  match f.causes with
  | [] => f.context
  | [cause] => s!"{f.context}\n\nCaused by:\n    {indentAfter 4 cause}"
  | causes => s!"{f.context}\n\nCaused by:{numbered 0 causes}"

/-- How a command ends. `aside` is what the program tells apart from its output. -/
inductive Ending where
  | finished (output aside : String)
  | blocked (output aside : String)
  | failed (failure : Failure)
  | misused
  deriving DecidableEq, Repr

namespace Ending

def exitCode : Ending → UInt8
  | finished _ _ => 0
  | blocked _ _ => 1
  | failed _ => 1
  | misused => 2

def output : Ending → String
  | finished output _ => output
  | blocked output _ => output
  | failed _ => ""
  | misused => ""

def complaint? : Ending → Option String
  | failed failure => some failure.message
  | _ => none

def errorText : Ending → String
  | finished _ aside => aside
  | blocked _ aside => aside
  | failed failure => s!"Error: {failure.message}\n"
  | misused => "For more information, try '--help'.\n"

end Ending

/-! ### Checking a change -/

def loadConfig (h : Host) (root : Path) (asked : Option Path) : Except Failure Config :=
  match Config.fileFor? h root asked with
  | none => .ok Config.default
  | some p =>
      (Config.ofFile h.toDisk p).mapError fun e =>
        ⟨s!"Failed to load config: {p.text}", e.messages⟩

/-- The field that refers to issues: the one that is given, or that of the commit message. -/
def bugField (h : Host) (a : CheckArguments) : Except Failure (Option String) :=
  match a.bug, a.commitMessage with
  | some bug, _ => .ok (some bug)
  | none, none => .ok none
  | none, some p => do
      let text ← (h.readText p).mapError fun fault =>
        Failure.mk s!"Failed to read commit message: {p.text}" [fault.message]
      return Bug.ofMessage? text

/-- The checks of those names or codes, each with the options of its section. Names that no check
has are passed over. -/
def namedChecks (config : Config) : List String → Except Failure (List BuiltIn)
  | [] => .ok []
  | name :: rest =>
      match CheckKind.ofText? name with
      | none => namedChecks config rest
      | some kind => do
          let s := (config.section? kind.name).getD Section.empty
          let check ← (BuiltIn.ofSection s kind).mapError fun e =>
            ⟨s!"Invalid configuration for {kind.name}", e.messages⟩
          return check :: (← namedChecks config rest)

def namesIn (text : String) : List String :=
  ((Text.splitOn ',' text).map Text.trim).filter fun name => !name.isEmpty

/-- The checks of a run: those that are asked for, or those that the configuration selects. -/
def checksFor (config : Config) : Option String → Except Failure (List BuiltIn)
  | some text => namedChecks config (namesIn text)
  | none =>
      config.selectedChecks.mapError fun e => ⟨"Invalid check configuration", e.messages⟩

/-- A path from the current directory, when that leads somewhere; any other path as it stands. -/
def absolutize (d : Disk) (p : Path) : Path :=
  if !p.isAbsolute && d.contains p then d.currentPath.join p else p

def runOf (h : Host) (root : Path) (config : Config) (checks : List BuiltIn) (bug : Option String)
    (paths : List Path) : Run :=
  { config
    root := some root
    source :=
      if paths.isEmpty then none else some (.listed root (paths.map (absolutize h.toDisk)))
    checks := checks.map BuiltIn.toCheck
    bug }

/-- The outcome of checking a change, and the severity that blocks it. -/
def checkOutcome (h : Host) (a : CheckArguments) : Except Failure (Outcome × Severity) := do
  let root := h.currentPath.join a.root
  let loaded ← loadConfig h root a.config
  let config :=
    { loaded with files := { loaded.files with exclude := loaded.files.exclude ++ a.exclude } }
  let threshold ← config.threshold.mapError fun e =>
    Failure.mk "Invalid fail_on in config" e.messages
  let bug ← bugField h a
  let checks ← checksFor config a.checks
  let outcome ← ((runOf h root config checks bug a.paths).outcome h).mapError fun e =>
    Failure.mk "Presubmit failed" e.messages
  return (outcome, threshold)

def check (h : Host) (a : CheckArguments) : Ending :=
  match checkOutcome h a with
  | .error failure => .failed failure
  | .ok (outcome, threshold) =>
      if outcome.hasDiagnosticsAt threshold then
        .blocked (outcome.display a.format) (outcome.aside a.format)
      else .finished (outcome.display a.format) (outcome.aside a.format)

/-! ### Other commands -/

def newConfigFile : Path := ⟨"presubmit.toml"⟩

/-- Writes a configuration file to start from. One that is there already is left alone unless
`force` is set. -/
def createConfig (d : Disk) (force : Bool) : Ending × Disk :=
  if d.contains newConfigFile && !force then
    let complaint :=
      s!"Configuration file already exists at {newConfigFile.text}. Use --force to overwrite."
    (.failed ⟨complaint, []⟩, d)
  else
    match d.write newConfigFile (Text.Utf8.encode Config.template) with
    | .error fault => (.failed ⟨s!"Failed to write {newConfigFile.text}", [fault.message]⟩, d)
    | .ok written => (.finished createdText "", written)

/-- How a command ends, and the disk that it leaves. -/
def Command.run (h : Host) : Command → Ending × Disk
  | check arguments => (CommandLine.check h arguments, h.toDisk)
  | listChecks => (.finished listing "", h.toDisk)
  | init force => createConfig h.toDisk force
  | help topic => (.finished (helpText topic) "", h.toDisk)
  | version => (.finished versionText "", h.toDisk)
  | misuse => (.misused, h.toDisk)

def commandFor (h : Host) (arguments : List String) : Command :=
  .ofArguments (h.valueOf? "PRESUBMIT_BUG") arguments

end Hygiene.CommandLine
