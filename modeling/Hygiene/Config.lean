import Hygiene.Disk
import Hygiene.Severity
import Hygiene.Toml.Reader

/-!
The configuration: which checks run, how grave their findings are, which files are looked at, and
from which severity on a change is blocked. It is read from a TOML document; what the document
leaves out has a default, and keys that mean nothing here are passed over.
-/

namespace Hygiene

open Toml

structure FileSettings where
  root : Path
  exclude : List String
  respectGitignore : Bool
  deriving DecidableEq, Repr

structure Section where
  enabled : Option Bool
  severity : Option Severity
  options : Entries
  deriving Repr

structure Config where
  preset : Option String
  failOn : Option String
  files : FileSettings
  checks : List (String × Section)
  deriving Repr

inductive ConfigError where
  | unreadable (path : Path) (fault : DiskFault)
  | malformed
  | unknownThreshold (text : String)
  deriving DecidableEq, Repr

/-- The wording of an error, as far as it does not depend on where the document goes wrong. -/
def ConfigError.message : ConfigError → String
  | unreadable path fault => s!"Failed to read config file {path.text}: {fault.message}"
  | malformed => "Failed to parse config: TOML parse error"
  | unknownThreshold text => s!"Failed to parse config: {Severity.unknownMessage text}"

def ConfigError.messages (e : ConfigError) : List String :=
  match e with
  | unreadable _ fault => [e.message, fault.message]
  | malformed | unknownThreshold _ => [e.message]

/-- The key under which a date counts as a table where a table is wanted. -/
def datetimeKey : String := "$__toml_private_datetime"

/-- The entries of a value that is a table, or counts as one. -/
def entriesOf? : Value → Option Entries
  | .table entries => some entries
  | .datetime literal => some [(datetimeKey, .string literal)]
  | _ => none

/-- A setting that may be left out. -/
def optional? {α : Type} (decode : Value → Option α) : Option Value → Option (Option α)
  | none => some none
  | some v => (decode v).map some

def withDefault? {α : Type} (default : α) (decode : Value → Option α) (v : Option Value) :
    Option α :=
  (optional? decode v).map (·.getD default)

namespace FileSettings

/-- The root when none is set: the current directory. -/
def defaultRoot : Path := ⟨"."⟩

/-- The settings of a document that does not mention files at all. -/
def default : FileSettings := ⟨defaultRoot, ["**/out/**", "**/third_party/**"], true⟩

/-- The settings with these values. A document that mentions files but not which to leave out leaves
out none. -/
def ofValues? (root exclude respectGitignore : Option Value) : Option FileSettings := do
  let root ← withDefault? defaultRoot (fun v => v.asString?.map Path.mk) root
  let exclude ←
    withDefault? [] (fun v => v.asArray?.bind fun items => items.mapM Value.asString?) exclude
  let respectGitignore ← withDefault? true Value.asBoolean? respectGitignore
  return ⟨root, exclude, respectGitignore⟩

/-- The settings that a value gives: a table, or an array of the values in order. -/
def ofToml? : Value → Option FileSettings
  | .array items => ofValues? items[0]? items[1]? items[2]?
  | v => do
      let entries ← entriesOf? v
      ofValues? (entries.get? "root") (entries.get? "exclude") (entries.get? "respect_gitignore")

end FileSettings

/-- The severity that a value names: a string, or a table whose only key is the name and holds
nothing. -/
def Severity.ofToml? : Value → Option Severity
  | .string text => ofName? text
  | .table [(text, .table [])] => ofName? text
  | .table [(text, .array [])] => ofName? text
  | _ => none

namespace Section

def empty : Section := ⟨none, none, []⟩

def ofEntries? (entries : Entries) : Option Section := do
  let enabled ← optional? Value.asBoolean? (entries.get? "enabled")
  let severity ← optional? Severity.ofToml? (entries.get? "severity")
  return ⟨enabled, severity, entries.filter fun e => e.1 != "enabled" && e.1 != "severity"⟩

def read (text : String) : Except ConfigError Section :=
  match (Toml.read text).bind ofEntries? with
  | none => .error .malformed
  | some s => .ok s

def get? (s : Section) (key : String) : Option Value := s.options.get? key

/-- A boolean option; the default stands also for a value of another type. -/
def getBool (s : Section) (key : String) (default : Bool) : Bool :=
  ((s.get? key).bind Value.asBoolean?).getD default

def getInteger (s : Section) (key : String) (default : Int) : Int :=
  ((s.get? key).bind Value.asInteger?).getD default

/-- The strings in an array option, if the option is an array. Other items are left out. -/
def getStrings? (s : Section) (key : String) : Option (List String) :=
  ((s.get? key).bind Value.asArray?).map fun items => items.filterMap Value.asString?

end Section

def sections? : Entries → Option (List (String × Section))
  | [] => some []
  | (name, v) :: rest => do
      let decoded ← Section.ofEntries? (← entriesOf? v)
      return (name, decoded) :: (← sections? rest)

namespace Config

def default : Config := ⟨none, none, FileSettings.default, []⟩

def ofEntries? (entries : Entries) : Option Config := do
  let preset ← optional? Value.asString? (entries.get? "preset")
  let failOn ← optional? Value.asString? (entries.get? "fail_on")
  let files ← withDefault? FileSettings.default FileSettings.ofToml? (entries.get? "files")
  let checks ← withDefault? [] (fun v => (entriesOf? v).bind sections?) (entries.get? "checks")
  return ⟨preset, failOn, files, checks⟩

def read (text : String) : Except ConfigError Config :=
  match (Toml.read text).bind ofEntries? with
  | none => .error .malformed
  | some c => .ok c

def section? (c : Config) (check : String) : Option Section :=
  c.checks.lookup check

/-- Whether a check runs: unless its section says otherwise, it does. -/
def isEnabled (c : Config) (check : String) : Bool :=
  ((c.section? check).bind (·.enabled)).getD true

def severity? (c : Config) (check : String) : Option Severity :=
  (c.section? check).bind (·.severity)

/-- The severity from which on a change is blocked. -/
def threshold (c : Config) : Except ConfigError Severity :=
  match c.failOn with
  | none => .ok .error
  | some text =>
      match Severity.ofText? text with
      | none => .error (.unknownThreshold text)
      | some s => .ok s

end Config

end Hygiene
