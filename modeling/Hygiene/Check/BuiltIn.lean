import Hygiene.Bug.Rule
import Hygiene.Check.Basic
import Hygiene.Config
import Hygiene.Gn.Report
import Hygiene.Newline

/-!
The checks that come with the program: on the references to issues, on the end of schema files, and
on targets that mix languages. Each is a value that holds its options, so that two checks with the
same options are the same.
-/

namespace Hygiene

inductive CheckKind where
  | bugEntry
  | singleNewline
  | noMixing
  deriving DecidableEq, Repr

namespace CheckKind

def all : List CheckKind := [bugEntry, singleNewline, noMixing]

def name : CheckKind → String
  | bugEntry => "bug-entry-syntax"
  | singleNewline => "proto-trailing-newline"
  | noMixing => "gn-no-mixing-sources"

def code : CheckKind → String
  | bugEntry => "PS001"
  | singleNewline => "PS002"
  | noMixing => "PS003"

def description : CheckKind → String
  | bugEntry => "Requires BUG entries of the form <tracker>:<number>"
  | singleNewline => "Requires .proto files to end with exactly one newline"
  | noMixing => "Forbids GN targets that mix .c, .cc and .m/.mm sources"

def ofText? (text : String) : Option CheckKind :=
  all.find? fun k => k.name == text || k.code == text

end CheckKind

inductive BuiltIn where
  | bugEntry (rule : Bug.Rule)
  | singleNewline (patterns : List Glob)
  | noMixing (patterns : List Glob)
  deriving DecidableEq, Repr

namespace BuiltIn

def kind : BuiltIn → CheckKind
  | bugEntry _ => .bugEntry
  | singleNewline _ => .singleNewline
  | noMixing _ => .noMixing

def extensionGlob (extension : String) : Glob :=
  ⟨"*." ++ extension, .anySequence :: ('.' :: extension.toList).map GlobToken.char⟩

def schemaFiles : List Glob := [extensionGlob "proto"]

def buildFiles : List Glob := [extensionGlob "gn", extensionGlob "gni"]

def bugDiagnostic (message : String) : Diagnostic :=
  { code := CheckKind.bugEntry.code
    check := CheckKind.bugEntry.name
    severity := .error
    message
    files := []
    help := some "Use `Bug: <tracker>:<number>`, e.g. `Bug: webrtc:123`" }

def runBugEntry (rule : Bug.Rule) (change : Changeset) : List Diagnostic :=
  match change.bug with
  | none =>
      if rule.require then [bugDiagnostic s!"Missing BUG entry. {Bug.exampleText}"] else []
  | some field => (rule.validate field).map bugDiagnostic

/-- The finding about a file that does not end in exactly one line break. -/
def newlineDiagnostic (file : ChangedFile) : Diagnostic :=
  { code := CheckKind.singleNewline.code
    check := CheckKind.singleNewline.name
    severity := .error
    message := s!"File {file.localPath} must end with exactly one newline."
    files := [file.relativePath]
    help := none }

def newlineDiagnostics : List ChangedFile → Except CheckError (List Diagnostic)
  | [] => .ok []
  | file :: rest => do
      let text ← file.textFor CheckKind.singleNewline.name
      let more ← newlineDiagnostics rest
      return if Newline.endsWithSingle text then more else newlineDiagnostic file :: more

/-- The report on all targets of the selected files that mix languages. -/
def mixingReport (patterns : List Glob) (report : Gn.Report) :
    List ChangedFile → Except CheckError Gn.Report
  | [] => .ok report
  | file :: rest =>
      if file.matchesAny patterns then do
        let text ← file.textFor CheckKind.noMixing.name
        mixingReport patterns (report.extend (Gn.violations file.localPath text)) rest
      else mixingReport patterns report rest

def mixingDiagnostic (report : Gn.Report) : Diagnostic :=
  { code := CheckKind.noMixing.code
    check := CheckKind.noMixing.name
    severity := .error
    message := report.render
    files := report.violatingFiles.map Path.mk
    help := some "Split the sources into one target per language family" }

def run : BuiltIn → Changeset → Except CheckError (List Diagnostic)
  | bugEntry rule, change => .ok (runBugEntry rule change)
  | singleNewline patterns, change => newlineDiagnostics (change.filesMatching patterns)
  | noMixing patterns, change => do
      let report ← mixingReport patterns Gn.Report.empty change.files
      return if report.isEmpty then [] else [mixingDiagnostic report]

def toCheck (b : BuiltIn) : Check :=
  { name := b.kind.name
    code := b.kind.code
    description := b.kind.description
    severity := .error
    run := b.run }

def readGlobs (check : String) : List String → Except CheckError (List Glob)
  | [] => .ok []
  | text :: rest => do
      let glob ← (Glob.read text).mapError fun fault =>
        CheckError.badOption check "patterns" (.glob text fault)
      return glob :: (← readGlobs check rest)

/-- The patterns that a section sets, or else the default. -/
def globsOf (s : Section) (check : String) (default : List Glob) :
    Except CheckError (List Glob) :=
  match s.getStrings? "patterns" with
  | none => .ok default
  | some texts => readGlobs check texts

def ruleOf (s : Section) : Except CheckError Bug.Rule := do
  let check := CheckKind.bugEntry.name
  let threshold := s.getInteger "chromium_threshold" Bug.Rule.default.threshold.toNat
  if threshold < 0 then
    throw (.badOption check "chromium_threshold" (.negative threshold))
  let pattern ← match (s.get? "pattern").bind Toml.Value.asString? with
    | none => pure Bug.defaultPattern
    | some text =>
        (Regex.read (Bug.wholeEntry text)).mapError fun fault =>
          CheckError.badOption check "pattern" (.regex fault)
  return ⟨s.getBool "require" false, UInt64.ofNat threshold.toNat, pattern⟩

def ofSection (s : Section) : CheckKind → Except CheckError BuiltIn
  | .bugEntry => (ruleOf s).map bugEntry
  | .singleNewline => (globsOf s CheckKind.singleNewline.name schemaFiles).map singleNewline
  | .noMixing => (globsOf s CheckKind.noMixing.name buildFiles).map noMixing

end BuiltIn

end Hygiene
