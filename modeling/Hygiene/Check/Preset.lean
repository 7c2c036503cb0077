import Hygiene.Check.BuiltIn

/-!
Sets of checks to start from, and the checks that a configuration selects.
-/

namespace Hygiene

inductive Preset where
  | recommended
  | strict
  | minimal
  deriving DecidableEq, Repr

namespace Preset

def ofText? (text : String) : Option Preset :=
  match text.map Char.toLower with
  | "recommended" => some recommended
  | "default" => some recommended
  | "strict" => some strict
  | "minimal" => some minimal
  | _ => none

def unknownMessage (text : String) : String := s!"unknown preset: {text.map Char.toLower}"

def includes : Preset → CheckKind → Bool
  | minimal, kind => kind == .noMixing
  | _, _ => true

def checks : Preset → List BuiltIn
  | recommended =>
      [.bugEntry Bug.Rule.default, .singleNewline BuiltIn.schemaFiles, .noMixing BuiltIn.buildFiles]
  | strict =>
      [.bugEntry { Bug.Rule.default with require := true }, .singleNewline BuiltIn.schemaFiles,
        .noMixing BuiltIn.buildFiles]
  | minimal => [.noMixing BuiltIn.buildFiles]

end Preset

def BuiltIn.all : List BuiltIn := Preset.recommended.checks

/-- The check with this name or code and the options of a section; none when there is no such
check. -/
def BuiltIn.named? (name : String) (s : Option Section) : Except CheckError (Option BuiltIn) :=
  match CheckKind.ofText? name with
  | none => .ok none
  | some kind => (BuiltIn.ofSection (s.getD Section.empty) kind).map some

namespace Config

/-- The preset of a configuration. One that is absent or unknown counts as the recommended one. -/
def basePreset (c : Config) : Preset := (c.preset.bind Preset.ofText?).getD .recommended

/-- Whether a configuration selects a kind of check: the preset includes it or its section turns it
on. -/
def selects (c : Config) (kind : CheckKind) : Bool :=
  c.basePreset.includes kind || (c.section? kind.name).bind (·.enabled) == some true

/-- The section from which a kind of check is made. The strict preset makes a reference to an issue
mandatory where the section does not say whether it is. -/
def sectionFor (c : Config) (kind : CheckKind) : Section :=
  let s := (c.section? kind.name).getD Section.empty
  if c.basePreset = .strict ∧ kind = .bugEntry ∧ (s.get? "require").isNone then
    { s with options := s.options ++ [("require", .boolean true)] }
  else s

def checksAmong (c : Config) : List CheckKind → Except CheckError (List BuiltIn)
  | [] => .ok []
  | kind :: rest =>
      if c.selects kind then do
        let check ← BuiltIn.ofSection (c.sectionFor kind) kind
        return check :: (← c.checksAmong rest)
      else c.checksAmong rest

/-- The checks that a configuration selects, in the order of their codes. -/
def selectedChecks (c : Config) : Except CheckError (List BuiltIn) :=
  c.checksAmong CheckKind.all

end Config

end Hygiene
