import Hygiene.Gn.Family
import Hygiene.Gn.Target
import Hygiene.Text.Order

/-!
Targets whose sources mix languages. Each source list of a target is looked at by itself, since
lists assigned in different branches are never compiled together. A list mixes when it holds
sources of two classes; sources without a class do not count.
-/

namespace Hygiene.Gn

/-- A target that mixes languages, with its offending sources and with the classes in its mixing
lists in the order in which they are met. -/
structure Violation where
  file : String
  target : String
  sources : List String
  classes : List LanguageClass
  deriving DecidableEq, Repr

/-- The members of a list, each where it is met first. -/
def firstMet {α : Type} [DecidableEq α] (seen : List α) : List α → List α
  | [] => seen
  | a :: rest => firstMet (if a ∈ seen then seen else seen ++ [a]) rest

def classified (group : List String) : List String :=
  group.filter fun s => (LanguageClass.ofPath? s).isSome

def classesOf (group : List String) : List LanguageClass :=
  firstMet [] (group.filterMap LanguageClass.ofPath?)

/-- Whether a list holds sources of two classes. -/
def mixes (group : List String) : Bool := 2 ≤ (classesOf group).length

namespace Target

def mixingGroups (t : Target) : List (List String) := t.groups.filter mixes

/-- The sources with a class in the mixing lists, in increasing order, each once. -/
def offendingSources (t : Target) : List String :=
  Text.sortDistinct (t.mixingGroups.flatMap classified)

/-- What is wrong with a target of a file: nothing where no source offends. -/
def violation? (t : Target) (file : String) : Option Violation :=
  if t.offendingSources.isEmpty then none
  else
    some
      { file
        target := t.name
        sources := t.offendingSources
        classes := firstMet [] (t.mixingGroups.flatMap classesOf) }

end Target

/-- The violations in a build file, in the order of its targets. -/
def violations (file text : String) : List Violation :=
  (scanTargets text).filterMap fun t => t.violation? file

end Hygiene.Gn
