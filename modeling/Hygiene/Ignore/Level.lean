import Hygiene.Ignore.Rule
import Hygiene.Path
import Hygiene.Tree

/-!
The ignore files of a directory and of all directories around it. A directory may hold `.ignore`,
`.gitignore` and `.git/info/exclude`. A file of the first kind, in whatever directory, goes before
one of the second, and that before one of the third; among those of one kind the nearest goes first.
-/

namespace Hygiene.Ignore

/-- The rules of `.ignore`, of `.gitignore` and of `.git/info/exclude` in a directory, and the names
that lead from there to the directory that is looked at. -/
structure Level where
  plain : List Line
  shared : List Line
  ownOnly : List Line
  below : List String

namespace Level

/-- The rules of a directory that lies so many names above. Those of the version control system are
left out where they do not count. -/
def ofDirectory (respectGitignore : Bool) (t : Tree) (below : List String) : Level :=
  let linesAt (place : List String) := ((t.fileAt? place).map fileLines).getD []
  { plain := linesAt [".ignore"]
    shared := if respectGitignore then linesAt [".gitignore"] else []
    ownOnly := if respectGitignore then linesAt [".git", "info", "exclude"] else []
    below }

def isMalformed (l : Level) : Bool := (l.plain ++ l.shared ++ l.ownOnly).contains .malformed

/-- The rules seen from an entry of the directory that was looked at. -/
def enter (name : String) (l : Level) : Level := { l with below := l.below ++ [name] }

/-- The path of an entry of the directory that is looked at, seen from the directory with the
rules. -/
def pathOf (l : Level) (name : String) : String := "/".intercalate (l.below ++ [name])

/-- The levels of the directories that lie around a place in a tree, the nearest first. -/
def around (respectGitignore : Bool) (top : Tree) (place : List String) : List Level :=
  ((List.range place.length).filterMap fun depth =>
    (top.at? (place.take depth)).map fun t =>
      ofDirectory respectGitignore t (place.drop depth)).reverse

end Level

/-- What becomes of an entry of a directory by the ignore files of that directory and those around
it. -/
def levelVerdict? (levels : List Level) (name : String) (isDirectory : Bool) : Option Verdict :=
  let nearest? (lines : Level → List Line) :=
    levels.findSome? fun l => verdict? (rulesOf (lines l)) (l.pathOf name) isDirectory
  ((nearest? (·.plain)).or (nearest? (·.shared))).or (nearest? (·.ownOnly))

end Hygiene.Ignore
