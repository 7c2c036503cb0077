import Hygiene.Host
import Hygiene.Ignore.Level
import Hygiene.Ignore.UserFile
import Hygiene.Source.Listed

/-!
Trees whose files are all taken as changed, except those that are hidden, ignored, or excluded by a
pattern. What is ignored is not looked into, while an excluded file is only left out of the list.
-/

namespace Hygiene

structure Workspace where
  root : Path
  exclude : List String
  respectGitignore : Bool
  deriving DecidableEq, Repr

namespace Workspace

def readGlobs : List String → Except SourceError (List Glob)
  | [] => .ok []
  | text :: rest => do
      let glob ← (Glob.read text).mapError .badGlob
      return glob :: (← readGlobs rest)

/-- Whether a file with this local path is left out: a pattern covers it, or what is left of a
pattern behind the directories at its front does. -/
def excludes (globs : List Glob) (localPath : String) : Bool :=
  globs.any fun g =>
    g.isMatch localPath ||
      match g.withoutLeadingDirectories? with
      | none => false
      | some shorter => shorter.isMatch localPath

/-- The path as the rules of the user see it: without `./` at its front, and from the current
directory if its text begins with that. -/
def pathForUser (current p : Path) : String :=
  let strip (front cs : List Char) := if front.isPrefixOf cs then cs.drop front.length else cs
  let cs := strip "./".toList p.text.toList
  if current.text.toList.isPrefixOf cs then
    String.ofList (strip ['/'] (strip current.text.toList cs))
  else String.ofList cs

structure Walk where
  respectGitignore : Bool
  current : Path
  userRules : List Ignore.Rule

/-- Whether a walk passes an entry over: because it is ignored, or because its name begins with a
dot and no rule keeps it. -/
def Walk.skips (w : Walk) (levels : List Ignore.Level) (name : String) (p : Path)
    (isDirectory : Bool) : Bool :=
  let verdict := (Ignore.levelVerdict? levels name isDirectory).or
    (Ignore.verdict? w.userRules (pathForUser w.current p) isDirectory)
  match verdict with
  | some .ignored => true
  | some .kept => false
  | none => ['.'].isPrefixOf name.toList

mutual

/-- The files at a path or below it. `levels` are those of the directories around. -/
def Walk.filesBelow (w : Walk) (levels : List Ignore.Level) (p : Path) :
    Tree → List (Path × List UInt8)
  | .file bytes => [(p, bytes)]
  | .directory entries =>
      let level := Ignore.Level.ofDirectory w.respectGitignore (.directory entries) []
      let found := w.filesAmong (level :: levels) p entries
      (found.mergeSort fun a b => a.1 ≤ b.1).flatMap (·.2)

/-- The files below each entry of a directory that is not passed over. -/
def Walk.filesAmong (w : Walk) (levels : List Ignore.Level) (p : Path) :
    List (String × Tree) → List (String × List (Path × List UInt8))
  | [] => []
  | (name, t) :: rest =>
      let others := w.filesAmong levels p rest
      if w.skips levels name (p.entry name) t.isDirectory then others
      else (name, w.filesBelow (levels.map (·.enter name)) (p.entry name) t) :: others

end

/-- The root that stands for standard input, where there is no tree. -/
def isStandardInput (root : Path) : Bool := root.components == [.name "-"]

def found (w : Workspace) (h : Host) : Except SourceError (List (Path × List UInt8)) := do
  if isStandardInput w.root then return []
  let place ← (h.locate w.root).mapError (.noTree w.root)
  let t ← (h.get w.root).mapError (.noTree w.root)
  let levels := Ignore.Level.around w.respectGitignore h.top place
  if t.isDirectory && levels.any (·.isMalformed) then throw (.malformedIgnoreFile w.root)
  let walk : Walk :=
    { respectGitignore := w.respectGitignore
      current := h.currentPath
      userRules := if w.respectGitignore then h.ignoreRules else [] }
  return walk.filesBelow levels w.root t

/-- The files of a tree, directory by directory in the order of names. -/
def files (w : Workspace) (h : Host) : Except SourceError (List ChangedFile) := do
  let globs ← readGlobs w.exclude
  let found ← w.found h
  return (found.map fun (p, bytes) => ChangedFile.new p bytes w.root).filter fun f =>
    !excludes globs f.localPath

end Workspace

end Hygiene
