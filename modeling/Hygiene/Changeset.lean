import Hygiene.Path
import Hygiene.Glob.Match
import Hygiene.Text.Utf8

/-!
The files that a change touches, and what is known about the change as a whole. The bytes of a file
are there from the start, while their meaning as text is asked for only by those who need it; so a
file that is no text troubles nobody who passes it over.
-/

namespace Hygiene

structure ChangedFile where
  path : Path
  relativePath : Path
  bytes : List UInt8
  deriving DecidableEq, Repr

namespace ChangedFile

/-- A file found under a path, seen from a root. -/
def new (path : Path) (bytes : List UInt8) (root : Path) : ChangedFile :=
  ⟨path, path.relativeTo root, bytes⟩

/-- The relative path with `/` as its separator throughout. -/
def localPath (f : ChangedFile) : String :=
  f.relativePath.text.map fun c => if c = '\\' then '/' else c

def fileName? (f : ChangedFile) : Option String := f.relativePath.fileName?

/-- Whether one of the patterns covers the file. A pattern without a separator is held against the
name alone, and so covers files of that name in every directory. -/
def matchesAny (f : ChangedFile) (patterns : List Glob) : Bool :=
  let name := f.fileName?.getD ""
  patterns.any fun g =>
    if g.text.toList.contains '/' then g.isMatch f.localPath else g.isMatch name

def text (f : ChangedFile) : Except Text.Utf8.Fault String := Text.Utf8.decode f.bytes

end ChangedFile

structure Changeset where
  root : Path
  files : List ChangedFile
  bug : Option String
  deriving DecidableEq, Repr

def Changeset.filesMatching (c : Changeset) (patterns : List Glob) : List ChangedFile :=
  c.files.filter (·.matchesAny patterns)

end Hygiene
