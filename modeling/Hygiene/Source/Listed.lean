import Hygiene.Changeset
import Hygiene.Disk

/-!
Collecting the files of a change. Here their paths are listed, and a file that cannot be read is an
error.
-/

namespace Hygiene

inductive SourceError where
  | unreadable (path : Path) (fault : DiskFault)
  | noTree (root : Path) (fault : DiskFault)
  | malformedIgnoreFile (root : Path)
  | badGlob (fault : Glob.Fault)
  deriving DecidableEq, Repr

def SourceError.messages : SourceError → List String
  | unreadable path fault => [s!"Failed to read {path.text}: {fault.message}", fault.message]
  | noTree root fault => [s!"Failed to walk {root.text}: {fault.message}", fault.message]
  | malformedIgnoreFile root =>
      [s!"Failed to walk {root.text}: malformed ignore file", "malformed ignore file"]
  | badGlob fault => [s!"Invalid glob pattern: {fault.message}", fault.message]

def SourceError.message (e : SourceError) : String := e.messages.headD ""

/-- The path under which a listed file is read: as it stands when it is absolute or leads somewhere,
otherwise behind the root. -/
def Disk.resolve (d : Disk) (root p : Path) : Path :=
  if p.isAbsolute || d.contains p then p else root.join p

def Disk.changedFile (d : Disk) (root p : Path) : Except SourceError ChangedFile := do
  let bytes ← (d.read p).mapError (.unreadable p)
  return .new p bytes root

/-- Listed files, in the order of the list. -/
def Disk.listedFiles (d : Disk) (root : Path) : List Path → Except SourceError (List ChangedFile)
  | [] => .ok []
  | p :: rest => do
      let file ← d.changedFile root (d.resolve root p)
      return file :: (← d.listedFiles root rest)

end Hygiene
