import Hygiene.Source.Workspace

/-!
Where the files of a change come from: a list of paths, or a tree.
-/

namespace Hygiene

inductive Source where
  | listed (root : Path) (paths : List Path)
  | workspace (workspace : Workspace)
  deriving DecidableEq, Repr

def Source.files (h : Host) : Source → Except SourceError (List ChangedFile)
  | listed root paths => h.listedFiles root paths
  | workspace w => w.files h

end Hygiene
