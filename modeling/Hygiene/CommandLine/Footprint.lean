import Hygiene.CommandLine.Command

/-!
What a command may look at on the machine. Whoever shows a command a part of a disk only has to show
these places. Some of them come to light when others are known: the directories around a root, once
it is known where that leads, and the ignore file that a configuration names.
-/

namespace Hygiene.CommandLine

def variableNames : List String :=
  ["HOME", "XDG_CONFIG_HOME", "PRESUBMIT_CONFIG_DIR", "PRESUBMIT_BUG"]

/-- What may lie in a directory and bear on the files in it. -/
def landmarks : List Path :=
  (Config.fileNames ++ [".git", ".git/info/exclude", ".ignore", ".gitignore"]).map Path.mk

/-- The directories that lie around a place, the place itself included. -/
def directoriesAround (place : List String) : List Path :=
  (List.range (place.length + 1)).map fun depth => .ofPlace (place.take depth)

/-- The paths that have to do with what the user sets for all trees. -/
def userPaths (h : Host) : List Path :=
  ((Config.userDirectory? h).map (·.entry "config.toml")).toList ++
    (h.home?.map (·.entry ".gitconfig")).toList ++
    (h.settings?.map fun p => p.join ⟨"git/config"⟩).toList ++ h.ignoreFile?.toList

/-- The paths that a check of a change may look at, apart from the tree at its root. -/
def checkPaths (h : Host) (a : CheckArguments) : List Path :=
  let root := h.currentPath.join a.root
  let directories := root.ancestors ++ ((h.locate root).toOption.map directoriesAround).getD []
  directories ++ directories.flatMap (fun p => landmarks.map p.join) ++
    (a.paths.flatMap fun p => [p, root.join p]) ++ a.config.toList ++ a.commitMessage.toList ++
    userPaths h

def Command.paths (h : Host) : Command → List Path
  | check a => checkPaths h a
  | init _ => [newConfigFile]
  | _ => []

/-- The directory whose whole tree a command may look at. -/
def Command.tree? (h : Host) : Command → Option Path
  | check a => if a.paths.isEmpty then some (h.currentPath.join a.root) else none
  | _ => none

end Hygiene.CommandLine
