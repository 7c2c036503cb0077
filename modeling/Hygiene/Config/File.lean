import Hygiene.Config
import Hygiene.Host

/-!
Configuration files. The one that counts for a root is the nearest among the directories that its
path names, up to the first that holds a repository. A user may have one for all trees that have
none.
-/

namespace Hygiene.Config

def ofFile (d : Disk) (p : Path) : Except ConfigError Config := do
  read (← (d.readText p).mapError (.unreadable p))

/-- The names of configuration files; the first goes before the second. -/
def fileNames : List String := ["presubmit.toml", ".presubmit.toml"]

def fileIn? (d : Disk) (directory : Path) : Option Path :=
  (fileNames.map directory.entry).find? d.isFile

/-- The first configuration file in some directories, up to the first that holds a repository. -/
def nearestAmong? (d : Disk) : List Path → Option Path
  | [] => none
  | directory :: rest =>
      match fileIn? d directory with
      | some p => some p
      | none => if d.contains (directory.entry ".git") then none else nearestAmong? d rest

/-- The configuration file that counts for a root. -/
def nearest? (d : Disk) (root : Path) : Option Path := nearestAmong? d root.ancestors

def userDirectory? (h : Host) : Option Path :=
  ((h.filled? "PRESUBMIT_CONFIG_DIR").map Path.mk).or (h.home?.map (·.entry ".presubmit"))

def userFile? (h : Host) : Option Path :=
  ((userDirectory? h).map (·.entry "config.toml")).filter h.isFile

/-- The configuration file of a run: the one that is asked for, or else the nearest, or else that of
the user. -/
def fileFor? (h : Host) (root : Path) (asked : Option Path) : Option Path :=
  asked.or ((nearest? h.toDisk root).or (userFile? h))

end Hygiene.Config
