import Hygiene.CommandLine.Footprint

/-!
The program. It shows a command those parts of the disk that the command may look at, prints what
the command ends with, and writes the one file that a command may write.
-/

namespace Hygiene.CommandLine

def bytesAt (path : String) : IO (List UInt8) := do
  return (← IO.FS.readBinFile path).toList

/-- The tree at a path on the machine. Of the store of the version control system only the file with
rules is taken in, and links are left out. -/
partial def treeAt (path : String) : IO Tree := do
  let place := (← IO.currentDir) / path
  if ← place.isDir then
    let mut entries := []
    for entry in ← place.readDir do
      let inside := path ++ "/" ++ entry.fileName
      if entry.fileName = ".git" then
        let rules := inside ++ "/info/exclude"
        let kept ← if ← ((← IO.currentDir) / rules).pathExists then
            pure (Tree.empty.put ["info", "exclude"] (.file (← bytesAt rules)))
          else pure Tree.empty
        entries := (entry.fileName, kept) :: entries
      else
        match (← entry.path.symlinkMetadata).type with
        | .dir | .file => entries := (entry.fileName, ← treeAt inside) :: entries
        | _ => pure ()
    return .directory entries
  else
    return .file (← bytesAt path)

def observePath (d : Disk) (p : Path) : IO Disk := do
  let mut top := d.top
  let mut place := d.start p
  for segment in Text.splitOn '/' p.text do
    place :=
      if segment = "" ∨ segment = "." then place
      else if segment = ".." then place.dropLast
      else place ++ [segment]
    let text := (Path.ofPlace place).text
    let here := (← IO.currentDir) / text
    if ← here.isDir then
      if (top.at? place).isNone then top := top.put place Tree.empty
    else if ← here.pathExists then
      top := top.put place (.file (← bytesAt text))
    else
      break
  return { d with top }

/-- The machine with what a command may look at. -/
def observe (h : Host) (command : Command) : IO Host := do
  let mut disk := h.toDisk
  if let some root := command.tree? h then
    disk ← observePath disk root
    if let .ok place := disk.locate root then
      disk := { disk with top := disk.top.put place (← treeAt root.text) }
  for _ in [0, 1] do
    for p in command.paths { disk with environment := h.environment } do
      disk ← observePath disk p
  return { disk with environment := h.environment }

def unobserved : IO Host := do
  let mut environment := []
  for name in variableNames do
    if let some value ← IO.getEnv name then
      environment := (name, value) :: environment
  let current := (Text.splitOn '/' (← IO.currentDir).toString).filter fun name => !name.isEmpty
  return { top := Tree.empty.put current Tree.empty, current, environment }

/-- Does what the arguments ask for, and gives the code with which to exit. -/
def execute (arguments : List String) : IO UInt32 := do
  let blank ← unobserved
  let command := commandFor blank arguments
  let h ← observe blank command
  let (ending, disk) := command.run h
  if let .init _ := command then
    if let .finished _ _ := ending then
      if let .ok bytes := disk.read newConfigFile then
        IO.FS.writeBinFile newConfigFile.text (ByteArray.mk bytes.toArray)
  IO.print ending.output
  IO.eprint ending.errorText
  return ending.exitCode.toUInt32

end Hygiene.CommandLine

def main (arguments : List String) : IO UInt32 :=
  Hygiene.CommandLine.execute arguments
