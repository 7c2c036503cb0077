import Hygiene.Path
import Hygiene.Text.Line
import Hygiene.Text.Utf8
import Hygiene.Tree

/-!
A disk as a program finds it: the tree of all files and the current directory, which is told by the
names that lead to it from the top. A path is followed name by name, and `..` leads to the directory
that really contains the one reached so far. Whatever else is asked about a path is asked about the
place to which it leads.
-/

namespace Hygiene

structure Disk where
  top : Tree
  current : List String

inductive DiskFault where
  | missing
  | notDirectory
  | isDirectory
  | nameTooLong
  | nullInPath
  | notText
  deriving DecidableEq, Repr

def DiskFault.message : DiskFault → String
  | missing => "No such file or directory (os error 2)"
  | notDirectory => "Not a directory (os error 20)"
  | isDirectory => "Is a directory (os error 21)"
  | nameTooLong => "File name too long (os error 36)"
  | nullInPath => "file name contained an unexpected NUL byte"
  | notText => "stream did not contain valid UTF-8"

def Path.ofPlace (place : List String) : Path := ⟨"/" ++ "/".intercalate place⟩

namespace Disk

/-- The longest name of an entry, in bytes. -/
def longestName : Nat := 255

/-- The place that a segment of a path leads to from a place. -/
def step (d : Disk) (place : List String) (segment : String) : Except DiskFault (List String) :=
  match d.top.at? place with
  | none => .error .missing
  | some (.file _) => .error .notDirectory
  | some (.directory entries) =>
      if segment = "" ∨ segment = "." then .ok place
      else if segment = ".." then .ok place.dropLast
      else if longestName < segment.utf8ByteSize then .error .nameTooLong
      else if entries.any fun e => e.1 == segment then .ok (place ++ [segment])
      else .error .missing

/-- The place that segments lead to, one after the other. -/
def follow (d : Disk) (place : List String) : List String → Except DiskFault (List String)
  | [] => .ok place
  | segment :: rest => do
      let next ← d.step place segment
      d.follow next rest

/-- The place from which a path is followed. -/
def start (d : Disk) (p : Path) : List String := if p.isAbsolute then [] else d.current

def locate (d : Disk) (p : Path) : Except DiskFault (List String) :=
  if p.text.toList.contains '\x00' then .error .nullInPath
  else if p.text.isEmpty then .error .missing
  else d.follow (d.start p) (Text.splitOn '/' p.text)

def get (d : Disk) (p : Path) : Except DiskFault Tree := do
  match d.top.at? (← d.locate p) with
  | none => throw .missing
  | some t => return t

def contains (d : Disk) (p : Path) : Bool := (d.get p).toOption.isSome

def isFile (d : Disk) (p : Path) : Bool :=
  match d.get p with
  | .ok (.file _) => true
  | _ => false

def read (d : Disk) (p : Path) : Except DiskFault (List UInt8) := do
  match ← d.get p with
  | .file bytes => return bytes
  | .directory _ => throw .isDirectory

def readText (d : Disk) (p : Path) : Except DiskFault String := do
  (Text.Utf8.decode (← d.read p)).mapError fun _ => .notText

/-- The disk after bytes were written to a path. A file that is already there loses its content; a
new one is made only where its directory exists. -/
def write (d : Disk) (p : Path) (bytes : List UInt8) : Except DiskFault Disk :=
  match d.get p with
  | .ok (.directory _) => .error .isDirectory
  | .ok (.file _) => do
      return { d with top := d.top.put (← d.locate p) (.file bytes) }
  | .error .missing => do
      let segments := Text.splitOn '/' p.text
      let name := segments.getLast?.getD ""
      let place ← d.follow (d.start p) segments.dropLast
      if name.isEmpty then throw .isDirectory
      return { d with top := d.top.put (place ++ [name]) (.file bytes) }
  | .error fault => .error fault

def currentPath (d : Disk) : Path := .ofPlace d.current

end Disk

end Hygiene
