/-!
File trees. A tree is a file with its bytes or a directory with named entries. Where something lies
is told by the names that lead to it from the top.
-/

namespace Hygiene

inductive Tree where
  | file (bytes : List UInt8)
  | directory (entries : List (String × Tree))

namespace Tree

def empty : Tree := directory []

def isDirectory : Tree → Bool
  | file _ => false
  | directory _ => true

def entries : Tree → List (String × Tree)
  | file _ => []
  | directory entries => entries

def entry? (t : Tree) (name : String) : Option Tree := t.entries.lookup name

/-- What lies where the names lead, one after the other. -/
def at? (t : Tree) : List String → Option Tree
  | [] => some t
  | name :: names => (t.entry? name).bind fun below => below.at? names

/-- The bytes of the file to which the names lead, if they lead to a file. -/
def fileAt? (t : Tree) (place : List String) : Option (List UInt8) :=
  match t.at? place with
  | some (file bytes) => some bytes
  | _ => none

/-- Entries with one of them set. A new one is put in front of the first entry with a greater
name. -/
def setEntry (name : String) (new : Tree) : List (String × Tree) → List (String × Tree)
  | [] => [(name, new)]
  | (other, old) :: rest =>
      if other = name then (name, new) :: rest
      else if name < other then (name, new) :: (other, old) :: rest
      else (other, old) :: setEntry name new rest

/-- The tree with another one put where the names lead. Directories that are missing on the way are
made, and a file on the way gives place to a directory. -/
def put : Tree → List String → Tree → Tree
  | _, [], new => new
  | t, name :: names, new =>
      directory (setEntry name (((t.entry? name).getD empty).put names new) t.entries)

/-- The tree without what lies where the names lead. -/
def erase : Tree → List String → Tree
  | t, [] => t
  | t, [name] => directory (t.entries.filter fun e => e.1 != name)
  | t, name :: names =>
      match t.entry? name with
      | none => t
      | some below => directory (setEntry name (below.erase names) t.entries)

end Tree

end Hygiene
