import Hygiene.Gn.Mixing
import Hygiene.Json.Layout

/-!
The report on all violations of a change. It is kept sorted by file, then by target, then by
sources, so that the order in which violations are found never shows. The message that it renders
holds a JSON dump, which programs read, and the list of the files.
-/

namespace Hygiene.Gn

structure Entry where
  target : String
  sources : List String
  deriving DecidableEq, Repr

/-- Entries are ordered by target, then by sources. -/
def Entry.compare (a b : Entry) : Ordering :=
  (Ord.compare a.target b.target).then (Ord.compare a.sources b.sources)

/-- A sorted list of entries with one more in it, behind those that equal it. -/
def insertEntry (e : Entry) : List Entry → List Entry
  | [] => [e]
  | a :: rest => if (Entry.compare a e).isLE then a :: insertEntry e rest else e :: a :: rest

structure Report where
  files : List (String × List Entry)
  deriving DecidableEq, Repr

namespace Report

def empty : Report := ⟨[]⟩

/-- The entries of a list of files with one more entry under a file. The files are in strictly
increasing order and stay so. -/
def insertUnder (file : String) (e : Entry) :
    List (String × List Entry) → List (String × List Entry)
  | [] => [(file, [e])]
  | (name, entries) :: rest =>
      if file < name then (file, [e]) :: (name, entries) :: rest
      else if file = name then (name, insertEntry e entries) :: rest
      else (name, entries) :: insertUnder file e rest

def add (r : Report) (v : Violation) : Report :=
  ⟨insertUnder v.file ⟨v.target, v.sources⟩ r.files⟩

def extend (r : Report) (vs : List Violation) : Report := vs.foldl add r

def isEmpty (r : Report) : Bool := r.files.isEmpty

def targetCount (r : Report) : Nat := r.files.foldr (fun f n => f.2.length + n) 0

/-- The files reported, in increasing order. -/
def violatingFiles (r : Report) : List String := r.files.map (·.1)

def entryJson (e : Entry) : Json.Value :=
  .array [.string e.target, .array (e.sources.map Json.Value.string)]

def toJson (r : Report) : Json.Value :=
  .object (r.files.map fun (file, entries) => (file, .array (entries.map entryJson)))

def dump (r : Report) : String := Json.write Json.Style.dump r.toJson

def preamble : String :=
  "GN targets cannot mix .c, .cc and .m (or .mm) source files.\n" ++
  "Please create a separate target for each collection of sources.\n"

def render (r : Report) : String :=
  preamble ++ "Mixed sources: \n" ++ r.dump ++ "\nViolating GN files:\n" ++
    String.join (r.violatingFiles.map (· ++ "\n"))

end Report

end Hygiene.Gn
