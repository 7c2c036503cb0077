/-!
Paths as they are written. A path keeps its text, and two paths are compared by their components:
repeated separators, separators at the end and `.` after the first place say nothing. Nothing here
looks at a disk, so `..` is a component like any other.
-/

namespace Hygiene

structure Path where
  text : String
  deriving DecidableEq, Repr, Inhabited

namespace Path

/-- What stands between the separators of a path. The root is the separator at the start of an
absolute path, and a `.` counts only at the start of a relative one. -/
inductive Component where
  | root
  | current
  | parent
  | name (text : String)
  deriving DecidableEq, Repr

/-- The kind of a component, numbered in the order in which components are sorted. -/
def Component.rank : Component → Nat
  | root => 0
  | current => 1
  | parent => 2
  | name _ => 3

def Component.label : Component → String
  | name text => text
  | _ => ""

instance : Ord Component where
  compare a b := (compare a.rank b.rank).then (compare a.label b.label)

structure Piece where
  component : Component
  start : Nat
  stop : Nat
  deriving Repr

/-- The runs of characters between separators, each with the place where it begins. The run that
is being read is kept in reverse. -/
def segmentsFrom (start : Nat) (current : List Char) : List Char → List (Nat × List Char)
  | [] => [(start, current.reverse)]
  | c :: cs =>
      if c = '/' then (start, current.reverse) :: segmentsFrom (start + current.length + 1) [] cs
      else segmentsFrom start (c :: current) cs

def pieceOf : Nat × List Char → Option Piece
  | (_, []) => none
  | (start, ['.']) => if start = 0 then some ⟨.current, 0, 1⟩ else none
  | (start, ['.', '.']) => some ⟨.parent, start, start + 2⟩
  | (start, cs) => some ⟨.name (String.ofList cs), start, start + cs.length⟩

def isAbsolute (p : Path) : Bool :=
  match p.text.toList with
  | '/' :: _ => true
  | _ => false

/-- The components of a path and where they stand in its text. -/
def pieces (p : Path) : List Piece :=
  let named := (segmentsFrom 0 [] p.text.toList).filterMap pieceOf
  if p.isAbsolute then ⟨.root, 0, 1⟩ :: named else named

def components (p : Path) : List Component :=
  p.pieces.map (·.component)

/-- Paths are sorted by their components, whatever separators were written between them. -/
instance : Ord Path where
  compare a b := compare a.components b.components

/-- The text of a path between two places. -/
def cut (p : Path) (start stop : Nat) : Path :=
  ⟨String.ofList ((p.text.toList.take stop).drop start)⟩

/-- The path `q` seen from the directory `p`: `q` itself when it is absolute, otherwise `q`
written behind `p` with one separator between. -/
def join (p q : Path) : Path :=
  if q.isAbsolute || p.text.isEmpty then q
  else if p.text.toList.getLast? = some '/' then ⟨p.text ++ q.text⟩
  else ⟨p.text ++ "/" ++ q.text⟩

def entry (p : Path) (name : String) : Path := p.join ⟨name⟩

/-- The last component, when it is a name. -/
def fileName? (p : Path) : Option String :=
  match p.pieces.getLast? with
  | some ⟨.name text, _, _⟩ => some text
  | _ => none

/-- The path up to the component before the last one. The root and the empty path have no
parent. -/
def parent? (p : Path) : Option Path :=
  match p.pieces.reverse with
  | [] => none
  | ⟨.root, _, _⟩ :: _ => none
  | [_] => some ⟨""⟩
  | _ :: before :: _ => some (p.cut 0 before.stop)

/-- A path, its parent, the parent of that, and so on, as long as `fuel` lasts. -/
def ancestorsWithin : Nat → Path → List Path
  | 0, p => [p]
  | fuel + 1, p =>
      match p.parent? with
      | none => [p]
      | some q => p :: ancestorsWithin fuel q

/-- A path and all that its parents lead to. Every step drops a component, so the number of
components bounds the steps. -/
def ancestors (p : Path) : List Path :=
  ancestorsWithin p.pieces.length p

/-- What is left of a list of pieces behind the components in front, if those come first. -/
def piecesAfter : List Piece → List Component → Option (List Piece)
  | rest, [] => some rest
  | [], _ :: _ => none
  | piece :: rest, c :: cs => if piece.component = c then piecesAfter rest cs else none

/-- The path relative to `base`, when the components of `base` come first in it. The text between
the components that are left is kept as written. -/
def stripPrefix? (p base : Path) : Option Path :=
  match piecesAfter p.pieces base.components with
  | none => none
  | some [] => some ⟨""⟩
  | some (first :: rest) =>
      some (p.cut first.start (((first :: rest).getLast?).elim first.stop (·.stop)))

/-- The path relative to `base`, or the path itself when it does not lie under `base`. -/
def relativeTo (p base : Path) : Path :=
  (p.stripPrefix? base).getD p

end Path

end Hygiene
