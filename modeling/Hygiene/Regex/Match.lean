import Hygiene.Regex.Syntax

/-!
Matching character by character. What is left of an expression once it has taken in a character is a
list of expressions, any of which may take in what follows; so a search carries along a list of what
is left of all attempts begun so far, and succeeds where one of them may stop.
-/

namespace Hygiene.Regex

/-- A place between two characters; at either end of the text one of them is missing. -/
structure Site where
  before : Option Char
  behind : Option Char
  deriving DecidableEq, Repr

def isWordIn (asciiOnly : Bool) (c : Option Char) : Bool :=
  match c with
  | none => false
  | some c => if asciiOnly then CharSet.asciiWord.contains c else Text.isWordChar c

/-- Whether a boundary lies between two characters, given whether they belong to words. -/
def Boundary.holds (kind : Boundary) (before behind : Bool) : Bool :=
  match kind with
  | edge => before != behind
  | noEdge => before == behind
  | wordStart => !before && behind
  | wordEnd => before && !behind
  | noWordBefore => !before
  | noWordBehind => !behind

def Look.holds (condition : Look) (p : Site) : Bool :=
  match condition with
  | textStart => p.before.isNone
  | textEnd => p.behind.isNone
  | lineStart false => p.before.isNone || p.before == some '\n'
  | lineStart true =>
      p.before.isNone || p.before == some '\n' ||
        (p.before == some '\r' && p.behind != some '\n')
  | lineEnd false => p.behind.isNone || p.behind == some '\n'
  | lineEnd true =>
      p.behind.isNone || p.behind == some '\r' ||
        (p.behind == some '\n' && p.before != some '\r')
  | boundary asciiOnly kind =>
      kind.holds (isWordIn asciiOnly p.before) (isWordIn asciiOnly p.behind)

/-- Whether an expression matches the empty text at a place. -/
def nullable : Regex → Site → Bool
  | empty, _ => true
  | char _, _ => false
  | look condition, p => condition.holds p
  | seq a b, p => a.nullable p && b.nullable p
  | alt a b, p => a.nullable p || b.nullable p
  | rep a least _, p => least == 0 || a.nullable p
  | group _ a, p => a.nullable p

/-- One expression behind another, of which the empty one is left out. -/
def behind (a b : Regex) : Regex :=
  match a with
  | empty => b
  | a => seq a b

/-- What may be left of an expression that takes in the character `c` at a place. Turns of a
repetition that take in nothing at this place may be counted as often as needed. -/
def derive (p : Site) (c : Char) : Regex → List Regex
  | empty => []
  | char set => if set.contains c then [empty] else []
  | look _ => []
  | seq a b =>
      (a.derive p c).map (·.behind b) ++ (if a.nullable p then b.derive p c else [])
  | alt a b => a.derive p c ++ b.derive p c
  | rep a least most =>
      if most = some 0 then []
      else
        let more := rep a (if a.nullable p then 0 else least - 1) (most.map (· - 1))
        (a.derive p c).map (·.behind more)
  | group _ a => a.derive p c

/-- Whether an attempt that is under way, or one that begins here or later, succeeds. -/
def search (r : Regex) (underway : List Regex) (before : Option Char) : List Char → Bool
  | [] => (r :: underway).any (·.nullable ⟨before, none⟩)
  | c :: rest =>
      let p : Site := ⟨before, some c⟩
      (r :: underway).any (·.nullable p) ||
        search r (((r :: underway).flatMap (derive p c)).eraseDups) (some c) rest

def isMatch (r : Regex) (text : String) : Bool := search r [] none text.toList

end Hygiene.Regex
