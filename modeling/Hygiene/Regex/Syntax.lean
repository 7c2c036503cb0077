import Hygiene.Regex.CharSet

/-!
Regular expressions. Whether an expression prefers long or short repetitions is not kept, since it
does not bear on the question whether a text matches.
-/

namespace Hygiene

namespace Regex

inductive Boundary where
  | edge
  | noEdge
  | wordStart
  | wordEnd
  | noWordBefore
  | noWordBehind
  deriving DecidableEq, Repr

inductive Look where
  | textStart
  | textEnd
  | lineStart (returns : Bool)
  | lineEnd (returns : Bool)
  | boundary (asciiOnly : Bool) (kind : Boundary)
  deriving DecidableEq, Repr

end Regex

inductive Regex where
  | empty
  | char (set : Regex.CharSet)
  | look (condition : Regex.Look)
  | seq (a b : Regex)
  | alt (a b : Regex)
  | rep (a : Regex) (least : Nat) (most : Option Nat)
  | group (name : Option String) (a : Regex)
  deriving DecidableEq, Repr

namespace Regex

def names : Regex → List String
  | group name a => name.toList ++ a.names
  | seq a b => a.names ++ b.names
  | alt a b => a.names ++ b.names
  | rep a _ _ => a.names
  | _ => []

/-- How deep an expression nests. A chain of sequences or of alternatives is one level. -/
def depthWithin (inSeq inAlt : Bool) : Regex → Nat
  | seq a b =>
      (if inSeq then 0 else 1) + max (a.depthWithin false false) (b.depthWithin true false)
  | alt a b =>
      (if inAlt then 0 else 1) + max (a.depthWithin false false) (b.depthWithin false true)
  | rep a _ _ => 1 + a.depthWithin false false
  | group _ a => 1 + a.depthWithin false false
  | _ => 0

/-- An estimate of the room that an automaton for an expression needs, in bytes. -/
def weight : Regex → Nat
  | empty => 32
  | char set => set.weight
  | look _ => 32
  | seq a b => a.weight + b.weight
  | alt a b => 32 + a.weight + b.weight
  | rep a least none => (max least 1) * a.weight + 32
  | rep a least (some most) => least * a.weight + (most - least) * (a.weight + 32)
  | group _ a => a.weight + 64

def plus (a : Regex) : Regex := rep a 1 none

end Regex

end Hygiene
