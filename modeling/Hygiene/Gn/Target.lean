import Hygiene.Gn.Token

/-!
Targets of GN build files and the source lists that they assign.

A target is a call with one string literal as its argument and a block behind it. The scan is no
parser: it follows braces, attributes every assignment to `sources` to the innermost target that
encloses it, and passes over whatever it cannot interpret. It never fails.
-/

namespace Hygiene.Gn

/-- A target and the source lists assigned in it, in the order of the text. A plain assignment
begins a list; `+=` extends the last one and `-=` removes from it. -/
structure Target where
  kind : String
  name : String
  groups : List (List String)
  deriving DecidableEq, Repr

/-- The calls that open a block without declaring a target. -/
def blockCalls : List String := ["if", "foreach", "template", "declare_args"]

inductive Assignment where
  | set
  | add
  | remove
  deriving DecidableEq, Repr

def Assignment.ofToken? {α : Type} : Token α → Option Assignment
  | .assign => some set
  | .addAssign => some add
  | .subAssign => some remove
  | _ => none

namespace Target

def new (kind name : String) : Target := ⟨kind, name, []⟩

def sources (t : Target) : List String := t.groups.flatten

/-- The source lists after an assignment. A value that is no list literal counts as an empty list
when it is assigned, and changes nothing when it is added or removed. -/
def assign (groups : List (List String)) :
    Assignment → Option (List String) → List (List String)
  | .set, list => groups ++ [list.getD []]
  | .add, some list =>
      if groups.isEmpty then [list] else groups.modify (groups.length - 1) (· ++ list)
  | .remove, some list =>
      groups.modify (groups.length - 1) fun last => last.filter fun s => !list.contains s
  | _, none => groups

def apply (t : Target) (op : Assignment) (list : Option (List String)) : Target :=
  { t with groups := assign t.groups op list }

end Target

/-- Reads on inside a list literal with `depth` brackets open: the string literals up to the bracket
that closes the outermost one, and the tokens behind it. A list that never ends is read to the end
of the text. -/
def readItems (depth : Nat) : List (Token String) → List String × List (Token String)
  | [] => ([], [])
  | .openBracket :: rest => readItems (depth + 1) rest
  | .closeBracket :: rest => if depth ≤ 1 then ([], rest) else readItems (depth - 1) rest
  | .quoted text :: rest =>
      let (items, rest) := readItems depth rest
      (text :: items, rest)
  | _ :: rest => readItems depth rest

/-- Reads a list literal, if one begins here. Lists inside it count with their string literals. -/
def readList : List (Token String) → Option (List String) × List (Token String)
  | .openBracket :: rest =>
      let (items, rest) := readItems 1 rest
      (some items, rest)
  | tokens => (none, tokens)

theorem length_readItems (depth : Nat) (tokens : List (Token String)) :
    (readItems depth tokens).2.length ≤ tokens.length := by
  induction tokens generalizing depth with
  | nil => simp [readItems]
  | cons t rest ih =>
      cases t <;> simp only [readItems] <;> try (exact Nat.le_succ_of_le (ih _))
      split
      · simp
      · exact Nat.le_succ_of_le (ih _)

theorem length_readList (tokens : List (Token String)) :
    (readList tokens).2.length ≤ tokens.length := by
  cases tokens with
  | nil => simp [readList]
  | cons t rest =>
      cases t <;> simp only [readList, Nat.le_refl]
      exact Nat.le_succ_of_le (length_readItems 1 rest)

/-- An open block: the body of the target with this number, or any other block. -/
inductive Frame where
  | target (index : Nat)
  | block
  deriving DecidableEq, Repr

/-- The target whose body is innermost among the open blocks. -/
def innermost? : List Frame → Option Nat
  | [] => none
  | .target index :: _ => some index
  | .block :: rest => innermost? rest

/-- What a scan has found so far: the targets in the order of their declarations, and the blocks
that are open, the innermost first. -/
structure Scan where
  targets : List Target
  frames : List Frame
  deriving DecidableEq, Repr

namespace Scan

def start : Scan := ⟨[], []⟩

def declare (s : Scan) (kind name : String) : Scan :=
  ⟨s.targets ++ [Target.new kind name], .target s.targets.length :: s.frames⟩

def openBlock (s : Scan) : Scan := { s with frames := .block :: s.frames }

/-- Leaves the innermost block. A closing brace too many does nothing. -/
def closeBlock (s : Scan) : Scan := { s with frames := s.frames.tail }

def assign (s : Scan) (op : Assignment) (list : Option (List String)) : Scan :=
  match innermost? s.frames with
  | none => s
  | some index => { s with targets := s.targets.modify index fun t => t.apply op list }

/-- The header of a target at the front of the tokens: its kind, its name and what follows the
opening brace. -/
def header? : List (Token String) → Option (String × String × List (Token String))
  | .word kind :: .openParen :: .quoted name :: .closeParen :: .openBrace :: rest =>
      if blockCalls.contains kind then none else some (kind, name, rest)
  | _ => none

/-- An assignment to `sources` at the front of the tokens: its operator and what follows it. -/
def sourcesAssignment? : List (Token String) → Option (Assignment × List (Token String))
  | .word name :: op :: rest =>
      if name = "sources" then (Assignment.ofToken? op).map fun op => (op, rest) else none
  | _ => none

theorem length_header? {tokens rest : List (Token String)} {kind name : String}
    (h : header? tokens = some (kind, name, rest)) : rest.length < tokens.length := by
  unfold header? at h
  split at h
  · split at h
    · simp at h
    · obtain ⟨rfl, rfl, rfl⟩ := by simpa using h
      simp only [List.length_cons]
      omega
  · simp at h

theorem length_sourcesAssignment? {tokens rest : List (Token String)} {op : Assignment}
    (h : sourcesAssignment? tokens = some (op, rest)) : rest.length < tokens.length := by
  unfold sourcesAssignment? at h
  split at h
  · split at h
    · simp only [Option.map_eq_some_iff, Prod.mk.injEq] at h
      obtain ⟨_, _, _, rfl⟩ := h
      simp only [List.length_cons]
      omega
    · simp at h
  · simp at h

/-- Scans tokens. `afterDot` says whether the token before them is a dot, in which case a name is
a member of something else. -/
def run (s : Scan) (afterDot : Bool) (tokens : List (Token String)) : Scan :=
  match tokens with
  | [] => s
  | t :: rest =>
      match h : header? (t :: rest) with
      | some (kind, name, body) =>
          have := length_header? h
          (s.declare kind name).run false body
      | none =>
          match t with
          | .openBrace => s.openBlock.run false rest
          | .closeBrace => s.closeBlock.run false rest
          | _ =>
              match h : if afterDot then none else sourcesAssignment? (t :: rest) with
              | some (op, value) =>
                  have : (readList value).2.length < (t :: rest).length := by
                    split at h
                    · simp at h
                    · exact Nat.lt_of_le_of_lt (length_readList value)
                        (length_sourcesAssignment? h)
                  (s.assign op (readList value).1).run false (readList value).2
              | none => s.run (t == .dot) rest
termination_by tokens.length
decreasing_by
  all_goals simp only [List.length_cons] at *
  all_goals omega

end Scan

/-- The targets of a text, in the order of their declarations. Blocks that are never closed keep
what was found in them. -/
def scanTargets (text : String) : List Target :=
  (Scan.start.run false (tokens text)).targets

end Hygiene.Gn
