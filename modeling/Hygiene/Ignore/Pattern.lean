import Hygiene.Regex.Match
import Hygiene.Text.Utf8

/-!
The patterns of ignore files. Unlike the globs of the configuration, their wildcards stop at
separators, a backslash takes the meaning from the character behind it, and `{a,b}` offers a choice.
They are held against bytes, so `?` stands for one byte and not for one character. A pattern is read
into parts, and these are turned into a regular expression whose characters stand for bytes.
-/

namespace Hygiene.Ignore

inductive Part where
  | literal (c : Char)
  | anyByte
  | anyRun
  | leadingDirectories
  | innerDirectories
  | everythingBelow
  | oneOf (negated : Bool) (ranges : List (Char × Char))
  | choice (branches : List (List Part))

inductive ClassReading where
  | invalid
  | unclosed
  | closed (ranges : List (Char × Char)) (rest : List Char)

/-- Reads the inside of a class. `started` tells whether a member was read before, `ranging` whether
a dash was that may make a range, and `done` holds the members so far in reverse. -/
def readClassFrom (started ranging : Bool) (done : List (Char × Char)) :
    List Char → ClassReading
  | [] => .unclosed
  | c :: rest =>
      if c = ']' ∧ started then
        .closed (if ranging then ('-', '-') :: done else done).reverse rest
      else if c = '-' ∧ started ∧ !ranging then readClassFrom true true done rest
      else
        match ranging, done with
        | true, (low, _) :: others =>
            if c < low then .invalid else readClassFrom true false ((low, c) :: others) rest
        | _, _ => readClassFrom true false ((c, c) :: done) rest

theorem length_readClassFrom {started ranging : Bool} {done ranges : List (Char × Char)}
    {cs rest : List Char} (h : readClassFrom started ranging done cs = .closed ranges rest) :
    rest.length < cs.length := by
  induction cs generalizing started ranging done with
  | nil => simp [readClassFrom] at h
  | cons c cs ih =>
      unfold readClassFrom at h
      split at h
      · obtain ⟨-, rfl⟩ := by simpa using h
        simp
      · split at h
        · exact Nat.lt_succ_of_lt (ih h)
        · split at h
          · split at h
            · simp at h
            · exact Nat.lt_succ_of_lt (ih h)
          · exact Nat.lt_succ_of_lt (ih h)

/-- Reads the inside of a class from its first character on. A `!` or `^` there turns it round. -/
def readClass (cs : List Char) : Bool × ClassReading :=
  match cs with
  | '!' :: rest => (true, readClassFrom false false [] rest)
  | '^' :: rest => (true, readClassFrom false false [] rest)
  | _ => (false, readClassFrom false false [] cs)

theorem length_readClass {cs rest : List Char} {negated : Bool} {ranges : List (Char × Char)}
    (h : readClass cs = (negated, .closed ranges rest)) : rest.length < cs.length := by
  unfold readClass at h
  split at h
  all_goals
    have := length_readClassFrom (Prod.mk.inj h).2
    grind

/-- The branches of a choice that are complete and the parts of the branch that is being read, each
in reverse. Outside of any choice there is one branch, the pattern itself. -/
structure Frame where
  branches : List (List Part)
  parts : List Part

/-- A pattern that is being read: the innermost choice, or the pattern itself, and what lies around
it from the inside out. Once a bracket was found that is never closed, brackets stand for
themselves. -/
structure Reading where
  innermost : Frame
  around : List Frame
  plainBrackets : Bool

namespace Reading

def start : Reading := ⟨⟨[], []⟩, [], false⟩

def push (r : Reading) (part : Part) : Reading :=
  { r with innermost := { r.innermost with parts := part :: r.innermost.parts } }

def openChoice (r : Reading) : Reading :=
  { r with innermost := ⟨[], []⟩, around := r.innermost :: r.around }

def inChoice (r : Reading) : Bool := !r.around.isEmpty

def nextBranch (r : Reading) : Reading :=
  { r with innermost := ⟨r.innermost.parts.reverse :: r.innermost.branches, []⟩ }

def closeChoice? (r : Reading) : Option Reading :=
  match r.around with
  | [] => none
  | outer :: around =>
      let branches := (r.innermost.parts.reverse :: r.innermost.branches).reverse
      some (push { r with innermost := outer, around } (.choice branches))

/-- The parts of a pattern that ends here, unless a choice is left open. -/
def finish? (r : Reading) : Option (List Part) :=
  if r.inChoice then none else some r.innermost.parts.reverse

/-- Two stars that stand for no more than one. -/
def pushStars (r : Reading) : Reading := (r.push .anyRun).push .anyRun

/-- Two stars behind a separator stand for directories and take the place of that separator. Behind
others of their kind they add nothing. -/
def pushDirectories (r : Reading) (atEnd : Bool) : Reading :=
  let part := if atEnd then Part.everythingBelow else .innerDirectories
  match r.innermost.parts with
  | .leadingDirectories :: _ => r
  | .everythingBelow :: _ => r
  | _ :: parts => { r with innermost := { r.innermost with parts := part :: parts } }
  | [] => r.push part

/-- Two stars with `previous` before them and `rest` behind. Says how many characters of the rest
they take along. -/
def readStars (r : Reading) (previous : Option Char) (rest : List Char) : Reading × Nat :=
  if r.innermost.parts.isEmpty then
    match rest with
    | [] => (r.push .leadingDirectories, 0)
    | '/' :: _ => (r.push .leadingDirectories, 1)
    | _ => (r.pushStars, 0)
  else if previous ≠ some '/' ∧ ¬(r.inChoice ∧ (previous = some ',' ∨ previous = some '{')) then
    (r.pushStars, 0)
  else
    match rest with
    | [] => (r.pushDirectories true, 0)
    | '/' :: _ => (r.pushDirectories false, 1)
    | c :: _ =>
        if r.inChoice ∧ (c = ',' ∨ c = '}') then (r.pushDirectories true, 0) else (r.pushStars, 0)

/-- Reads on to the end of a pattern. `previous` is the character before. -/
def readFrom (r : Reading) (previous : Option Char) (cs : List Char) : Option (List Part) :=
  match cs with
  | [] => r.finish?
  | '?' :: rest => readFrom (r.push .anyByte) (some '?') rest
  | '*' :: '*' :: rest =>
      let (next, taken) := r.readStars previous rest
      readFrom next (some (if taken = 0 then '*' else '/')) (rest.drop taken)
  | '*' :: rest => readFrom (r.push .anyRun) (some '*') rest
  | '\\' :: rest =>
      match rest with
      | [] => none
      | c :: rest => readFrom (r.push (.literal c)) (some c) rest
  | '{' :: rest => readFrom r.openChoice (some '{') rest
  | '}' :: rest =>
      match r.closeChoice? with
      | none => none
      | some next => readFrom next (some '}') rest
  | c :: rest =>
      if c = ',' ∧ r.inChoice then readFrom r.nextBranch (some ',') rest
      else if c = '[' ∧ !r.plainBrackets then
        match h : readClass rest with
        | (_, .invalid) => none
        | (_, .unclosed) =>
            readFrom ({ r with plainBrackets := true }.push (.literal '[')) (some '[') rest
        | (negated, .closed ranges after) =>
            have := length_readClass h
            readFrom (r.push (.oneOf negated ranges)) (some ']') after
      else readFrom (r.push (.literal c)) (some c) rest
termination_by cs.length
decreasing_by all_goals simp_wf <;> omega

end Reading

def readParts? (text : String) : Option (List Part) := Reading.start.readFrom none text.toList

/-! ### Meaning -/

/-- The character that stands for a byte. -/
def byteChar (b : UInt8) : Char := Char.ofNat b.toNat

def byteChars (s : String) : List Char := (Text.Utf8.encode s).map byteChar

def separator : Regex := .char (Regex.CharSet.single '/')

def notSeparator : Regex := .char (.complement (Regex.CharSet.single '/'))

def anything : Regex := .rep (.char (.complement .empty)) 0 none

def sequence (cs : List Char) : Regex :=
  cs.foldr (fun c rest => .seq (.char (Regex.CharSet.single c)) rest) .empty

/-- The bytes that a range of characters covers. A character of several bytes counts as each of
them, and between the two ends lies what is between the last byte of the one and the first of the
other. -/
def byteRanges (range : Char × Char) : List (Char × Char) :=
  let low := byteChars range.1.toString
  let high := byteChars range.2.toString
  if range.1 = range.2 then low.map fun c => (c, c)
  else
    (low.dropLast.map fun c => (c, c)) ++
      [(low.getLast?.getD range.1, high.head?.getD range.2)] ++ (high.drop 1).map fun c => (c, c)

mutual

/-- The expression of a part, unless the part asks for nothing. -/
def Part.regex? : Part → Option Regex
  | .literal c => some (sequence (byteChars c.toString))
  | .anyByte => some notSeparator
  | .anyRun => some (.rep notSeparator 0 none)
  | .leadingDirectories => some (.alt .empty (.alt separator (.seq anything separator)))
  | .innerDirectories => some (.alt separator (.seq separator (.seq anything separator)))
  | .everythingBelow => some (.seq separator anything)
  | .oneOf negated ranges =>
      some (.char (Regex.CharSet.negateIf negated (.ranges (ranges.flatMap byteRanges))))
  | .choice branches => branchesRegex? branches

/-- The expression of parts, one behind the other. -/
def partsRegex? : List Part → Option Regex
  | [] => none
  | part :: rest =>
      match part.regex?, partsRegex? rest with
      | some a, some b => some (.seq a b)
      | some a, none => some a
      | none, b => b

/-- The expression of a choice. A branch that asks for nothing is no choice at all. -/
def branchesRegex? : List (List Part) → Option Regex
  | [] => none
  | branch :: rest =>
      match partsRegex? branch, branchesRegex? rest with
      | some a, some b => some (.alt a b)
      | some a, none => some a
      | none, b => b

end

/-- The expression of a whole pattern. Two stars alone cover everything. -/
def patternRegex (parts : List Part) : Regex :=
  let inside :=
    match parts with
    | [.leadingDirectories] => anything
    | parts => (partsRegex? parts).getD .empty
  .seq (.look .textStart) (.seq inside (.look .textEnd))

end Hygiene.Ignore
