import Hygiene.Regex.Syntax

/-!
Reading regular expressions. A text that spells none is refused without saying where it goes wrong,
and so is one whose automaton would be too large.

Two things are not exact. Of the properties behind `\p`, those are known that `propertyNames` lists;
scripts and most boolean properties are refused. And no automaton is built: whether one would be too
large is judged by an estimated weight, so that close to the limit a text may be accepted or refused
where the size of its automaton says otherwise.

Flags change how the text behind them is read, up to the end of the group in which they stand. Every
function below that calls itself on a text it has not measured spends fuel, and the length of the
whole text is fuel enough.
-/

namespace Hygiene.Regex

/-- The modes in which an expression is read. With `unicode`, characters outside ASCII count; with
`returns`, a carriage return ends a line too. -/
structure Flags where
  ignoreCase : Bool
  multiLine : Bool
  dotAll : Bool
  unicode : Bool
  spaced : Bool
  returns : Bool
  deriving DecidableEq, Repr

namespace Flags

def initial : Flags := ⟨false, false, false, true, false, false⟩

/-- The modes with one of them set; nothing when the letter names no mode. The mode that swaps long
and short repetitions is known and changes nothing. -/
def set? (flags : Flags) (value : Bool) : Char → Option Flags
  | 'i' => some { flags with ignoreCase := value }
  | 'm' => some { flags with multiLine := value }
  | 's' => some { flags with dotAll := value }
  | 'u' => some { flags with unicode := value }
  | 'x' => some { flags with spaced := value }
  | 'R' => some { flags with returns := value }
  | 'U' => some flags
  | _ => none

/-- Reads flags up to the `:` or `)` behind them. `seen` holds the letters so far; no letter may
occur twice, nor may the dash, and a dash needs a letter behind it. -/
def read (flags : Flags) (value : Bool) (seen : List Char) :
    List Char → Option (Flags × List Char × List Char)
  | [] => none
  | c :: rest =>
      if c = ':' ∨ c = ')' then
        if seen.head? = some '-' then none else some (flags, seen, c :: rest)
      else if seen.contains c then none
      else if c = '-' then flags.read false ('-' :: seen) rest
      else
        match flags.set? value c with
        | none => none
        | some flags => flags.read value (c :: seen) rest

end Flags

/-- Drops blanks and comments. A comment goes from `#` to the end of the line. -/
def dropSpacing (inComment : Bool) : List Char → List Char
  | [] => []
  | c :: rest =>
      if inComment then dropSpacing (c != '\n') rest
      else if Text.isBlank c then dropSpacing false rest
      else if c = '#' then dropSpacing true rest
      else c :: rest

def Flags.skip (flags : Flags) (cs : List Char) : List Char :=
  if flags.spaced then dropSpacing false cs else cs

def hexDigit? (c : Char) : Option Nat :=
  if c.isDigit then some (c.toNat - '0'.toNat)
  else if 'a' ≤ c ∧ c ≤ 'f' then some (c.toNat - 'a'.toNat + 10)
  else if 'A' ≤ c ∧ c ≤ 'F' then some (c.toNat - 'A'.toNat + 10)
  else none

def charOf? (n : Nat) : Option Char :=
  if n.isValidChar then some (Char.ofNat n) else none

def readHexDigits (flags : Flags) : Nat → Nat → List Char → Option (Nat × List Char)
  | 0, n, cs => some (n, cs)
  | _ + 1, _, [] => none
  | count + 1, n, c :: rest =>
      match hexDigit? c with
      | none => none
      | some d => readHexDigits flags count (n * 16 + d) (flags.skip rest)

def hexOf? (cs : List Char) : Option Nat :=
  match cs with
  | [] => none
  | cs => cs.foldl (fun n c => n.bind fun n => (hexDigit? c).map (n * 16 + ·)) (some 0)

/-- What stands before a closing brace, without spacing, and what stands behind it. -/
def splitAtBrace? (flags : Flags) (cs : List Char) : Option (List Char × List Char) :=
  let inside := cs.takeWhile (· != '\x7d')
  match cs.dropWhile (· != '\x7d') with
  | [] => none
  | _ :: rest =>
      some (if flags.spaced then inside.filter (!Text.isBlank ·) else inside, rest)

inductive Escape where
  | char (c : Char)
  | byte (c : Char)
  | set (s : CharSet)
  | look (condition : Look)
  deriving DecidableEq, Repr

/-- Reads the number of a character behind the letter that announces it. -/
def readHex (flags : Flags) (digits : Nat) (cs : List Char) : Option (Char × List Char) := do
  match flags.skip cs with
  | '\x7b' :: rest =>
      let (inside, rest) ← splitAtBrace? flags rest
      return (← charOf? (← hexOf? inside), flags.skip rest)
  | cs =>
      let (n, rest) ← readHexDigits flags digits 0 cs
      return (← charOf? n, rest)

/-- The set that the text in the braces behind `\p` stands for: the name of a property, or the
general category and the name of one. -/
def propertyOf? (inside : List Char) : Option CharSet :=
  let reduce (cs : List Char) : List Char :=
    (cs.filter fun c => c != ' ' && c != '-' && c != '_').map Char.toLower
  let isCategory (cs : List Char) : Bool :=
    reduce cs == ['g', 'c'] || reduce cs == "generalcategory".toList
  let before := inside.takeWhile fun c => c != '=' && c != ':'
  match inside.dropWhile fun c => c != '=' && c != ':' with
  | [] => CharSet.ofPropertyName? inside
  | _ :: value =>
      match before.reverse with
      | '!' :: key =>
          if isCategory key.reverse then (CharSet.ofPropertyName? value).map .complement else none
      | key => if isCategory key.reverse then CharSet.ofPropertyName? value else none

def readProperty (flags : Flags) (negated : Bool) (cs : List Char) :
    Option (CharSet × List Char) := do
  let fold (s : CharSet) : CharSet := if flags.ignoreCase then .folded false s else s
  if !flags.unicode then none
  match flags.skip cs with
  | [] => none
  | '\x7b' :: rest =>
      let (inside, rest) ← splitAtBrace? flags rest
      return ((fold (← propertyOf? inside)).negateIf negated, rest)
  | c :: rest =>
      if c = '\\' then none
      return ((fold (← CharSet.ofPropertyName? [c])).negateIf negated, flags.skip rest)

def classOfLetter? (flags : Flags) (c : Char) : Option CharSet :=
  let set (asciiSet : CharSet) (property : Property) : CharSet :=
    if flags.unicode then .having property else asciiSet
  match c with
  | 'd' => some (set CharSet.asciiDigit .digit)
  | 's' => some (set CharSet.asciiBlank .blank)
  | 'w' => some (set CharSet.asciiWord .word)
  | 'D' => some (.complement (set CharSet.asciiDigit .digit))
  | 'S' => some (.complement (set CharSet.asciiBlank .blank))
  | 'W' => some (.complement (set CharSet.asciiWord .word))
  | _ => none

def controlOfLetter? : Char → Option Char
  | 'a' => some '\x07'
  | 'f' => some '\x0c'
  | 't' => some '\t'
  | 'n' => some '\n'
  | 'r' => some '\r'
  | 'v' => some '\x0b'
  | _ => none

/-- Whether a character may stand for itself behind a backslash: all of ASCII but letters, digits
and the two angles. -/
def escapable (c : Char) : Bool :=
  c.toNat < 128 && !c.isAlphanum && c != '<' && c != '>'

def boundaryNamed? (name : List Char) : Option Boundary :=
  if name = "start".toList then some .wordStart
  else if name = "end".toList then some .wordEnd
  else if name = "start-half".toList then some .noWordBefore
  else if name = "end-half".toList then some .noWordBehind
  else none

/-- Reads the boundary behind `\b`. A brace opens the name of a boundary when a letter or a dash
follows it, and belongs to a repetition otherwise. -/
def readBoundary (flags : Flags) (cs : List Char) : Option (Boundary × List Char) :=
  let isNameChar (c : Char) : Bool := c.isAlpha || c == '-'
  match cs with
  | '\x7b' :: rest =>
      match flags.skip rest with
      | [] => none
      | c :: more =>
          if !isNameChar c then some (.edge, cs)
          else
            match (c :: more).dropWhile isNameChar with
            | '\x7d' :: after =>
                (boundaryNamed? ((c :: more).takeWhile isNameChar)).map fun kind => (kind, after)
            | _ => none
  | _ => some (.edge, cs)

/-- Reads what stands behind a backslash. -/
def readEscape (flags : Flags) : List Char → Option (Escape × List Char)
  | [] => none
  | c :: rest =>
      let boundary (kind : Boundary) : Escape := .look (.boundary (!flags.unicode) kind)
      if c = 'x' then (readHex flags 2 rest).map fun (c, rest) => (.byte c, rest)
      else if c = 'u' then (readHex flags 4 rest).map fun (c, rest) => (.char c, rest)
      else if c = 'U' then (readHex flags 8 rest).map fun (c, rest) => (.char c, rest)
      else if c = 'p' then (readProperty flags false rest).map fun (s, rest) => (.set s, rest)
      else if c = 'P' then (readProperty flags true rest).map fun (s, rest) => (.set s, rest)
      else if escapable c then some (.char c, rest)
      else if c = 'A' then some (.look .textStart, rest)
      else if c = 'z' then some (.look .textEnd, rest)
      else if c = 'B' then some (boundary .noEdge, rest)
      else if c = '<' then some (boundary .wordStart, rest)
      else if c = '>' then some (boundary .wordEnd, rest)
      else if c = 'b' then
        (readBoundary flags rest).map fun (kind, rest) => (boundary kind, rest)
      else
        match classOfLetter? flags c, controlOfLetter? c with
        | some s, _ => some (.set s, rest)
        | none, some c => some (.char c, rest)
        | none, none => none

def Flags.foldSet (flags : Flags) (s : CharSet) : CharSet :=
  if flags.ignoreCase then .folded (!flags.unicode) s else s

/-- The expression of a set, which must not hold bytes that are no characters. -/
def setRegex? (flags : Flags) (s : CharSet) : Option Regex :=
  if flags.unicode || s.withinAscii then some (.char s) else none

/-- A member of a class as it is read: a character, or a set that cannot bound a range. -/
inductive ClassItem where
  | char (c : Char)
  | set (s : CharSet)
  deriving DecidableEq, Repr

def readClassItem (flags : Flags) : List Char → Option (ClassItem × List Char)
  | [] => none
  | '\\' :: rest => do
      let (e, rest) ← readEscape flags rest
      match e with
      | .byte c => return (.char c, rest)
      | .char c => if flags.unicode || c.toNat < 128 then return (.char c, rest) else none
      | .set s => return (.set s, rest)
      | .look _ => none
  | c :: rest => if flags.unicode || c.toNat < 128 then some (.char c, rest) else none

/-- Reads a member of a class, or a range of characters. A dash before the closing bracket or before
another dash makes no range. -/
def readClassRange (flags : Flags) (cs : List Char) : Option (CharSet × List Char) := do
  let (low, rest) ← readClassItem flags cs
  let plain : CharSet := match low with
    | .char c => .single c
    | .set s => s
  let rest := flags.skip rest
  match rest with
  | [] => none
  | '-' :: more =>
      match flags.skip more with
      | [] => none
      | c :: more =>
          if c = ']' ∨ c = '-' then return (plain, rest)
          let (high, more) ← readClassItem flags (c :: more)
          match low, high with
          | .char low, .char high =>
              if low ≤ high then return (.range low high, more) else none
          | _, _ => none
  | _ => return (plain, rest)

/-- Reads a named class in brackets and colons, behind its first bracket, if there is one. -/
def readNamedClass? (flags : Flags) : List Char → Option (CharSet × List Char)
  | ':' :: rest =>
      let (negated, rest) := match rest with
        | '^' :: rest => (true, rest)
        | rest => (false, rest)
      match rest.dropWhile (· != ':') with
      | ':' :: ']' :: after =>
          (CharSet.ofAsciiName? (String.ofList (rest.takeWhile (· != ':')))).map fun s =>
            ((flags.foldSet s).negateIf negated, after)
      | _ => none
  | _ => none

inductive ClassOp where
  | inter
  | minus
  | symmetric
  deriving DecidableEq, Repr

/-- A part of a class joined to what stands before it. -/
def joinClass (flags : Flags) (before : Option (CharSet × ClassOp)) (part : CharSet) : CharSet :=
  match before with
  | none => part
  | some (left, op) =>
      let left := flags.foldSet left
      let right := flags.foldSet part
      match op with
      | .inter => .inter left right
      | .minus => .minus left right
      | .symmetric => .symmetric left right

/-- Reads the dashes at the front of a class, which stand for themselves. -/
def readLeadingDashes (flags : Flags) : Nat → CharSet → List Char → CharSet × List Char
  | 0, s, cs => (s, cs)
  | fuel + 1, s, cs =>
      match cs with
      | '-' :: rest => readLeadingDashes flags fuel (.union s (.single '-')) (flags.skip rest)
      | cs => (s, cs)

/-- Reads the front of a class behind its bracket: whether it is negated, and the members that only
stand there. -/
def openClass (flags : Flags) (cs : List Char) : Bool × CharSet × List Char :=
  let cs := flags.skip cs
  let (negated, cs) := match cs with
    | '^' :: rest => (true, flags.skip rest)
    | cs => (false, cs)
  let (dashes, rest) := readLeadingDashes flags cs.length .empty cs
  match dashes, rest with
  | .empty, ']' :: rest => (negated, .single ']', flags.skip rest)
  | dashes, rest => (negated, dashes, rest)

/-- Reads the inside of a class up to its closing bracket. -/
def readClass (flags : Flags) :
    Nat → Option (CharSet × ClassOp) → CharSet → List Char → Option (CharSet × List Char)
  | 0, _, _, _ => none
  | fuel + 1, before, part, cs =>
      match flags.skip cs with
      | [] => none
      | ']' :: rest => some (joinClass flags before part, rest)
      | '[' :: rest =>
          match readNamedClass? flags rest with
          | some (s, rest) => readClass flags fuel before (.union part s) rest
          | none =>
              let (negated, first, rest) := openClass flags rest
              match readClass flags fuel none first rest with
              | none => none
              | some (s, rest) =>
                  readClass flags fuel before (.union part ((flags.foldSet s).negateIf negated))
                    rest
      | '&' :: '&' :: rest =>
          readClass flags fuel (some (joinClass flags before part, .inter)) .empty rest
      | '-' :: '-' :: rest =>
          readClass flags fuel (some (joinClass flags before part, .minus)) .empty rest
      | '~' :: '~' :: rest =>
          readClass flags fuel (some (joinClass flags before part, .symmetric)) .empty rest
      | cs =>
          match readClassRange flags cs with
          | none => none
          | some (s, rest) => readClass flags fuel before (.union part s) rest

def readBracketed (flags : Flags) (cs : List Char) : Option (Regex × List Char) := do
  let (negated, first, rest) := openClass flags cs
  let (s, rest) ← readClass flags (cs.length + 1) none first rest
  return (← setRegex? flags ((flags.foldSet s).negateIf negated), rest)

/-- Reads a count, with blanks around it. -/
def readCount (flags : Flags) (cs : List Char) : Option Nat × List Char :=
  let rec digits (n : Option Nat) : Nat → List Char → Option Nat × List Char
    | 0, cs => (n, cs)
    | fuel + 1, cs =>
        match cs with
        | c :: rest =>
            if c.isDigit then
              digits (some (n.getD 0 * 10 + (c.toNat - '0'.toNat))) fuel (flags.skip rest)
            else (n, c :: rest)
        | [] => (n, [])
  let (n, rest) := digits none cs.length (cs.dropWhile Text.isBlank)
  (n, flags.skip (rest.dropWhile Text.isBlank))

def countFits (n : Nat) : Bool := n < UInt32.size

def readBounds (flags : Flags) (cs : List Char) : Option (Nat × Option Nat × List Char) := do
  let (least, rest) := readCount flags (flags.skip cs)
  let least ← least
  if !countFits least then none
  match rest with
  | '\x7d' :: rest => return (least, some least, flags.skip rest)
  | ',' :: rest =>
      match flags.skip rest with
      | '\x7d' :: rest => return (least, none, flags.skip rest)
      | rest =>
          let (most, rest) := readCount flags rest
          let most ← most
          match rest with
          | '\x7d' :: rest =>
              if countFits most && least ≤ most then return (least, some most, flags.skip rest)
              else none
          | _ => none
  | _ => none

/-- Drops the mark that makes a repetition prefer fewer turns. -/
def dropLazyMark : List Char → List Char
  | '?' :: rest => rest
  | cs => cs

def isNameChar (first : Bool) (c : Char) : Bool :=
  if c = '_' then true
  else if first then Text.isLetter c
  else c = '.' || c = '[' || c = ']' || Text.isLetter c || (Text.Category.ofChar c).major == 'N'

def readName (cs : List Char) : Option (String × List Char) :=
  let name := cs.takeWhile (· != '>')
  match name, cs.dropWhile (· != '>') with
  | first :: more, _ :: rest =>
      if isNameChar true first && more.all (isNameChar false) then
        some (String.ofList name, rest)
      else none
  | _, _ => none

inductive Opening where
  | flags (flags : Flags)
  | group (name : Option String) (flags : Flags)
  deriving Repr

/-- Reads the front of a parenthesis. Conditions on what stands around are not supported. -/
def readOpening (flags : Flags) (cs : List Char) : Option (Opening × List Char) := do
  match flags.skip cs with
  | '?' :: 'P' :: '<' :: rest =>
      let (name, rest) ← readName rest
      return (.group (some name) flags, rest)
  | '?' :: '<' :: rest =>
      let (name, rest) ← readName rest
      return (.group (some name) flags, rest)
  | '?' :: rest =>
      let (inner, seen, rest) ← flags.read true [] rest
      match rest with
      | ':' :: rest => return (.group none inner, rest)
      | ')' :: rest => if seen.isEmpty then none else return (.flags inner, rest)
      | _ => none
  | rest => return (.group none flags, rest)

/-- The chain of what was read, which is given in reverse. Flags leave a gap. -/
def chain (done : List (Option Regex)) : Regex :=
  match done.reverse.filterMap id with
  | [] => .empty
  | a :: rest => (a :: rest).dropLast.foldr Regex.seq ((a :: rest).getLast (by simp))

def charRegex (flags : Flags) (c : Char) : Regex := .char (flags.foldSet (.single c))

/-- The expression of an escape. A number that is meant as a byte must be one of ASCII. -/
def escapeRegex? (flags : Flags) : Escape → Option Regex
  | .char c => some (charRegex flags c)
  | .byte c =>
      if !flags.unicode && 128 ≤ c.toNat && c.toNat < 256 then none
      else some (charRegex flags c)
  | .set s => setRegex? flags s
  | .look condition => some (.look condition)

/-- What stands for any character. -/
def dotRegex? (flags : Flags) : Option Regex :=
  let excluded : CharSet :=
    if flags.dotAll then .empty
    else if flags.returns then .union (.single '\n') (.single '\r')
    else .single '\n'
  setRegex? flags (.complement excluded)

/-- The end of what was read, repeated; nothing when there is nothing to repeat. -/
def repeatLast (done : List (Option Regex)) (least : Nat) (most : Option Nat) :
    Option (List (Option Regex)) :=
  match done with
  | some a :: rest => some (some (.rep a least most) :: rest)
  | _ => none

mutual

def readAlternatives : Nat → Flags → List Char → Option (Regex × List Char)
  | 0, _, _ => none
  | fuel + 1, flags, cs =>
      match readChain fuel flags [] cs with
      | none => none
      | some (a, flags, rest) =>
          match rest with
          | '|' :: rest =>
              (readAlternatives fuel flags rest).map fun (b, rest) => (.alt a b, rest)
          | rest => some (a, rest)

/-- Reads a chain up to a bar, a closing parenthesis or the end. Flags set in it go on to hold. -/
def readChain : Nat → Flags → List (Option Regex) → List Char →
    Option (Regex × Flags × List Char)
  | 0, _, _, _ => none
  | fuel + 1, flags, done, cs =>
      let push (item : Option (Regex × List Char)) : Option (Regex × Flags × List Char) :=
        match item with
        | none => none
        | some (r, rest) => readChain fuel flags (some r :: done) rest
      let again (least : Nat) (most : Option Nat) (rest : List Char) :
          Option (Regex × Flags × List Char) :=
        match repeatLast done least most with
        | none => none
        | some done => readChain fuel flags done (dropLazyMark rest)
      match flags.skip cs with
      | [] => some (chain done, flags, [])
      | ')' :: rest => some (chain done, flags, ')' :: rest)
      | '|' :: rest => some (chain done, flags, '|' :: rest)
      | '(' :: rest =>
          match readOpening flags rest with
          | none => none
          | some (.flags flags, rest) => readChain fuel flags (none :: done) rest
          | some (.group name inner, rest) =>
              match readAlternatives fuel inner rest with
              | some (r, ')' :: rest) => push (some (.group name r, rest))
              | _ => none
      | '[' :: rest => push (readBracketed flags rest)
      | '?' :: rest => again 0 (some 1) rest
      | '*' :: rest => again 0 none rest
      | '+' :: rest => again 1 none rest
      | '\x7b' :: rest =>
          match readBounds flags rest with
          | none => none
          | some (least, most, rest) => again least most rest
      | '\\' :: rest =>
          match readEscape flags rest with
          | none => none
          | some (e, rest) => push ((escapeRegex? flags e).map fun r => (r, rest))
      | '.' :: rest => push ((dotRegex? flags).map fun r => (r, rest))
      | '^' :: rest =>
          let condition := if flags.multiLine then .lineStart flags.returns else .textStart
          push (some (.look condition, rest))
      | '$' :: rest =>
          let condition := if flags.multiLine then .lineEnd flags.returns else .textEnd
          push (some (.look condition, rest))
      | c :: rest => push (some (charRegex flags c, rest))

end

/-- The deepest nesting of an expression. -/
def depthLimit : Nat := 250

/-- The room that the automaton of an expression may take, in bytes, and so the greatest weight that
is accepted. -/
def weightLimit : Nat := 10485760

inductive Fault where
  | malformed
  | tooLarge
  deriving DecidableEq, Repr

/-- The wording of a refusal, as far as it does not depend on the text. -/
def Fault.message : Fault → String
  | malformed => "regex parse error"
  | tooLarge => s!"Compiled regex exceeds size limit of {weightLimit} bytes."

/-- The expression that a text spells. The names of its groups must differ. -/
def read (text : String) : Except Fault Regex :=
  match readAlternatives (2 * text.length + 2) Flags.initial text.toList with
  | some (r, []) =>
      if r.names.eraseDups.length ≠ r.names.length then .error .malformed
      else if depthLimit < r.depthWithin false false then .error .malformed
      else if weightLimit < r.weight then .error .tooLarge
      else .ok r
  | _ => .error .malformed

end Hygiene.Regex
