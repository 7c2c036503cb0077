import Hygiene.Json.Value

/-!
Reading JSON text. The grammar is that of RFC 8259, without a limit on the size of numbers or on
how deep values nest.
-/

namespace Hygiene.Json

def isBlank (c : Char) : Bool :=
  c == ' ' || c == '\t' || c == '\n' || c == '\r'

def hexDigit? (c : Char) : Option Nat :=
  if '0' ≤ c ∧ c ≤ '9' then some (c.toNat - '0'.toNat)
  else if 'a' ≤ c ∧ c ≤ 'f' then some (c.toNat - 'a'.toNat + 10)
  else if 'A' ≤ c ∧ c ≤ 'F' then some (c.toNat - 'A'.toNat + 10)
  else none

/-- The code unit that four hexadecimal digits spell. -/
def codeUnit? (a b c d : Char) : Option Nat :=
  match hexDigit? a, hexDigit? b, hexDigit? c, hexDigit? d with
  | some a, some b, some c, some d => some (((a * 16 + b) * 16 + c) * 16 + d)
  | _, _, _, _ => none

/-- The units that open a surrogate pair. -/
def opensPair (u : Nat) : Bool := 0xD800 ≤ u && u ≤ 0xDBFF

/-- The units that close a surrogate pair. -/
def closesPair (u : Nat) : Bool := 0xDC00 ≤ u && u ≤ 0xDFFF

/-- The character that a surrogate pair stands for. -/
def pairChar (u v : Nat) : Char :=
  Char.ofNat (0x10000 + (u - 0xD800) * 0x400 + (v - 0xDC00))

def unescape? : Char → Option Char
  | '"' => some '"'
  | '\\' => some '\\'
  | '/' => some '/'
  | 'b' => some '\x08'
  | 'f' => some '\x0c'
  | 'n' => some '\n'
  | 'r' => some '\r'
  | 't' => some '\t'
  | _ => none

/-- A part of a string literal: a character, or an escape that names half of a surrogate pair. -/
inductive Part where
  | char (c : Char)
  | opening (unit : Nat)
  | closing (unit : Nat)
  deriving DecidableEq, Repr

def partOfUnit (u : Nat) : Part :=
  if opensPair u then .opening u
  else if closesPair u then .closing u
  else .char (Char.ofNat u)

/-- Reads the inside of a string literal and its closing quote. -/
def readParts : List Char → Option (List Part × List Char)
  | [] => none
  | '"' :: rest => some ([], rest)
  | '\\' :: 'u' :: a :: b :: c :: d :: rest =>
      match codeUnit? a b c d with
      | none => none
      | some u => (readParts rest).map fun (parts, rest) => (partOfUnit u :: parts, rest)
  | '\\' :: c :: rest =>
      match unescape? c with
      | none => none
      | some c => (readParts rest).map fun (parts, rest) => (.char c :: parts, rest)
  | c :: rest =>
      if c < ' ' then none
      else (readParts rest).map fun (parts, rest) => (.char c :: parts, rest)

/-- The text of the parts, in which every half of a pair must stand beside its other half. -/
def textOfParts : List Part → Option (List Char)
  | [] => some []
  | .char c :: rest => (textOfParts rest).map (c :: ·)
  | .opening u :: .closing v :: rest => (textOfParts rest).map (pairChar u v :: ·)
  | _ => none

/-- Reads the inside of a string literal. The text is absent when an escape in it names half of a
pair without the other half. -/
def readText (cs : List Char) : Option (Option (List Char) × List Char) :=
  (readParts cs).map fun (parts, rest) => (textOfParts parts, rest)

def readDigits (cs : List Char) : Option (List Char × List Char) :=
  match cs.takeWhile Char.isDigit with
  | [] => none
  | ds => some (ds, cs.dropWhile Char.isDigit)

/-- The digits of a whole number: a zero stands alone. -/
def readWhole : List Char → Option (List Char × List Char)
  | '0' :: rest => some (['0'], rest)
  | cs => readDigits cs

def readFraction : List Char → Option (List Char × List Char)
  | '.' :: rest => (readDigits rest).map fun (ds, rest) => ('.' :: ds, rest)
  | cs => some ([], cs)

def readExponent (cs : List Char) : Option (List Char × List Char) :=
  match cs with
  | e :: sign :: rest =>
      if e = 'e' ∨ e = 'E' then
        if sign = '+' ∨ sign = '-' then
          (readDigits rest).map fun (ds, rest) => (e :: sign :: ds, rest)
        else (readDigits (sign :: rest)).map fun (ds, rest) => (e :: ds, rest)
      else some ([], cs)
  | [e] => if e = 'e' ∨ e = 'E' then none else some ([], cs)
  | [] => some ([], [])

def ofDigits (ds : List Char) : Nat :=
  ds.foldl (fun n d => n * 10 + (d.toNat - '0'.toNat)) 0

/-- Reads a number without its sign. -/
def readUnsigned (negative : Bool) (cs : List Char) : Option (Value × List Char) := do
  let (whole, cs) ← readWhole cs
  let (fraction, cs) ← readFraction cs
  let (exponent, cs) ← readExponent cs
  if negative || !fraction.isEmpty || !exponent.isEmpty then
    let sign := if negative then ['-'] else []
    some (.number (String.ofList (sign ++ whole ++ fraction ++ exponent)), cs)
  else some (.natural (ofDigits whole), cs)

def readNumber : List Char → Option (Value × List Char)
  | '-' :: rest => readUnsigned true rest
  | cs => readUnsigned false cs

def consMember (name : Option (List Char)) (value : Value) :
    Option (List (String × Value)) → Option (List (String × Value))
  | none => none
  | some members =>
      match name with
      | none => none
      | some name => some ((String.ofList name, value) :: members)

/-- The object of these members, unless the name of one is no text. -/
def objectOf : Option (List (String × Value)) → Value
  | none => .unreadable
  | some members => .object members

mutual

/-- Reads a value that begins at once. Every call spends fuel, and no reading takes more calls
than there are characters. -/
def readValue : Nat → List Char → Option (Value × List Char)
  | 0, _ => none
  | fuel + 1, cs =>
      match cs with
      | 'n' :: 'u' :: 'l' :: 'l' :: rest => some (.null, rest)
      | 't' :: 'r' :: 'u' :: 'e' :: rest => some (.bool true, rest)
      | 'f' :: 'a' :: 'l' :: 's' :: 'e' :: rest => some (.bool false, rest)
      | '"' :: rest =>
          (readText rest).map fun (text, rest) =>
            (text.elim .unreadable fun text => .string (String.ofList text), rest)
      | '[' :: rest =>
          match rest.dropWhile isBlank with
          | ']' :: rest => some (.array [], rest)
          | rest => (readItems fuel rest).map fun (items, rest) => (.array items, rest)
      | '\x7b' :: rest =>
          match rest.dropWhile isBlank with
          | '\x7d' :: rest => some (.object [], rest)
          | rest => (readMembers fuel rest).map fun (members, rest) => (objectOf members, rest)
      | cs => readNumber cs

/-- Reads the items of an array, of which there is at least one, and the closing bracket. -/
def readItems : Nat → List Char → Option (List Value × List Char)
  | 0, _ => none
  | fuel + 1, cs =>
      match readValue fuel cs with
      | none => none
      | some (v, rest) =>
          match rest.dropWhile isBlank with
          | ']' :: rest => some ([v], rest)
          | ',' :: rest =>
              (readItems fuel (rest.dropWhile isBlank)).map fun (items, rest) => (v :: items, rest)
          | _ => none

/-- Reads the members of an object, of which there is at least one, and the closing brace. -/
def readMembers : Nat → List Char → Option (Option (List (String × Value)) × List Char)
  | 0, _ => none
  | fuel + 1, cs =>
      match cs with
      | '"' :: rest =>
          match readText rest with
          | none => none
          | some (name, rest) =>
              match rest.dropWhile isBlank with
              | ':' :: rest =>
                  match readValue fuel (rest.dropWhile isBlank) with
                  | none => none
                  | some (v, rest) =>
                      match rest.dropWhile isBlank with
                      | '\x7d' :: rest => some (consMember name v (some []), rest)
                      | ',' :: rest =>
                          (readMembers fuel (rest.dropWhile isBlank)).map fun (members, rest) =>
                            (consMember name v members, rest)
                      | _ => none
              | _ => none
      | _ => none

end

def readChars (cs : List Char) : Option Value :=
  match readValue (cs.length + 1) (cs.dropWhile isBlank) with
  | none => none
  | some (v, rest) => if rest.all isBlank then some v else none

def read (text : String) : Option Value := readChars text.toList

end Hygiene.Json
