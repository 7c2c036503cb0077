import Hygiene.Toml.Value

/-!
Reading TOML scalars: strings in their four forms, numbers and dates. Every reader takes a list of
characters and gives what it read together with the rest, or nothing.
-/

namespace Hygiene.Toml

/-- A reader: what it reads from the front of a list of characters, and the rest. -/
abbrev Reader (α : Type) := List Char → Option (α × List Char)

def isBlank (c : Char) : Bool := c == ' ' || c == '\t'

def dropBlanks (cs : List Char) : List Char := cs.dropWhile isBlank

/-- Whether a character may stand in a comment: any but the control characters, with the tab
allowed. -/
def isPrintable (c : Char) : Bool :=
  c == '\t' || (' ' ≤ c && c != '\x7f')

def lineBreak? : List Char → Option (List Char)
  | '\n' :: rest => some rest
  | '\r' :: '\n' :: rest => some rest
  | _ => none

def digit? (base : Nat) (c : Char) : Option Nat :=
  let value :=
    if c.isDigit then some (c.toNat - '0'.toNat)
    else if 'a' ≤ c ∧ c ≤ 'f' then some (c.toNat - 'a'.toNat + 10)
    else if 'A' ≤ c ∧ c ≤ 'F' then some (c.toNat - 'A'.toNat + 10)
    else none
  value.bind fun n => if n < base then some n else none

def ofDigits (base : Nat) (ds : List Char) : Nat :=
  ds.foldl (fun n d => n * base + (digit? base d).getD 0) 0

def readScalar (count : Nat) : Reader Char := fun cs =>
  let ds := cs.take count
  if ds.length = count && ds.all fun d => (digit? 16 d).isSome then
    let n := ofDigits 16 ds
    if n.isValidChar then some (Char.ofNat n, cs.drop count) else none
  else none

/-- Reads an escape behind its backslash. -/
def readEscape : Reader Char
  | 'b' :: rest => some ('\x08', rest)
  | 't' :: rest => some ('\t', rest)
  | 'n' :: rest => some ('\n', rest)
  | 'f' :: rest => some ('\x0c', rest)
  | 'r' :: rest => some ('\r', rest)
  | '"' :: rest => some ('"', rest)
  | '\\' :: rest => some ('\\', rest)
  | 'u' :: rest => readScalar 4 rest
  | 'U' :: rest => readScalar 8 rest
  | _ => none

def readBasic : Nat → Reader (List Char)
  | 0, _ => none
  | fuel + 1, cs =>
      match cs with
      | [] => none
      | '"' :: rest => some ([], rest)
      | '\\' :: rest =>
          match readEscape rest with
          | none => none
          | some (c, rest) => (readBasic fuel rest).map fun (text, rest) => (c :: text, rest)
      | c :: rest =>
          if isPrintable c then (readBasic fuel rest).map fun (text, rest) => (c :: text, rest)
          else none

def readLiteral : Reader (List Char)
  | [] => none
  | '\'' :: rest => some ([], rest)
  | c :: rest =>
      if isPrintable c then (readLiteral rest).map fun (text, rest) => (c :: text, rest) else none

/-- Drops blanks and line breaks behind a backslash at the end of a line. -/
def dropLineBreaks : Nat → List Char → List Char
  | 0, cs => cs
  | fuel + 1, cs =>
      let cs := dropBlanks cs
      match lineBreak? cs with
      | none => cs
      | some rest => dropLineBreaks fuel rest

/-- What a run of quotes inside a string of several lines means: the number of quotes that belong to
the text, and whether the others close it. Three quotes close; up to two more may stand before
them. -/
def quotesInText (count : Nat) : Nat × Bool :=
  if count < 3 then (count, false) else (min (count - 3) 2, true)

/-- Reads the inside of a string of several lines, and the closing quotes. Escapes count only in the
form with double quotes. -/
def readMultiline (quote : Char) (escapes : Bool) : Nat → Reader (List Char)
  | 0, _ => none
  | fuel + 1, cs =>
      match cs with
      | [] => none
      | c :: rest =>
          if c = quote then
            let (count, closes) := quotesInText (cs.takeWhile (· == quote)).length
            let text := List.replicate count quote
            if closes then some (text, cs.drop (count + 3))
            else
              (readMultiline quote escapes fuel (cs.drop count)).map fun (more, rest) =>
                (text ++ more, rest)
          else
            match lineBreak? cs with
            | some rest =>
                (readMultiline quote escapes fuel rest).map fun (text, rest) => ('\n' :: text, rest)
            | none =>
                if escapes && c = '\\' then
                  match lineBreak? (dropBlanks rest) with
                  | some rest => readMultiline quote escapes fuel (dropLineBreaks fuel rest)
                  | none =>
                      match readEscape rest with
                      | none => none
                      | some (c, rest) =>
                          (readMultiline quote escapes fuel rest).map fun (text, rest) =>
                            (c :: text, rest)
                else if isPrintable c then
                  (readMultiline quote escapes fuel rest).map fun (text, rest) => (c :: text, rest)
                else none

/-- Reads a string. A line break right behind three opening quotes does not count. -/
def readString : Reader String := fun cs =>
  let skipBreak (cs : List Char) : List Char := (lineBreak? cs).getD cs
  let text := match cs with
    | '"' :: '"' :: '"' :: rest => readMultiline '"' true (cs.length + 1) (skipBreak rest)
    | '"' :: rest => readBasic (cs.length + 1) rest
    | '\'' :: '\'' :: '\'' :: rest => readMultiline '\'' false (cs.length + 1) (skipBreak rest)
    | '\'' :: rest => readLiteral rest
    | _ => none
  text.map fun (text, rest) => (String.ofList text, rest)

/-- Reads digits of a base behind one that was read: single underscores may stand between them. -/
def moreDigits (base : Nat) : List Char → List Char × List Char
  | '_' :: c :: rest =>
      if (digit? base c).isSome then
        let (ds, rest) := moreDigits base rest
        (c :: ds, rest)
      else ([], '_' :: c :: rest)
  | c :: rest =>
      if (digit? base c).isSome then
        let (ds, rest) := moreDigits base rest
        (c :: ds, rest)
      else ([], c :: rest)
  | [] => ([], [])

def readDigits (base : Nat) : Reader (List Char)
  | [] => none
  | c :: rest =>
      if (digit? base c).isSome then
        let (ds, rest) := moreDigits base rest
        some (c :: ds, rest)
      else none

/-- Reads the digits of a decimal whole number: a zero stands alone. -/
def readWhole : Reader (List Char)
  | '0' :: rest => some (['0'], rest)
  | cs => readDigits 10 cs

def readSign : List Char → Bool × List Char
  | '-' :: rest => (true, rest)
  | '+' :: rest => (false, rest)
  | cs => (false, cs)

/-- The integers that fit 64 bits. -/
def integer? (n : Int) : Option Value :=
  if -9223372036854775808 ≤ n ∧ n ≤ 9223372036854775807 then some (.integer n) else none

/-- Reads an integer. Only decimal ones have a sign. -/
def readInteger : Reader Value := fun cs =>
  let inBase (base : Nat) (cs : List Char) : Option (Value × List Char) := do
    let (ds, rest) ← readDigits base cs
    return (← integer? (ofDigits base ds), rest)
  match cs with
  | '0' :: 'x' :: rest => inBase 16 rest
  | '0' :: 'o' :: rest => inBase 8 rest
  | '0' :: 'b' :: rest => inBase 2 rest
  | cs => do
      let (negative, cs) := readSign cs
      let (ds, rest) ← readWhole cs
      let n : Int := ofDigits 10 ds
      return (← integer? (if negative then -n else n), rest)

/-- Whether `mantissa * 10 ^ exponent` lies beyond the largest double, halfway cases included. The
number of digits settles all but the close cases. -/
def overflows (mantissa : List Char) (exponent : Int) : Bool :=
  let significant := mantissa.dropWhile (· == '0')
  let magnitude := (significant.length : Int) + exponent
  let m := ofDigits 10 significant
  let bound := (Nat.pow 2 54 - 1) * Nat.pow 2 970
  if significant.isEmpty then false
  else if 400 < magnitude then true
  else if magnitude < 200 then false
  else if 0 ≤ exponent then bound ≤ m * Nat.pow 10 exponent.toNat
  else bound * Nat.pow 10 (-exponent).toNat ≤ m

/-- Reads an exponent, if there is one. -/
def readExponent (cs : List Char) : Option (Option Int × List Char) :=
  match cs with
  | c :: rest =>
      if c = 'e' ∨ c = 'E' then
        let (negative, rest) := readSign rest
        (readDigits 10 rest).map fun (ds, rest) =>
          let n : Int := ofDigits 10 ds
          (some (if negative then -n else n), rest)
      else some (none, cs)
  | [] => some (none, [])

/-- Reads a floating point number: one with a fraction or an exponent. One that is too large to be
represented is refused, while one that is too small, below all numbers, is not. -/
def readDecimal (cs : List Char) : Option (Value × List Char) := do
  let (negative, digits) := readSign cs
  let (whole, rest) ← readWhole digits
  let (fraction, rest) ← match rest with
    | '.' :: rest => readDigits 10 rest
    | rest => some ([], rest)
  let (exponent, rest) ← readExponent rest
  if fraction.isEmpty && exponent.isNone then none
  if !negative && overflows (whole ++ fraction) (exponent.getD 0 - fraction.length) then none
  return (.float (String.ofList (cs.take (cs.length - rest.length))), rest)

def readSpecial (cs : List Char) : Option (Value × List Char) :=
  match (readSign cs).2 with
  | 'i' :: 'n' :: 'f' :: rest => some (.float "inf", rest)
  | 'n' :: 'a' :: 'n' :: rest => some (.float "nan", rest)
  | _ => none

def readField (count low high : Nat) : Reader Nat := fun cs =>
  let ds := cs.take count
  let n := ofDigits 10 ds
  if ds.length = count && ds.all Char.isDigit && low ≤ n && n ≤ high then some (n, cs.drop count)
  else none

def after? (c : Char) : List Char → Option (List Char)
  | [] => none
  | d :: rest => if d = c then some rest else none

def daysIn (year month : Nat) : Nat :=
  if month = 2 then
    if year % 4 = 0 && (year % 100 != 0 || year % 400 = 0) then 29 else 28
  else if month = 4 ∨ month = 6 ∨ month = 9 ∨ month = 11 then 30
  else 31

/-- Reads a date: nothing but its length is kept. -/
def readDate (cs : List Char) : Option (List Char) := do
  let (year, cs) ← readField 4 0 9999 cs
  let (month, cs) ← readField 2 1 12 (← after? '-' cs)
  let (_, cs) ← readField 2 1 (daysIn year month) (← after? '-' cs)
  return cs

def readTime (cs : List Char) : Option (List Char) := do
  let (_, cs) ← readField 2 0 23 cs
  let (_, cs) ← readField 2 0 59 (← after? ':' cs)
  let (_, cs) ← readField 2 0 60 (← after? ':' cs)
  match cs with
  | '.' :: rest =>
      match rest.takeWhile Char.isDigit with
      | [] => return cs
      | _ => return rest.dropWhile Char.isDigit
  | cs => return cs

def readOffset (cs : List Char) : List Char :=
  match cs with
  | c :: rest =>
      if c = 'Z' ∨ c = 'z' then rest
      else if c = '+' ∨ c = '-' then
        let offset := do
          let (_, cs) ← readField 2 0 23 rest
          let (_, cs) ← readField 2 0 59 (← after? ':' cs)
          return cs
        offset.getD cs
      else cs
  | [] => []

def readDatetime (cs : List Char) : Option (Value × List Char) := do
  let rest ← match readDate cs with
    | some rest =>
        match rest with
        | c :: time =>
            if c = 'T' ∨ c = 't' ∨ c = ' ' then some ((readTime time).elim rest readOffset)
            else some rest
        | [] => some []
    | none => readTime cs
  return (.datetime (String.ofList (cs.take (cs.length - rest.length))), rest)

def readNumeric (cs : List Char) : Option (Value × List Char) :=
  ((readDatetime cs).or ((readDecimal cs).or (readSpecial cs))).or (readInteger cs)

end Hygiene.Toml
