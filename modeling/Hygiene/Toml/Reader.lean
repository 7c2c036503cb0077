import Hygiene.Toml.Scalar
import Hygiene.Toml.Table

/-!
Reading TOML documents. Arrays and inline tables nest only so deep, which bounds the recursion;
loops over a text spend its length as fuel.
-/

namespace Hygiene.Toml

/-- How deep values may nest, and how many parts a key may have: fewer than this. -/
def nestingLimit : Nat := 80

def isBareKeyChar (c : Char) : Bool := c.isAlphanum || c == '_' || c == '-'

def readKeyPart (cs : List Char) : Option (String × List Char) :=
  match cs with
  | '"' :: rest =>
      (readBasic (cs.length + 1) rest).map fun (text, rest) => (String.ofList text, rest)
  | '\'' :: rest => (readLiteral rest).map fun (text, rest) => (String.ofList text, rest)
  | cs =>
      match cs.takeWhile isBareKeyChar with
      | [] => none
      | part => some (String.ofList part, cs.dropWhile isBareKeyChar)

def readKeyParts : Nat → Reader (List String)
  | 0, _ => none
  | fuel + 1, cs =>
      match readKeyPart (dropBlanks cs) with
      | none => none
      | some (part, rest) =>
          match dropBlanks rest with
          | '.' :: rest => (readKeyParts fuel rest).map fun (parts, rest) => (part :: parts, rest)
          | rest => some ([part], rest)

def readKey (cs : List Char) : Option (List String × String × List Char) := do
  let (parts, rest) ← readKeyParts (cs.length + 1) cs
  if nestingLimit ≤ parts.length then none
  return (parts.dropLast, ← parts.getLast?, rest)

/-- Drops a comment at the front, if there is one, up to the first character that may not stand in
it. -/
def dropComment (cs : List Char) : List Char :=
  match cs with
  | '#' :: rest => rest.dropWhile isPrintable
  | cs => cs

def dropLines : Nat → List Char → List Char
  | 0, cs => cs
  | fuel + 1, cs =>
      let cs := dropBlanks cs
      match lineBreak? cs with
      | some rest => dropLines fuel rest
      | none =>
          match cs with
          | '#' :: _ =>
              match lineBreak? (dropComment cs) with
              | some rest => dropLines fuel rest
              | none => cs
          | cs => cs

/-- Reads the items of an array up to its closing bracket. A comma may stand behind the last one. -/
def readItems (value : Reader Value) : Nat → Reader (List Value)
  | 0, _ => none
  | fuel + 1, cs =>
      match dropLines cs.length cs with
      | ']' :: rest => some ([], rest)
      | cs =>
          match value cs with
          | none => none
          | some (v, rest) =>
              match dropLines rest.length rest with
              | ',' :: rest =>
                  (readItems value fuel rest).map fun (items, rest) => (v :: items, rest)
              | ']' :: rest => some ([v], rest)
              | _ => none

/-- Reads the pairs of an inline table, of which there is at least one, up to its closing brace. No
comma may stand behind the last one. -/
def readPairs (value : Reader Value) : Nat → Table → Reader Table
  | 0, _, _ => none
  | fuel + 1, t, cs => do
      let (path, key, rest) ← readKey cs
      let (v, rest) ← value (dropBlanks (← after? '=' rest))
      let t ← t.assign path key v
      match dropBlanks rest with
      | ',' :: rest => readPairs value fuel t rest
      | '\x7d' :: rest => some (t, rest)
      | _ => none

def readInlineTable (value : Reader Value) : Reader Value := fun cs =>
  match dropBlanks cs with
  | '\x7d' :: rest => some (.table [], rest)
  | cs =>
      (readPairs value cs.length (Table.explicit []) cs).map fun (t, rest) =>
        (.table (entriesToValues t.entries), rest)

def readPlain (cs : List Char) : Option (Value × List Char) :=
  match cs with
  | 't' :: 'r' :: 'u' :: 'e' :: rest => some (.boolean true, rest)
  | 'f' :: 'a' :: 'l' :: 's' :: 'e' :: rest => some (.boolean false, rest)
  | '"' :: _ => (readString cs).map fun (text, rest) => (.string text, rest)
  | '\'' :: _ => (readString cs).map fun (text, rest) => (.string text, rest)
  | cs => readNumeric cs

/-- Reads a value in which arrays and inline tables nest at most `depth` deep. -/
def readValue : Nat → Reader Value
  | 0, cs => readPlain cs
  | depth + 1, cs =>
      match cs with
      | '[' :: rest =>
          (readItems (readValue depth) (rest.length + 1) rest).map fun (items, rest) =>
            (.array items, rest)
      | '\x7b' :: rest => readInlineTable (readValue depth) rest
      | cs => readPlain cs

def endOfLine? (cs : List Char) : Option (List Char) :=
  match dropComment (dropBlanks cs) with
  | [] => some []
  | rest => lineBreak? rest

/-- Reads a header behind its first bracket: whether it is one of an array of tables, and its
path. -/
def readHeader (cs : List Char) : Option (Bool × List String × List Char) := do
  let (inArray, cs) := match cs with
    | '[' :: rest => (true, rest)
    | cs => (false, cs)
  let (path, key, rest) ← readKey cs
  let rest ← after? ']' rest
  let rest ← if inArray then after? ']' rest else some rest
  return (inArray, path ++ [key], rest)

def readExpression (d : Draft) (cs : List Char) : Option (Draft × List Char) :=
  match cs with
  | '[' :: rest => do
      let (inArray, path, rest) ← readHeader rest
      let rest ← endOfLine? rest
      return (← if inArray then d.openRow path else d.openTable path, rest)
  | cs => do
      let (path, key, rest) ← readKey cs
      let (v, rest) ← readValue (nestingLimit - 1) (dropBlanks (← after? '=' rest))
      let rest ← endOfLine? rest
      return (← d.assign path key v, rest)

def readLines : Nat → Draft → List Char → Option Draft
  | 0, _, _ => none
  | fuel + 1, d, cs =>
      match dropBlanks cs with
      | [] => some d
      | cs =>
          match dropComment cs with
          | [] => some d
          | rest =>
              match lineBreak? rest with
              | some rest => readLines fuel d rest
              | none =>
                  match readExpression d cs with
                  | none => none
                  | some (d, rest) => readLines fuel d rest

/-- The table that a document spells. A byte order mark at its front is passed over. -/
def read (text : String) : Option Entries :=
  let cs := match text.toList with
    | '\uFEFF' :: rest => rest
    | cs => cs
  match readLines (cs.length + 1) Draft.start cs with
  | none => none
  | some d => d.finish.map fun t => entriesToValues t.entries

end Hygiene.Toml
