import Hygiene.Ignore.Pattern
import Hygiene.Text.Blank
import Hygiene.Text.Line

/-!
The rules of an ignore file. Each line is a rule, unless it is blank or a remark; of the rules that
cover a path the last one decides. A rule that begins with `!` keeps what an earlier one ignores,
and one that ends in a separator covers directories alone. A pattern with a separator inside is held
against the path from the directory of the file, any other against the name at every depth.
-/

namespace Hygiene.Ignore

inductive Verdict where
  | ignored
  | kept
  deriving DecidableEq, Repr

structure Rule where
  regex : Regex
  verdict : Verdict
  directoriesOnly : Bool
  deriving DecidableEq, Repr

inductive Line where
  | silent
  | rule (rule : Rule)
  | malformed
  deriving DecidableEq, Repr

def startsWith (front : String) (cs : List Char) : Bool := front.toList.isPrefixOf cs

def endsWith (back : String) (cs : List Char) : Bool := back.toList.isSuffixOf cs

/-- The pattern that is left of a line when its marks are taken away, and whether it begins with a
separator that ties it to the directory of the file. -/
def dropAnchor : List Char → List Char × Bool
  | '/' :: rest => (rest, true)
  | cs => (cs, false)

/-- A pattern without the separator at its end, nor a backslash before that one. -/
def dropDirectoryMark (cs : List Char) : List Char × Bool :=
  match cs.reverse with
  | '/' :: '\\' :: rest => (rest.reverse, true)
  | '/' :: rest => (rest.reverse, true)
  | _ => (cs, false)

/-- A pattern that says for itself at which depth it applies. One that names no directory applies at
every depth, and one for everything below a directory leaves out the directory. -/
def spellOut (anchored : Bool) (cs : List Char) : List Char :=
  let cs :=
    if anchored || cs.contains '/' || startsWith "**/" cs || cs == "**".toList then cs
    else "**/".toList ++ cs
  if endsWith "/**" cs then cs ++ "/*".toList else cs

/-- The line without its blanks at the end, which stay when a backslash stands before a space
there. -/
def trimLine (line : String) : String :=
  if endsWith "\\ " line.toList then line else Text.trimEnd line

/-- The rule with a pattern, if that is one. -/
def ofPattern (verdict : Verdict) (anchored : Bool) (cs : List Char) : Line :=
  let (cs, directoriesOnly) := dropDirectoryMark cs
  match readParts? (String.ofList (spellOut anchored cs)) with
  | none => .malformed
  | some parts => .rule ⟨patternRegex parts, verdict, directoriesOnly⟩

def readLine (line : String) : Line :=
  if startsWith "#" line.toList then .silent
  else
    match (trimLine line).toList with
    | [] => .silent
    | '\\' :: '!' :: rest => ofPattern .ignored false ('!' :: rest)
    | '\\' :: '#' :: rest => ofPattern .ignored false ('#' :: rest)
    | '!' :: rest =>
        let (cs, anchored) := dropAnchor rest
        ofPattern .kept anchored cs
    | cs =>
        let (cs, anchored) := dropAnchor cs
        ofPattern .ignored anchored cs

/-- The lines whose bytes are given without the line feeds, up to the first that is no text. The
last line does not end with a line feed and is no line when it is empty. -/
def textLines : List (List UInt8) → List String
  | [] => []
  | bytes :: rest =>
      match Text.Utf8.decode bytes with
      | .error _ => []
      | .ok line =>
          if rest.isEmpty then (if line.isEmpty then [] else [line])
          else String.ofList (Text.dropReturn line.toList) :: textLines rest

/-- Lines without the marks of byte order at the front of the first one. -/
def dropByteOrderMarks : List String → List String
  | [] => []
  | line :: rest => String.ofList (line.toList.dropWhile (· == '\uFEFF')) :: rest

def fileLines (bytes : List UInt8) : List Line :=
  (dropByteOrderMarks (textLines (bytes.splitOn 10))).map readLine

def rulesOf (lines : List Line) : List Rule :=
  lines.filterMap fun
    | .rule rule => some rule
    | _ => none

/-- Whether a rule covers a path, which is given by characters that stand for bytes. -/
def Rule.covers (r : Rule) (path : String) (isDirectory : Bool) : Bool :=
  (!r.directoriesOnly || isDirectory) && r.regex.isMatch path

/-- What becomes of a path by rules: what the last one says that covers it. -/
def verdict? (rules : List Rule) (path : String) (isDirectory : Bool) : Option Verdict :=
  let bytes := String.ofList (byteChars path)
  (rules.reverse.find? fun r => r.covers bytes isDirectory).map (·.verdict)

end Hygiene.Ignore
