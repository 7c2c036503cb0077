/-!
Lines of a text. A line ends with a line feed, which may have one carriage return before it; the
last line need not end at all, and an empty rest after the last line feed is no line.
-/

namespace Hygiene.Text

/-- The pieces of a text between the occurrences of a character. There is always one at least. -/
def splitOn (mark : Char) (s : String) : List String :=
  (s.toList.splitOn mark).map String.ofList

/-- A line without the carriage return that may stand before its line feed. -/
def dropReturn (line : List Char) : List Char :=
  match line.reverse with
  | '\r' :: rest => rest.reverse
  | _ => line

/-- The lines of a text, without what ends them. A carriage return is part of an ending only
before a line feed, so that of an unfinished last line stays. -/
def lines (s : String) : List String :=
  let pieces := s.toList.splitOn '\n'
  let finished := pieces.dropLast.map fun line => String.ofList (dropReturn line)
  match pieces.getLast? with
  | none => finished
  | some [] => finished
  | some line => finished ++ [String.ofList line]

end Hygiene.Text
