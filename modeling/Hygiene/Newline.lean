/-!
The end of a text: whether it is empty or ends in exactly one line break, which is a line feed with
or without a carriage return before it.
-/

namespace Hygiene.Newline

def isBreak (c : Char) : Bool := c == '\n' || c == '\r'

/-- What stands before the line break at the end of a reversed text, if it ends in one. -/
def beforeBreak? : List Char → Option (List Char)
  | '\n' :: '\r' :: rest => some rest
  | '\n' :: rest => some rest
  | _ => none

/-- Whether a text is empty or ends in exactly one line break. -/
def endsWithSingle (text : String) : Bool :=
  match text.toList.reverse with
  | [] => true
  | reversed =>
      match beforeBreak? reversed with
      | none => false
      | some [] => true
      | some (c :: _) => !isBreak c

end Hygiene.Newline
