import Hygiene.Text.Blank
import Hygiene.Text.Line

/-!
The field of a change that refers to issues, as commit messages give it: in lines that begin with
`Bug:` or, as was once the custom, with `BUG=`.
-/

namespace Hygiene.Bug

def lineValue? (line : String) : Option String :=
  let cs := Text.dropAround Text.isBlank line.toList
  (("Bug:".toList.isPrefixOf? cs).or ("BUG=".toList.isPrefixOf? cs)).map fun value =>
    String.ofList (Text.dropAround Text.isBlank value)

/-- What the lines of a commit message say about issues, in order. Lines that say nothing are left
out. -/
def values (message : String) : List String :=
  ((Text.lines message).filterMap lineValue?).filter fun value => !value.isEmpty

/-- The field of a commit message: what its lines say, joined by commas. -/
def ofMessage? (message : String) : Option String :=
  match values message with
  | [] => none
  | entries => some (",".intercalate entries)

end Hygiene.Bug
