/-!
Sorted lists of texts. Texts are ordered by their characters.
-/

namespace Hygiene.Text

/-- A strictly increasing list with one more text in it, unless it is there already. -/
def insertDistinct (s : String) : List String → List String
  | [] => [s]
  | t :: rest =>
      if s < t then s :: t :: rest
      else if s = t then t :: rest
      else t :: insertDistinct s rest

/-- The texts of a list in strictly increasing order, each once. -/
def sortDistinct (texts : List String) : List String :=
  texts.foldr insertDistinct []

end Hygiene.Text
