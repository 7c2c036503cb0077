/-!
TOML values. A floating point number or a date is kept as its literal, since nothing here computes
with either.
-/

namespace Hygiene.Toml

/-- A TOML value. The entries of a table are in the order in which they were written, and no key
occurs twice. -/
inductive Value where
  | string (text : String)
  | integer (value : Int)
  | float (literal : String)
  | boolean (value : Bool)
  | datetime (literal : String)
  | array (items : List Value)
  | table (entries : List (String × Value))
  deriving Repr, Inhabited

abbrev Entries := List (String × Value)

def Entries.get? (entries : Entries) (key : String) : Option Value :=
  entries.lookup key

namespace Value

def asString? : Value → Option String
  | string text => some text
  | _ => none

def asInteger? : Value → Option Int
  | integer value => some value
  | _ => none

def asBoolean? : Value → Option Bool
  | boolean value => some value
  | _ => none

def asArray? : Value → Option (List Value)
  | array items => some items
  | _ => none

end Value

end Hygiene.Toml
