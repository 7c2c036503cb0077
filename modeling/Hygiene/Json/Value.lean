/-!
JSON values. Numbers that are plain digits are kept as natural numbers, all others as their
literal, since nothing here computes with them.
-/

namespace Hygiene.Json

/-- A JSON value. The members of an object keep their order, and a name may occur twice. A string or
an object of correct form in which an escape names half of a surrogate pair spells no text: it is
unreadable, and may be passed over but not used. -/
inductive Value where
  | null
  | bool (value : Bool)
  | natural (value : Nat)
  | number (literal : String)
  | string (text : String)
  | array (items : List Value)
  | object (members : List (String × Value))
  | unreadable
  deriving Repr, Inhabited

namespace Value

def asString? : Value → Option String
  | string text => some text
  | _ => none

def asArray? : Value → Option (List Value)
  | array items => some items
  | _ => none

end Value

/-- The member of a name: nothing when it occurs several times, an absent value when it does not
occur. -/
def member? (name : String) (members : List (String × Value)) : Option (Option Value) :=
  match members.filter fun m => m.1 == name with
  | [] => some none
  | [m] => some (some m.2)
  | _ => none

end Hygiene.Json
