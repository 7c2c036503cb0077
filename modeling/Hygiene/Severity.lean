/-!
How grave a finding is. The order puts `info` below `warning` below `error`.
-/

namespace Hygiene

inductive Severity where
  | info
  | warning
  | error
  deriving DecidableEq, Repr

namespace Severity

def rank : Severity → Nat
  | info => 0
  | warning => 1
  | error => 2

instance : Ord Severity where
  compare a b := compare a.rank b.rank

instance : LE Severity where
  le a b := a.rank ≤ b.rank

instance (a b : Severity) : Decidable (a ≤ b) :=
  inferInstanceAs (Decidable (a.rank ≤ b.rank))

def name : Severity → String
  | info => "info"
  | warning => "warning"
  | error => "error"

/-- The severity that data names. Only the names themselves count. -/
def ofName? : String → Option Severity
  | "info" => some info
  | "warning" => some warning
  | "error" => some error
  | _ => none

/-- The severity that a person names: in any ASCII case, and `warn` is short for `warning`. -/
def ofText? (s : String) : Option Severity :=
  match s.map Char.toLower with
  | "info" => some info
  | "warning" => some warning
  | "warn" => some warning
  | "error" => some error
  | _ => none

def unknownMessage (s : String) : String :=
  s!"unknown severity: {s.map Char.toLower}"

theorem ofName?_name (s : Severity) : ofName? s.name = some s := by
  cases s <;> rfl

end Severity

end Hygiene
