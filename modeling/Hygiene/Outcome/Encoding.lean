import Hygiene.Outcome
import Hygiene.Json.Layout
import Hygiene.Json.Reader

/-!
Outcomes as JSON. Files are left out when there are none and help when there is none; reading puts
both back. Reading passes over members that it does not know, and refuses a record in which a known
member occurs twice or a required one is missing. A record may also be given as an array of its
members in order.
-/

namespace Hygiene

open Json

/-- The severity that a value names: its name alone, or an object whose only member has that name
and the value null. -/
def Severity.ofJson? : Value → Option Severity
  | .string text => ofName? text
  | .object [(text, .null)] => ofName? text
  | _ => none

namespace Diagnostic

def toJson (d : Diagnostic) : Value :=
  .object <|
    [("code", .string d.code), ("check", .string d.check), ("severity", .string d.severity.name),
      ("message", .string d.message)] ++
    (if d.files.isEmpty then [] else [("files", .array (d.files.map fun p => .string p.text))]) ++
    (match d.help with
      | none => []
      | some help => [("help", .string help)])

/-- The files of a finding, none when they are not given. -/
def filesOfJson? : Option Value → Option (List Path)
  | none => some []
  | some (.array items) => items.mapM fun v => v.asString?.map Path.mk
  | some _ => none

def helpOfJson? : Option Value → Option (Option String)
  | none => some none
  | some .null => some none
  | some (.string text) => some (some text)
  | some _ => none

def ofValues? (code check severity message files help : Option Value) : Option Diagnostic := do
  let code ← (← code).asString?
  let check ← (← check).asString?
  let severity ← Severity.ofJson? (← severity)
  let message ← (← message).asString?
  return ⟨code, check, severity, message, ← filesOfJson? files, ← helpOfJson? help⟩

def ofJson? : Value → Option Diagnostic
  | .object members => do
      ofValues? (← member? "code" members) (← member? "check" members)
        (← member? "severity" members) (← member? "message" members)
        (← member? "files" members) (← member? "help" members)
  | .array items =>
      if items.length ≤ 6 then
        ofValues? items[0]? items[1]? items[2]? items[3]? items[4]? items[5]?
      else none
  | _ => none

end Diagnostic

namespace Outcome

def toJson (o : Outcome) : Value :=
  .object
    [("diagnostics", .array (o.diagnostics.map Diagnostic.toJson)),
      ("files_checked", .natural o.filesChecked.toNat)]

def toJsonText (o : Outcome) : String := write Style.data o.toJson

/-- The number of files that a value gives, which has to fit a machine word. -/
def countOfJson? : Value → Option UInt64
  | .natural n => if n < UInt64.size then some (UInt64.ofNat n) else none
  | _ => none

def ofValues? (diagnostics filesChecked : Option Value) : Option Outcome := do
  let items ← (← diagnostics).asArray?
  return ⟨← items.mapM Diagnostic.ofJson?, ← countOfJson? (← filesChecked)⟩

def ofJson? : Value → Option Outcome
  | .object members => do
      ofValues? (← member? "diagnostics" members) (← member? "files_checked" members)
  | .array [diagnostics, filesChecked] => ofValues? (some diagnostics) (some filesChecked)
  | _ => none

def ofJsonText? (text : String) : Option Outcome := (read text).bind ofJson?

end Outcome

end Hygiene
