import Hygiene.Outcome.Display
import Hygiene.Proofs.Json.RoundTrip

/-!
Outcomes read back from their JSON. A finding without files or without help is written without the
member, and a finding that is read without the member has none. So nothing of an outcome is lost on
the way through the text that a command prints.
-/

namespace Hygiene

open Json (Style Value)

theorem Severity.ofJson?_name (s : Severity) : ofJson? (.string s.name) = some s :=
  ofName?_name s

namespace Diagnostic

def filesMember (d : Diagnostic) : Option Value :=
  if d.files.isEmpty then none else some (.array (d.files.map fun p => .string p.text))

theorem filesOfJson?_filesMember (d : Diagnostic) : filesOfJson? d.filesMember = some d.files := by
  unfold filesMember
  split
  next hempty =>
    rw [List.isEmpty_iff.mp hempty]
    rfl
  next =>
    have hpath (p : Path) : (Value.asString? (.string p.text)).map Path.mk = some p := rfl
    exact Json.mapM_map_eq_some hpath d.files

theorem helpOfJson?_map_string (help : Option String) :
    helpOfJson? (help.map Value.string) = some help := by
  cases help <;> rfl

/-- Reading finds each member that was written, and finds those absent that were left out. -/
theorem ofJson?_toJson_eq (d : Diagnostic) :
    ofJson? d.toJson = ofValues? (some (.string d.code)) (some (.string d.check))
      (some (.string d.severity.name)) (some (.string d.message)) d.filesMember
      (d.help.map Value.string) := by
  unfold toJson filesMember
  cases d.files.isEmpty <;> cases d.help <;> simp [ofJson?, Json.member?]

theorem ofJson?_toJson (d : Diagnostic) : ofJson? d.toJson = some d := by
  rw [ofJson?_toJson_eq]
  simp [ofValues?, Value.asString?, Severity.ofJson?_name, filesOfJson?_filesMember,
    helpOfJson?_map_string]

theorem isPlain_toJson (d : Diagnostic) : d.toJson.isPlain = true := by
  have hpath (p : Path) : (Value.string p.text).isPlain = true := rfl
  have hfiles := Json.arePlain_map (fun p : Path => Value.string p.text) hpath d.files
  unfold toJson
  split <;> split <;> simp [Value.isPlain, Value.membersArePlain, hfiles]

end Diagnostic

namespace Outcome

theorem ofJson?_toJson (o : Outcome) : ofJson? o.toJson = some o := by
  have hitems := Json.mapM_map_eq_some Diagnostic.ofJson?_toJson o.diagnostics
  have hcount : o.filesChecked.toNat < UInt64.size := o.filesChecked.toNat_lt_size
  simp [toJson, ofJson?, Json.member?, ofValues?, Value.asArray?, hitems, countOfJson?, hcount]

theorem isPlain_toJson (o : Outcome) : o.toJson.isPlain = true := by
  have hitems := Json.arePlain_map Diagnostic.toJson Diagnostic.isPlain_toJson o.diagnostics
  simp [toJson, Value.isPlain, Value.membersArePlain, hitems]

theorem separates_data : Style.data.Separates :=
  ⟨[], rfl, nofun⟩

/-- What a command prints as JSON for an outcome, line feed at the end included, is read as that
outcome: the findings in their order with all their fields, and the number of files. -/
theorem ofJsonText?_display_json (o : Outcome) : ofJsonText? (o.display .json) = some o := by
  have hfeed : "\n".toList = ['\n'] := rfl
  have hline : ∀ c ∈ "\n".toList, Json.isBlank c = true := by
    intro c hc
    rw [hfeed] at hc
    rw [List.mem_singleton.mp hc]
    rfl
  have hread := Json.readChars_pretty_append Style.data separates_data o.toJson o.isPlain_toJson
    hline
  rw [ofJsonText?, display, Json.read, toJsonText, String.toList_append, Json.toList_write, hread]
  exact o.ofJson?_toJson

end Outcome

end Hygiene
