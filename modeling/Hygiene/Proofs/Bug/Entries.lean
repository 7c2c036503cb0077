import Hygiene.Bug.Rule
import Hygiene.Proofs.Text.Blank

/-!
The entries of a field. A comma between two fields keeps their entries apart, and blanks around an
entry do not count.
-/

namespace Hygiene.Bug

namespace Rule

/-- The entries of a field, read off its characters. -/
theorem entries_eq (field : String) :
    entries field =
      ((field.toList.splitOn ',').map (Text.dropAround Text.isBlank)).map String.ofList := by
  rw [entries, Text.splitOn, List.map_map, List.map_map]
  refine List.map_congr_left ?_
  intro piece _
  rw [Function.comp_apply, Text.trim, String.toList_ofList]
  rfl

theorem entries_of_not_mem {field : String} (h : ',' ∉ field.toList) :
    entries field = [Text.trim field] := by
  rw [entries_eq, List.splitOn_eq_singleton h]
  simp [Text.trim]

theorem entries_append_comma (a b : String) :
    entries (a ++ "," ++ b) = entries a ++ entries b := by
  have htext : (a ++ "," ++ b).toList = a.toList ++ ',' :: b.toList := by
    simp [String.toList_append]
  rw [entries_eq, htext, List.splitOn_append_cons_self, List.map_append, List.map_append,
    ← entries_eq, ← entries_eq]

theorem entries_trim (field : String) : entries (Text.trim field) = entries field := by
  have hmark : Text.isBlank ',' = false := by decide
  rw [entries_eq, entries_eq, Text.trim, String.toList_ofList,
    Text.map_dropAround_splitOn hmark]

theorem entries_of_isBlank {field : String} (h : Text.IsBlank field) : entries field = [""] := by
  rw [← entries_trim, Text.trim_eq_empty_iff.mpr h]
  rfl

theorem entries_intercalate {fields : List String} (h : fields ≠ []) :
    entries (",".intercalate fields) = fields.flatMap entries := by
  induction fields with
  | nil => exact absurd rfl h
  | cons field rest ih =>
      rw [List.flatMap_cons]
      by_cases hrest : rest = []
      · subst hrest
        simp
      · rw [String.intercalate_cons_of_ne_nil hrest, entries_append_comma, ih hrest]

/-- Pieces without commas, once they are joined by commas, are the entries, up to blanks. -/
theorem entries_intercalate_of_not_mem {pieces : List String} (hne : pieces ≠ [])
    (h : ∀ piece ∈ pieces, ',' ∉ piece.toList) :
    entries (",".intercalate pieces) = pieces.map Text.trim := by
  rw [entries, Text.splitOn_intercalate rfl hne h]

variable (r : Rule)

theorem validate_append_comma (a b : String) :
    r.validate (a ++ "," ++ b) = r.validate a ++ r.validate b := by
  rw [validate, entries_append_comma, List.filterMap_append]
  rfl

theorem validate_of_isBlank {field : String} (h : Text.IsBlank field) : r.validate field = [] := by
  rw [validate, entries_of_isBlank h]
  rfl

end Rule

end Hygiene.Bug
