import Hygiene.Bug.Footer
import Hygiene.Proofs.Bug.Entries

/-!
The field that commit messages give, and what the rule for its entries says about it. Joining what
the lines say by commas and splitting the field at commas again keeps the entries of every line
apart, so the messages about a field are those about its lines, one line after the other.
-/

namespace Hygiene.Bug

/-- Nothing is said about blank fields, so they may be left out. -/
theorem flatMap_validate_filter (r : Rule) (fields : List String) :
    (fields.filter fun field => ¬ Text.IsBlank field).flatMap r.validate =
      fields.flatMap r.validate := by
  induction fields with
  | nil => rfl
  | cons field rest ih =>
      rw [List.flatMap_cons, ← ih]
      by_cases hblank : Text.IsBlank field
      · rw [List.filter_cons_of_neg (by simpa using hblank), r.validate_of_isBlank hblank,
          List.nil_append]
      · rw [List.filter_cons_of_pos (by simpa using hblank), List.flatMap_cons]

def remainder? (line : String) : Option String :=
  let cs := (Text.trim line).toList
  if "Bug:".toList <+: cs ∨ "BUG=".toList <+: cs then some (String.ofList (cs.drop 4)) else none

/-- What stands behind the marks of a message, line by line. -/
def remainders (message : String) : List String := (Text.lines message).filterMap remainder?

theorem isPrefixOf?_eq (front cs : List Char) :
    front.isPrefixOf? cs = if front <+: cs then some (cs.drop front.length) else none := by
  split
  next h =>
    obtain ⟨rest, rfl⟩ := h
    rw [List.drop_left, List.isPrefixOf?_eq_some_iff_append_eq]
  next h =>
    rw [Option.eq_none_iff_forall_ne_some]
    intro rest hrest
    exact h ⟨rest, List.isPrefixOf?_eq_some_iff_append_eq.mp hrest⟩

theorem lineValue?_eq (line : String) :
    lineValue? line = (remainder? line).map Text.trim := by
  have htrim : (Text.trim line).toList = Text.dropAround Text.isBlank line.toList :=
    String.toList_ofList
  have hvalue (front : List Char) (hlength : front.length = 4) :
      front.isPrefixOf? (Text.trim line).toList =
        if front <+: (Text.trim line).toList then some ((Text.trim line).toList.drop 4)
        else none := by
    rw [isPrefixOf?_eq, hlength]
  have hmap (cs : List Char) :
      String.ofList (Text.dropAround Text.isBlank cs) = Text.trim (String.ofList cs) := by
    rw [Text.trim, String.toList_ofList]
  rw [lineValue?, remainder?, ← htrim, hvalue _ rfl, hvalue _ rfl]
  simp only [hmap]
  by_cases hnew : "Bug:".toList <+: (Text.trim line).toList
  · rw [if_pos hnew, if_pos (Or.inl hnew)]
    rfl
  · by_cases hold : "BUG=".toList <+: (Text.trim line).toList
    · rw [if_neg hnew, if_pos hold, if_pos (Or.inr hold)]
      rfl
    · rw [if_neg hnew, if_neg hold, if_neg fun h => h.elim hnew hold]
      rfl

theorem values_eq (message : String) :
    values message =
      ((remainders message).filter fun rest => ¬ Text.IsBlank rest).map Text.trim := by
  have htrim : (Text.lines message).filterMap lineValue? =
      (remainders message).map Text.trim := by
    rw [remainders, List.map_filterMap]
    exact congrArg (List.filterMap · _) (funext lineValue?_eq)
  rw [values, htrim, List.filter_map]
  refine congrArg _ (List.filter_congr ?_)
  intro rest _
  rw [Function.comp_apply, Bool.eq_iff_iff, decide_eq_true_iff, ← Text.trim_eq_empty_iff]
  simp

theorem ofMessage?_eq_none_iff {message : String} :
    ofMessage? message = none ↔ values message = [] := by
  rw [ofMessage?]
  split <;> simp_all

theorem ofMessage?_eq_some_iff {message field : String} :
    ofMessage? message = some field ↔
      values message ≠ [] ∧ ",".intercalate (values message) = field := by
  rw [ofMessage?]
  split <;> simp_all

/-- A message gives a field unless its marked lines say nothing, and the entries of the field are
those of its lines, in their order. So are the complaints, whatever the rule. -/
theorem ofMessage?_entries (message : String) :
    let rests := remainders message
    (ofMessage? message = none ↔ ∀ rest ∈ rests, Text.IsBlank rest) ∧
    (∀ field, ofMessage? message = some field →
      Rule.entries field =
          (rests.filter fun rest => ¬ Text.IsBlank rest).flatMap Rule.entries ∧
        ∀ r : Rule, r.validate field = rests.flatMap r.validate) ∧
    ∀ (r : Rule) (a b : String), r.validate (a ++ "," ++ b) = r.validate a ++ r.validate b := by
  intro rests
  refine ⟨?_, ?_, fun r => r.validate_append_comma⟩
  · rw [ofMessage?_eq_none_iff, values_eq, List.map_eq_nil_iff, List.filter_eq_nil_iff]
    simp only [decide_eq_true_eq, not_not]
    rfl
  · intro field h
    obtain ⟨hne, rfl⟩ := ofMessage?_eq_some_iff.mp h
    have hentries : Rule.entries (",".intercalate (values message)) =
        (rests.filter fun rest => ¬ Text.IsBlank rest).flatMap Rule.entries := by
      rw [Rule.entries_intercalate hne, values_eq, List.flatMap_map]
      exact List.flatMap_congr fun rest _ => Rule.entries_trim rest
    refine ⟨hentries, ?_⟩
    intro r
    rw [Rule.validate, hentries, List.filterMap_flatMap]
    exact flatMap_validate_filter r rests

/-- A message with two footers that say something, in either style, and one that does not. -/
def mixedFooters : String := "Fix it\r\n\r\n  BUG=webrtc:1, 7 ,\r\nBug: \nBug: x=2\n"

theorem ofMessage?_entries_mixedFooters :
    ofMessage? mixedFooters = some "webrtc:1, 7 ,,x=2" ∧
      Rule.entries "webrtc:1, 7 ,,x=2" = ["webrtc:1", "7", "", "x=2"] ∧
      ∀ r : Rule, r.validate "webrtc:1, 7 ,,x=2" =
        r.validate "webrtc:1, 7 ," ++ (r.validate "" ++ r.validate " x=2") := by
  have hfield : ofMessage? mixedFooters = some "webrtc:1, 7 ,,x=2" := by decide +kernel
  have hrests : remainders mixedFooters = ["webrtc:1, 7 ,", "", " x=2"] := by decide +kernel
  have hkept : ((remainders mixedFooters).filter fun rest => ¬ Text.IsBlank rest).flatMap
      Rule.entries = ["webrtc:1", "7", "", "x=2"] := by decide +kernel
  obtain ⟨-, hfound, -⟩ := ofMessage?_entries mixedFooters
  obtain ⟨hentries, hvalidate⟩ := hfound _ hfield
  refine ⟨hfield, hentries.trans hkept, ?_⟩
  intro r
  rw [hvalidate r, hrests]
  simp

end Hygiene.Bug
