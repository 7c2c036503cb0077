import Mathlib.Data.String.Basic
import Mathlib.Tactic
import Hygiene.Text.Order

/-!
Sorting texts without repetition. The sorted list is the only strictly increasing list with the
given members.
-/

namespace Hygiene.Text

theorem mem_insertDistinct {s x : String} {texts : List String} :
    x ∈ insertDistinct s texts ↔ x = s ∨ x ∈ texts := by
  induction texts with
  | nil => simp [insertDistinct]
  | cons t rest ih =>
      simp only [insertDistinct]
      split
      · simp
      · split
        next _ heq =>
          subst heq
          simp
        next _ _ =>
          simp only [List.mem_cons, ih]
          exact or_left_comm

theorem pairwise_insertDistinct {texts : List String} (s : String)
    (hsorted : texts.Pairwise (· < ·)) : (insertDistinct s texts).Pairwise (· < ·) := by
  induction texts with
  | nil => simp [insertDistinct]
  | cons t rest ih =>
      obtain ⟨hhead, htail⟩ := List.pairwise_cons.mp hsorted
      simp only [insertDistinct]
      split
      next hlt =>
        refine List.pairwise_cons.mpr ⟨?_, hsorted⟩
        intro x hx
        rcases List.mem_cons.mp hx with rfl | hrest
        · exact hlt
        · exact hlt.trans (hhead x hrest)
      next hnlt =>
        split
        · exact hsorted
        next hne =>
          have hgt : t < s := lt_of_le_of_ne (not_lt.mp hnlt) (Ne.symm hne)
          refine List.pairwise_cons.mpr ⟨?_, ih htail⟩
          intro x hx
          rcases mem_insertDistinct.mp hx with rfl | hrest
          · exact hgt
          · exact hhead x hrest

theorem mem_sortDistinct {x : String} {texts : List String} :
    x ∈ sortDistinct texts ↔ x ∈ texts := by
  induction texts with
  | nil => simp [sortDistinct]
  | cons t rest ih =>
      change x ∈ insertDistinct t (sortDistinct rest) ↔ _
      rw [mem_insertDistinct, ih, List.mem_cons]

theorem pairwise_sortDistinct (texts : List String) :
    (sortDistinct texts).Pairwise (· < ·) := by
  induction texts with
  | nil => exact List.Pairwise.nil
  | cons t rest ih => exact pairwise_insertDistinct t ih

end Hygiene.Text
