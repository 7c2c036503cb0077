import Mathlib.Tactic
import Hygiene.Text.Line

/-!
Splitting at a mark. Pieces that are joined by a mark, and do not hold it themselves, are the pieces
of what is put together.
-/

namespace Hygiene.Text

variable {α : Type} {mark : α}

/-- What stands behind the last mark of a list holds no mark. -/
theorem exists_last_mark {xs : List α} (h : mark ∈ xs) :
    ∃ front back, xs = front ++ mark :: back ∧ mark ∉ back := by
  obtain ⟨after, before, hxs, hafter⟩ := List.eq_append_cons_of_mem (List.mem_reverse.mpr h)
  refine ⟨before.reverse, after.reverse, ?_, by simpa using hafter⟩
  rw [← List.reverse_inj, hxs]
  simp

theorem not_mem_of_mem_splitOn [BEq α] [LawfulBEq α] {xs piece : List α}
    (h : piece ∈ xs.splitOn mark) : mark ∉ piece := by
  induction xs generalizing piece with
  | nil =>
      rw [List.splitOn_nil, List.mem_singleton] at h
      subst h
      exact List.not_mem_nil
  | cons x xs ih =>
      rw [List.splitOn_cons_eq_if_modifyHead] at h
      split at h
      · rcases List.mem_cons.mp h with rfl | h
        · exact List.not_mem_nil
        · exact ih h
      next hx =>
        obtain ⟨first, pieces, hpieces⟩ := List.exists_cons_of_ne_nil (List.splitOn_ne_nil mark xs)
        rw [hpieces, List.modifyHead_cons, List.mem_cons] at h
        rcases h with rfl | h
        · have hfirst : mark ∉ first := ih (by simp [hpieces])
          have hne : mark ≠ x := fun heq => hx (beq_iff_eq.mpr heq.symm)
          simp [hne, hfirst]
        · exact ih (by simp [hpieces, h])

theorem splitOn_of_not_mem {c : Char} {s : String} (h : c ∉ s.toList) : splitOn c s = [s] := by
  rw [splitOn, List.splitOn_eq_singleton h, List.map_singleton, String.ofList_toList]

theorem not_mem_intercalate {c : Char} {separator : String} {pieces : List String}
    (hseparator : c ∉ separator.toList) (h : ∀ piece ∈ pieces, c ∉ piece.toList) :
    c ∉ (separator.intercalate pieces).toList := by
  induction pieces with
  | nil => simp
  | cons piece rest ih =>
      obtain ⟨hpiece, hrest⟩ := List.forall_mem_cons.mp h
      by_cases hlast : rest = []
      · subst hlast
        rwa [String.intercalate_singleton]
      · rw [String.intercalate_cons_of_ne_nil hlast, String.toList_append, String.toList_append]
        simp only [List.mem_append, not_or]
        exact ⟨⟨hpiece, hseparator⟩, ih hrest⟩

/-- Pieces without the mark, once they are joined by it, are the pieces again. -/
theorem splitOn_intercalate {c : Char} {separator : String} {pieces : List String}
    (hseparator : separator.toList = [c]) (hne : pieces ≠ [])
    (h : ∀ piece ∈ pieces, c ∉ piece.toList) :
    splitOn c (separator.intercalate pieces) = pieces := by
  have hlists : ∀ cs ∈ pieces.map String.toList, c ∉ cs := List.forall_mem_map.mpr h
  rw [splitOn, String.toList_intercalate, hseparator,
    List.splitOn_intercalate c hlists (by simpa using hne), List.map_map]
  simp

end Hygiene.Text
