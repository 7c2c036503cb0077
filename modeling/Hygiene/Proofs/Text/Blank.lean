import Hygiene.Proofs.Text.Line
import Hygiene.Text.Blank

/-!
Trimming, and trimming together with splitting. What is dropped at the two ends of a list does not
show when the list is split at a mark and its pieces are trimmed.
-/

namespace Hygiene.Text

section DropAround

variable {p : Char → Bool}

/-- What is dropped stands at the two ends. -/
theorem exists_dropAround (p : Char → Bool) (cs : List Char) :
    ∃ front back, cs = front ++ dropAround p cs ++ back ∧ (∀ c ∈ front, p c) ∧
      ∀ c ∈ back, p c := by
  let rest := cs.dropWhile p
  have hfront : ∀ c ∈ cs.takeWhile p, p c := List.all_eq_true.mp List.all_takeWhile
  have hback : ∀ c ∈ rest.reverse.takeWhile p, p c := List.all_eq_true.mp List.all_takeWhile
  refine ⟨cs.takeWhile p, (rest.reverse.takeWhile p).reverse, ?_, hfront, ?_⟩
  · have hrest : dropAround p cs ++ (rest.reverse.takeWhile p).reverse = rest := by
      rw [dropAround, ← List.reverse_append, List.takeWhile_append_dropWhile, List.reverse_reverse]
    rw [List.append_assoc, hrest, List.takeWhile_append_dropWhile]
  · intro c hc
    exact hback c (List.mem_reverse.mp hc)

theorem dropAround_append_left {front : List Char} (h : ∀ c ∈ front, p c) (cs : List Char) :
    dropAround p (front ++ cs) = dropAround p cs := by
  rw [dropAround, List.dropWhile_append_of_pos h]
  rfl

theorem dropAround_append_right {back : List Char} (h : ∀ c ∈ back, p c) (cs : List Char) :
    dropAround p (cs ++ back) = dropAround p cs := by
  have hback : ∀ c ∈ back.reverse, p c := fun c hc => h c (List.mem_reverse.mp hc)
  rw [dropAround, dropAround, List.dropWhile_append]
  split
  next hall =>
    rw [List.isEmpty_iff.mp hall]
    have hnil : (back ++ []).dropWhile p = [] := List.dropWhile_append_of_pos h
    rw [List.append_nil] at hnil
    rw [hnil]
  next => rw [List.reverse_append, List.dropWhile_append_of_pos hback]

theorem dropAround_eq_nil_iff {cs : List Char} : dropAround p cs = [] ↔ ∀ c ∈ cs, p c := by
  constructor
  · intro h
    obtain ⟨front, back, hcs, hfront, hback⟩ := exists_dropAround p cs
    rw [h, List.append_nil] at hcs
    rw [hcs]
    exact List.forall_mem_append.mpr ⟨hfront, hback⟩
  · intro h
    have hnil := dropAround_append_left h []
    rw [List.append_nil] at hnil
    rw [hnil]
    rfl

/-- Nothing is dropped from a list in which nothing is to be dropped. -/
theorem dropAround_eq_self {cs : List Char} (h : ∀ c ∈ cs, p c = false) :
    dropAround p cs = cs := by
  have hkept {ds : List Char} (hds : ∀ c ∈ ds, p c = false) : ds.dropWhile p = ds := by
    cases ds with
    | nil => rfl
    | cons d ds => simp [hds d List.mem_cons_self]
  rw [dropAround, hkept h, hkept (by simpa using h), List.reverse_reverse]

end DropAround

section Split

variable {mark : Char} {p : Char → Bool}

theorem splitOn_append_left {front : List Char} (h : mark ∉ front) (cs : List Char) :
    (front ++ cs).splitOn mark = (cs.splitOn mark).modifyHead (front ++ ·) := by
  induction front with
  | nil => exact (congrFun List.modifyHead_id _).symm
  | cons c front ih =>
      rw [List.mem_cons, not_or] at h
      rw [List.cons_append, List.splitOn_cons_eq_if_modifyHead, ih h.2,
        if_neg (by simpa using Ne.symm h.1), List.modifyHead_modifyHead]
      rfl

/-- What is put behind the last mark belongs to the last piece. -/
theorem exists_splitOn_append_right {back : List Char} (h : mark ∉ back) (cs : List Char) :
    ∃ pieces last, cs.splitOn mark = pieces ++ [last] ∧
      (cs ++ back).splitOn mark = pieces ++ [last ++ back] := by
  by_cases hmark : mark ∈ cs
  · obtain ⟨front, last, rfl, hlast⟩ := exists_last_mark hmark
    have hlast' : mark ∉ last ++ back := by simp [h, hlast]
    refine ⟨front.splitOn mark, last, ?_, ?_⟩
    · rw [List.splitOn_append_cons_self, List.splitOn_eq_singleton hlast]
    · rw [List.append_assoc, List.cons_append, List.splitOn_append_cons_self,
        List.splitOn_eq_singleton hlast']
  · have hlast' : mark ∉ cs ++ back := by simp [h, hmark]
    exact ⟨[], cs, List.splitOn_eq_singleton hmark, List.splitOn_eq_singleton hlast'⟩

/-- The pieces of a trimmed list are those of the list, once they are trimmed. -/
theorem map_dropAround_splitOn (hmark : p mark = false) (cs : List Char) :
    ((dropAround p cs).splitOn mark).map (dropAround p) =
      (cs.splitOn mark).map (dropAround p) := by
  have hout {ds : List Char} (h : ∀ c ∈ ds, p c) : mark ∉ ds := by
    intro hmem
    rw [h mark hmem] at hmark
    cases hmark
  obtain ⟨front, back, hcs, hfront, hback⟩ := exists_dropAround p cs
  obtain ⟨pieces, last, hshort, hlong⟩ :=
    exists_splitOn_append_right (hout hback) (front ++ dropAround p cs)
  calc ((dropAround p cs).splitOn mark).map (dropAround p)
      = ((front ++ dropAround p cs).splitOn mark).map (dropAround p) := by
        rw [splitOn_append_left (hout hfront)]
        cases (dropAround p cs).splitOn mark with
        | nil => rfl
        | cons piece pieces =>
            rw [List.modifyHead_cons, List.map_cons, List.map_cons, dropAround_append_left hfront]
    _ = (cs.splitOn mark).map (dropAround p) := by
        rw [hshort, hcs, hlong, List.map_append, List.map_append, List.map_singleton,
          List.map_singleton, dropAround_append_right hback]

end Split

/-- A text holds blanks only. -/
def IsBlank (s : String) : Prop := ∀ c ∈ s.toList, isBlank c = true

instance (s : String) : Decidable (IsBlank s) :=
  decidable_of_iff (s.toList.all isBlank = true) List.all_eq_true

theorem trim_eq_empty_iff {s : String} : trim s = "" ↔ IsBlank s := by
  rw [trim, ← String.toList_inj, String.toList_ofList]
  exact dropAround_eq_nil_iff

end Hygiene.Text
