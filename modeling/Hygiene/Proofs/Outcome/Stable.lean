import Hygiene.Proofs.Outcome

/-!
Stable sorting of findings. A list of findings has one stable sort by code, first file and message,
and it is the one that an outcome makes of its findings. Since only one list fits the description,
leaving findings out before sorting or behind it makes no difference.
-/

namespace Hygiene

namespace Diagnostic

theorem Le.refl (d : Diagnostic) : Le d d := (le_total d d).elim id id

theorem compare_eq_of_le {a b : Diagnostic} (hab : Le a b) (hba : Le b a) : compare a b = .eq :=
  Std.OrientedCmp.isLE_antisymm hab hba

/-- The findings of a list that the order does not tell apart from a given one. -/
def tied (d : Diagnostic) (found : List Diagnostic) : List Diagnostic :=
  found.filter fun a => compare a d = .eq

theorem tied_cons_of_eq {a d : Diagnostic} (h : compare a d = .eq) (found : List Diagnostic) :
    tied d (a :: found) = a :: tied d found :=
  List.filter_cons_of_pos (by simpa using h)

theorem tied_cons_of_ne {a d : Diagnostic} (h : ¬ compare a d = .eq) (found : List Diagnostic) :
    tied d (a :: found) = tied d found :=
  List.filter_cons_of_neg (by simpa using h)

theorem tied_filter (d : Diagnostic) (p : Diagnostic → Bool) (found : List Diagnostic) :
    tied d (found.filter p) = (tied d found).filter p := by
  rw [tied, tied, List.filter_filter, List.filter_filter]
  simp only [Bool.and_comm]

theorem pairwise_tied (d : Diagnostic) (found : List Diagnostic) : (tied d found).Pairwise Le := by
  refine List.pairwise_of_forall_mem_list ?_
  intro a ha b hb
  have hkey (x : Diagnostic) (hx : x ∈ tied d found) : x.key = d.key := by
    have hx : compare x d = .eq := by simpa using List.of_mem_filter hx
    rw [compare_eq] at hx
    exact Std.LawfulEqCmp.eq_of_compare hx
  rw [le_iff_key, hkey a ha, hkey b hb]
  exact Std.ReflCmp.isLE_rfl

/-- A list is the stable sort of another one by code, first file and message: it has the same
members, they are in order, and those that the order does not tell apart stand as they stood. -/
structure StableSort (found sorted : List Diagnostic) : Prop where
  perm : sorted.Perm found
  ordered : sorted.Pairwise Le
  stable : ∀ d, tied d sorted = tied d found

/-- Lists in order with the same members are equal when their tied findings are. -/
theorem eq_of_tied_eq {sorted sorted' : List Diagnostic} (hperm : sorted.Perm sorted')
    (h : sorted.Pairwise Le) (h' : sorted'.Pairwise Le)
    (htied : ∀ d, tied d sorted = tied d sorted') : sorted = sorted' := by
  induction sorted generalizing sorted' with
  | nil => exact hperm.nil_eq
  | cons a rest ih =>
      cases sorted' with
      | nil => exact absurd hperm.eq_nil (List.cons_ne_nil a rest)
      | cons b rest' =>
          obtain ⟨hhead, hrest⟩ := List.pairwise_cons.mp h
          obtain ⟨hhead', hrest'⟩ := List.pairwise_cons.mp h'
          -- Each head is a member of the other list, so neither comes before the other.
          have hab : Le a b := by
            rcases List.mem_cons.mp (hperm.mem_iff.mpr List.mem_cons_self) with rfl | hb
            · exact Le.refl b
            · exact hhead b hb
          have hba : Le b a := by
            rcases List.mem_cons.mp (hperm.mem_iff.mp List.mem_cons_self) with rfl | ha
            · exact Le.refl a
            · exact hhead' a ha
          have hheads := htied b
          rw [tied_cons_of_eq (compare_eq_of_le hab hba),
            tied_cons_of_eq (compare_eq_of_le (Le.refl b) (Le.refl b))] at hheads
          obtain rfl : a = b := (List.cons.inj hheads).1
          have hrests (d : Diagnostic) : tied d rest = tied d rest' := by
            have hd := htied d
            by_cases had : compare a d = .eq
            · rw [tied_cons_of_eq had, tied_cons_of_eq had] at hd
              exact (List.cons.inj hd).2
            · rwa [tied_cons_of_ne had, tied_cons_of_ne had] at hd
          rw [ih hperm.cons_inv hrest hrest' hrests]

theorem StableSort.unique {found sorted sorted' : List Diagnostic} (h : StableSort found sorted)
    (h' : StableSort found sorted') : sorted = sorted' := by
  refine eq_of_tied_eq (h.perm.trans h'.perm.symm) h.ordered h'.ordered ?_
  intro d
  rw [h.stable d, h'.stable d]

theorem StableSort.filter {found sorted : List Diagnostic} (h : StableSort found sorted)
    (p : Diagnostic → Bool) : StableSort (found.filter p) (sorted.filter p) := by
  refine ⟨h.perm.filter p, h.ordered.filter p, ?_⟩
  intro d
  rw [tied_filter, tied_filter, h.stable d]

end Diagnostic

namespace Outcome

theorem stableSort_sort (o : Outcome) : Diagnostic.StableSort o.diagnostics o.sort.diagnostics := by
  refine ⟨o.perm_sort, o.pairwise_sort, ?_⟩
  intro d
  -- A part of a list that is in order is still a part of the sorted list.
  have hpart : (Diagnostic.tied d o.diagnostics).Sublist o.sort.diagnostics := by
    refine List.sublist_mergeSort ?_ ?_ (Diagnostic.pairwise_tied d _) List.filter_sublist
    · intro a b c hab hbc
      exact Diagnostic.Le.trans hab hbc
    · intro a b
      rw [Bool.or_eq_true]
      exact Diagnostic.le_total a b
  have htied := hpart.filter fun a => decide (Diagnostic.compare a d = .eq)
  rw [Diagnostic.tied, List.filter_filter] at htied
  simp only [Bool.and_self] at htied
  exact (htied.eq_of_length (o.perm_sort.filter _).length_eq.symm).symm

/-- Findings can be left out before sorting or behind it. -/
theorem diagnostics_sort_filter (found : List Diagnostic) (p : Diagnostic → Bool)
    (filesChecked filesChecked' : UInt64) :
    (sort ⟨found.filter p, filesChecked⟩).diagnostics =
      (sort ⟨found, filesChecked'⟩).diagnostics.filter p :=
  (stableSort_sort _).unique ((stableSort_sort ⟨found, filesChecked'⟩).filter p)

end Outcome

end Hygiene
