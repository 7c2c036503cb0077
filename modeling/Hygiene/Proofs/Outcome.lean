import Mathlib.Data.List.Forall2
import Mathlib.Tactic
import Hygiene.Outcome

/-!
The order of findings. It looks at a key, which is the code, the components of the first file and
the message, and it is a total order of the keys. So the keys of a sorted list depend only on which
findings are in it, and two findings can change places only when their keys are equal.
-/

namespace Hygiene

namespace Path

instance : Std.TransOrd Component :=
  inferInstanceAs (Std.TransCmp (compareLex (compareOn Component.rank) (compareOn Component.label)))

instance : Std.LawfulEqOrd Component where
  eq_of_compare {a b} h := by
    obtain ⟨hrank, hlabel⟩ := Ordering.then_eq_eq.mp h
    have hrank : a.rank = b.rank := Std.LawfulEqCmp.eq_of_compare hrank
    have hlabel : a.label = b.label := Std.LawfulEqCmp.eq_of_compare hlabel
    cases a <;> cases b <;> simp_all [Component.rank, Component.label]

end Path

structure Key where
  code : String
  file : Option (List Path.Component)
  message : String

namespace Key

def compare (a b : Key) : Ordering :=
  (Ord.compare a.code b.code).then
    ((Ord.compare a.file b.file).then (Ord.compare a.message b.message))

instance : Std.TransCmp Key.compare :=
  inferInstanceAs (Std.TransCmp
    (compareLex (compareOn Key.code) (compareLex (compareOn Key.file) (compareOn Key.message))))

instance : Std.LawfulEqCmp Key.compare where
  eq_of_compare {a b} h := by
    obtain ⟨hcode, h⟩ := Ordering.then_eq_eq.mp h
    obtain ⟨hfile, hmessage⟩ := Ordering.then_eq_eq.mp h
    obtain ⟨code, file, message⟩ := a
    obtain ⟨code', file', message'⟩ := b
    obtain rfl : code = code' := Std.LawfulEqCmp.eq_of_compare hcode
    obtain rfl : file = file' := Std.LawfulEqCmp.eq_of_compare hfile
    obtain rfl : message = message' := Std.LawfulEqCmp.eq_of_compare hmessage
    rfl

def Le (a b : Key) : Prop := (compare a b).isLE = true

theorem Le.antisymm {a b : Key} (hab : Le a b) (hba : Le b a) : a = b :=
  Std.LawfulEqCmp.eq_of_compare (Std.OrientedCmp.isLE_antisymm hab hba)

end Key

namespace Diagnostic

def key (d : Diagnostic) : Key :=
  ⟨d.code, d.files.head?.map Path.components, d.message⟩

theorem compare_eq (a b : Diagnostic) : compare a b = a.key.compare b.key := by
  have hfile : Ord.compare a.files.head? b.files.head? = Ord.compare a.key.file b.key.file := by
    rw [key, key]
    cases a.files.head? <;> cases b.files.head? <;> rfl
  rw [compare, hfile]
  rfl

instance : Std.TransCmp Diagnostic.compare where
  eq_swap {a b} := by
    rw [compare_eq, compare_eq]
    exact Std.OrientedCmp.eq_swap
  isLE_trans {a b c} hab hbc := by
    rw [compare_eq] at hab hbc ⊢
    exact Std.TransCmp.isLE_trans hab hbc

def Le (a b : Diagnostic) : Prop := (compare a b).isLE = true

theorem le_iff_key {a b : Diagnostic} : Le a b ↔ a.key.Le b.key := by
  rw [Le, compare_eq, Key.Le]

theorem Le.trans {a b c : Diagnostic} (hab : Le a b) (hbc : Le b c) : Le a c :=
  Std.TransCmp.isLE_trans hab hbc

theorem le_total (a b : Diagnostic) : Le a b ∨ Le b a := by
  have hswap : compare b a = (compare a b).swap := Std.OrientedCmp.eq_swap
  rw [Le, Le, hswap]
  cases compare a b <;> simp

/-- Two findings say the same: they agree in every field, where the files are compared component by
component. -/
structure Same (a b : Diagnostic) : Prop where
  code : a.code = b.code
  check : a.check = b.check
  severity : a.severity = b.severity
  message : a.message = b.message
  help : a.help = b.help
  files : a.files.map Path.components = b.files.map Path.components

theorem Same.refl (d : Diagnostic) : d.Same d :=
  ⟨rfl, rfl, rfl, rfl, rfl, rfl⟩

end Diagnostic

namespace Outcome

/-- Two outcomes say the same: they have the same findings at every position, and the same number
of files. -/
structure Same (o other : Outcome) : Prop where
  diagnostics : List.Forall₂ Diagnostic.Same o.diagnostics other.diagnostics
  filesChecked : o.filesChecked = other.filesChecked

theorem perm_sort (o : Outcome) : o.sort.diagnostics.Perm o.diagnostics :=
  List.mergeSort_perm _ _

theorem pairwise_sort (o : Outcome) : o.sort.diagnostics.Pairwise Diagnostic.Le := by
  refine List.pairwise_mergeSort ?_ ?_ o.diagnostics
  · intro a b c hab hbc
    exact Diagnostic.Le.trans hab hbc
  · intro a b
    rw [Bool.or_eq_true]
    exact Diagnostic.le_total a b

/-- The findings that are sorted decide the keys at every position. -/
theorem map_key_sort_eq_of_perm (o other : Outcome) (h : o.diagnostics.Perm other.diagnostics) :
    o.sort.diagnostics.map Diagnostic.key = other.sort.diagnostics.map Diagnostic.key := by
  have hkeys (o : Outcome) : (o.sort.diagnostics.map Diagnostic.key).Pairwise Key.Le := by
    rw [List.pairwise_map]
    exact o.pairwise_sort.imp Diagnostic.le_iff_key.mp
  have hperm := (o.perm_sort.trans h).trans other.perm_sort.symm
  exact (hperm.map Diagnostic.key).eq_of_pairwise (fun _ _ _ _ hab hba => hab.antisymm hba)
    (hkeys o) (hkeys other)

/-- When a key leaves open nothing that counts, the order in which findings arrive does not show
once they are sorted. -/
theorem same_sort_of_perm {found found' : List Diagnostic} (h : found.Perm found')
    (hkey : ∀ a ∈ found, ∀ b ∈ found, a.key = b.key → a.Same b) (filesChecked : UInt64) :
    (sort ⟨found, filesChecked⟩).Same (sort ⟨found', filesChecked⟩) := by
  refine ⟨?_, rfl⟩
  have hkeys := map_key_sort_eq_of_perm ⟨found, filesChecked⟩ ⟨found', filesChecked⟩ h
  rw [← List.forall₂_eq_eq_eq, List.forall₂_map_left_iff, List.forall₂_map_right_iff,
    List.forall₂_iff_zip] at hkeys
  refine List.forall₂_iff_zip.mpr ⟨hkeys.1, ?_⟩
  intro a b hab
  obtain ⟨ha, hb⟩ := List.of_mem_zip hab
  have ha : a ∈ found := (perm_sort _).mem_iff.mp ha
  have hb : b ∈ found := h.mem_iff.mpr ((perm_sort _).mem_iff.mp hb)
  exact hkey a ha b hb (hkeys.2 hab)

end Outcome

end Hygiene
