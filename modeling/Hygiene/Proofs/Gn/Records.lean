import Mathlib.Data.String.Basic
import Mathlib.Tactic
import Hygiene.Proofs.Gn.Dump

/-!
What a report keeps of the calls that built it: for every file the targets and sources that were
added to it, each as often as it was added, and nothing of the order of the calls or of how they
group what they add.
-/

namespace Hygiene.Gn

theorem isLE_compare_iff {a b : List String} :
    (compare a b).isLE = true ↔ a = b ∨ List.Lex (· < ·) a b := by
  induction a generalizing b with
  | nil => cases b <;> simp
  | cons x a ih =>
      cases b with
      | nil => simp
      | cons y b =>
          rw [List.compare_cons_cons, List.cons.injEq, List.cons_lex_cons_iff]
          rcases lt_trichotomy x y with h | rfl | h
          · rw [compare_lt_iff_lt.mpr h]
            simp [h, h.ne]
          · simp [ih]
          · rw [compare_gt_iff_gt.mpr h]
            simp [h.ne', h.not_gt]

/-- Entries stand in the lexicographic order of their targets and sources. -/
theorem Entry.le_iff {a b : Entry} :
    Le a b ↔ a.target < b.target ∨
      a.target = b.target ∧ (a.sources = b.sources ∨ List.Lex (· < ·) a.sources b.sources) := by
  rw [Le, compare]
  rcases lt_trichotomy a.target b.target with h | h | h
  · rw [compare_lt_iff_lt.mpr h]
    simp [h]
  · rw [compare_eq_iff_eq.mpr h]
    simp [h, isLE_compare_iff]
  · rw [compare_gt_iff_gt.mpr h]
    simp [h.ne', h.not_gt]

/-- What a report reads of a violation. -/
def Violation.triple (v : Violation) : String × String × List String :=
  (v.file, v.target, v.sources)

def Call.violations : Call → List Violation
  | .add v => [v]
  | .extend vs => vs

namespace Report

/-- The violations that a sequence of calls adds, in the order in which they are added. -/
def added (calls : List Call) : List Violation := calls.flatMap Call.violations

theorem call_eq_extend (r : Report) (c : Call) : r.call c = r.extend c.violations := by
  cases c <;> rfl

/-- How calls group what they add does not show. -/
theorem built_eq_extend (calls : List Call) : built calls = empty.extend (added calls) := by
  have hfold (r : Report) : calls.foldl call r = r.extend (added calls) := by
    induction calls generalizing r with
    | nil => rfl
    | cons c calls ih =>
        have hadded : added (c :: calls) = c.violations ++ added calls := List.flatMap_cons
        rw [List.foldl_cons, ih, call_eq_extend, hadded]
        exact List.foldl_append.symm
  exact hfold empty

theorem made_eq (vs : List Violation) (file : String) :
    made vs file =
      ((vs.map Violation.triple).filter fun t => t.1 = file).map fun t => ⟨t.2.1, t.2.2⟩ := by
  rw [List.filter_map, List.map_map]
  rfl

/-- A triple is made as an entry as often as it is added. -/
theorem count_triple (vs : List Violation) (t : String × String × List String) :
    (vs.map Violation.triple).count t = (made vs t.1).count ⟨t.2.1, t.2.2⟩ := by
  obtain ⟨file, target, sources⟩ := t
  rw [made, List.count_eq_countP, List.count_eq_countP, List.countP_map, List.countP_map,
    List.countP_filter]
  refine List.countP_congr ?_
  intro v _
  simp only [Function.comp_apply, Violation.triple, entryOf, beq_iff_eq, Prod.mk.injEq,
    Entry.mk.injEq, Bool.and_eq_true, decide_eq_true_eq]
  exact and_comm

theorem perm_triple_iff {vs ws : List Violation} :
    (vs.map Violation.triple).Perm (ws.map Violation.triple) ↔
      ∀ file, (made vs file).Perm (made ws file) := by
  constructor
  · intro h file
    rw [made_eq, made_eq]
    exact (h.filter _).map _
  · intro h
    refine List.perm_iff_count.mpr ?_
    intro t
    rw [count_triple, count_triple]
    exact (h t.1).count_eq _

theorem entriesUnder_of_mem {files : List (String × List Entry)} (h : Canonical files)
    {f : String × List Entry} (hf : f ∈ files) : entriesUnder f.1 files = f.2 := by
  induction files with
  | nil => simp at hf
  | cons g rest ih =>
      obtain ⟨name, entries⟩ := g
      obtain ⟨hhead, -, -, hrest⟩ := canonical_cons.mp h
      rw [entriesUnder]
      rcases List.mem_cons.mp hf with rfl | hf
      · exact if_pos rfl
      · rw [if_neg (hhead f hf).ne, ih hrest hf]

theorem targetCount_add (r : Report) (v : Violation) :
    (r.add v).targetCount = r.targetCount + 1 := by
  obtain ⟨files⟩ := r
  rw [add, targetCount, targetCount]
  induction files with
  | nil => rfl
  | cons f rest ih =>
      obtain ⟨name, entries⟩ := f
      rw [insertUnder]
      split
      · simp only [List.foldr_cons, List.length_singleton]
        omega
      · split
        · have hlength := (perm_insertEntry ⟨v.target, v.sources⟩ entries).length_eq
          simp only [List.foldr_cons, hlength, List.length_cons]
          omega
        · simp only [List.foldr_cons, ih]
          omega

theorem targetCount_extend (r : Report) (vs : List Violation) :
    (r.extend vs).targetCount = r.targetCount + vs.length := by
  induction vs generalizing r with
  | nil => rfl
  | cons v rest ih =>
      have hrest := ih (r.add v)
      rw [targetCount_add] at hrest
      rw [List.length_cons, Nat.add_comm rest.length, ← Nat.add_assoc]
      exact hrest

theorem made_ne_nil_iff {vs : List Violation} {file : String} :
    made vs file ≠ [] ↔ ∃ v ∈ vs, v.file = file := by
  simp [made, List.filter_eq_nil_iff]

/-- Reports hold the same exactly when the same triples were added to them, each as often; and a
report holds under each file the entries made there, in their order. -/
theorem built_keeps_added (calls : List Call) :
    let report := built calls
    let records := added calls
    (∀ others,
      let same := (records.map Violation.triple).Perm ((added others).map Violation.triple)
      (same ↔ report = built others) ∧ (same ↔ report.render = (built others).render)) ∧
    (∀ f ∈ report.files, f.2 ≠ [] ∧ f.2.Perm (made records f.1) ∧
      f.2.Pairwise fun a b => a.target < b.target ∨
        a.target = b.target ∧ (a.sources = b.sources ∨ List.Lex (· < ·) a.sources b.sources)) ∧
    report.targetCount = records.length ∧
    report.violatingFiles.Pairwise (· < ·) ∧
    (∀ file, file ∈ report.violatingFiles ↔ ∃ v ∈ records, v.file = file) ∧
    (report.isEmpty = true ↔ records = []) := by
  intro report records
  have hreport : report = empty.extend records := built_eq_extend calls
  have hcanonical : Canonical report.files := canonical_built calls
  have hentries (file : String) : (report.entriesOf file).Perm (made records file) := by
    rw [hreport]
    exact entriesOf_extend_empty records file
  have hmem (file : String) : file ∈ report.violatingFiles ↔ ∃ v ∈ records, v.file = file := by
    rw [mem_violatingFiles hcanonical, ← made_ne_nil_iff, ne_eq, ne_eq,
      ← List.length_eq_zero_iff, ← List.length_eq_zero_iff, (hentries file).length_eq]
  refine ⟨?_, ?_, ?_, hcanonical.increasing, hmem, ?_⟩
  · intro others same
    have hsame : same ↔ report = built others := by
      rw [hreport, built_eq_extend others, extend_eq_iff]
      exact perm_triple_iff
    exact ⟨hsame, hsame.trans ⟨congrArg render, eq_of_render_eq⟩⟩
  · intro f hf
    refine ⟨hcanonical.filled f hf, ?_, (hcanonical.sorted f hf).imp Entry.le_iff.mp⟩
    rw [← entriesUnder_of_mem hcanonical hf]
    exact hentries f.1
  · rw [hreport, targetCount_extend]
    exact Nat.zero_add _
  · rw [isEmpty_iff, List.eq_nil_iff_forall_not_mem]
    simp only [hmem, not_exists, not_and]
    constructor
    · intro h v hv
      exact h v.file v hv rfl
    · intro h _ v hv
      exact absurd hv (h v)

end Report

end Hygiene.Gn
