import Mathlib.Data.String.Basic
import Mathlib.Tactic
import Hygiene.Gn.Report

/-!
The shape of a report. Its files stand in strictly increasing order, every file has entries, and
the entries of a file are sorted; adding a violation keeps all of this. A report of this shape is
determined by the entries of each file taken without their order, so it does not depend on the
order in which violations arrive.
-/

namespace Hygiene.Gn

namespace Entry

instance : Std.TransCmp Entry.compare :=
  inferInstanceAs (Std.TransCmp (compareLex (compareOn Entry.target) (compareOn Entry.sources)))

instance : Std.LawfulEqCmp Entry.compare where
  eq_of_compare {a b} h := by
    obtain ⟨htarget, hsources⟩ := Ordering.then_eq_eq.mp h
    obtain ⟨target, sources⟩ := a
    obtain ⟨target', sources'⟩ := b
    exact congrArg₂ Entry.mk (Std.LawfulEqCmp.eq_of_compare htarget)
      (Std.LawfulEqCmp.eq_of_compare hsources)

def Le (a b : Entry) : Prop := (compare a b).isLE = true

theorem Le.trans {a b c : Entry} (hab : Le a b) (hbc : Le b c) : Le a c :=
  Std.TransCmp.isLE_trans hab hbc

theorem Le.antisymm {a b : Entry} (hab : Le a b) (hba : Le b a) : a = b :=
  Std.LawfulEqCmp.eq_of_compare (Std.OrientedCmp.isLE_antisymm hab hba)

theorem le_of_not_le {a b : Entry} (h : ¬ Le a b) : Le b a := by
  have hgt : compare a b = .gt := by
    cases hcompare : compare a b <;> simp_all [Le]
  simp [Le, Std.OrientedCmp.lt_of_gt hgt]

end Entry

theorem perm_insertEntry (e : Entry) (entries : List Entry) :
    (insertEntry e entries).Perm (e :: entries) := by
  induction entries with
  | nil => exact List.Perm.refl _
  | cons a rest ih =>
      rw [insertEntry]
      split
      · exact (ih.cons a).trans (List.Perm.swap e a rest)
      · exact List.Perm.refl _

theorem pairwise_insertEntry (e : Entry) {entries : List Entry}
    (hsorted : entries.Pairwise Entry.Le) : (insertEntry e entries).Pairwise Entry.Le := by
  induction entries with
  | nil => exact List.pairwise_singleton _ _
  | cons a rest ih =>
      obtain ⟨hhead, htail⟩ := List.pairwise_cons.mp hsorted
      rw [insertEntry]
      split
      next hle =>
        refine List.pairwise_cons.mpr ⟨?_, ih htail⟩
        intro b hb
        rcases List.mem_cons.mp ((perm_insertEntry e rest).mem_iff.mp hb) with rfl | hrest
        · exact hle
        · exact hhead b hrest
      next hnle =>
        have hea : Entry.Le e a := Entry.le_of_not_le hnle
        refine List.pairwise_cons.mpr ⟨?_, hsorted⟩
        intro b hb
        rcases List.mem_cons.mp hb with rfl | hrest
        · exact hea
        · exact hea.trans (hhead b hrest)

namespace Report

def entriesUnder (file : String) : List (String × List Entry) → List Entry
  | [] => []
  | (name, entries) :: rest => if name = file then entries else entriesUnder file rest

/-- The files are in strictly increasing order, and each has entries, which are sorted. -/
structure Canonical (files : List (String × List Entry)) : Prop where
  increasing : (files.map (·.1)).Pairwise (· < ·)
  filled : ∀ f ∈ files, f.2 ≠ []
  sorted : ∀ f ∈ files, f.2.Pairwise Entry.Le

theorem canonical_nil : Canonical [] :=
  ⟨List.Pairwise.nil, by simp, by simp⟩

theorem canonical_cons {name : String} {entries : List Entry}
    {rest : List (String × List Entry)} :
    Canonical ((name, entries) :: rest) ↔
      (∀ f ∈ rest, name < f.1) ∧ entries ≠ [] ∧ entries.Pairwise Entry.Le ∧ Canonical rest := by
  constructor
  · rintro ⟨hincreasing, hfilled, hsorted⟩
    obtain ⟨hhead, htail⟩ := List.pairwise_cons.mp hincreasing
    refine ⟨fun f hf => hhead f.1 (List.mem_map_of_mem hf), hfilled _ List.mem_cons_self,
      hsorted _ List.mem_cons_self, htail, ?_, ?_⟩
    · exact fun f hf => hfilled f (List.mem_cons_of_mem _ hf)
    · exact fun f hf => hsorted f (List.mem_cons_of_mem _ hf)
  · rintro ⟨hhead, hentries, hpairwise, hrest⟩
    refine ⟨List.pairwise_cons.mpr ⟨?_, hrest.increasing⟩, ?_, ?_⟩
    · intro file hfile
      obtain ⟨f, hf, rfl⟩ := List.mem_map.mp hfile
      exact hhead f hf
    · intro f hf
      rcases List.mem_cons.mp hf with rfl | hf
      · exact hentries
      · exact hrest.filled f hf
    · intro f hf
      rcases List.mem_cons.mp hf with rfl | hf
      · exact hpairwise
      · exact hrest.sorted f hf

theorem entriesUnder_of_lt {file : String} {files : List (String × List Entry)}
    (h : ∀ f ∈ files, file < f.1) : entriesUnder file files = [] := by
  induction files with
  | nil => rfl
  | cons f rest ih =>
      obtain ⟨name, entries⟩ := f
      have hne : name ≠ file := (h (name, entries) List.mem_cons_self).ne'
      rw [entriesUnder, if_neg hne]
      exact ih fun g hg => h g (List.mem_cons_of_mem _ hg)

theorem mem_insertUnder {file : String} {e : Entry} {files : List (String × List Entry)}
    {f : String × List Entry} (h : f ∈ insertUnder file e files) :
    f.1 = file ∨ f ∈ files := by
  induction files with
  | nil =>
      rw [insertUnder, List.mem_singleton] at h
      exact Or.inl (congrArg Prod.fst h)
  | cons g rest ih =>
      obtain ⟨name, entries⟩ := g
      rw [insertUnder] at h
      split at h
      · rcases List.mem_cons.mp h with rfl | h
        · exact Or.inl rfl
        · exact Or.inr h
      · split at h
        next heq =>
          rcases List.mem_cons.mp h with rfl | h
          · exact Or.inl heq.symm
          · exact Or.inr (List.mem_cons_of_mem _ h)
        next _ =>
          rcases List.mem_cons.mp h with rfl | h
          · exact Or.inr List.mem_cons_self
          · exact (ih h).imp_right (List.mem_cons_of_mem _)

/-- One more entry keeps the shape. A file that was not there is put where it belongs. -/
theorem canonical_insertUnder (file : String) (e : Entry) {files : List (String × List Entry)}
    (hcanonical : Canonical files) : Canonical (insertUnder file e files) := by
  induction files with
  | nil =>
      exact canonical_cons.mpr ⟨by simp, by simp, List.pairwise_singleton _ _, canonical_nil⟩
  | cons f rest ih =>
      obtain ⟨name, entries⟩ := f
      obtain ⟨hhead, hentries, hpairwise, hrest⟩ := canonical_cons.mp hcanonical
      rw [insertUnder]
      split
      next hlt =>
        refine canonical_cons.mpr ⟨?_, by simp, List.pairwise_singleton _ _, hcanonical⟩
        intro g hg
        rcases List.mem_cons.mp hg with rfl | hg
        · exact hlt
        · exact hlt.trans (hhead g hg)
      next hnlt =>
        split
        · refine canonical_cons.mpr ⟨hhead, ?_, pairwise_insertEntry e hpairwise, hrest⟩
          intro hnil
          simpa [hnil] using (perm_insertEntry e entries).length_eq
        next hne =>
          have hgt : name < file := lt_of_le_of_ne (not_lt.mp hnlt) (Ne.symm hne)
          refine canonical_cons.mpr ⟨?_, hentries, hpairwise, ih hrest⟩
          intro g hg
          rcases mem_insertUnder hg with hfile | hg
          · exact hfile ▸ hgt
          · exact hhead g hg

/-- One more entry is found under its file, and under no other. -/
theorem entriesUnder_insertUnder (file : String) (e : Entry)
    {files : List (String × List Entry)} (hcanonical : Canonical files) (name : String) :
    entriesUnder name (insertUnder file e files) =
      if name = file then insertEntry e (entriesUnder file files) else entriesUnder name files := by
  induction files with
  | nil =>
      simp only [insertUnder, entriesUnder, insertEntry, eq_comm]
  | cons f rest ih =>
      obtain ⟨first, entries⟩ := f
      obtain ⟨hhead, -, -, hrest⟩ := canonical_cons.mp hcanonical
      rw [insertUnder]
      split
      next hlt =>
        have hnone : entriesUnder file ((first, entries) :: rest) = [] := by
          apply entriesUnder_of_lt
          intro g hg
          rcases List.mem_cons.mp hg with rfl | hg
          · exact hlt
          · exact hlt.trans (hhead g hg)
        rw [hnone, entriesUnder]
        by_cases hname : name = file
        · rw [if_pos hname.symm, if_pos hname, insertEntry]
        · rw [if_neg (Ne.symm hname), if_neg hname]
      next _ =>
        split
        next heq =>
          subst heq
          simp only [entriesUnder, if_true]
          by_cases hname : name = file
          · rw [if_pos hname.symm, if_pos hname]
          · rw [if_neg (Ne.symm hname), if_neg hname, if_neg (Ne.symm hname)]
        next hne =>
          simp only [entriesUnder, ih hrest, if_neg (Ne.symm hne)]
          by_cases hname : name = file
          · subst hname
            simp only [if_true, if_neg (Ne.symm hne)]
          · simp only [if_neg hname]

theorem mem_files_iff {name : String} {files : List (String × List Entry)}
    (hcanonical : Canonical files) :
    name ∈ files.map (·.1) ↔ entriesUnder name files ≠ [] := by
  induction files with
  | nil => simp [entriesUnder]
  | cons f rest ih =>
      obtain ⟨first, entries⟩ := f
      obtain ⟨-, hentries, -, hrest⟩ := canonical_cons.mp hcanonical
      rw [List.map_cons, List.mem_cons, ih hrest, entriesUnder]
      by_cases hname : first = name
      · simp [hname, hentries]
      · simp [hname, Ne.symm hname]

/-- The first file of a list of this shape is not beyond that of another one with the same
entries, where it would be missing. -/
private theorem first_not_lt {name name' : String} {entries entries' : List Entry}
    {rest rest' : List (String × List Entry)} (h : Canonical ((name, entries) :: rest))
    (h' : Canonical ((name', entries') :: rest'))
    (hperm : (entriesUnder name ((name, entries) :: rest)).Perm
      (entriesUnder name ((name', entries') :: rest'))) : ¬ name < name' := by
  intro hlt
  obtain ⟨-, hentries, -, -⟩ := canonical_cons.mp h
  obtain ⟨hhead', -, -, -⟩ := canonical_cons.mp h'
  have hnone : entriesUnder name ((name', entries') :: rest') = [] := by
    apply entriesUnder_of_lt
    intro f hf
    rcases List.mem_cons.mp hf with rfl | hf
    · exact hlt
    · exact hlt.trans (hhead' f hf)
  rw [hnone] at hperm
  simp only [entriesUnder, if_true] at hperm
  exact hentries hperm.eq_nil

/-- Lists of this shape that hold the same entries under every file are equal. -/
theorem Canonical.ext {files files' : List (String × List Entry)} (h : Canonical files)
    (h' : Canonical files')
    (hperm : ∀ name, (entriesUnder name files).Perm (entriesUnder name files')) :
    files = files' := by
  induction files generalizing files' with
  | nil =>
      cases files' with
      | nil => rfl
      | cons g rest' =>
          obtain ⟨-, hentries', -, -⟩ := canonical_cons.mp h'
          have hnil := hperm g.1
          simp only [entriesUnder, if_true] at hnil
          exact absurd hnil.nil_eq.symm hentries'
  | cons f rest ih =>
      obtain ⟨name, entries⟩ := f
      obtain ⟨hhead, hentries, hsorted, hrest⟩ := canonical_cons.mp h
      cases files' with
      | nil =>
          have hnil := hperm name
          simp only [entriesUnder, if_true] at hnil
          exact absurd hnil.eq_nil hentries
      | cons g rest' =>
          obtain ⟨name', entries'⟩ := g
          obtain ⟨hhead', -, hsorted', hrest'⟩ := canonical_cons.mp h'
          have hname : name = name' :=
            le_antisymm (not_lt.mp (first_not_lt h' h (hperm name').symm))
              (not_lt.mp (first_not_lt h h' (hperm name)))
          subst hname
          have hsame : (entries).Perm entries' := by
            simpa only [entriesUnder, if_true] using hperm name
          have htails : ∀ other, (entriesUnder other rest).Perm (entriesUnder other rest') := by
            intro other
            by_cases hother : name = other
            · subst hother
              rw [entriesUnder_of_lt hhead, entriesUnder_of_lt hhead']
            · simpa only [entriesUnder, if_neg hother] using hperm other
          rw [hsame.eq_of_pairwise (fun _ _ _ _ hab hba => hab.antisymm hba) hsorted hsorted',
            ih hrest hrest' htails]

def entriesOf (r : Report) (file : String) : List Entry := entriesUnder file r.files

/-- The entry that a violation makes. -/
def entryOf (v : Violation) : Entry := ⟨v.target, v.sources⟩

theorem canonical_add (v : Violation) {r : Report} (h : Canonical r.files) :
    Canonical (r.add v).files :=
  canonical_insertUnder v.file (entryOf v) h

theorem canonical_extend (vs : List Violation) {r : Report} (h : Canonical r.files) :
    Canonical (r.extend vs).files := by
  induction vs generalizing r with
  | nil => exact h
  | cons v rest ih => exact ih (canonical_add v h)

/-- Adding a violation adds its entry to those of its file and changes no other file. -/
theorem entriesOf_add (v : Violation) {r : Report} (h : Canonical r.files) (file : String) :
    ((r.add v).entriesOf file).Perm
      (if v.file = file then entryOf v :: r.entriesOf file else r.entriesOf file) := by
  have hunder := entriesUnder_insertUnder v.file (entryOf v) h file
  change (entriesUnder file (insertUnder v.file (entryOf v) r.files)).Perm _
  rw [hunder]
  by_cases hfile : v.file = file
  · subst hfile
    simp only [if_true]
    exact perm_insertEntry _ _
  · rw [if_neg hfile, if_neg (Ne.symm hfile)]
    exact List.Perm.refl _

/-- Adding violations adds, to the entries of a file, those of the violations in that file. -/
theorem entriesOf_extend (vs : List Violation) {r : Report} (h : Canonical r.files)
    (file : String) :
    ((r.extend vs).entriesOf file).Perm
      ((vs.filter fun v => v.file = file).map entryOf ++ r.entriesOf file) := by
  induction vs generalizing r with
  | nil => exact List.Perm.refl _
  | cons v rest ih =>
      have hrest := ih (canonical_add v h)
      have hstep := entriesOf_add v h file
      change (((r.add v).extend rest).entriesOf file).Perm _
      by_cases hfile : v.file = file
      · rw [if_pos hfile] at hstep
        rw [List.filter_cons_of_pos (by simpa using hfile), List.map_cons, List.cons_append]
        exact (hrest.trans (hstep.append_left _)).trans List.perm_middle
      · rw [if_neg hfile] at hstep
        rw [List.filter_cons_of_neg (by simpa using hfile)]
        exact hrest.trans (hstep.append_left _)

def made (vs : List Violation) (file : String) : List Entry :=
  (vs.filter fun v => v.file = file).map entryOf

theorem entriesOf_extend_empty (vs : List Violation) (file : String) :
    ((empty.extend vs).entriesOf file).Perm (made vs file) :=
  (entriesOf_extend vs canonical_nil file).trans (List.Perm.of_eq (List.append_nil _))

theorem mem_violatingFiles {r : Report} (h : Canonical r.files) {file : String} :
    file ∈ r.violatingFiles ↔ r.entriesOf file ≠ [] :=
  mem_files_iff h

theorem isEmpty_iff {r : Report} : r.isEmpty = true ↔ ∀ file, file ∉ r.violatingFiles := by
  rw [isEmpty, List.isEmpty_iff, violatingFiles, ← List.eq_nil_iff_forall_not_mem,
    List.map_eq_nil_iff]

/-- A report holds nothing but the entries made under each file. -/
theorem extend_eq_iff {vs ws : List Violation} :
    empty.extend vs = empty.extend ws ↔ ∀ file, (made vs file).Perm (made ws file) := by
  constructor
  · intro h file
    exact (entriesOf_extend_empty vs file).symm.trans (h ▸ entriesOf_extend_empty ws file)
  · intro h
    have hfiles : (empty.extend vs).files = (empty.extend ws).files := by
      apply Canonical.ext (canonical_extend vs canonical_nil) (canonical_extend ws canonical_nil)
      intro file
      exact ((entriesOf_extend_empty vs file).trans (h file)).trans
        (entriesOf_extend_empty ws file).symm
    exact congrArg Report.mk hfiles

/-- The order in which violations are added does not show in the report. -/
theorem extend_eq_of_perm {vs ws : List Violation} (h : vs.Perm ws) :
    empty.extend vs = empty.extend ws :=
  extend_eq_iff.mpr fun file => (h.filter fun v : Violation => v.file = file).map entryOf

end Report

inductive Call where
  | add (v : Violation)
  | extend (vs : List Violation)

namespace Report

def call (r : Report) : Call → Report
  | .add v => r.add v
  | .extend vs => r.extend vs

/-- The report that a sequence of calls builds. -/
def built (calls : List Call) : Report := calls.foldl call empty

theorem canonical_call {r : Report} (h : Canonical r.files) (c : Call) :
    Canonical (r.call c).files := by
  cases c with
  | add v => exact canonical_add v h
  | extend vs => exact canonical_extend vs h

theorem canonical_built (calls : List Call) : Canonical (built calls).files := by
  have hfold (r : Report) (h : Canonical r.files) : Canonical (calls.foldl call r).files := by
    induction calls generalizing r with
    | nil => exact h
    | cons c calls ih => exact ih (r.call c) (canonical_call h c)
  exact hfold empty canonical_nil

end Report

end Hygiene.Gn
