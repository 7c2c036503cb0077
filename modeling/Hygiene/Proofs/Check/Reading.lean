import Hygiene.Proofs.Check.Collect
import Hygiene.Proofs.Text.Utf8

/-!
What built-in checks read. A check reads the files that its patterns select, in the order of the
change, and fails at the first of them that is no text; the check on references to issues reads
none. The bytes of all other files could be anything.
-/

namespace Hygiene

namespace ChangedFile

variable {f : ChangedFile}

/-- The bytes of a file spell a text. -/
def IsText (f : ChangedFile) : Prop := ∃ s, f.bytes = Text.Utf8.encode s

theorem isText_iff : f.IsText ↔ ∃ s, f.text = .ok s := by
  simp only [IsText, text, Text.Utf8.decode_eq_ok_iff]

theorem textFor_of_encode {s : String} (h : f.bytes = Text.Utf8.encode s) (check : String) :
    f.textFor check = .ok s := by
  rw [textFor, text, h, Text.Utf8.decode_encode]
  rfl

theorem exists_textFor_eq_ok_iff (check : String) : (∃ s, f.textFor check = .ok s) ↔ f.IsText := by
  simp only [textFor, Except.mapError_eq_ok_iff, isText_iff]

theorem exists_textFor_eq_error_iff (check : String) :
    (∃ e, f.textFor check = .error e) ↔ ¬ f.IsText := by
  rw [← exists_textFor_eq_ok_iff check, Except.exists_ok_iff, not_not]

end ChangedFile

namespace BuiltIn

def patterns : BuiltIn → List Glob
  | bugEntry _ => []
  | singleNewline patterns => patterns
  | noMixing patterns => patterns

def Selects (b : BuiltIn) (f : ChangedFile) : Prop := f.matchesAny b.patterns = true

/-- A file is the first that a check selects and cannot read. -/
def StopsAt (b : BuiltIn) (files : List ChangedFile) (f : ChangedFile) : Prop :=
  ∃ before after, files = before ++ f :: after ∧ b.Selects f ∧ ¬ f.IsText ∧
    ∀ g ∈ before, b.Selects g → g.IsText

/-- A check fails exactly with the first failure to read a file that it selects. -/
theorem run_eq_error_iff {b : BuiltIn} {change : Changeset} {e : CheckError} :
    b.run change = .error e ↔
      FirstFailure (fun f => f.textFor b.kind.name) (change.filesMatching b.patterns) e := by
  cases b with
  | bugEntry rule =>
      have hnone : change.filesMatching (bugEntry rule).patterns = [] :=
        List.filter_eq_nil_iff.mpr fun f _ => Bool.false_ne_true
      rw [hnone, run]
      simp [FirstFailure]
  | singleNewline patterns =>
      rw [run, newlineDiagnostics_eq, collect_eq_error_iff]
      exact firstFailure_map
  | noMixing patterns =>
      rw [run_noMixing_eq, Except.map_eq_error_iff, collect_eq_error_iff]
      exact firstFailure_map

/-- The failure of a check names the file at which it stops. -/
theorem run_eq_error_iff_stopsAt {b : BuiltIn} {change : Changeset} {e : CheckError} :
    b.run change = .error e ↔ ∃ f fault, b.StopsAt change.files f ∧ f.text = .error fault ∧
      .undecodable b.kind.name f.path fault = e := by
  rw [run_eq_error_iff, Changeset.filesMatching, firstFailure_filter]
  simp only [ChangedFile.exists_textFor_eq_ok_iff]
  constructor
  · rintro ⟨before, f, after, hfiles, hselects, hbefore, he⟩
    have hf := (ChangedFile.exists_textFor_eq_error_iff b.kind.name).mp ⟨e, he⟩
    obtain ⟨fault, hfault, rfl⟩ := Except.mapError_eq_error_iff.mp he
    exact ⟨f, fault, ⟨before, after, hfiles, hselects, hf, hbefore⟩, hfault, rfl⟩
  · rintro ⟨f, fault, ⟨before, after, hfiles, hselects, -, hbefore⟩, hfault, rfl⟩
    refine ⟨before, f, after, hfiles, hselects, hbefore, ?_⟩
    exact Except.mapError_eq_error_iff.mpr ⟨fault, hfault, rfl⟩

theorem run_fails_iff {b : BuiltIn} {change : Changeset} :
    (∃ e, b.run change = .error e) ↔ ∃ f ∈ change.files, b.Selects f ∧ ¬ f.IsText := by
  simp only [run_eq_error_iff, exists_firstFailure_iff, ChangedFile.exists_textFor_eq_error_iff,
    Changeset.filesMatching, List.mem_filter, and_assoc, Selects]

theorem run_succeeds_iff {b : BuiltIn} {change : Changeset} :
    (∃ found, b.run change = .ok found) ↔ ∀ f ∈ change.files, b.Selects f → f.IsText := by
  rw [Except.exists_ok_iff, run_fails_iff]
  simp only [not_exists, not_and, not_not]

/-- What a check finds depends on the files that it selects and on the field of the change. -/
theorem run_congr {b : BuiltIn} {change other : Changeset}
    (hfiles : change.filesMatching b.patterns = other.filesMatching b.patterns)
    (hbug : change.bug = other.bug) :
    b.run change = b.run other := by
  cases b with
  | bugEntry rule => rw [run, run, runBugEntry, runBugEntry, hbug]
  | singleNewline patterns => exact congrArg newlineDiagnostics hfiles
  | noMixing patterns =>
      rw [run_noMixing_eq, run_noMixing_eq]
      rw [show change.filesMatching patterns = other.filesMatching patterns from hfiles]

end BuiltIn

end Hygiene
