import Hygiene.Proofs.Check.Reading
import Hygiene.Proofs.Gn.Mixing

/-!
What the check on mixed languages finds in a change: nothing when no target of the selected files
mixes, and otherwise one finding whose report has one entry for every mixing target. The files that
the check does not select are not looked at, whatever their bytes are.
-/

namespace Hygiene.BuiltIn

open Gn

variable {patterns : List Glob} {text : ChangedFile → String}

/-- The violations of the selected files, one file behind the other. -/
def violationsIn (text : ChangedFile → String) (files : List ChangedFile) : List Violation :=
  files.flatMap fun f => violations f.localPath (text f)

/-- The report takes in the violations of all selected files. A file that is passed over may hold
anything. -/
theorem mixingReport_of_encode {files : List ChangedFile}
    (htext : ∀ f ∈ files.filter (·.matchesAny patterns), f.bytes = Text.Utf8.encode (text f))
    (report : Report) :
    mixingReport patterns report files =
      .ok (report.extend (violationsIn text (files.filter (·.matchesAny patterns)))) := by
  have hstep : ∀ f ∈ files.filter (·.matchesAny patterns),
      violationsOf f = .ok (violations f.localPath (text f)) := by
    intro f hf
    rw [violationsOf, ChangedFile.textFor_of_encode (htext f hf)]
    rfl
  rw [mixingReport_eq, collect_of_ok hstep]
  rfl

/-- The violations with a given file come from the selected files with that local path. -/
theorem filter_violationsIn (path : String) (files : List ChangedFile) :
    (violationsIn text files).filter (fun v => v.file = path) =
      violationsIn text (files.filter fun f => f.localPath = path) := by
  induction files with
  | nil => rfl
  | cons f rest ih =>
      rw [violationsIn, List.flatMap_cons, List.filter_append]
      change _ ++ (violationsIn text rest).filter (fun v => v.file = path) = _
      rw [ih]
      by_cases hpath : f.localPath = path
      · have hall : (violations f.localPath (text f)).filter (fun v => v.file = path) =
            violations f.localPath (text f) := by
          apply List.filter_eq_self.mpr
          intro v hv
          simpa [file_of_mem_violations hv] using hpath
        rw [hall, List.filter_cons_of_pos (by simpa using hpath)]
        rfl
      · have hnone : (violations f.localPath (text f)).filter (fun v => v.file = path) = [] := by
          apply List.filter_eq_nil_iff.mpr
          intro v hv
          simpa [file_of_mem_violations hv] using hpath
        rw [hnone, List.filter_cons_of_neg (by simpa using hpath), List.nil_append]

/-- The entries that the violations of some files make are, one by one, those of their mixing
targets. -/
theorem entries_describe (files : List ChangedFile) :
    List.Forall₂ (fun e t => e.target = t.name ∧ t.Offending e.sources)
      ((violationsIn text files).map Report.entryOf)
      (files.flatMap fun f => mixingTargets (text f)) := by
  rw [List.forall₂_map_left_iff, violationsIn]
  induction files with
  | nil => exact List.Forall₂.nil
  | cons f rest ih =>
      rw [List.flatMap_cons, List.flatMap_cons]
      refine List.rel_append ?_ ih
      exact (violations_describe f.localPath (text f)).imp fun v t h => ⟨h.target_eq, h.offending⟩

/-- A path has entries exactly when a file with that path has a mixing target. -/
theorem entriesOf_ne_nil_iff {report : Report} {path : String} {files : List ChangedFile}
    (hentries : (report.entriesOf path).Perm
      ((violationsIn text (files.filter fun f => f.localPath = path)).map Report.entryOf)) :
    report.entriesOf path ≠ [] ↔
      ∃ f ∈ files, f.localPath = path ∧ ∃ t ∈ scanTargets (text f), t.Mixing := by
  have hlength : (report.entriesOf path).length =
      ((files.filter fun f => f.localPath = path).flatMap fun f => mixingTargets (text f)).length :=
    hentries.length_eq.trans (entries_describe _).length_eq
  rw [ne_eq, ← List.length_eq_zero_iff, hlength, List.length_eq_zero_iff,
    List.flatMap_eq_nil_iff]
  simp only [List.mem_filter, decide_eq_true_eq, not_forall, ← mixingTargets_ne_nil, ne_eq,
    exists_prop, and_assoc]

/-- The check on mixed languages over a change whose selected files are texts. It finds nothing
when no target of these files mixes. Otherwise it makes one finding, about the files that have a
mixing target, and the report in its message has one entry for every mixing target of every such
file, with all sources of its mixing lists that have a class. -/
theorem noMixing_run (patterns : List Glob) (change : Changeset) (text : ChangedFile → String)
    (htext : ∀ f ∈ change.filesMatching patterns, f.bytes = Text.Utf8.encode (text f)) :
    let selected := change.filesMatching patterns
    ((∀ f ∈ selected, ∀ t ∈ scanTargets (text f), ¬ t.Mixing) →
      (noMixing patterns).run change = .ok []) ∧
    ((∃ f ∈ selected, ∃ t ∈ scanTargets (text f), t.Mixing) →
      ∃ (finding : Diagnostic) (report : Report),
        (noMixing patterns).run change = .ok [finding] ∧
        finding.message = report.render ∧
        finding.files = report.violatingFiles.map Path.mk ∧
        report.violatingFiles.Pairwise (· < ·) ∧
        (∀ path, path ∈ report.violatingFiles ↔
          ∃ f ∈ selected, f.localPath = path ∧ ∃ t ∈ scanTargets (text f), t.Mixing) ∧
        ∀ path, ∃ entries, (report.entriesOf path).Perm entries ∧
          List.Forall₂ (fun (e : Entry) t => e.target = t.name ∧ t.Offending e.sources) entries
            ((selected.filter fun f => f.localPath = path).flatMap
              fun f => mixingTargets (text f))) := by
  intro selected
  let report := Report.empty.extend (violationsIn text selected)
  have hreport : mixingReport patterns Report.empty change.files = .ok report :=
    mixingReport_of_encode htext Report.empty
  have hcanonical : Report.Canonical report.files :=
    Report.canonical_extend _ Report.canonical_nil
  have hentries (path : String) : (report.entriesOf path).Perm
      ((violationsIn text (selected.filter fun f => f.localPath = path)).map
        Report.entryOf) := by
    have hall := Report.entriesOf_extend (violationsIn text selected) Report.canonical_nil path
    rw [filter_violationsIn] at hall
    exact hall.trans (List.Perm.of_eq (List.append_nil _))
  have hmem (path : String) : path ∈ report.violatingFiles ↔
      ∃ f ∈ selected, f.localPath = path ∧ ∃ t ∈ scanTargets (text f), t.Mixing :=
    (Report.mem_violatingFiles hcanonical).trans (entriesOf_ne_nil_iff (hentries path))
  have hrun : (noMixing patterns).run change =
      .ok (if report.isEmpty then [] else [mixingDiagnostic report]) := by
    rw [run, hreport]
    rfl
  constructor
  · intro hnone
    have hempty : report.isEmpty = true := by
      apply Report.isEmpty_iff.mpr
      intro path hpath
      obtain ⟨f, hf, -, t, ht, hmixing⟩ := (hmem path).mp hpath
      exact hnone f hf t ht hmixing
    rw [hrun, if_pos hempty]
  · rintro ⟨f, hf, hmixing⟩
    have hfilled : ¬ report.isEmpty = true := by
      intro hempty
      exact Report.isEmpty_iff.mp hempty f.localPath ((hmem f.localPath).mpr ⟨f, hf, rfl, hmixing⟩)
    refine ⟨mixingDiagnostic report, report, by rw [hrun, if_neg hfilled], rfl, rfl,
      hcanonical.increasing, hmem, ?_⟩
    intro path
    exact ⟨_, hentries path, entries_describe _⟩

def mixedText : String := "lib(\"a\") \x7b sources = [ \"x.c\", \"y.cc\", \"x.h\" ] \x7d"

/-- A change of that build file and of a picture, whose bytes are no text. -/
def mixedChange : Changeset :=
  ⟨⟨"/r"⟩,
    [⟨⟨"/r/logo.png"⟩, ⟨"logo.png"⟩, [0xFF]⟩,
      ⟨⟨"/r/lib/BUILD.gn"⟩, ⟨"lib/BUILD.gn"⟩, Text.Utf8.encode mixedText⟩],
    none⟩

theorem noMixing_run_mixedChange :
    (∀ f ∈ mixedChange.filesMatching buildFiles, f.bytes = Text.Utf8.encode mixedText) ∧
      ∃ (finding : Diagnostic) (report : Report),
        (noMixing buildFiles).run mixedChange = .ok [finding] ∧
        finding.message = report.render ∧
        finding.files = report.violatingFiles.map Path.mk ∧
        "lib/BUILD.gn" ∈ report.violatingFiles := by
  have htext : ∀ f ∈ mixedChange.filesMatching buildFiles,
      f.bytes = Text.Utf8.encode mixedText := by decide +kernel
  have hmixing : ∃ f ∈ mixedChange.filesMatching buildFiles,
      f.localPath = "lib/BUILD.gn" ∧ ∃ t ∈ scanTargets mixedText, t.Mixing := by decide +kernel
  obtain ⟨f, hf, hpath, t, ht⟩ := hmixing
  obtain ⟨finding, report, hrun, hmessage, hfiles, -, hmem, -⟩ :=
    (noMixing_run buildFiles mixedChange (fun _ => mixedText) htext).2 ⟨f, hf, t, ht⟩
  exact ⟨htext, finding, report, hrun, hmessage, hfiles, (hmem _).mpr ⟨f, hf, hpath, t, ht⟩⟩

end Hygiene.BuiltIn
