import Hygiene.Proofs.Check.Reading
import Hygiene.Proofs.Run.Verdict

/-!
What a run of built-in checks reads. It fails exactly when a check that is turned on selects a file
that is no text, and the failure names the first such check and the first such file. A file that
none of them selects has no influence, wherever it stands and whatever its bytes are.
-/

namespace Hygiene

variable {config : Config} {checks : List BuiltIn} {change other : Changeset}

theorem runChecks_toCheck_eq_error_iff {e : CheckError} :
    runChecks config (checks.map BuiltIn.toCheck) change = .error e ↔
      FirstFailure (fun b => b.run change)
        (checks.filter fun b => config.isEnabled b.kind.name) e := by
  rw [runChecks_eq_error_iff, List.filter_map, firstFailure_members_map]
  rfl

/-- A run depends on a change only by what the checks that are turned on find in it. -/
theorem findings_toCheck_congr
    (h : ∀ b ∈ checks, config.isEnabled b.kind.name → b.run change = b.run other) :
    Check.findings config change (checks.map BuiltIn.toCheck) =
      Check.findings config other (checks.map BuiltIn.toCheck) := by
  rw [Check.findings_eq, Check.findings_eq]
  refine collect_ext ?_
  intro c hc
  obtain ⟨hc, henabled⟩ := List.mem_filter.mp hc
  obtain ⟨b, hb, rfl⟩ := List.mem_map.mp hc
  exact congrArg (Except.map _) (h b hb henabled)

theorem map_diagnostics_runChecks (config : Config) (checks : List Check) (change : Changeset) :
    (runChecks config checks change).map (·.diagnostics) =
      (Check.findings config change checks).map fun found =>
        (Outcome.sort ⟨found, 0⟩).diagnostics := by
  rw [runChecks_eq]
  cases Check.findings config change checks <;> rfl

/-- A file that a check does not select can be left out. -/
theorem BuiltIn.run_skip {b : BuiltIn} {before after : List ChangedFile} {f : ChangedFile}
    (h : ¬ b.Selects f) :
    b.run { change with files := before ++ f :: after } =
      b.run { change with files := before ++ after } := by
  refine run_congr ?_ rfl
  simp only [Changeset.filesMatching, List.filter_append]
  rw [List.filter_cons_of_neg (by exact h)]

theorem runChecks_reading (config : Config) (checks : List BuiltIn) (change : Changeset) :
    let enabled := checks.filter fun b => config.isEnabled b.kind.name
    let run (files : List ChangedFile) :=
      runChecks config (checks.map BuiltIn.toCheck) { change with files }
    ((∃ e, run change.files = .error e) ↔
      ∃ b ∈ enabled, ∃ f ∈ change.files, b.Selects f ∧ ¬ f.IsText) ∧
    (∀ e, run change.files = .error e ↔ ∃ before b after f fault,
      enabled = before ++ b :: after ∧
      (∀ c ∈ before, ∀ g ∈ change.files, c.Selects g → g.IsText) ∧
      b.StopsAt change.files f ∧ f.text = .error fault ∧
      .undecodable b.kind.name f.path fault = e) ∧
    ∀ before f after, (∀ b ∈ enabled, ¬ b.Selects f) →
      (∀ bytes, run (before ++ { f with bytes } :: after) = run (before ++ f :: after)) ∧
      (run (before ++ f :: after)).map (·.diagnostics) =
        (run (before ++ after)).map (·.diagnostics) := by
  intro enabled run
  refine ⟨?_, ?_, ?_⟩
  · simp only [run, runChecks_toCheck_eq_error_iff, exists_firstFailure_iff, BuiltIn.run_fails_iff]
    rfl
  · intro e
    simp only [run, runChecks_toCheck_eq_error_iff, FirstFailure, BuiltIn.run_succeeds_iff,
      BuiltIn.run_eq_error_iff_stopsAt]
    constructor
    · rintro ⟨before, b, after, hsplit, hbefore, f, fault, hstops⟩
      exact ⟨before, b, after, f, fault, hsplit, hbefore, hstops⟩
    · rintro ⟨before, b, after, f, fault, hsplit, hbefore, hstops⟩
      exact ⟨before, b, after, hsplit, hbefore, f, fault, hstops⟩
  · intro before f after hskipped
    have hfindings (bytes : List UInt8) :
        Check.findings config { change with files := before ++ { f with bytes } :: after }
            (checks.map BuiltIn.toCheck) =
          Check.findings config { change with files := before ++ after }
            (checks.map BuiltIn.toCheck) := by
      refine findings_toCheck_congr ?_
      intro b hb henabled
      -- Which files are selected is not told by their bytes.
      have hskip : ¬ b.Selects { f with bytes } := hskipped b (List.mem_filter.mpr ⟨hb, henabled⟩)
      exact BuiltIn.run_skip hskip
    constructor
    · intro bytes
      simp only [run, runChecks_eq]
      rw [hfindings bytes, ← hfindings f.bytes, List.length_append, List.length_append]
      rfl
    · rw [map_diagnostics_runChecks, map_diagnostics_runChecks]
      exact congrArg _ (hfindings f.bytes)

end Hygiene
