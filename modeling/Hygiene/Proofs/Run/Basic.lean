import Hygiene.Proofs.Check.Collect

/-!
A run as a collection: what the checks that are turned on find, one check after the other, with the
severity that counts for each finding, and then sorted.
-/

namespace Hygiene

namespace Check

/-- A finding of a check with the severity that counts, which is the one that the configuration sets
for the check, or else its own. -/
def effective (config : Config) (check : Check) (d : Diagnostic) : Diagnostic :=
  { d with severity := (config.severity? check.name).getD d.severity }

theorem override_eq_map (config : Config) (check : Check) (found : List Diagnostic) :
    check.override config found = found.map (check.effective config) := by
  have heffective : check.effective config =
      fun d => { d with severity := (config.severity? check.name).getD d.severity } := rfl
  rw [override, heffective]
  cases config.severity? check.name with
  | none => exact (List.map_id found).symm
  | some severity => rfl

/-- What a check finds, with the severities that count. -/
def graded (config : Config) (change : Changeset) (check : Check) :
    Except CheckError (List Diagnostic) :=
  (check.run change).map (check.override config)

theorem graded_eq (config : Config) (change : Changeset) :
    graded config change =
      fun c => (c.run change).map fun found => found.map (c.effective config) := by
  funext c
  rw [graded, funext (c.override_eq_map config)]

theorem findings_eq (config : Config) (change : Changeset) (checks : List Check) :
    findings config change checks =
      collect (graded config change) (checks.filter fun c => config.isEnabled c.name) := by
  induction checks with
  | nil => rfl
  | cons check rest ih =>
      by_cases henabled : config.isEnabled check.name
      · rw [List.filter_cons_of_pos (by exact henabled), findings, if_pos henabled, collect, graded,
          ih]
        cases check.run change <;> rfl
      · rw [List.filter_cons_of_neg (by exact henabled), findings, if_neg henabled, ih]

end Check

theorem runChecks_eq (config : Config) (checks : List Check) (change : Changeset) :
    runChecks config checks change =
      (Check.findings config change checks).map fun found =>
        Outcome.sort ⟨found, UInt64.ofNat change.files.length⟩ := by
  rw [runChecks]
  cases Check.findings config change checks <;> rfl

end Hygiene
