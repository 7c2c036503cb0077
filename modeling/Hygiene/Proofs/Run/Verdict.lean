import Hygiene.Proofs.Outcome.Stable
import Hygiene.Proofs.Run.Basic

/-!
What a run of any checks comes to. It fails with the first failure among the checks that are turned
on. When there is none, its findings are the stable sort of what these checks find, in which only
severities are replaced, so that what blocks a change is decided by the checks one by one. Checks
that are turned off have no part in any of this.
-/

namespace Hygiene

variable {config : Config} {checks : List Check} {change : Changeset}

/-- A run fails exactly with the first failure of a check that is turned on. -/
theorem runChecks_eq_error_iff {e : CheckError} :
    runChecks config checks change = .error e ↔
      FirstFailure (fun c => c.run change) (checks.filter fun c => config.isEnabled c.name) e := by
  rw [runChecks_eq, Except.map_eq_error_iff, Check.findings_eq, collect_eq_error_iff,
    Check.graded_eq]
  exact firstFailure_map

end Hygiene
