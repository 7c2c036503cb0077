import Mathlib.Tactic
import Hygiene.Proofs.Gn.Dump
import Hygiene.Proofs.Outcome
import Hygiene.Proofs.Run.Basic

/-!
A run of built-in checks does not show the order in which files and checks are given. The findings
are the same up to their order, and sorting brings them into one order, for the key by which they
are sorted pins down a finding of a built-in check: the code tells the check, and the file and the
message tell what is left open. This rests on the message about mixed languages, which holds the
whole report.
-/

namespace Hygiene

namespace BuiltIn

inductive Finding : CheckKind → Diagnostic → Prop
  | bugEntry (message : String) : Finding .bugEntry (bugDiagnostic message)
  | singleNewline (file : ChangedFile) : Finding .singleNewline (newlineDiagnostic file)
  | noMixing (report : Gn.Report) : Finding .noMixing (mixingDiagnostic report)

theorem Finding.code_eq {kind : CheckKind} {d : Diagnostic} (h : Finding kind d) :
    d.code = kind.code := by
  cases h <;> rfl

theorem Finding.check_eq {kind : CheckKind} {d : Diagnostic} (h : Finding kind d) :
    d.check = kind.name := by
  cases h <;> rfl

theorem code_injective : Function.Injective CheckKind.code := by
  intro kind kind' h
  cases kind <;> cases kind' <;> first | rfl | exact absurd h (by decide)

/-- The key pins down what a finding says. -/
theorem Finding.same_of_key_eq {kind kind' : CheckKind} {a b : Diagnostic} (ha : Finding kind a)
    (hb : Finding kind' b) (h : a.key = b.key) : a.Same b := by
  have hkind : kind = kind' := by
    apply code_injective
    rw [← ha.code_eq, ← hb.code_eq]
    exact congrArg Key.code h
  subst hkind
  have hmessage : a.message = b.message := congrArg Key.message h
  cases ha with
  | bugEntry message =>
      cases hb with
      | bugEntry message' => exact ⟨rfl, rfl, rfl, hmessage, rfl, rfl⟩
  | singleNewline file =>
      cases hb with
      | singleNewline file' =>
          have hfile : file.relativePath.components = file'.relativePath.components :=
            Option.some.inj (congrArg Key.file h)
          refine ⟨rfl, rfl, rfl, hmessage, rfl, ?_⟩
          exact congrArg (fun components => [components]) hfile
  | noMixing report =>
      cases hb with
      | noMixing report' =>
          obtain rfl : report = report' := Gn.Report.eq_of_render_eq hmessage
          exact .refl _

theorem finding_of_mem_run {b : BuiltIn} {change : Changeset} {found : List Diagnostic}
    (h : b.run change = .ok found) {d : Diagnostic} (hd : d ∈ found) : Finding b.kind d := by
  cases b with
  | bugEntry rule =>
      obtain rfl := Except.ok.inj h
      rw [runBugEntry] at hd
      split at hd
      · split at hd
        · obtain rfl := List.mem_singleton.mp hd
          exact .bugEntry _
        · simp at hd
      · obtain ⟨message, -, rfl⟩ := List.mem_map.mp hd
        exact .bugEntry message
  | singleNewline patterns =>
      rw [run, newlineDiagnostics_eq] at h
      obtain ⟨file, -, here, hhere, hd⟩ := exists_of_mem_collect h hd
      rw [endFindings] at hhere
      obtain ⟨text, -, rfl⟩ := Except.map_eq_ok_iff.mp hhere
      split at hd
      · simp at hd
      · obtain rfl := List.mem_singleton.mp hd
        exact .singleNewline file
  | noMixing patterns =>
      rw [run_noMixing_eq] at h
      obtain ⟨violations, -, rfl⟩ := Except.map_eq_ok_iff.mp h
      split at hd
      · simp at hd
      · obtain rfl := List.mem_singleton.mp hd
        exact .noMixing _

end BuiltIn

namespace Check

/-- A finding with the severity that the configuration sets for its check, if it sets one. -/
def regrade (config : Config) (d : Diagnostic) : Diagnostic :=
  { d with severity := (config.severity? d.check).getD d.severity }

theorem regrade_same (config : Config) {a b : Diagnostic} (h : a.Same b) :
    (regrade config a).Same (regrade config b) := by
  have hseverity : (regrade config a).severity = (regrade config b).severity := by
    rw [regrade, regrade, h.check, h.severity]
  exact ⟨h.code, h.check, hseverity, h.message, h.help, h.files⟩

theorem override_eq (config : Config) (check : Check) {found : List Diagnostic}
    (h : ∀ d ∈ found, d.check = check.name) :
    check.override config found = found.map (regrade config) := by
  rw [override_eq_map]
  refine List.map_congr_left ?_
  intro d hd
  rw [effective, regrade, h d hd]

end Check

theorem graded_perm (config : Config) (change : Changeset) {files : List ChangedFile}
    (h : change.files.Perm files) (b : BuiltIn) :
    Agree List.Perm (Check.graded config change b.toCheck)
      (Check.graded config { change with files } b.toCheck) := by
  refine (b.run_perm change h).map ?_
  intro found found' hfound
  rw [Check.override_eq_map, Check.override_eq_map]
  exact hfound.map _

theorem findings_perm (config : Config) {checks checks' : List BuiltIn}
    (hchecks : checks.Perm checks') (change : Changeset) {files : List ChangedFile}
    (hfiles : change.files.Perm files) :
    Agree List.Perm (Check.findings config change (checks.map BuiltIn.toCheck))
      (Check.findings config { change with files } (checks'.map BuiltIn.toCheck)) := by
  have henabled := (hchecks.map BuiltIn.toCheck).filter fun c => config.isEnabled c.name
  rw [Check.findings_eq, Check.findings_eq]
  refine (collect_congr _ ?_).trans (collect_perm henabled)
  intro check hcheck
  obtain ⟨b, -, rfl⟩ := List.mem_map.mp (List.mem_of_mem_filter hcheck)
  exact graded_perm config change hfiles b

/-- Every finding of a run is one of a built-in check, up to its severity. -/
theorem exists_finding_of_mem {config : Config} {checks : List BuiltIn} {change : Changeset}
    {found : List Diagnostic}
    (h : Check.findings config change (checks.map BuiltIn.toCheck) = .ok found) {d : Diagnostic}
    (hd : d ∈ found) :
    ∃ kind first, BuiltIn.Finding kind first ∧ d = Check.regrade config first := by
  rw [Check.findings_eq] at h
  obtain ⟨check, hcheck, here, hhere, hd⟩ := exists_of_mem_collect h hd
  obtain ⟨b, -, rfl⟩ := List.mem_map.mp (List.mem_of_mem_filter hcheck)
  obtain ⟨ungraded, hrun, rfl⟩ := Except.map_eq_ok_iff.mp hhere
  have hfinding (d : Diagnostic) (hd : d ∈ ungraded) : BuiltIn.Finding b.kind d :=
    BuiltIn.finding_of_mem_run hrun hd
  rw [Check.override_eq config b.toCheck fun d hd => (hfinding d hd).check_eq] at hd
  obtain ⟨first, hfirst, rfl⟩ := List.mem_map.mp hd
  exact ⟨b.kind, first, hfinding first hfirst, rfl⟩

/-- Neither the order of the files nor that of the checks shows in what a run of built-in checks
gives, nor in whether it gives anything. -/
theorem runChecks_perm (config : Config) {checks checks' : List BuiltIn}
    (hchecks : checks.Perm checks') (change : Changeset) {files : List ChangedFile}
    (hfiles : change.files.Perm files) :
    Agree Outcome.Same (runChecks config (checks.map BuiltIn.toCheck) change)
      (runChecks config (checks'.map BuiltIn.toCheck) { change with files }) := by
  have hfindings := findings_perm config hchecks change hfiles
  have hkey (found : List Diagnostic)
      (hfound : Check.findings config change (checks.map BuiltIn.toCheck) = .ok found) :
      ∀ a ∈ found, ∀ b ∈ found, a.key = b.key → a.Same b := by
    intro a ha b hb hkey
    obtain ⟨kind, a, hfinding, rfl⟩ := exists_finding_of_mem hfound ha
    obtain ⟨kind', b, hfinding', rfl⟩ := exists_finding_of_mem hfound hb
    exact Check.regrade_same config (hfinding.same_of_key_eq hfinding' hkey)
  rw [runChecks_eq, runChecks_eq, ← hfiles.length_eq]
  generalize Check.findings config change (checks.map BuiltIn.toCheck) = x at hfindings hkey ⊢
  generalize Check.findings config { change with files } (checks'.map BuiltIn.toCheck) = y
    at hfindings ⊢
  cases hfindings with
  | error e e' => exact .error e e'
  | ok hfound => exact .ok (Outcome.same_sort_of_perm hfound (hkey _ rfl) _)

/-- Two schema files in the same directory, whose paths are written in two ways. The findings about
them have the same key, so their texts show which of them was given first. -/
def tiedFiles : List ChangedFile :=
  [.new ⟨"/r/a//\\/x.proto"⟩ [0x78] ⟨"/r"⟩, .new ⟨"/r/a/\\//x.proto"⟩ [0x78] ⟨"/r"⟩]

theorem runChecks_perm_tiedFiles :
    ∃ o other,
      runChecks .default [(BuiltIn.singleNewline BuiltIn.schemaFiles).toCheck,
        (BuiltIn.noMixing BuiltIn.buildFiles).toCheck] ⟨⟨"/r"⟩, tiedFiles, none⟩ = .ok o ∧
      runChecks .default [(BuiltIn.noMixing BuiltIn.buildFiles).toCheck,
        (BuiltIn.singleNewline BuiltIn.schemaFiles).toCheck] ⟨⟨"/r"⟩, tiedFiles.reverse, none⟩ =
          .ok other ∧
      o.diagnostics.length = 2 ∧ o.Same other := by
  let checks := [BuiltIn.singleNewline BuiltIn.schemaFiles, BuiltIn.noMixing BuiltIn.buildFiles]
  let change : Changeset := ⟨⟨"/r"⟩, tiedFiles, none⟩
  have hlength : (Check.findings .default change (checks.map BuiltIn.toCheck)).toOption.map
      List.length = some 2 := by decide +kernel
  have hagree := runChecks_perm .default (List.Perm.swap _ _ [] : checks.Perm _) change
    (List.reverse_perm tiedFiles).symm
  cases hfound : Check.findings .default change (checks.map BuiltIn.toCheck) with
  | error e => simp [hfound, Except.toOption] at hlength
  | ok found =>
      have hrun : runChecks .default (checks.map BuiltIn.toCheck) change =
          .ok (Outcome.sort ⟨found, 2⟩) := by
        rw [runChecks_eq, hfound]
        rfl
      obtain ⟨other, hother, hsame⟩ := hagree.exists_of_ok hrun
      refine ⟨_, other, hrun, hother, ?_, hsame⟩
      rw [hfound] at hlength
      exact (Outcome.perm_sort _).length_eq.trans (Option.some.inj hlength)

end Hygiene
