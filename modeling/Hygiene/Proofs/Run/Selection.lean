import Hygiene.Proofs.Check.Selected
import Hygiene.Proofs.Run.Verdict

/-!
Which checks a run consults. A configuration has a say twice: when checks are made from it, where
the preset and the sections add up, and in the run, where sections turn checks off. Both together
come to one rule for each check, by its own section and else by the preset.
-/

namespace Hygiene

/-! ### The checks that are consulted -/

namespace Check

variable {config : Config} {change : Changeset} {checks : List Check}

/-- What a run finds, with a record of the checks that it consults, in order. -/
def recorded (config : Config) (change : Changeset) :
    List Check → List Check × Except CheckError (List Diagnostic)
  | [] => ([], .ok [])
  | check :: rest =>
      if config.isEnabled check.name then
        match check.run change with
        | .error e => ([check], .error e)
        | .ok found =>
            let (consulted, more) := recorded config change rest
            (check :: consulted, more.map (check.override config found ++ ·))
      else recorded config change rest

/-- Keeping the record changes nothing. -/
theorem recorded_findings (config : Config) (change : Changeset) (checks : List Check) :
    (recorded config change checks).2 = findings config change checks := by
  induction checks with
  | nil => rfl
  | cons check rest ih =>
      rw [recorded, findings]
      by_cases henabled : config.isEnabled check.name = true
      · rw [if_pos henabled, if_pos henabled, ← ih]
        cases check.run change with
        | error e => rfl
        | ok found =>
            generalize recorded config change rest = record
            obtain ⟨consulted, more⟩ := record
            cases more <;> rfl
      · rw [if_neg henabled, if_neg henabled, ih]

/-- A run that succeeds has consulted all checks that are turned on. -/
theorem consulted_of_ok {found : List Diagnostic} (h : findings config change checks = .ok found) :
    (recorded config change checks).1 = checks.filter fun c => config.isEnabled c.name := by
  induction checks generalizing found with
  | nil => rfl
  | cons check rest ih =>
      rw [findings] at h
      rw [recorded]
      by_cases henabled : config.isEnabled check.name = true
      · rw [if_pos henabled] at h
        obtain ⟨here, hhere, h⟩ := Except.bind_eq_ok_iff.mp h
        obtain ⟨more, hmore, -⟩ := Except.bind_eq_ok_iff.mp h
        rw [if_pos henabled, hhere, List.filter_cons_of_pos (by exact henabled), ← ih hmore]
      · rw [if_neg henabled] at h
        rw [if_neg henabled, List.filter_cons_of_neg (by exact henabled), ih h]

/-- One that fails has consulted them up to the one with which it fails. -/
theorem consulted_of_error {e : CheckError} (h : findings config change checks = .error e) :
    ∃ before c after, (checks.filter fun c => config.isEnabled c.name) = before ++ c :: after ∧
      (recorded config change checks).1 = before ++ [c] ∧ c.run change = .error e := by
  induction checks with
  | nil => cases h
  | cons check rest ih =>
      rw [findings] at h
      rw [recorded]
      by_cases henabled : config.isEnabled check.name = true
      · rw [if_pos henabled] at h
        rw [if_pos henabled, List.filter_cons_of_pos (by exact henabled)]
        cases hhere : check.run change with
        | error e' =>
            rw [hhere] at h
            cases h
            exact ⟨[], check, _, rfl, rfl, hhere⟩
        | ok here =>
            have hmore : findings config change rest = .error e := by
              rw [hhere] at h
              cases hrest : findings config change rest with
              | error e' =>
                  rw [hrest] at h
                  cases h
                  rfl
              | ok more =>
                  rw [hrest] at h
                  cases h
            obtain ⟨before, c, after, hfilter, hrecord, hc⟩ := ih hmore
            refine ⟨check :: before, c, after, by rw [hfilter, List.cons_append], ?_, hc⟩
            exact congrArg (check :: ·) hrecord
      · rw [if_neg henabled] at h
        rw [if_neg henabled, List.filter_cons_of_neg (by exact henabled)]
        exact ih h

end Check

/-! ### The rule for one check -/

def Preset.spelling : Preset → String
  | recommended => "recommended"
  | strict => "strict"
  | minimal => "minimal"

namespace Config

variable {c : Config} {kind : CheckKind}

/-- A configuration names a preset, in any ASCII case. -/
def NamesPreset (c : Config) (name : String) : Prop :=
  ∃ text, c.preset = some text ∧ text.map Char.toLower = name

/-- A check is wanted when its own section turns it on, or leaves that open and the preset includes
it. All presets include all checks but the minimal one, and no preset or an unknown one counts as
one that does. -/
def Wants (c : Config) (kind : CheckKind) : Prop :=
  (c.ownSection kind).enabled = some true ∨
    (c.ownSection kind).enabled = none ∧ (kind = .noMixing ∨ ¬ c.NamesPreset "minimal")

theorem basePreset_eq_iff {preset : Preset} (h : preset ≠ .recommended) :
    c.basePreset = preset ↔ c.NamesPreset preset.spelling := by
  rw [basePreset, NamesPreset]
  cases c.preset with
  | none => simpa using h.symm
  | some text =>
      simp only [Option.bind_some, Option.some.injEq, exists_eq_left', Preset.ofText?]
      cases preset <;> split <;> simp_all [Preset.spelling]

theorem mandatesByPreset_iff :
    c.MandatesByPreset kind ↔
      c.NamesPreset "strict" ∧ kind = .bugEntry ∧ (c.ownSection kind).get? "require" = none := by
  have hstrict : c.basePreset = .strict ↔ c.NamesPreset "strict" := basePreset_eq_iff (by decide)
  rw [MandatesByPreset, hstrict, Option.isNone_iff_eq_none]

theorem includes_basePreset_iff :
    c.basePreset.includes kind = true ↔ kind = .noMixing ∨ ¬ c.NamesPreset "minimal" := by
  have hminimal : c.basePreset = .minimal ↔ c.NamesPreset "minimal" :=
    basePreset_eq_iff (by decide)
  rw [← hminimal]
  cases c.basePreset <;> simp [Preset.includes]

theorem enabled_ownSection :
    (c.section? kind.name).bind (·.enabled) = (c.ownSection kind).enabled := by
  rw [ownSection]
  cases c.section? kind.name <;> rfl

/-- What the making of checks and the run of them say, taken together. -/
theorem selects_and_isEnabled_iff :
    c.selects kind = true ∧ c.isEnabled kind.name = true ↔ c.Wants kind := by
  rw [selects, isEnabled, Wants, enabled_ownSection, Bool.or_eq_true, includes_basePreset_iff]
  cases (c.ownSection kind).enabled with
  | none => simp
  | some on => cases on <;> simp

end Config

/-- The run of the checks that a configuration selects consults each check that the configuration
wants, once and in the order of the codes, up to a failure if there is one. Each is the check made
from its own section, but for the reference to an issue that the strict preset makes mandatory where
the section leaves that open. -/
theorem runChecks_selected {config : Config} {checks : List BuiltIn}
    (h : config.selectedChecks = .ok checks) :
    ∃ due : List BuiltIn,
      (due.map fun b => b.kind.code).Sublist ["PS001", "PS002", "PS003"] ∧
      (∀ kind, kind ∈ due.map BuiltIn.kind ↔ config.Wants kind) ∧
      (∀ b ∈ due, ∃ own, BuiltIn.ofSection (config.ownSection b.kind) b.kind = .ok own ∧
        let mandated := config.NamesPreset "strict" ∧ b.kind = .bugEntry ∧
          (config.ownSection b.kind).get? "require" = none
        (¬ mandated → b = own) ∧
          (mandated → ∃ rule : Bug.Rule, own = .bugEntry { rule with require := false } ∧
            b = .bugEntry { rule with require := true })) ∧
      ∀ change,
        let run := runChecks config (checks.map BuiltIn.toCheck) change
        let record := Check.recorded config change (checks.map BuiltIn.toCheck)
        run = (record.2.map fun found =>
          Outcome.sort ⟨found, UInt64.ofNat change.files.length⟩) ∧
        (∀ o, run = .ok o → record.1 = due.map BuiltIn.toCheck) ∧
        ∀ e, run = .error e → ∃ before b after, due = before ++ b :: after ∧
          record.1 = (before ++ [b]).map BuiltIn.toCheck ∧ b.run change = .error e := by
  obtain ⟨hkinds, hmade⟩ := Config.of_checksAmong h
  let due := checks.filter fun b => config.isEnabled b.kind.name
  have hdue : due.map BuiltIn.kind =
      (CheckKind.all.filter config.selects).filter fun kind => config.isEnabled kind.name := by
    rw [← hkinds, List.filter_map]
    rfl
  have henabled : ((checks.map BuiltIn.toCheck).filter fun c => config.isEnabled c.name) =
      due.map BuiltIn.toCheck := by
    rw [List.filter_map]
    rfl
  refine ⟨due, ?_, ?_, ?_, ?_⟩
  · have hsublist : (due.map BuiltIn.kind).Sublist CheckKind.all := by
      rw [hdue]
      exact List.filter_sublist.trans List.filter_sublist
    have hcodes := hsublist.map CheckKind.code
    rw [List.map_map] at hcodes
    exact hcodes
  · intro kind
    have hall : kind ∈ CheckKind.all := by cases kind <;> decide
    rw [hdue, List.mem_filter, List.mem_filter, ← Config.selects_and_isEnabled_iff]
    simp only [hall, true_and]
  · intro b hb
    obtain ⟨own, hown, hsame, hmandated⟩ :=
      Config.exists_ofSection_ownSection (hmade b (List.mem_of_mem_filter hb))
    rw [Config.mandatesByPreset_iff] at hsame hmandated
    exact ⟨own, hown, fun hopen => (hsame hopen).symm, hmandated⟩
  · intro change run record
    refine ⟨?_, ?_, ?_⟩
    · simp only [run, record]
      rw [runChecks_eq, Check.recorded_findings]
    · intro o ho
      obtain ⟨found, hfound, -⟩ := Except.map_eq_ok_iff.mp ((runChecks_eq _ _ _).symm.trans ho)
      exact (Check.consulted_of_ok hfound).trans henabled
    · intro e he
      have hfound := Except.map_eq_error_iff.mp ((runChecks_eq _ _ _).symm.trans he)
      obtain ⟨before, c, after, hsplit, hrecord, hc⟩ := Check.consulted_of_error hfound
      rw [henabled] at hsplit
      obtain ⟨first, rest, hfirst, rfl, hrest⟩ := List.map_eq_append_iff.mp hsplit
      obtain ⟨b, last, rfl, rfl, rfl⟩ := List.map_eq_cons_iff.mp hrest
      refine ⟨first, b, last, hfirst, ?_, hc⟩
      rw [List.map_append]
      exact hrecord

/-- A strict configuration that turns one check off and sets an option of another. -/
def tunedStrict : Config :=
  { Config.default with
    preset := some "Strict"
    checks :=
      [("proto-trailing-newline", ⟨some false, none, []⟩),
        ("bug-entry-syntax", ⟨none, none, [("chromium_threshold", .integer 5)]⟩)] }

theorem runChecks_selected_tunedStrict :
    tunedStrict.selectedChecks = .ok
      [.bugEntry ⟨true, 5, Bug.defaultPattern⟩, .singleNewline BuiltIn.schemaFiles,
        .noMixing BuiltIn.buildFiles] ∧
    ∃ due : List BuiltIn,
      (due.map fun b => b.kind.code).Sublist ["PS001", "PS002", "PS003"] ∧
      CheckKind.bugEntry ∈ due.map BuiltIn.kind ∧
      CheckKind.singleNewline ∉ due.map BuiltIn.kind ∧
      CheckKind.noMixing ∈ due.map BuiltIn.kind := by
  have hchecks : tunedStrict.selectedChecks = .ok
      [.bugEntry ⟨true, 5, Bug.defaultPattern⟩, .singleNewline BuiltIn.schemaFiles,
        .noMixing BuiltIn.buildFiles] := by decide +kernel
  obtain ⟨due, hcodes, hdue, -⟩ := runChecks_selected hchecks
  have hminimal : ¬ tunedStrict.NamesPreset "minimal" := by
    rintro ⟨text, htext, hlower⟩
    obtain rfl := Option.some.inj htext
    exact absurd hlower (by decide +kernel)
  have hopen (kind : CheckKind) (h : (tunedStrict.ownSection kind).enabled = none) :
      kind ∈ due.map BuiltIn.kind :=
    (hdue kind).mpr (Or.inr ⟨h, Or.inr hminimal⟩)
  have hoff : (tunedStrict.ownSection .singleNewline).enabled = some false := by decide +kernel
  refine ⟨hchecks, due, hcodes, hopen _ (by decide +kernel), ?_, hopen _ (by decide +kernel)⟩
  rw [hdue, Config.Wants, hoff]
  simp

end Hygiene
