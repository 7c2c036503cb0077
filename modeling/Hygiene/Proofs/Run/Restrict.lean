import Hygiene.CommandLine.Command
import Hygiene.Proofs.Check.Selected
import Hygiene.Proofs.Outcome.Stable
import Hygiene.Proofs.Run

/-!
A run that is restricted to one of the selected checks. It finds what the run of all of them finds
with that check, except in one case: the strict preset makes a reference to an issue mandatory where
the section of the check leaves it open, and naming the check passes over the preset.
-/

namespace Hygiene

theorem CheckKind.name_injective : Function.Injective CheckKind.name := by
  intro kind kind' h
  cases kind <;> cases kind' <;> first | rfl | exact absurd h (by decide)

/-! ### The findings of one check among those of a run -/

namespace Check

theorem findings_toCheck_filter {config : Config} {change : Changeset} {checks : List BuiltIn}
    {found : List Diagnostic}
    (h : findings config change (checks.map BuiltIn.toCheck) = .ok found) (kind : CheckKind) :
    findings config change ((checks.filter fun b => b.kind = kind).map BuiltIn.toCheck) =
      .ok (found.filter fun d => d.check = kind.name) := by
  have hchecks : (checks.filter fun b => b.kind = kind).map BuiltIn.toCheck =
      (checks.map BuiltIn.toCheck).filter fun c => c.name = kind.name := by
    rw [List.filter_map]
    refine congrArg _ (List.filter_congr ?_)
    intro b _
    exact decide_eq_decide.mpr CheckKind.name_injective.eq_iff.symm
  rw [findings_eq] at h
  rw [findings_eq, hchecks, List.filter_filter]
  simp only [Bool.and_comm]
  rw [← List.filter_filter]
  refine collect_filter h ?_
  intro c hc here hhere
  obtain ⟨b, -, rfl⟩ := List.mem_map.mp (List.mem_of_mem_filter hc)
  obtain ⟨ungraded, hrun, rfl⟩ := Except.map_eq_ok_iff.mp hhere
  have hnames : ∀ d ∈ b.toCheck.override config ungraded, d.check = b.kind.name := by
    rw [override_eq_map]
    intro d hd
    obtain ⟨first, hfirst, rfl⟩ := List.mem_map.mp hd
    exact (BuiltIn.finding_of_mem_run hrun hfirst).check_eq
  by_cases hkind : b.toCheck.name = kind.name
  · rw [decide_eq_true hkind, if_pos rfl, List.filter_eq_self]
    intro d hd
    exact decide_eq_true ((hnames d hd).trans hkind)
  · rw [decide_eq_false hkind, if_neg Bool.false_ne_true, List.filter_eq_nil_iff]
    intro d hd hcheck
    exact hkind ((hnames d hd).symm.trans (of_decide_eq_true hcheck))

end Check

theorem runChecks_filter_kind {config : Config} {change : Changeset} {checks : List BuiltIn}
    {whole : Outcome} (h : runChecks config (checks.map BuiltIn.toCheck) change = .ok whole)
    (kind : CheckKind) :
    ∃ part, runChecks config ((checks.filter fun b => b.kind = kind).map BuiltIn.toCheck) change =
        .ok part ∧
      part.filesChecked = whole.filesChecked ∧
      part.diagnostics = whole.diagnostics.filter fun d => d.check = kind.name := by
  rw [runChecks_eq] at h
  obtain ⟨found, hfound, rfl⟩ := Except.map_eq_ok_iff.mp h
  rw [runChecks_eq, Check.findings_toCheck_filter hfound kind]
  exact ⟨_, rfl, rfl, Outcome.diagnostics_sort_filter _ _ _ _⟩

/-! ### The restricted run -/

/-- The run of a check by its name passes over the preset, and the change is one for which that
matters. -/
def Config.Overlooks (c : Config) (kind : CheckKind) (change : Changeset) : Prop :=
  c.MandatesByPreset kind ∧ c.isEnabled kind.name = true ∧ change.bug = none

namespace CommandLine

theorem checksFor_one {config : Config} {kind : CheckKind} {text : String}
    (htext : text = kind.name ∨ text = kind.code) {b : BuiltIn}
    (hb : BuiltIn.ofSection (config.ownSection kind) kind = .ok b) :
    checksFor config (some text) = .ok [b] := by
  have hnames : namesIn text = [text] ∧ CheckKind.ofText? text = some kind := by
    rcases htext with rfl | rfl <;> cases kind <;> decide
  rw [checksFor, hnames.1, namedChecks, hnames.2]
  change (do
    let check ← (BuiltIn.ofSection (config.ownSection kind) kind).mapError _
    return check :: (← namedChecks config [])) = _
  rw [hb]
  rfl

end CommandLine

namespace BuiltIn

def missingReference : Diagnostic := bugDiagnostic s!"Missing BUG entry. {Bug.exampleText}"

theorem run_bugEntry_of_none {change : Changeset} (h : change.bug = none) (rule : Bug.Rule) :
    (bugEntry rule).run change = .ok (if rule.require then [missingReference] else []) := by
  rw [run, runBugEntry, h]
  rfl

theorem run_bugEntry_of_some {change : Changeset} {field : String} (h : change.bug = some field)
    (rule : Bug.Rule) (require require' : Bool) :
    (bugEntry { rule with require }).run change =
      (bugEntry { rule with require := require' }).run change := by
  rw [run, run, runBugEntry, runBugEntry, h]
  rfl

end BuiltIn

theorem Check.findings_singleton (config : Config) (change : Changeset) (check : Check) :
    findings config change [check] =
      if config.isEnabled check.name then graded config change check else .ok [] := by
  rw [findings, graded]
  split
  · cases check.run change with
    | error e => rfl
    | ok found => exact congrArg Except.ok (List.append_nil _)
  · rfl

theorem findings_singleton_congr {config : Config} {change : Changeset} {b other : BuiltIn}
    (hkind : b.kind = other.kind)
    (hrun : config.isEnabled b.kind.name = true → b.run change = other.run change) :
    Check.findings config change [b.toCheck] = Check.findings config change [other.toCheck] := by
  have hname : b.toCheck.name = other.toCheck.name := congrArg CheckKind.name hkind
  have hoverride : b.toCheck.override config = other.toCheck.override config := by
    funext found
    rw [Check.override, Check.override, hname]
  rw [Check.findings_singleton, Check.findings_singleton, Check.graded, Check.graded, ← hname,
    ← hoverride]
  by_cases henabled : config.isEnabled b.toCheck.name = true
  · rw [if_pos henabled, if_pos henabled]
    exact congrArg _ (hrun henabled)
  · rw [if_neg henabled, if_neg henabled]

theorem runChecks_bugEntry_of_none {config : Config} {change : Changeset}
    (henabled : config.isEnabled CheckKind.bugEntry.name = true) (hbug : change.bug = none)
    (rule : Bug.Rule) :
    runChecks config [(BuiltIn.bugEntry rule).toCheck] change =
      .ok ⟨if rule.require then [Check.regrade config BuiltIn.missingReference] else [],
        UInt64.ofNat change.files.length⟩ := by
  have hcheck : config.isEnabled (BuiltIn.bugEntry rule).toCheck.name = true := henabled
  have hrun : (BuiltIn.bugEntry rule).toCheck.run change = _ :=
    BuiltIn.run_bugEntry_of_none hbug rule
  rw [runChecks_eq, Check.findings_singleton, if_pos hcheck, Check.graded, hrun, Except.map,
    Check.override_eq_map, Except.map]
  cases rule.require with
  | false => simp [Outcome.sort]
  | true =>
      simp [Outcome.sort]
      rfl

/-- A check that is asked for by its name or its code finds what it finds among all selected checks,
unless it is the one on references to issues, the strict preset makes them mandatory, and the change
has none. It then finds nothing. -/
theorem runChecks_restricted {config : Config} {checks : List BuiltIn} {change : Changeset}
    {whole : Outcome} {b : BuiltIn} {text : String} (hchecks : config.selectedChecks = .ok checks)
    (hwhole : runChecks config (checks.map BuiltIn.toCheck) change = .ok whole) (hb : b ∈ checks)
    (htext : text = b.kind.name ∨ text = b.kind.code) :
    ∃ named part, CommandLine.checksFor config (some text) = .ok named ∧
      runChecks config (named.map BuiltIn.toCheck) change = .ok part ∧
      part.filesChecked = whole.filesChecked ∧
      let here := whole.diagnostics.filter fun d => d.check = b.kind.name
      (¬ config.Overlooks b.kind change → part.diagnostics = here) ∧
      (config.Overlooks b.kind change →
        part.diagnostics = [] ∧ here = [Check.regrade config BuiltIn.missingReference]) := by
  obtain ⟨own, hown, hsame, hpreset⟩ :=
    Config.exists_ofSection_ownSection ((Config.of_checksAmong hchecks).2 b hb)
  obtain ⟨part, hpart, hfiles, hfound⟩ := runChecks_filter_kind hwhole b.kind
  rw [Config.filter_kind_selectedChecks hchecks hb] at hpart
  have hnamed := CommandLine.checksFor_one htext hown
  by_cases hoverlooks : config.Overlooks b.kind change
  · obtain ⟨hmandates, henabled, hbug⟩ := hoverlooks
    obtain ⟨rule, rfl, rfl⟩ := hpreset hmandates
    -- Both runs can be written out: the rule is all that is left to tell them apart.
    have hown := runChecks_bugEntry_of_none henabled hbug { rule with require := false }
    have hwith := runChecks_bugEntry_of_none henabled hbug { rule with require := true }
    obtain rfl := Except.ok.inj (hwith.symm.trans hpart)
    refine ⟨_, _, hnamed, hown, hfiles, ?_, fun _ => ⟨rfl, hfound.symm⟩⟩
    exact fun h => absurd ⟨hmandates, henabled, hbug⟩ h
  · have hfindings : Check.findings config change [own.toCheck] =
        Check.findings config change [b.toCheck] := by
      refine findings_singleton_congr (BuiltIn.kind_of_ofSection hown) ?_
      intro henabled
      -- Where the preset matters, the change has a reference, so that none is asked for.
      by_cases hmandates : config.MandatesByPreset b.kind
      · obtain ⟨rule, rfl, rfl⟩ := hpreset hmandates
        cases hbug : change.bug with
        | none => exact absurd ⟨hmandates, henabled, hbug⟩ hoverlooks
        | some field => exact BuiltIn.run_bugEntry_of_some hbug rule false true
      · rw [hsame hmandates]
    refine ⟨[own], part, hnamed, ?_, hfiles, fun _ => hfound, fun h => absurd h hoverlooks⟩
    rw [runChecks_eq] at hpart
    rw [runChecks_eq, List.map_singleton, hfindings]
    exact hpart

def strictDefault : Config := { Config.default with preset := some "strict" }

theorem basePreset_strictDefault : strictDefault.basePreset = .strict := by decide +kernel

theorem selectedChecks_strictDefault : strictDefault.selectedChecks = .ok Preset.strict.checks := by
  decide +kernel

theorem runChecks_restricted_strictDefault :
    ∃ whole, runChecks strictDefault (Preset.strict.checks.map BuiltIn.toCheck)
        ⟨⟨"/r"⟩, tiedFiles, none⟩ = .ok whole ∧
      whole.diagnostics.length = 3 ∧
      (∃ named part, CommandLine.checksFor strictDefault (some "PS002") = .ok named ∧
        runChecks strictDefault (named.map BuiltIn.toCheck) ⟨⟨"/r"⟩, tiedFiles, none⟩ = .ok part ∧
        part.diagnostics =
          whole.diagnostics.filter fun d => d.check = "proto-trailing-newline") ∧
      ∃ named part, CommandLine.checksFor strictDefault (some "bug-entry-syntax") = .ok named ∧
        runChecks strictDefault (named.map BuiltIn.toCheck) ⟨⟨"/r"⟩, tiedFiles, none⟩ = .ok part ∧
        part.diagnostics = [] := by
  let change : Changeset := ⟨⟨"/r"⟩, tiedFiles, none⟩
  have hlength : (Check.findings strictDefault change
      (Preset.strict.checks.map BuiltIn.toCheck)).toOption.map List.length = some 3 := by
    decide +kernel
  cases hfound : Check.findings strictDefault change
      (Preset.strict.checks.map BuiltIn.toCheck) with
  | error e => simp [hfound, Except.toOption] at hlength
  | ok found =>
      have hwhole : runChecks strictDefault (Preset.strict.checks.map BuiltIn.toCheck) change =
          .ok (Outcome.sort ⟨found, 2⟩) := by
        rw [runChecks_eq, hfound]
        rfl
      have hfiles : BuiltIn.singleNewline BuiltIn.schemaFiles ∈ Preset.strict.checks := by
        simp [Preset.checks]
      have hbug : BuiltIn.bugEntry { Bug.Rule.default with require := true } ∈
          Preset.strict.checks := List.mem_cons_self
      obtain ⟨named, part, hnamed, hpart, -, hsame, -⟩ := runChecks_restricted
        selectedChecks_strictDefault hwhole hfiles (Or.inr rfl)
      obtain ⟨named', part', hnamed', hpart', -, -, hnone⟩ := runChecks_restricted
        selectedChecks_strictDefault hwhole hbug (Or.inl rfl)
      refine ⟨_, hwhole, ?_, ⟨named, part, hnamed, hpart, hsame ?_⟩, named', part', hnamed', hpart',
        (hnone ?_).1⟩
      · rw [hfound] at hlength
        exact (Outcome.perm_sort _).length_eq.trans (Option.some.inj hlength)
      · rintro ⟨⟨-, hkind, -⟩, -⟩
        exact absurd hkind (by decide)
      · exact ⟨⟨basePreset_strictDefault, rfl, rfl⟩, rfl, rfl⟩

/-- A change that refers to no issue is found by the run of all checks under the strict preset, and
goes unnoticed when the check is asked for by its name or its code. -/
theorem restricted_overlooks_strictDefault :
    ∃ whole part, strictDefault.selectedChecks = .ok Preset.strict.checks ∧
      runChecks strictDefault (Preset.strict.checks.map BuiltIn.toCheck) ⟨⟨"/r"⟩, [], none⟩ =
        .ok whole ∧
      CommandLine.checksFor strictDefault (some "bug-entry-syntax") =
        .ok [.bugEntry Bug.Rule.default] ∧
      CommandLine.checksFor strictDefault (some "PS001") = .ok [.bugEntry Bug.Rule.default] ∧
      runChecks strictDefault [(BuiltIn.bugEntry Bug.Rule.default).toCheck] ⟨⟨"/r"⟩, [], none⟩ =
        .ok part ∧
      part.diagnostics ≠ whole.diagnostics.filter fun d => d.check = "bug-entry-syntax" := by
  have hnamed {text : String}
      (h : text = CheckKind.bugEntry.name ∨ text = CheckKind.bugEntry.code) :
      CommandLine.checksFor strictDefault (some text) = .ok [.bugEntry Bug.Rule.default] :=
    CommandLine.checksFor_one h rfl
  have hwhole : Check.findings strictDefault ⟨⟨"/r"⟩, [], none⟩
      (Preset.strict.checks.map BuiltIn.toCheck) = .ok [BuiltIn.missingReference] := by
    decide +kernel
  refine ⟨⟨[BuiltIn.missingReference], 0⟩, ⟨[], 0⟩, selectedChecks_strictDefault, ?_,
    hnamed (Or.inl rfl), hnamed (Or.inr rfl), ?_, by decide +kernel⟩
  · rw [runChecks_eq, hwhole, Except.map, Outcome.sort, List.mergeSort_singleton]
    rfl
  · exact runChecks_bugEntry_of_none rfl rfl Bug.Rule.default

end Hygiene
