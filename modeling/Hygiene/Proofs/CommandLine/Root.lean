import Mathlib
import Hygiene.CommandLine.Command
import Hygiene.Proofs.CommandLine.Arguments
import Hygiene.Proofs.Disk
import Hygiene.Proofs.Run.Basic
import Hygiene.Proofs.Source.Workspace

/-!
The root of a check. A configuration names a root, which counts in a run that is set up without one.
The command always sets one up with a root: if none is given, it takes the current directory, so the
root of the configuration never counts.
-/

namespace Hygiene

/-! ### Configurations that differ in their settings of files -/

namespace Config

def withRoot (c : Config) (p : Path) : Config := { c with files := { c.files with root := p } }

def excluding (c : Config) (globs : List String) : Config :=
  { c with files := { c.files with exclude := c.files.exclude ++ globs } }

variable (c : Config) (p : Path)

theorem checksAmong_withRoot (kinds : List CheckKind) :
    (c.withRoot p).checksAmong kinds = c.checksAmong kinds := by
  induction kinds with
  | nil => rfl
  | cons kind rest ih =>
      unfold checksAmong
      rw [ih]
      rfl

theorem selectedChecks_withRoot : (c.withRoot p).selectedChecks = c.selectedChecks :=
  checksAmong_withRoot c p _

theorem findings_withRoot (change : Changeset) (checks : List Check) :
    Check.findings (c.withRoot p) change checks = Check.findings c change checks := by
  rw [Check.findings_eq, Check.findings_eq]
  rfl

theorem runChecks_withRoot (checks : List Check) (change : Changeset) :
    runChecks (c.withRoot p) checks change = runChecks c checks change := by
  rw [runChecks_eq, runChecks_eq, findings_withRoot]

end Config

/-- A run comes to what its checks find in the files that it collects. -/
theorem Run.outcome_eq_ok {r : Run} {h : Host} {root : Path} {files : List ChangedFile}
    {found : List Diagnostic}
    (hroot : rootOfRun r.config r.root h.currentPath = root)
    (hfiles : (r.source.getD (.workspace (workspaceOf r.config root))).files h = .ok files)
    (hfound : Check.findings r.config ⟨root, files, r.bug⟩ r.checks = .ok found) :
    r.outcome h = .ok (Outcome.sort ⟨found, UInt64.ofNat files.length⟩) := by
  unfold outcome
  rw [hroot]
  apply Except.bind_eq_ok_iff.mpr ⟨files, Except.mapError_eq_ok_iff.mpr hfiles, ?_⟩
  rw [runChecks_eq, hfound]
  rfl

namespace CommandLine

variable (h : Host) (a : CheckArguments) (c : Config) (p : Path)

theorem namedChecks_withRoot (names : List String) :
    namedChecks (c.withRoot p) names = namedChecks c names := by
  induction names with
  | nil => rfl
  | cons name rest ih =>
      unfold namedChecks
      rw [ih]
      rfl

theorem checksFor_withRoot (asked : Option String) :
    checksFor (c.withRoot p) asked = checksFor c asked := by
  unfold checksFor
  cases asked with
  | none =>
      dsimp only
      rw [Config.selectedChecks_withRoot]
  | some text => exact namedChecks_withRoot c p _

/-! ### Runs with and without a root -/

/-- What checking a change comes to with a configuration, when the checks and the field that refers
to issues are put into a run in some way. -/
def outcomeOf (run : List BuiltIn → Option String → Run) : Except Failure (Outcome × Severity) := do
  let threshold ← c.threshold.mapError fun e => Failure.mk "Invalid fail_on in config" e.messages
  let bug ← bugField h a
  let checks ← checksFor c a.checks
  let outcome ← ((run checks bug).outcome h).mapError fun e =>
    Failure.mk "Presubmit failed" e.messages
  return (outcome, threshold)

def runWithoutRoot (checks : List BuiltIn) (bug : Option String) : Run :=
  ⟨c, none, none, checks.map BuiltIn.toCheck, bug⟩

/-- What checking a change comes to when nothing but the configuration says where its root is. -/
def outcomeWithoutRoot : Except Failure (Outcome × Severity) :=
  outcomeOf h a c (runWithoutRoot c)

theorem checkOutcome_of_loadConfig {loaded : Config}
    (hloaded : loadConfig h (h.currentPath.join a.root) a.config = .ok loaded) :
    checkOutcome h a = outcomeOf h a (loaded.excluding a.exclude) fun checks bug =>
      runOf h (h.currentPath.join a.root) (loaded.excluding a.exclude) checks bug a.paths := by
  unfold checkOutcome
  dsimp only
  rw [hloaded]
  rfl

theorem outcomeOf_congr {run run' : List BuiltIn → Option String → Run}
    (hrun : ∀ checks bug, (run checks bug).outcome h = (run' checks bug).outcome h) :
    outcomeOf h a c run = outcomeOf h a c run' := by
  unfold outcomeOf
  simp only [hrun]

theorem outcomeOf_withRoot (run : List BuiltIn → Option String → Run) :
    outcomeOf h a (c.withRoot p) run = outcomeOf h a c run := by
  unfold outcomeOf
  rw [checksFor_withRoot]
  rfl

/-- A run with a root is a run without one whose configuration has it. -/
theorem outcome_runOf (checks : List BuiltIn) (bug : Option String) :
    (runOf h (h.currentPath.join p) c checks bug []).outcome h =
      (runWithoutRoot (c.withRoot p) checks bug).outcome h := by
  have hroot : rootOfRun c (some (h.currentPath.join p)) h.currentPath =
      rootOfRun (c.withRoot p) none h.currentPath :=
    Path.join_of_isAbsolute (Path.isAbsolute_join h.isAbsolute_currentPath p) h.currentPath
  unfold Run.outcome runOf runWithoutRoot
  simp only [hroot, Config.runChecks_withRoot]
  rfl

variable {h a c}

theorem outcomeOf_eq_ok {run : List BuiltIn → Option String → Run} {threshold : Severity}
    {bug : Option String} {checks : List BuiltIn} {outcome : Outcome}
    (hthreshold : c.threshold = .ok threshold) (hbug : bugField h a = .ok bug)
    (hchecks : checksFor c a.checks = .ok checks)
    (houtcome : (run checks bug).outcome h = .ok outcome) :
    outcomeOf h a c run = .ok (outcome, threshold) := by
  unfold outcomeOf
  apply Except.bind_eq_ok_iff.mpr ⟨threshold, Except.mapError_eq_ok_iff.mpr hthreshold, ?_⟩
  apply Except.bind_eq_ok_iff.mpr ⟨bug, hbug, ?_⟩
  apply Except.bind_eq_ok_iff.mpr ⟨checks, hchecks, ?_⟩
  exact Except.bind_eq_ok_iff.mpr ⟨outcome, Except.mapError_eq_ok_iff.mpr houtcome, rfl⟩

theorem loadConfig_eq_ok {root file : Path} {asked : Option Path} {text : String}
    (hfile : Config.fileFor? h root asked = some file) (htext : h.readText file = .ok text)
    (hread : Config.read text = .ok c) : loadConfig h root asked = .ok c := by
  unfold loadConfig Config.ofFile
  rw [hfile]
  apply Except.mapError_eq_ok_iff.mpr
  exact Except.bind_eq_ok_iff.mpr ⟨text, Except.mapError_eq_ok_iff.mpr htext, hread⟩

/-- Without root and paths, the command comes to what a run without a root comes to, but with the
current directory for the root of the configuration. So it does what the configuration says where
that root is the current directory. -/
theorem checkOutcome_without_root {arguments : List String} {loaded : Config}
    (hcommand : commandFor h arguments = .check a)
    (hroot : ¬ GivesRoot arguments) (hpaths : ¬ GivesPaths arguments)
    (hloaded : loadConfig h (h.currentPath.join a.root) a.config = .ok loaded) :
    let config := loaded.excluding a.exclude
    let here := FileSettings.defaultRoot
    checkOutcome h a = outcomeWithoutRoot h a (config.withRoot here) ∧
      (h.currentPath.join loaded.files.root = h.currentPath.join here →
        checkOutcome h a = outcomeWithoutRoot h a config) := by
  intro config here
  have hgiven : a.root = here := root_of_check hcommand hroot
  have hwhole : a.paths = [] := paths_of_check hcommand hpaths
  have houtcome := checkOutcome_of_loadConfig h a hloaded
  rw [hgiven, hwhole] at houtcome
  have hset (p : Path) (hp : h.currentPath.join p = h.currentPath.join here) :
      checkOutcome h a = outcomeWithoutRoot h a (config.withRoot p) := by
    rw [houtcome, ← hp]
    unfold outcomeWithoutRoot
    rw [outcomeOf_withRoot]
    exact outcomeOf_congr h a config (outcome_runOf h config p)
  exact ⟨hset here rfl, hset loaded.files.root⟩

/-- A machine with two directories: the current one, which holds a file, and an empty one, which a
configuration names. -/
def twoTrees : Host where
  top := .directory [
    ("c.toml", .file (Text.Utf8.encode "[files]\nroot = \"/s\"\n")),
    ("s", .directory []),
    ("w", .directory [("a", .file [])])]
  current := ["w"]
  environment := []

def rootedElsewhere : Config := ⟨none, none, ⟨⟨"/s"⟩, [], true⟩, []⟩

def plainArguments : List String := ["check", "--config", "/c.toml"]

def plainCheck : CheckArguments := ⟨⟨"."⟩, some ⟨"/c.toml"⟩, [], none, none, .text, none, []⟩

theorem commandFor_plainCheck :
    commandFor twoTrees plainArguments = .check plainCheck ∧ ¬ GivesRoot plainArguments ∧
      ¬ GivesPaths plainArguments := by
  have hitems : checkItems plainArguments =
      [.option ⟨"config", some 'c', .path⟩ "/c.toml"] := by decide +kernel
  refine ⟨by decide +kernel, ?_, ?_⟩
  · rintro ⟨o, value, hmem, hname⟩
    rw [hitems, List.mem_singleton] at hmem
    cases hmem
    exact absurd hname (by decide)
  · rintro ⟨text, hmem⟩
    rw [hitems, List.mem_singleton] at hmem
    cases hmem

theorem loadConfig_rootedElsewhere :
    loadConfig twoTrees (twoTrees.currentPath.join ⟨"."⟩) (some ⟨"/c.toml"⟩) =
      .ok rootedElsewhere := by
  have htext : twoTrees.readText ⟨"/c.toml"⟩ = .ok "[files]\nroot = \"/s\"\n" := by
    decide +kernel
  have hread : Config.read "[files]\nroot = \"/s\"\n" = .ok rootedElsewhere := by cbv
  exact loadConfig_eq_ok rfl htext hread

theorem checksFor_rootedElsewhere :
    checksFor rootedElsewhere none = .ok Preset.recommended.checks := rfl

/-- Without a root, the run goes to the empty directory. -/
theorem outcomeWithoutRoot_rootedElsewhere :
    outcomeWithoutRoot twoTrees plainCheck rootedElsewhere =
      .ok (Outcome.sort ⟨[], 0⟩, .error) := by
  have hroot : rootOfRun rootedElsewhere none twoTrees.currentPath = ⟨"/s"⟩ := rfl
  have hplace : twoTrees.locate ⟨"/s"⟩ = .ok ["s"] := rfl
  have hget : twoTrees.get ⟨"/s"⟩ = .ok (.directory []) := rfl
  have hlevels : (Ignore.Level.around true twoTrees.top ["s"]).all (!·.isMalformed) := by
    decide +kernel
  have hfiles := Workspace.files_eq_ok (w := ⟨⟨"/s"⟩, [], true⟩) rfl rfl hplace hget hlevels
  rw [Workspace.filesBelow_nil] at hfiles
  have hfound : Check.findings rootedElsewhere ⟨⟨"/s"⟩, [], none⟩
      (Preset.recommended.checks.map BuiltIn.toCheck) = .ok [] := rfl
  apply outcomeOf_eq_ok rfl rfl checksFor_rootedElsewhere
  exact Run.outcome_eq_ok (r := runWithoutRoot rootedElsewhere _ none) hroot hfiles hfound

/-- The command goes to the current directory. -/
theorem checkOutcome_rootedElsewhere :
    checkOutcome twoTrees plainCheck = .ok (Outcome.sort ⟨[], 1⟩, .error) := by
  have hroot : rootOfRun rootedElsewhere (some (twoTrees.currentPath.join ⟨"."⟩))
      twoTrees.currentPath = ⟨"/w/."⟩ := rfl
  have hplace : twoTrees.locate ⟨"/w/."⟩ = .ok ["w"] := rfl
  have hget : twoTrees.get ⟨"/w/."⟩ = .ok (.directory [("a", .file [])]) := rfl
  have hlevels : (Ignore.Level.around true twoTrees.top ["w"]).all (!·.isMalformed) := by
    decide +kernel
  have hfiles := Workspace.files_eq_ok (w := ⟨⟨"/w/."⟩, [], true⟩) rfl rfl hplace hget hlevels
  rw [Workspace.filesBelow_file (by decide +kernel)] at hfiles
  have hfound : Check.findings rootedElsewhere
      ⟨⟨"/w/."⟩, [.new ⟨"/w/./a"⟩ [] ⟨"/w/."⟩], none⟩
      (Preset.recommended.checks.map BuiltIn.toCheck) = .ok [] := rfl
  rw [checkOutcome_of_loadConfig twoTrees plainCheck loadConfig_rootedElsewhere]
  apply outcomeOf_eq_ok rfl rfl checksFor_rootedElsewhere
  exact Run.outcome_eq_ok (r := runOf twoTrees _ rootedElsewhere _ none []) hroot hfiles hfound

theorem checkOutcome_without_root_twoTrees :
    commandFor twoTrees plainArguments = .check plainCheck ∧ ¬ GivesRoot plainArguments ∧
      ¬ GivesPaths plainArguments ∧
      loadConfig twoTrees (twoTrees.currentPath.join ⟨"."⟩) (some ⟨"/c.toml"⟩) =
        .ok rootedElsewhere ∧
      checkOutcome twoTrees plainCheck =
        outcomeWithoutRoot twoTrees plainCheck (rootedElsewhere.withRoot ⟨"."⟩) := by
  obtain ⟨hcommand, hroot, hpaths⟩ := commandFor_plainCheck
  refine ⟨hcommand, hroot, hpaths, loadConfig_rootedElsewhere, ?_⟩
  exact (checkOutcome_without_root hcommand hroot hpaths loadConfig_rootedElsewhere).1

/-- The configuration names the empty directory, and the command looks at the file in the current
one. -/
theorem checkOutcome_passes_over_root :
    commandFor twoTrees plainArguments = .check plainCheck ∧ ¬ GivesRoot plainArguments ∧
      ¬ GivesPaths plainArguments ∧
      loadConfig twoTrees (twoTrees.currentPath.join ⟨"."⟩) (some ⟨"/c.toml"⟩) =
        .ok rootedElsewhere ∧
      checkOutcome twoTrees plainCheck ≠
        outcomeWithoutRoot twoTrees plainCheck rootedElsewhere := by
  obtain ⟨hcommand, hroot, hpaths⟩ := commandFor_plainCheck
  refine ⟨hcommand, hroot, hpaths, loadConfig_rootedElsewhere, ?_⟩
  rw [checkOutcome_rootedElsewhere, outcomeWithoutRoot_rootedElsewhere]
  intro hsame
  have hcounts : (1 : UInt64) = 0 :=
    congrArg (fun x => x.1.filesChecked) (Except.ok.inj hsame)
  exact absurd hcounts (by decide)

end CommandLine
end Hygiene
