import Mathlib.Tactic
import Hygiene.Proofs.Except
import Hygiene.Source.Workspace

/-!
The walk of a tree that is there.
-/

namespace Hygiene.Workspace

def walk (w : Workspace) (h : Host) : Walk :=
  ⟨w.respectGitignore, h.currentPath, if w.respectGitignore then h.ignoreRules else []⟩

theorem files_eq_ok {w : Workspace} {h : Host} {globs : List Glob} {place : List String} {t : Tree}
    (hglobs : readGlobs w.exclude = .ok globs) (hroot : isStandardInput w.root = false)
    (hplace : h.locate w.root = .ok place) (hget : h.get w.root = .ok t)
    (hlevels : (Ignore.Level.around w.respectGitignore h.top place).all (!·.isMalformed)) :
    w.files h =
      .ok ((((w.walk h).filesBelow (Ignore.Level.around w.respectGitignore h.top place) w.root
        t).map fun x => ChangedFile.new x.1 x.2 w.root).filter fun f =>
          !excludes globs f.localPath) := by
  have hgood : (Ignore.Level.around w.respectGitignore h.top place).any (·.isMalformed) =
      false := by
    simpa using hlevels
  unfold files found
  apply Except.bind_eq_ok_iff.mpr ⟨globs, hglobs, ?_⟩
  rw [hroot, if_neg Bool.false_ne_true]
  refine Except.bind_eq_ok_iff.mpr ⟨_, ?_, rfl⟩
  apply Except.bind_eq_ok_iff.mpr ⟨place, Except.mapError_eq_ok_iff.mpr hplace, ?_⟩
  apply Except.bind_eq_ok_iff.mpr ⟨t, Except.mapError_eq_ok_iff.mpr hget, ?_⟩
  dsimp only
  rw [hgood, Bool.and_false]
  rfl

variable {w : Walk} {levels : List Ignore.Level} {p : Path}

theorem filesBelow_nil : w.filesBelow levels p (.directory []) = [] := by
  rw [Walk.filesBelow, Walk.filesAmong]
  simp

/-- A directory with nothing but a file. -/
theorem filesBelow_file {name : String} {bytes : List UInt8}
    (hkept : ¬ w.skips (Ignore.Level.ofDirectory w.respectGitignore
      (.directory [(name, .file bytes)]) [] :: levels) name (p.entry name)
        (Tree.file bytes).isDirectory) :
    w.filesBelow levels p (.directory [(name, .file bytes)]) = [(p.entry name, bytes)] := by
  rw [Walk.filesBelow, Walk.filesAmong, if_neg hkept, Walk.filesAmong, Walk.filesBelow]
  simp

end Hygiene.Workspace
