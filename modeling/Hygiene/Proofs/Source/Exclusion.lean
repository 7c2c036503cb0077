import Hygiene.Proofs.Glob.Reader
import Hygiene.Source.Workspace

/-!
Which files a walk leaves out. A file is held against every pattern, and against what is left of the
pattern without the directories at its front. The second look never makes a difference.
-/

namespace Hygiene.Workspace

theorem readGlobs_eq_mapM (texts : List String) :
    readGlobs texts = texts.mapM fun text => (Glob.read text).mapError .badGlob := by
  induction texts with
  | nil => rfl
  | cons text rest ih => rw [readGlobs, List.mapM_cons, ih]

/-- The patterns that are read are those of the texts. -/
theorem mem_iff_of_readGlobs {texts : List String} {globs : List Glob}
    (h : readGlobs texts = .ok globs) (g : Glob) :
    g ∈ globs ↔ ∃ text ∈ texts, Glob.read text = .ok g := by
  rw [readGlobs_eq_mapM, Except.mapM_eq_ok_iff] at h
  simp only [Except.mapError_eq_ok_iff] at h
  induction h with
  | nil => simp
  | @cons text first texts globs hread _ ih =>
      have hfirst : g = first ↔ Glob.read text = .ok g := by
        rw [hread, Except.ok.injEq, eq_comm]
      simp only [List.mem_cons, exists_eq_or_imp, ih, hfirst]

/-- A file is left out exactly if one of the patterns itself matches its path, that is, if the path
falls into pieces that the parts of the pattern cover. What is left of a pattern without the
directories at its front matches nothing else. -/
theorem excludes_iff_isMatch {texts : List String} {globs : List Glob}
    (h : readGlobs texts = .ok globs) (localPath : String) :
    (excludes globs localPath = true ↔
        ∃ text ∈ texts, ∃ g, Glob.read text = .ok g ∧ g.isMatch localPath = true) ∧
      (∀ g ∈ globs, g.isMatch localPath = true ↔ Glob.Covers g.tokens localPath.toList) ∧
      ∀ g ∈ globs, ∀ shorter, g.withoutLeadingDirectories? = some shorter →
        shorter.isMatch localPath = true → g.isMatch localPath = true := by
  have hmem := mem_iff_of_readGlobs h
  have hshorter : ∀ g ∈ globs, ∀ shorter, g.withoutLeadingDirectories? = some shorter →
      shorter.isMatch localPath = true → g.isMatch localPath = true := by
    intro g hg shorter hstrip hmatch
    obtain ⟨text, -, hread⟩ := (hmem g).mp hg
    exact Glob.isMatch_of_shorter hread hstrip hmatch
  refine ⟨?_, ?_, hshorter⟩
  · rw [excludes, List.any_eq_true]
    constructor
    · rintro ⟨g, hg, hexcluded⟩
      obtain ⟨text, htext, hread⟩ := (hmem g).mp hg
      refine ⟨text, htext, g, hread, ?_⟩
      rcases Bool.or_eq_true_iff.mp hexcluded with hmatch | hmatch
      · exact hmatch
      · split at hmatch
        next => cases hmatch
        next shorter hstrip => exact hshorter g hg shorter hstrip hmatch
    · rintro ⟨text, htext, g, hread, hmatch⟩
      exact ⟨g, (hmem g).mpr ⟨text, htext, hread⟩, Bool.or_eq_true_iff.mpr (Or.inl hmatch)⟩
  · intro g hg
    obtain ⟨text, -, hread⟩ := (hmem g).mp hg
    exact Glob.isMatch_iff_covers hread localPath

def outOrBuild : List String := ["**/out/**", "**/**/[!a].gn"]

def outGlob : Glob :=
  ⟨"**/out/**", [.anyDirectories, .char 'o', .char 'u', .char 't', .char '/', .anyDirectories]⟩

def buildGlob : Glob :=
  ⟨"**/**/[!a].gn", [.anyDirectories, .anyDirectories, .except [.one 'a'], .char '.', .char 'g',
    .char 'n']⟩

theorem excludes_iff_isMatch_outOrBuild :
    readGlobs outOrBuild = .ok [outGlob, buildGlob] ∧
      excludes [outGlob, buildGlob] "b.gn" = true ∧ Glob.Covers buildGlob.tokens "b.gn".toList ∧
      ¬ Glob.Covers buildGlob.tokens "gn/a.gn".toList := by
  have hread : readGlobs outOrBuild = .ok [outGlob, buildGlob] := by cbv
  have hbuild : buildGlob ∈ [outGlob, buildGlob] := .tail _ (.head _)
  obtain ⟨hexcludes, hcovers, hshorter⟩ := excludes_iff_isMatch hread "b.gn"
  have hmatch : buildGlob.isMatch "b.gn" = true :=
    hshorter buildGlob hbuild ⟨"[!a].gn", [.except [.one 'a'], .char '.', .char 'g', .char 'n']⟩
      (by cbv) (by cbv)
  have hother : buildGlob.isMatch "gn/a.gn" = false := by cbv
  refine ⟨hread, ?_, (hcovers buildGlob hbuild).mp hmatch, ?_⟩
  · exact hexcludes.mpr ⟨"**/**/[!a].gn", .tail _ (.head _), buildGlob, by cbv, hmatch⟩
  · intro h
    have := ((excludes_iff_isMatch hread "gn/a.gn").2.1 buildGlob hbuild).mpr h
    cases hother.symm.trans this

end Hygiene.Workspace
