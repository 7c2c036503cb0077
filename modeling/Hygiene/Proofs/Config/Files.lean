import Mathlib
import Hygiene.Config

/-!
The settings of files in a configuration. Each of them is what the document says, or else its
default, whatever the document says about the other two. One default depends on more than its own
setting: a document that mentions files without saying which to leave out leaves out none, while a
document that does not mention files leaves out two directories.
-/

namespace Hygiene

open Toml

inductive FileKey where
  | root
  | exclude
  | respectGitignore
  deriving DecidableEq, Repr

namespace FileKey

def name : FileKey → String
  | root => "root"
  | exclude => "exclude"
  | respectGitignore => "respect_gitignore"

/-- The place of a setting among settings that are given as an array. -/
def position : FileKey → Nat
  | root => 0
  | exclude => 1
  | respectGitignore => 2

def pick {α : Type} (key : FileKey) (forRoot forExclude forGitignore : α) : α :=
  match key with
  | root => forRoot
  | exclude => forExclude
  | respectGitignore => forGitignore

def written? (key : FileKey) : Value → Option Value
  | .array items => items[key.position]?
  | v => (entriesOf? v).bind fun entries => entries.get? key.name

/-- What a document says under a key of its settings of files, if it says anything. -/
def writtenIn? (key : FileKey) (document : Entries) : Option Value :=
  (document.get? "files").bind key.written?

/-- A setting as a document would write it. -/
def valueOf (key : FileKey) (s : FileSettings) : Value :=
  match key with
  | root => .string s.root.text
  | exclude => .array (s.exclude.map Value.string)
  | respectGitignore => .boolean s.respectGitignore

end FileKey

/-! ### Reading one setting -/

theorem withDefault?_eq_some_iff {α : Type} {default a : α} {decode : Value → Option α}
    {v : Option Value} :
    withDefault? default decode v = some a ↔
      (v = none ∧ a = default) ∨ ∃ w, v = some w ∧ decode w = some a := by
  cases v with
  | none => simp [withDefault?, optional?, eq_comm]
  | some w => simp [withDefault?, optional?]

theorem Toml.Value.asString?_eq_some_iff {v : Value} {text : String} :
    v.asString? = some text ↔ v = .string text := by
  cases v <;> simp [asString?]

theorem Toml.Value.asBoolean?_eq_some_iff {v : Value} {b : Bool} :
    v.asBoolean? = some b ↔ v = .boolean b := by
  cases v <;> simp [asBoolean?]

theorem Toml.Value.asArray?_eq_some_iff {v : Value} {items : List Value} :
    v.asArray? = some items ↔ v = .array items := by
  cases v <;> simp [asArray?]

/-- Only a list of strings is read as texts, and it is read as a whole. -/
theorem eq_map_of_mapM_asString? {items : List Value} {texts : List String}
    (h : items.mapM Value.asString? = some texts) : items = texts.map Value.string := by
  induction items generalizing texts with
  | nil =>
      obtain rfl := Option.some.inj h
      rfl
  | cons v rest ih =>
      rw [List.mapM_cons] at h
      obtain ⟨text, htext, h⟩ := Option.bind_eq_some_iff.mp h
      obtain ⟨more, hmore, h⟩ := Option.bind_eq_some_iff.mp h
      obtain rfl := Option.some.inj h
      rw [Value.asString?_eq_some_iff.mp htext, ih hmore]
      rfl

/-! ### Reading all of them -/

namespace FileSettings

/-- The settings of a document that mentions files and says nothing about them. -/
def unsaid : FileSettings := { default with exclude := [] }

theorem valueOf_ofValues? {root exclude respectGitignore : Option Value} {s : FileSettings}
    (h : ofValues? root exclude respectGitignore = some s) (key : FileKey) :
    key.valueOf s = (key.pick root exclude respectGitignore).getD (key.valueOf unsaid) := by
  unfold ofValues? at h
  obtain ⟨path, hroot, h⟩ := Option.bind_eq_some_iff.mp h
  obtain ⟨globs, hexclude, h⟩ := Option.bind_eq_some_iff.mp h
  obtain ⟨respected, hrespect, h⟩ := Option.bind_eq_some_iff.mp h
  obtain rfl := Option.some.inj h
  cases key with
  | root =>
      rcases withDefault?_eq_some_iff.mp hroot with ⟨rfl, rfl⟩ | ⟨v, rfl, hv⟩
      · rfl
      · obtain ⟨text, htext, rfl⟩ := Option.map_eq_some_iff.mp hv
        exact (Value.asString?_eq_some_iff.mp htext).symm
  | exclude =>
      rcases withDefault?_eq_some_iff.mp hexclude with ⟨rfl, rfl⟩ | ⟨v, rfl, hv⟩
      · rfl
      · obtain ⟨items, hitems, htexts⟩ := Option.bind_eq_some_iff.mp hv
        rw [Value.asArray?_eq_some_iff.mp hitems, eq_map_of_mapM_asString? htexts]
        rfl
  | respectGitignore =>
      rcases withDefault?_eq_some_iff.mp hrespect with ⟨rfl, rfl⟩ | ⟨v, rfl, hv⟩
      · rfl
      · exact (Value.asBoolean?_eq_some_iff.mp hv).symm

/-- Each setting is read from what is written under its own key. -/
theorem valueOf_ofToml? {v : Value} {s : FileSettings} (h : ofToml? v = some s) (key : FileKey) :
    key.valueOf s = (key.written? v).getD (key.valueOf unsaid) := by
  unfold ofToml? at h
  split at h
  next items =>
    rw [valueOf_ofValues? h]
    cases key <;> rfl
  next hnoArray =>
    obtain ⟨entries, hentries, h⟩ := Option.bind_eq_some_iff.mp h
    have hwritten : key.written? v = entries.get? key.name := by
      unfold FileKey.written?
      split
      next items => exact (hnoArray items rfl).elim
      next => rw [hentries, Option.bind_some]
    rw [valueOf_ofValues? h, hwritten]
    cases key <;> rfl

end FileSettings

/-! ### In a configuration -/

namespace Config

/-- The document mentions files and does not say which to leave out. -/
def LeavesExcludeOpen (document : Entries) : Prop :=
  (document.get? "files").isSome ∧ FileKey.exclude.writtenIn? document = none

theorem exists_document_of_read {text : String} {c : Config} (h : read text = .ok c) :
    ∃ document, Toml.read text = some document ∧ ofEntries? document = some c := by
  unfold read at h
  split at h
  next => cases h
  next c' hread =>
    obtain rfl := Except.ok.inj h
    exact Option.bind_eq_some_iff.mp hread

theorem files_of_ofEntries? {document : Entries} {c : Config} (h : ofEntries? document = some c) :
    withDefault? FileSettings.default FileSettings.ofToml? (document.get? "files") =
      some c.files := by
  unfold ofEntries? at h
  obtain ⟨preset, -, h⟩ := Option.bind_eq_some_iff.mp h
  obtain ⟨failOn, -, h⟩ := Option.bind_eq_some_iff.mp h
  obtain ⟨files, hfiles, h⟩ := Option.bind_eq_some_iff.mp h
  obtain ⟨checks, -, h⟩ := Option.bind_eq_some_iff.mp h
  obtain rfl := Option.some.inj h
  exact hfiles

/-- In every configuration that is read, each setting of files is what the document says, or else
the default of a document that does not mention files. The one exception are the files to leave out
where the document mentions files: if it does not say which, none are left out. -/
theorem valueOf_files_of_read {text : String} {c : Config} (h : read text = .ok c) :
    ∃ document, Toml.read text = some document ∧
      (∀ key : FileKey, (key = .exclude → ¬ LeavesExcludeOpen document) →
        key.valueOf c.files = (key.writtenIn? document).getD (key.valueOf FileSettings.default)) ∧
      (LeavesExcludeOpen document → c.files.exclude = []) := by
  obtain ⟨document, hdocument, hc⟩ := exists_document_of_read h
  refine ⟨document, hdocument, ?_⟩
  rcases withDefault?_eq_some_iff.mp (files_of_ofEntries? hc) with ⟨hnone, hfiles⟩ | ⟨v, hv, hfiles⟩
  · have hwritten (key : FileKey) : key.writtenIn? document = none := by
      rw [FileKey.writtenIn?, hnone, Option.bind_none]
    refine ⟨fun key _ => ?_, fun hopen => ?_⟩
    · rw [hwritten, hfiles, Option.getD_none]
    · exact absurd hopen.1 (by rw [hnone]; exact Bool.false_ne_true)
  · have hwritten (key : FileKey) : key.writtenIn? document = key.written? v := by
      rw [FileKey.writtenIn?, hv, Option.bind_some]
    have hvalue (key : FileKey) := FileSettings.valueOf_ofToml? hfiles key
    refine ⟨fun key hkey => ?_, fun hopen => ?_⟩
    · rw [hwritten, hvalue]
      cases key with
      | root => rfl
      | respectGitignore => rfl
      | exclude =>
          have hsaid : FileKey.exclude.written? v ≠ none := by
            intro hsilent
            exact hkey rfl ⟨by rw [hv]; rfl, (hwritten .exclude).trans hsilent⟩
          obtain ⟨w, hw⟩ := Option.ne_none_iff_exists'.mp hsaid
          rw [hw, Option.getD_some, Option.getD_some]
    · have hempty := hvalue .exclude
      rw [← hwritten, hopen.2] at hempty
      simpa [FileKey.valueOf, FileSettings.unsaid] using hempty

/-- A document with one of the settings: that one is as it says, the root is the default, and no
files are left out. -/
theorem valueOf_files_of_read_gitignore :
    ∃ c, read "[files]\nrespect_gitignore = false\n" = .ok c ∧
      FileKey.respectGitignore.valueOf c.files = .boolean false ∧
      FileKey.root.valueOf c.files = FileKey.root.valueOf FileSettings.default ∧
      c.files.exclude = [] := by
  have hread : read "[files]\nrespect_gitignore = false\n" =
      .ok ⟨none, none, ⟨⟨"."⟩, [], false⟩, []⟩ := by cbv
  have htoml : Toml.read "[files]\nrespect_gitignore = false\n" =
      some [("files", .table [("respect_gitignore", .boolean false)])] := by cbv
  obtain ⟨document, hdocument, hvalues, hexclude⟩ := valueOf_files_of_read hread
  obtain rfl := Option.some.inj (htoml.symm.trans hdocument)
  refine ⟨_, hread, ?_, ?_, hexclude ⟨rfl, rfl⟩⟩
  · exact hvalues .respectGitignore (fun h => absurd h (by decide))
  · exact hvalues .root (fun h => absurd h (by decide))

/-- A document that mentions files and says nothing about them leaves out no files, although two
directories are left out by default. -/
theorem exclude_of_empty_files :
    ∃ c document, read "[files]\n" = .ok c ∧ Toml.read "[files]\n" = some document ∧
      FileKey.exclude.writtenIn? document = none ∧
      FileKey.exclude.valueOf c.files ≠ FileKey.exclude.valueOf FileSettings.default := by
  have hread : read "[files]\n" = .ok ⟨none, none, ⟨⟨"."⟩, [], true⟩, []⟩ := by cbv
  have htoml : Toml.read "[files]\n" = some [("files", .table [])] := by cbv
  refine ⟨_, _, hread, htoml, rfl, ?_⟩
  simp [FileKey.valueOf, FileSettings.default]

end Config

end Hygiene
