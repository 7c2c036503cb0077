import Hygiene.CommandLine.Command
import Hygiene.Proofs.Disk

/-!
Checks of listed files. Each path of the list is taken on its own: it stands for itself, for what it
leads to from the current directory, or for a file behind the root. All files are read in the order
of the list, and a single one that cannot be read leaves nothing of them.
-/

namespace Hygiene

namespace Disk

variable {d : Disk} {root p : Path}

theorem changedFile_eq_ok_iff {f : ChangedFile} :
    d.changedFile root p = .ok f ↔ ∃ bytes, d.read p = .ok bytes ∧ f = .new p bytes root := by
  constructor
  · intro h
    obtain ⟨bytes, hread, hf⟩ := Except.bind_eq_ok_iff.mp h
    exact ⟨bytes, Except.mapError_eq_ok_iff.mp hread, (Except.ok.inj hf).symm⟩
  · rintro ⟨bytes, hread, rfl⟩
    exact Except.bind_eq_ok_iff.mpr ⟨bytes, Except.mapError_eq_ok_iff.mpr hread, rfl⟩

theorem exists_changedFile_iff :
    (∃ f, d.changedFile root p = .ok f) ↔ ∃ bytes, d.read p = .ok bytes := by
  simp only [changedFile_eq_ok_iff]
  exact ⟨fun ⟨_, bytes, hread, _⟩ => ⟨bytes, hread⟩, fun ⟨bytes, hread⟩ => ⟨_, bytes, hread, rfl⟩⟩

theorem changedFile_eq_error_iff {e : SourceError} :
    d.changedFile root p = .error e ↔
      ∃ fault, d.read p = .error fault ∧ e = .unreadable p fault := by
  constructor
  · intro h
    rcases Except.bind_eq_error_iff.mp h with hread | ⟨bytes, -, h⟩
    · obtain ⟨fault, hfault, he⟩ := Except.mapError_eq_error_iff.mp hread
      exact ⟨fault, hfault, he.symm⟩
    · cases h
  · rintro ⟨fault, hfault, rfl⟩
    exact Except.bind_eq_error_iff.mpr
      (Or.inl (Except.mapError_eq_error_iff.mpr ⟨fault, hfault, rfl⟩))

theorem listedFiles_eq_mapM (d : Disk) (root : Path) (paths : List Path) :
    d.listedFiles root paths = paths.mapM fun p => d.changedFile root (d.resolve root p) := by
  induction paths with
  | nil => rfl
  | cons p rest ih => rw [listedFiles, List.mapM_cons, ih]

end Disk

namespace CommandLine

def readPath (d : Disk) (root p : Path) : Path := d.resolve root (absolutize d p)

/-- A path of the list is read under `q`. That is the path itself when it is absolute; when it leads
anywhere, the same seen from the current directory; and otherwise what it leads to behind the
root. -/
structure ReadUnder (d : Disk) (root p q : Path) : Prop where
  absolute : p.isAbsolute = true → q = p
  here : p.isAbsolute = false → d.contains p = true →
    q = d.currentPath.join p ∧ d.locate q = d.locate p
  behindRoot : p.isAbsolute = false → d.contains p = false →
    q = root.join p ∧ (p.text ≠ "" → ∀ place, d.locate root = .ok place →
      d.locate q = (d.foundFrom place).locate p)

/-- A path of the list stands for a file, which is seen from the root. -/
def StandsFor (d : Disk) (root p : Path) (f : ChangedFile) : Prop :=
  ∃ bytes, d.read (readPath d root p) = .ok bytes ∧ f = .new (readPath d root p) bytes root

def IsReadable (d : Disk) (root p : Path) : Prop := ∃ bytes, d.read (readPath d root p) = .ok bytes

/-- A path stands first in the list among those that cannot be read. -/
def FirstUnreadable (d : Disk) (root : Path) (paths : List Path) (p : Path) (fault : DiskFault) :
    Prop :=
  ∃ before after, paths = before ++ p :: after ∧ (∀ q ∈ before, IsReadable d root q) ∧
    d.read (readPath d root p) = .error fault

variable {d : Disk} {root p : Path}

theorem readUnder_readPath (hstanding : d.Standing) (hroot : root.isAbsolute = true) (p : Path) :
    ReadUnder d root p (readPath d root p) := by
  refine ⟨?_, ?_, ?_⟩
  · intro hp
    simp [readPath, absolutize, Disk.resolve, hp]
  · intro hp hcontains
    obtain ⟨place, hplace⟩ := Disk.exists_locate_of_contains hcontains
    have hfilled := (Disk.locate_eq_ok_iff.mp hplace).2.1
    have hjoin := Path.isAbsolute_join d.isAbsolute_currentPath p
    have hread : readPath d root p = d.currentPath.join p := by
      simp [readPath, absolutize, Disk.resolve, hp, hcontains, hjoin]
    rw [hread]
    exact ⟨rfl, hstanding.locate_join hp hfilled⟩
  · intro hp hcontains
    have hread : readPath d root p = root.join p := by
      simp [readPath, absolutize, Disk.resolve, hp, hcontains]
    rw [hread]
    exact ⟨rfl, fun hfilled place hplace => Disk.locate_join hroot hplace hp hfilled⟩

def listedSource (d : Disk) (root : Path) (paths : List Path) : Source :=
  .listed root (paths.map (absolutize d))

theorem files_listedSource_eq_mapM (h : Host) (root : Path) (paths : List Path) :
    (listedSource h.toDisk root paths).files h =
      paths.mapM fun p => h.changedFile root (readPath h.toDisk root p) := by
  rw [listedSource, Source.files, Disk.listedFiles_eq_mapM, List.mapM_map]
  rfl

/-- What a check with a list of paths looks at. A path stands for itself when it is absolute, for
what it leads to from the current directory when it leads anywhere, and otherwise for what stands
behind the root. If all these can be read, then there is one file for each path, in the order of
the list and with the bytes that were read; otherwise the first that cannot be read is the failure,
and there are no files. -/
theorem listedSource_files (h : Host) (hstanding : h.toDisk.Standing) (root : Path)
    (hroot : root.isAbsolute = true) (paths : List Path) :
    (∀ p, ReadUnder h.toDisk root p (readPath h.toDisk root p)) ∧
      (paths ≠ [] → ∀ config checks bug, (runOf h root config checks bug paths).source =
        some (listedSource h.toDisk root paths)) ∧
      (∀ files, (listedSource h.toDisk root paths).files h = .ok files ↔
        List.Forall₂ (StandsFor h.toDisk root) paths files) ∧
      ((∃ files, (listedSource h.toDisk root paths).files h = .ok files) ↔
        ∀ p ∈ paths, IsReadable h.toDisk root p) ∧
      ∀ e, (listedSource h.toDisk root paths).files h = .error e ↔
        ∃ p fault, FirstUnreadable h.toDisk root paths p fault ∧
          e = .unreadable (readPath h.toDisk root p) fault := by
  rw [files_listedSource_eq_mapM]
  refine ⟨readUnder_readPath hstanding hroot, ?_, ?_, ?_, ?_⟩
  · intro hpaths config checks bug
    have hfilled : paths.isEmpty = false := List.isEmpty_eq_false_iff.mpr hpaths
    rw [runOf, hfilled, if_neg Bool.false_ne_true]
    rfl
  · intro files
    rw [Except.mapM_eq_ok_iff]
    simp only [Disk.changedFile_eq_ok_iff]
    rfl
  · rw [Except.exists_mapM_eq_ok_iff]
    simp only [Disk.exists_changedFile_iff]
    rfl
  · intro e
    rw [Except.mapM_eq_error_iff]
    simp only [Disk.exists_changedFile_iff, Disk.changedFile_eq_error_iff]
    constructor
    · rintro ⟨before, p, after, hpaths, hbefore, fault, hfault, rfl⟩
      exact ⟨p, fault, ⟨before, after, hpaths, hbefore, hfault⟩, rfl⟩
    · rintro ⟨p, fault, ⟨before, after, hpaths, hbefore, hfault⟩, rfl⟩
      exact ⟨before, p, after, hpaths, hbefore, fault, hfault, rfl⟩

/-- Two directories with a file `a` each. The one that is not the current one has a file `b` too. -/
def sharedName : Host where
  top := .directory [("r", .directory [("a", .file [1]), ("b", .file [2])]),
    ("w", .directory [("a", .file [3])])]
  current := ["w"]
  environment := []

theorem listedSource_files_sharedName :
    sharedName.toDisk.Standing ∧ Path.isAbsolute ⟨"/r"⟩ = true ∧
      (listedSource sharedName.toDisk ⟨"/r"⟩ [⟨"b"⟩, ⟨"a"⟩, ⟨"/r/a"⟩, ⟨"a"⟩]).files sharedName =
        .ok [⟨⟨"/r/b"⟩, ⟨"b"⟩, [2]⟩, ⟨⟨"/w/a"⟩, ⟨"/w/a"⟩, [3]⟩, ⟨⟨"/r/a"⟩, ⟨"a"⟩, [1]⟩,
          ⟨⟨"/w/a"⟩, ⟨"/w/a"⟩, [3]⟩] ∧
      (listedSource sharedName.toDisk ⟨"/r"⟩ [⟨"a"⟩, ⟨"c"⟩, ⟨"d"⟩]).files sharedName =
        .error (.unreadable ⟨"/r/c"⟩ .missing) := by
  have hname : Disk.IsName "w" := ⟨by decide, by decide, by decide, by decide, by decide, by decide⟩
  have hstanding : sharedName.toDisk.Standing := ⟨by simpa [sharedName] using hname, _, rfl⟩
  have hroot : Path.isAbsolute ⟨"/r"⟩ = true := by decide
  have hfiles := listedSource_files sharedName hstanding ⟨"/r"⟩ hroot
  have hb : StandsFor sharedName.toDisk ⟨"/r"⟩ ⟨"b"⟩ ⟨⟨"/r/b"⟩, ⟨"b"⟩, [2]⟩ :=
    ⟨[2], by decide +kernel, by decide +kernel⟩
  have ha : StandsFor sharedName.toDisk ⟨"/r"⟩ ⟨"a"⟩ ⟨⟨"/w/a"⟩, ⟨"/w/a"⟩, [3]⟩ :=
    ⟨[3], by decide +kernel, by decide +kernel⟩
  have hra : StandsFor sharedName.toDisk ⟨"/r"⟩ ⟨"/r/a"⟩ ⟨⟨"/r/a"⟩, ⟨"a"⟩, [1]⟩ :=
    ⟨[1], by decide +kernel, by decide +kernel⟩
  refine ⟨hstanding, hroot, ?_, ?_⟩
  · obtain ⟨-, -, hok, -, -⟩ := hfiles [⟨"b"⟩, ⟨"a"⟩, ⟨"/r/a"⟩, ⟨"a"⟩]
    exact (hok _).mpr (.cons hb (.cons ha (.cons hra (.cons ha .nil))))
  · obtain ⟨-, -, -, -, herror⟩ := hfiles [⟨"a"⟩, ⟨"c"⟩, ⟨"d"⟩]
    have hfirst :
        FirstUnreadable sharedName.toDisk ⟨"/r"⟩ [⟨"a"⟩, ⟨"c"⟩, ⟨"d"⟩] ⟨"c"⟩ .missing := by
      refine ⟨[⟨"a"⟩], [⟨"d"⟩], rfl, ?_, by decide +kernel⟩
      rw [List.forall_mem_singleton]
      exact ⟨[3], by decide +kernel⟩
    exact (herror _).mpr ⟨_, _, hfirst, by decide +kernel⟩

end CommandLine

end Hygiene
