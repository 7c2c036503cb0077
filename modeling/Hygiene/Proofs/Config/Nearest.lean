import Mathlib.Tactic
import Hygiene.Config.File
import Hygiene.Proofs.Disk

/-!
The search for the configuration file of a root. It ought to go up through the directories that
contain the root, but it goes up along the path as it is written. Where `..` stands in the path, the
directory in front of it need not contain the root; unless such a directory stops the search, the
file that is found is the right one.
-/

namespace Hygiene.Config

variable {d : Disk}

/-! ### What is looked for -/

/-- A directory holds a file of this name. -/
def Holds (d : Disk) (directory : List String) (name : String) : Prop :=
  (d.top.fileAt? (directory ++ [name])).isSome

def HoldsConfig (d : Disk) (directory : List String) : Prop :=
  ∃ name ∈ fileNames, Holds d directory name

def HoldsRepository (d : Disk) (directory : List String) : Prop :=
  (d.top.at? (directory ++ [".git"])).isSome

/-- A search goes no further than this directory. -/
def Settles (d : Disk) (directory : List String) : Prop :=
  HoldsConfig d directory ∨ HoldsRepository d directory

/-- Among the directories that contain a place, one that is nearer to it than another. -/
def Nearer (place directory nearer : List String) : Prop :=
  nearer <+: place ∧ directory.length < nearer.length

/-- The directories that contain a place, up to the first that holds a repository. -/
def InCheckout (d : Disk) (place directory : List String) : Prop :=
  directory <+: place ∧ ∀ nearer, Nearer place directory nearer → ¬ HoldsRepository d nearer

/-- The configuration file for a place: it lies in the nearest directory of the checkout that holds
one, and no name goes before its own there. There is none when no directory of the checkout holds
one. -/
def IsNearest (d : Disk) (place : List String) : Option Path → Prop
  | none => ∀ directory, InCheckout d place directory → ¬ HoldsConfig d directory
  | some p => ∃ directory name before after, d.locate p = .ok (directory ++ [name]) ∧
      InCheckout d place directory ∧ (∀ nearer, Nearer place directory nearer →
        ¬ HoldsConfig d nearer) ∧
      fileNames = before ++ name :: after ∧ Holds d directory name ∧
      ∀ other ∈ before, ¬ Holds d directory other

/-! ### One directory -/

theorem isName_of_mem_fileNames {name : String} (h : name ∈ fileNames) : Disk.IsName name := by
  simp only [fileNames, List.mem_cons, List.not_mem_nil, or_false] at h
  rcases h with rfl | rfl
  · exact ⟨by decide, by decide, by decide, by decide, by decide, by decide⟩
  · exact ⟨by decide, by decide, by decide, by decide, by decide, by decide⟩

theorem isName_git : Disk.IsName ".git" :=
  ⟨by decide, by decide, by decide, by decide, by decide, by decide⟩

/-- A search stops at the directory of this path. -/
def stopsAt (d : Disk) (p : Path) : Bool :=
  (fileIn? d p).isSome || d.contains (p.entry ".git")

theorem nearestAmong?_eq (directories : List Path) :
    nearestAmong? d directories = (directories.find? (stopsAt d)).bind (fileIn? d) := by
  induction directories with
  | nil => rfl
  | cons p rest ih =>
      unfold nearestAmong? stopsAt
      cases hfile : fileIn? d p with
      | some q => simp [hfile]
      | none =>
          cases hgit : d.contains (p.entry ".git") with
          | true => simp [hfile, hgit]
          | false =>
              simp [hfile, hgit, ih]
              rfl

variable {p : Path} {here : List String}

theorem isFile_entry_iff (habsolute : p.isAbsolute = true) (hhere : d.locate p = .ok here)
    {name : String} (hname : name ∈ fileNames) : d.isFile (p.entry name) ↔ Holds d here name := by
  rw [Disk.isFile_entry (isName_of_mem_fileNames hname) habsolute hhere]
  rfl

/-- The file that is found in a directory: the first one of those names. -/
theorem exists_name_of_fileIn? (habsolute : p.isAbsolute = true) (hhere : d.locate p = .ok here)
    {q : Path} (h : fileIn? d p = some q) :
    ∃ name before after, d.locate q = .ok (here ++ [name]) ∧ fileNames = before ++ name :: after ∧
      Holds d here name ∧ ∀ other ∈ before, ¬ Holds d here other := by
  unfold fileIn? at h
  rw [List.find?_map] at h
  obtain ⟨name, hfind, rfl⟩ := Option.map_eq_some_iff.mp h
  obtain ⟨hfile, before, after, hnames, hbefore⟩ := List.find?_eq_some_iff_append.mp hfind
  have hname : name ∈ fileNames := by simp [hnames]
  have hholds : Holds d here name := (isFile_entry_iff habsolute hhere hname).mp hfile
  refine ⟨name, before, after, ?_, hnames, hholds, ?_⟩
  · exact Disk.locate_entry_of_isSome (isName_of_mem_fileNames hname) habsolute hhere
      (Tree.isSome_at?_of_fileAt? hholds)
  · intro other hother hheld
    have hmem : other ∈ fileNames := by simp [hnames, hother]
    have hother' := hbefore other hother
    rw [Function.comp_apply, (isFile_entry_iff habsolute hhere hmem).mpr hheld] at hother'
    cases hother'

theorem isSome_fileIn?_iff (habsolute : p.isAbsolute = true) (hhere : d.locate p = .ok here) :
    (fileIn? d p).isSome ↔ HoldsConfig d here := by
  unfold fileIn? HoldsConfig
  rw [List.find?_map, Option.isSome_map, List.find?_isSome]
  constructor
  · rintro ⟨name, hname, hfile⟩
    exact ⟨name, hname, (isFile_entry_iff habsolute hhere hname).mp hfile⟩
  · rintro ⟨name, hname, hholds⟩
    exact ⟨name, hname, (isFile_entry_iff habsolute hhere hname).mpr hholds⟩

theorem stopsAt_iff (habsolute : p.isAbsolute = true) (hhere : d.locate p = .ok here) :
    stopsAt d p ↔ Settles d here := by
  unfold stopsAt Settles HoldsRepository
  rw [Bool.or_eq_true, isSome_fileIn?_iff habsolute hhere,
    Disk.contains_entry isName_git habsolute hhere]

/-! ### The way up -/

/-- Of the directories that contain a place, the search has been at those that do not contain the
directory where it is now, and none of them settled it. -/
def Passed (d : Disk) (place here : List String) : Prop :=
  ∀ directory, directory <+: place → ¬ directory <+: here → ¬ Settles d directory

/-- From a directory that does not settle the search it goes on to the parent of the path. Whether
that leads up or, over `..`, down: no directory that contains the place is missed. -/
theorem passed_parent {place there : List String} {last : Path.Component}
    (hpassed : Passed d place (last.leads there)) (hhere : ¬ Settles d (last.leads there)) :
    Passed d place there := by
  intro directory hcontains hthere
  cases last with
  | root =>
      apply hpassed directory hcontains
      intro hnil
      rw [List.prefix_nil.mp hnil] at hthere
      exact hthere (List.nil_prefix)
  | current => exact hpassed directory hcontains hthere
  | parent =>
      apply hpassed directory hcontains
      intro hdrop
      exact hthere (hdrop.trans (List.dropLast_prefix there))
  | name text =>
      by_cases hsame : directory = there ++ [text]
      · rw [hsame]
        exact hhere
      · apply hpassed directory hcontains
        intro hconcat
        rcases List.prefix_concat_iff.mp hconcat with h | h
        · exact hsame h
        · exact hthere h

/-- Where a search may end: at a directory that settles it, with all nearer ones passed, or else
nowhere, when no directory that contains the place settles it. -/
def Ends (d : Disk) (place : List String) : Option Path → Prop
  | none => ∀ directory, directory <+: place → ¬ Settles d directory
  | some a => ∃ there, a.isAbsolute = true ∧ d.locate a = .ok there ∧ Settles d there ∧
      Passed d place there

theorem ends_ancestorsWithin {place : List String} (fuel : Nat) (habsolute : p.isAbsolute = true)
    (hfuel : p.components.length ≤ fuel) (hhere : d.locate p = .ok here)
    (hpassed : Passed d place here) :
    Ends d place ((p.ancestorsWithin fuel).find? (stopsAt d)) := by
  induction fuel generalizing p here with
  | zero =>
      have hcomponents : 0 < p.components.length := by
        rw [Path.components, Path.pieces_of_isAbsolute habsolute]
        simp
      omega
  | succ fuel ih =>
      have hstop := stopsAt_iff habsolute hhere
      unfold Path.ancestorsWithin
      by_cases hsettles : Settles d here
      · have hends : Ends d place (some p) := ⟨here, habsolute, hhere, hsettles, hpassed⟩
        cases p.parent? with
        | none => simpa [hstop.mpr hsettles] using hends
        | some q => simpa [hstop.mpr hsettles] using hends
      · have hgoes : stopsAt d p = false := by
          rw [← Bool.not_eq_true, hstop]
          exact hsettles
        rcases Disk.locate_parent? habsolute hhere with
          ⟨hnone, rfl⟩ | ⟨q, there, last, hq, hqabsolute, hcomponents, -, hthere, rfl⟩
        · -- The search is at the top, so it has been everywhere else.
          rw [hnone]
          simp only [List.find?_cons, hgoes, List.find?_nil]
          intro directory hcontains
          by_cases hroot : directory <+: []
          · rw [List.prefix_nil.mp hroot]
            exact hsettles
          · exact hpassed directory hcontains hroot
        · rw [hq]
          simp only [List.find?_cons, hgoes]
          have hlength : q.components.length ≤ fuel := by
            rw [hcomponents, List.length_append, List.length_singleton] at hfuel
            omega
          exact ih hqabsolute hlength hthere (passed_parent hpassed hsettles)

theorem ends_ancestors (habsolute : p.isAbsolute = true) (hhere : d.locate p = .ok here) :
    Ends d here (p.ancestors.find? (stopsAt d)) := by
  apply ends_ancestorsWithin _ habsolute _ hhere
  · intro directory hcontains hnot
    exact absurd hcontains hnot
  · rw [Path.components, List.length_map]

/-! ### Names without `..` -/

/-- Where no `..` stands in a path, all its ancestors contain what it leads to. -/
theorem prefix_of_mem_ancestorsWithin (fuel : Nat) (habsolute : p.isAbsolute = true)
    (hhere : d.locate p = .ok here) (hparent : .parent ∉ p.components) {a : Path}
    (ha : a ∈ p.ancestorsWithin fuel) {there : List String} (hthere : d.locate a = .ok there) :
    there <+: here := by
  induction fuel generalizing p here with
  | zero =>
      obtain rfl := List.mem_singleton.mp ha
      rw [Except.ok.inj (hthere.symm.trans hhere)]
  | succ fuel ih =>
      unfold Path.ancestorsWithin at ha
      rcases Disk.locate_parent? habsolute hhere with
        ⟨hnone, -⟩ | ⟨q, above, last, hq, hqabsolute, hcomponents, hlast, habove, rfl⟩
      · rw [hnone] at ha
        obtain rfl := List.mem_singleton.mp ha
        rw [Except.ok.inj (hthere.symm.trans hhere)]
      · rw [hq] at ha
        rcases List.mem_cons.mp ha with rfl | ha
        · rw [Except.ok.inj (hthere.symm.trans hhere)]
        · rw [hcomponents, List.mem_append, List.mem_singleton, not_or] at hparent
          apply (ih hqabsolute habove hparent.1 ha).trans
          cases last with
          | root => exact absurd rfl hlast
          | current => exact List.prefix_rfl
          | parent => exact absurd rfl hparent.2
          | name text => exact List.prefix_append above [text]

/-! ### The file that is found -/

/-- A directory that does not contain the place stops the search for it. -/
def Misled (d : Disk) (p : Path) (place : List String) : Prop :=
  ∃ a there, p.ancestors.find? (stopsAt d) = some a ∧ d.locate a = .ok there ∧ ¬ there <+: place

theorem not_misled (habsolute : p.isAbsolute = true) (hhere : d.locate p = .ok here)
    (hparent : .parent ∉ p.components) : ¬ Misled d p here := by
  rintro ⟨a, there, hfind, hthere, hcontains⟩
  exact hcontains (prefix_of_mem_ancestorsWithin _ habsolute hhere hparent
    (List.mem_of_find?_eq_some hfind) hthere)

/-- A directory that contains the place, with all nearer ones passed, has the answer. -/
theorem isNearest_fileIn? {place there : List String} (habsolute : p.isAbsolute = true)
    (hthere : d.locate p = .ok there) (hsettles : Settles d there)
    (hpassed : Passed d place there) (hcontains : there <+: place) :
    IsNearest d place (fileIn? d p) := by
  have hnearer : ∀ nearer, Nearer place there nearer → ¬ Settles d nearer := by
    rintro nearer ⟨hnearer, hlength⟩
    apply hpassed nearer hnearer
    intro hback
    have hle := hback.length_le
    omega
  cases hfile : fileIn? d p with
  | some q =>
      obtain ⟨name, before, after, hq, hnames, hholds, hbefore⟩ :=
        exists_name_of_fileIn? habsolute hthere hfile
      refine ⟨there, name, before, after, hq, ⟨hcontains, ?_⟩, ?_, hnames, hholds, hbefore⟩
      · intro nearer h hrepository
        exact hnearer nearer h (Or.inr hrepository)
      · intro nearer h hconfig
        exact hnearer nearer h (Or.inl hconfig)
  | none =>
      have hnone : ¬ HoldsConfig d there := by
        rw [← isSome_fileIn?_iff habsolute hthere, hfile]
        exact Bool.false_ne_true
      have hrepository : HoldsRepository d there := hsettles.resolve_left hnone
      rintro directory ⟨hdirectory, hcheckout⟩ hconfig
      -- No directory of the checkout is further away than the repository.
      have hle : there.length ≤ directory.length := by
        by_contra hlt
        exact hcheckout there ⟨hcontains, Nat.lt_of_not_le hlt⟩ hrepository
      rcases Nat.eq_or_lt_of_le hle with heq | hlt
      · rw [(List.prefix_of_prefix_length_le hcontains hdirectory hle).eq_of_length heq] at hnone
        exact hnone hconfig
      · exact hnearer directory ⟨hdirectory, hlt⟩ (Or.inl hconfig)

/-- Unless it is misled, the search for a root has the nearest configuration file for its place, and
it is never misled where the root is written without `..`. If it is misled, a file that it finds is
not one for that place. -/
theorem nearest?_isNearest {root : Path} {place : List String}
    (hroot : d.locate (d.currentPath.join root) = .ok place) :
    let written := d.currentPath.join root
    (¬ Misled d written place → IsNearest d place (nearest? d written)) ∧
      (.parent ∉ written.components → ¬ Misled d written place) ∧
      (Misled d written place → ∀ p, nearest? d written = some p →
        ¬ IsNearest d place (some p)) := by
  intro written
  have habsolute : written.isAbsolute = true :=
    Path.isAbsolute_join d.isAbsolute_currentPath root
  have hends := ends_ancestors habsolute hroot
  have hnearest : nearest? d written = (written.ancestors.find? (stopsAt d)).bind (fileIn? d) :=
    nearestAmong?_eq written.ancestors
  refine ⟨?_, not_misled habsolute hroot, ?_⟩
  · intro hmisled
    cases hstop : written.ancestors.find? (stopsAt d) with
    | none =>
        rw [hstop] at hends hnearest
        rw [hnearest]
        rintro directory ⟨hcontains, -⟩ hconfig
        exact hends directory hcontains (Or.inl hconfig)
    | some a =>
        rw [hstop] at hends hnearest
        obtain ⟨there, ha, hthere, hsettles, hpassed⟩ := hends
        rw [hnearest]
        apply isNearest_fileIn? ha hthere hsettles hpassed
        by_contra hcontains
        exact hmisled ⟨a, there, hstop, hthere, hcontains⟩
  · rintro ⟨a, there, hstop, hthere, hcontains⟩ p hp
    rw [hnearest, hstop] at hp
    rw [hstop] at hends
    obtain ⟨-, ha, -⟩ := hends
    obtain ⟨name, -, -, hlocated, -⟩ := exists_name_of_fileIn? ha hthere hp
    rintro ⟨directory, other, -, -, hother, ⟨hdirectory, -⟩, -⟩
    rw [hlocated] at hother
    obtain ⟨rfl, -⟩ := List.append_inj' (Except.ok.inj hother) rfl
    exact hcontains hdirectory

/-- Two directories side by side, with a configuration file in the first, which is the current
one. -/
def sideBySide : Disk where
  top := .directory [("w", .directory [
    ("a", .directory [("presubmit.toml", .file [])]),
    ("b", .directory [])])]
  current := ["w", "a"]

theorem nearest?_isNearest_here :
    sideBySide.locate (sideBySide.currentPath.join ⟨"."⟩) = .ok ["w", "a"] ∧
      nearest? sideBySide (sideBySide.currentPath.join ⟨"."⟩) =
        some ⟨"/w/a/./presubmit.toml"⟩ ∧
      IsNearest sideBySide ["w", "a"] (some ⟨"/w/a/./presubmit.toml"⟩) := by
  have hplace : sideBySide.locate (sideBySide.currentPath.join ⟨"."⟩) = .ok ["w", "a"] := by
    decide +kernel
  have hfound : nearest? sideBySide (sideBySide.currentPath.join ⟨"."⟩) =
      some ⟨"/w/a/./presubmit.toml"⟩ := by
    decide +kernel
  have hparent : Path.Component.parent ∉ (sideBySide.currentPath.join ⟨"."⟩).components := by
    decide
  obtain ⟨hnearest, hnever, -⟩ := nearest?_isNearest hplace
  refine ⟨hplace, hfound, ?_⟩
  rw [← hfound]
  exact hnearest (hnever hparent)

/-- From the first directory the second one is `../b`. The first stands in that path, and its
configuration file is taken for the second. -/
theorem nearest?_besides :
    sideBySide.locate (sideBySide.currentPath.join ⟨"../b"⟩) = .ok ["w", "b"] ∧
      nearest? sideBySide (sideBySide.currentPath.join ⟨"../b"⟩) =
        some ⟨"/w/a/presubmit.toml"⟩ ∧
      ¬ IsNearest sideBySide ["w", "b"] (some ⟨"/w/a/presubmit.toml"⟩) := by
  refine ⟨by decide +kernel, by decide +kernel, ?_⟩
  rintro ⟨directory, name, -, -, hlocated, ⟨hcontains, -⟩, -⟩
  have hfile : sideBySide.locate ⟨"/w/a/presubmit.toml"⟩ =
      .ok (["w", "a"] ++ ["presubmit.toml"]) := by
    decide +kernel
  rw [hfile] at hlocated
  obtain ⟨rfl, -⟩ := List.append_inj' (Except.ok.inj hlocated) rfl
  exact absurd hcontains (by decide)

end Hygiene.Config
