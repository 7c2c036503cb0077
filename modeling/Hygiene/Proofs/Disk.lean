import Mathlib.Tactic
import Hygiene.Disk
import Hygiene.Proofs.Except
import Hygiene.Proofs.Path

/-!
Where paths lead on a disk. If an absolute path leads anywhere, its components alone tell where, and
its parent leads somewhere too. A relative path behind an absolute one leads where it would lead if
that were the current directory; so what a directory holds under a name is what its path with the
name behind it leads to.
-/

namespace Hygiene

theorem Tree.at?_append (t : Tree) (front rest : List String) :
    t.at? (front ++ rest) = (t.at? front).bind fun below => below.at? rest := by
  induction front generalizing t with
  | nil => rfl
  | cons name front ih =>
      rw [List.cons_append, at?, at?]
      cases t.entry? name with
      | none => rfl
      | some below => exact ih below

theorem Tree.isSome_entry? (t : Tree) (name : String) :
    (t.entry? name).isSome = t.entries.any fun e => e.1 == name := by
  unfold entry?
  rw [Bool.eq_iff_iff, List.lookup_isSome_iff, List.any_eq_true]
  simp only [beq_iff_eq, @eq_comm _ name]

theorem Tree.isSome_at?_of_fileAt? {t : Tree} {names : List String}
    (h : (t.fileAt? names).isSome) : (t.at? names).isSome := by
  unfold fileAt? at h
  cases hat : t.at? names with
  | none =>
      rw [hat] at h
      cases h
  | some below => rfl

def Path.Component.leads (place : List String) : Path.Component → List String
  | .root => []
  | .current => place
  | .parent => place.dropLast
  | .name text => place ++ [text]

namespace Disk

variable {d : Disk}

/-! ### Steps -/

/-- What a step does, and that it starts from a directory. -/
theorem step_eq_ok {place next : List String} {segment : String}
    (h : d.step place segment = .ok next) :
    (∃ entries, d.top.at? place = some (.directory entries)) ∧
      (((segment = "" ∨ segment = ".") ∧ next = place) ∨
        (segment = ".." ∧ next = place.dropLast) ∨
        (segment ≠ "" ∧ segment ≠ "." ∧ segment ≠ ".." ∧ next = place ++ [segment])) := by
  unfold step at h
  split at h
  next => cases h
  next => cases h
  next entries hentries =>
    refine ⟨⟨entries, hentries⟩, ?_⟩
    split at h
    next hblank => exact Or.inl ⟨hblank, (Except.ok.inj h).symm⟩
    next hblank =>
      split at h
      next hparent => exact Or.inr (Or.inl ⟨hparent, (Except.ok.inj h).symm⟩)
      next hparent =>
        split at h
        next => cases h
        next =>
          split at h
          next =>
            rw [not_or] at hblank
            exact Or.inr (Or.inr ⟨hblank.1, hblank.2, hparent, (Except.ok.inj h).symm⟩)
          next => cases h

theorem eq_of_step_blank {place next : List String} (h : d.step place "" = .ok next) :
    next = place := by
  obtain ⟨-, ⟨-, hnext⟩ | ⟨hparent, -⟩ | ⟨hempty, -⟩⟩ := step_eq_ok h
  · exact hnext
  · exact absurd hparent (by decide)
  · exact absurd rfl hempty

/-- A step along a segment leads where its piece leads, and nowhere else if it has none. -/
theorem step_segment {place next : List String} {x : Nat × List Char}
    (h : d.step place (String.ofList x.2) = .ok next) :
    next = (Path.pieceOf x).elim place fun piece => piece.component.leads place := by
  obtain ⟨-, hstep⟩ := step_eq_ok h
  have hdot : String.ofList ['.'] = "." := rfl
  have hdots : String.ofList ['.', '.'] = ".." := rfl
  rcases Path.pieceOf_cases x with
    ⟨hblank, hx⟩ | ⟨hcs, -, hx⟩ | ⟨hcs, hx⟩ | ⟨hempty, hcurrent, hparent, hx⟩
  · rw [hx]
    rcases hblank with hcs | hcs <;> simpa [hcs, hdot] using hstep
  · rw [hx]
    simpa [hcs, hdot, Path.Component.leads] using hstep
  · rw [hx]
    simpa [hcs, hdots, Path.Component.leads] using hstep
  · rw [hx]
    rcases hstep with ⟨hblank | hblank, -⟩ | ⟨hup, -⟩ | ⟨-, -, -, hnext⟩
    · exact absurd (String.ofList_injective hblank) hempty
    · exact absurd (String.ofList_injective hblank) hcurrent
    · exact absurd (String.ofList_injective hup) hparent
    · exact hnext

/-! ### Following segments -/

theorem follow_append (place : List String) (front rest : List String) :
    d.follow place (front ++ rest) = d.follow place front >>= fun next => d.follow next rest := by
  induction front generalizing place with
  | nil => rfl
  | cons segment front ih =>
      rw [List.cons_append, follow, follow]
      cases d.step place segment with
      | error fault => rfl
      | ok next => exact ih next

theorem follow_singleton (place : List String) (segment : String) :
    d.follow place [segment] = d.step place segment := by
  rw [follow]
  cases d.step place segment <;> rfl

/-- Segments that can be followed lead where their pieces do. -/
theorem follow_segments {place next : List String} {xs : List (Nat × List Char)}
    (h : d.follow place (xs.map fun x => String.ofList x.2) = .ok next) :
    next = ((xs.filterMap Path.pieceOf).map (·.component)).foldl Path.Component.leads place := by
  induction xs generalizing place with
  | nil => exact (Except.ok.inj h).symm
  | cons x xs ih =>
      rw [List.map_cons, follow] at h
      obtain ⟨middle, hstep, hrest⟩ := Except.bind_eq_ok_iff.mp h
      obtain rfl := step_segment hstep
      cases hx : Path.pieceOf x with
      | none =>
          rw [hx] at hrest
          rw [List.filterMap_cons_none hx]
          exact ih hrest
      | some piece =>
          rw [hx] at hrest
          rw [List.filterMap_cons_some hx]
          exact ih hrest

/-! ### Locating paths -/

theorem locate_eq_ok_iff {p : Path} {place : List String} :
    d.locate p = .ok place ↔
      '\x00' ∉ p.text.toList ∧ p.text ≠ "" ∧
        d.follow (d.start p) (Text.splitOn '/' p.text) = .ok place := by
  unfold locate
  split
  next hnull => simp_all
  next hnull =>
    split
    next hempty => simp_all
    next hempty => simp_all

theorem isAbsolute_currentPath (d : Disk) : d.currentPath.isAbsolute = true := by
  have hslash : "/".toList = ['/'] := rfl
  apply Path.isAbsolute_of_text
  rw [currentPath, Path.ofPlace, String.toList_append, hslash, List.singleton_append]

theorem start_of_isAbsolute {p : Path} (h : p.isAbsolute = true) : d.start p = [] :=
  if_pos h

/-- An absolute path leads where its components do. -/
theorem place_of_locate {p : Path} {place : List String} (habsolute : p.isAbsolute = true)
    (h : d.locate p = .ok place) : place = p.components.foldl Path.Component.leads [] := by
  obtain ⟨-, -, hfollow⟩ := locate_eq_ok_iff.mp h
  rw [start_of_isAbsolute habsolute, ← Path.map_snd_segments] at hfollow
  rw [follow_segments hfollow, Path.components, Path.pieces_of_isAbsolute habsolute]
  rfl

theorem locate_root {p : Path} {place : List String} (habsolute : p.isAbsolute = true)
    (h : d.locate p = .ok place) : d.locate ⟨"/"⟩ = .ok [] := by
  obtain ⟨-, -, hfollow⟩ := locate_eq_ok_iff.mp h
  obtain ⟨cs, hcs⟩ := Path.exists_text_of_isAbsolute habsolute
  rw [start_of_isAbsolute habsolute, Text.splitOn, hcs, List.splitOn_cons_eq_if_modifyHead,
    if_pos (beq_self_eq_true _), List.map_cons, follow] at hfollow
  obtain ⟨next, hstep, -⟩ := Except.bind_eq_ok_iff.mp hfollow
  have hblank : d.step [] "" = .ok [] := by
    rw [eq_of_step_blank hstep] at hstep
    exact hstep
  refine locate_eq_ok_iff.mpr ⟨by decide, by decide, ?_⟩
  change d.follow [] ["", ""] = .ok []
  rw [follow, hblank]
  exact (follow_singleton [] "").trans hblank

/-- What is written like the front of a path that leads somewhere leads somewhere too. -/
theorem exists_locate_of_prefix {p q : Path} {place : List String}
    (habsolute : p.isAbsolute = true) (hq : q.isAbsolute = true)
    (htext : q.text.toList <+: p.text.toList) (hsegments : q.segments <+: p.segments)
    (h : d.locate p = .ok place) : ∃ there, d.locate q = .ok there := by
  obtain ⟨hnull, -, hfollow⟩ := locate_eq_ok_iff.mp h
  obtain ⟨rest, hrest⟩ := hsegments
  rw [start_of_isAbsolute habsolute, ← Path.map_snd_segments, ← hrest, List.map_append,
    follow_append] at hfollow
  obtain ⟨there, hthere, -⟩ := Except.bind_eq_ok_iff.mp hfollow
  have hnull' : '\x00' ∉ q.text.toList := by
    intro hmem
    exact hnull (htext.subset hmem)
  refine ⟨there, locate_eq_ok_iff.mpr ⟨hnull', Path.text_ne_empty hq, ?_⟩⟩
  rw [start_of_isAbsolute hq, ← Path.map_snd_segments]
  exact hthere

/-- From the place of an absolute path its parent leads one component back. -/
theorem locate_parent? {p : Path} {place : List String} (habsolute : p.isAbsolute = true)
    (h : d.locate p = .ok place) :
    (p.parent? = none ∧ place = []) ∨
      ∃ q there last, p.parent? = some q ∧ q.isAbsolute = true ∧
        p.components = q.components ++ [last] ∧ last ≠ .root ∧ d.locate q = .ok there ∧
        place = last.leads there := by
  rcases Path.parent?_cases habsolute with
    ⟨hroot, hnone⟩ | ⟨q, last, hq, hqabsolute, hcomponents, hlast, htext, hfront⟩
  · refine Or.inl ⟨hnone, ?_⟩
    rw [place_of_locate habsolute h, hroot]
    rfl
  · obtain ⟨there, hthere⟩ : ∃ there, d.locate q = .ok there := by
      rcases hfront with rfl | hsegments
      · exact ⟨[], locate_root habsolute h⟩
      · exact exists_locate_of_prefix habsolute hqabsolute htext hsegments h
    refine Or.inr ⟨q, there, last, hq, hqabsolute, hcomponents, hlast, hthere, ?_⟩
    rw [place_of_locate habsolute h, hcomponents, List.foldl_append,
      ← place_of_locate hqabsolute hthere]
    rfl

/-! ### Paths put together -/

/-- A path with a relative one behind it is followed like the path and then on along the other. -/
theorem follow_join {p q : Path} {place there : List String} (hp : p.text ≠ "")
    (hq : q.isAbsolute = false) (h : d.follow there (Text.splitOn '/' p.text) = .ok place) :
    d.follow there (Text.splitOn '/' (p.join q).text) =
      d.follow place (Text.splitOn '/' q.text) := by
  unfold Text.splitOn at h ⊢
  rcases Path.toList_join hp hq with ⟨cs, hcs, htext⟩ | htext
  · -- The separator at the end of the path is one more step, which leads nowhere.
    rw [hcs, List.splitOn_append_cons_self, List.map_append, follow_append] at h
    obtain ⟨middle, hmiddle, hblank⟩ := Except.bind_eq_ok_iff.mp h
    have hsame : place = middle :=
      eq_of_step_blank ((follow_singleton middle "").symm.trans hblank)
    rw [htext, List.splitOn_append_cons_self, List.map_append, follow_append, hmiddle, hsame]
    rfl
  · rw [htext, List.splitOn_append_cons_self, List.map_append, follow_append, h]
    rfl

def foundFrom (d : Disk) (place : List String) : Disk := { d with current := place }

theorem follow_foundFrom (here place segments : List String) :
    (d.foundFrom here).follow place segments = d.follow place segments := by
  induction segments generalizing place with
  | nil => rfl
  | cons segment rest ih =>
      rw [follow, follow]
      simp only [ih]
      rfl

/-- A path with a relative one behind it leads where the relative one leads from there. -/
theorem locate_join {p q : Path} {place : List String} (habsolute : p.isAbsolute = true)
    (h : d.locate p = .ok place) (hq : q.isAbsolute = false) (hfilled : q.text ≠ "") :
    d.locate (p.join q) = (d.foundFrom place).locate q := by
  obtain ⟨hnull, hp, hfollow⟩ := locate_eq_ok_iff.mp h
  have hjoin := Path.isAbsolute_join habsolute q
  have hstart : (d.foundFrom place).start q = place := if_neg (by simp [hq])
  have hempty : q.text.isEmpty = false := by simpa using hfilled
  have hnulls : (p.join q).text.toList.contains '\x00' = q.text.toList.contains '\x00' := by
    rw [Bool.eq_iff_iff, List.contains_iff_mem, List.contains_iff_mem,
      Path.mem_toList_join hp hq (by decide)]
    exact or_iff_right hnull
  rw [start_of_isAbsolute habsolute] at hfollow
  rw [locate, locate, hnulls, Path.isEmpty_text hjoin, hempty, start_of_isAbsolute hjoin,
    follow_join hp hq hfollow, hstart, follow_foundFrom]

/-! ### What a directory holds -/

structure IsName (name : String) : Prop where
  ne_empty : name ≠ ""
  ne_current : name ≠ "."
  ne_parent : name ≠ ".."
  not_separated : '/' ∉ name.toList
  not_null : '\x00' ∉ name.toList
  not_long : name.utf8ByteSize ≤ longestName

theorem step_name {name : String} (hname : IsName name) (place : List String) :
    (d.step place name).toOption =
      (d.top.at? (place ++ [name])).map fun _ => place ++ [name] := by
  rw [Tree.at?_append]
  unfold step
  split
  next hnone =>
    rw [hnone]
    rfl
  next bytes hfile =>
    rw [hfile]
    rfl
  next entries hentries =>
    have hsome : _ = entries.any fun e => e.1 == name :=
      Tree.isSome_entry? (.directory entries) name
    rw [hentries, if_neg (not_or.mpr ⟨hname.ne_empty, hname.ne_current⟩), if_neg hname.ne_parent,
      if_neg (Nat.not_lt.mpr hname.not_long), Option.bind_some, Tree.at?]
    split
    next hany =>
      rw [hany] at hsome
      obtain ⟨t, ht⟩ := Option.isSome_iff_exists.mp hsome
      rw [ht]
      rfl
    next hany =>
      rw [Bool.not_eq_true] at hany
      rw [hany] at hsome
      rw [Option.isSome_eq_false_iff, Option.isNone_iff_eq_none] at hsome
      rw [hsome]
      rfl

theorem locate_entry {p : Path} {place : List String} {name : String} (hname : IsName name)
    (habsolute : p.isAbsolute = true) (h : d.locate p = .ok place) :
    d.locate (p.entry name) = d.step place name := by
  have hrelative := Path.isAbsolute_of_not_mem hname.not_separated
  have hstart : (d.foundFrom place).start ⟨name⟩ = place := if_neg (by simp [hrelative])
  rw [Path.entry, locate_join habsolute h hrelative hname.ne_empty, locate,
    if_neg (by simpa using hname.not_null), if_neg (by simpa using hname.ne_empty), hstart,
    Text.splitOn_of_not_mem hname.not_separated, follow_foundFrom, follow_singleton]

theorem toOption_get (p : Path) : (d.get p).toOption = (d.locate p).toOption.bind d.top.at? := by
  unfold get
  cases d.locate p with
  | error fault => rfl
  | ok place =>
      dsimp only [bind, Except.bind, Except.toOption, Option.bind]
      cases d.top.at? place <;> rfl

/-- What the path of a directory with a name behind it leads to is what the directory holds under
that name. -/
theorem toOption_get_entry {p : Path} {place : List String} {name : String} (hname : IsName name)
    (habsolute : p.isAbsolute = true) (h : d.locate p = .ok place) :
    (d.get (p.entry name)).toOption = d.top.at? (place ++ [name]) := by
  rw [toOption_get, locate_entry hname habsolute h, step_name hname]
  cases hat : d.top.at? (place ++ [name]) with
  | none => rfl
  | some t => exact hat

theorem locate_entry_of_isSome {p : Path} {place : List String} {name : String}
    (hname : IsName name) (habsolute : p.isAbsolute = true) (h : d.locate p = .ok place)
    (hsome : (d.top.at? (place ++ [name])).isSome) :
    d.locate (p.entry name) = .ok (place ++ [name]) := by
  obtain ⟨t, ht⟩ := Option.isSome_iff_exists.mp hsome
  rw [locate_entry hname habsolute h]
  apply Except.toOption_eq_some_iff.mp
  rw [step_name hname, ht]
  rfl

theorem contains_entry {p : Path} {place : List String} {name : String} (hname : IsName name)
    (habsolute : p.isAbsolute = true) (h : d.locate p = .ok place) :
    d.contains (p.entry name) = (d.top.at? (place ++ [name])).isSome := by
  rw [contains, toOption_get_entry hname habsolute h]

theorem isFile_entry {p : Path} {place : List String} {name : String} (hname : IsName name)
    (habsolute : p.isAbsolute = true) (h : d.locate p = .ok place) :
    d.isFile (p.entry name) = (d.top.fileAt? (place ++ [name])).isSome := by
  have hget := toOption_get_entry hname habsolute h
  unfold isFile Tree.fileAt?
  rw [← hget]
  cases d.get (p.entry name) with
  | error fault => rfl
  | ok t => cases t <;> rfl

theorem exists_locate_of_contains {p : Path} (h : d.contains p = true) :
    ∃ place, d.locate p = .ok place := by
  rw [contains, toOption_get] at h
  cases hplace : d.locate p with
  | error fault =>
      rw [hplace] at h
      cases h
  | ok place => exact ⟨place, rfl⟩

/-! ### The current directory -/

/-- The current directory is a directory of the disk, reached by names that entries can have. -/
structure Standing (d : Disk) : Prop where
  names : ∀ name ∈ d.current, IsName name
  directory : ∃ entries, d.top.at? d.current = some (.directory entries)

theorem follow_names {place names : List String} (hnames : ∀ name ∈ names, IsName name)
    (h : (d.top.at? (place ++ names)).isSome) : d.follow place names = .ok (place ++ names) := by
  induction names generalizing place with
  | nil => rw [follow, List.append_nil]
  | cons name rest ih =>
      obtain ⟨hname, hrest⟩ := List.forall_mem_cons.mp hnames
      rw [List.append_cons] at h ⊢
      have hstep : d.step place name = .ok (place ++ [name]) := by
        apply Except.toOption_eq_some_iff.mp
        rw [Tree.at?_append] at h
        obtain ⟨t, ht, -⟩ := Option.bind_eq_some_iff.mp (Option.some_get h).symm
        rw [step_name hname, ht]
        rfl
      rw [follow, hstep]
      exact ih hrest h

theorem Standing.step_root (h : d.Standing) : d.step [] "" = .ok [] := by
  obtain ⟨entries, hentries⟩ := h.directory
  unfold step
  rw [Tree.at?]
  cases htop : d.top with
  | directory entries => rfl
  | file bytes =>
      rw [htop] at hentries
      cases hcurrent : d.current with
      | nil =>
          rw [hcurrent] at hentries
          cases hentries
      | cons name rest =>
          rw [hcurrent] at hentries
          cases hentries

/-- The path of the current directory leads there. -/
theorem Standing.locate_currentPath (h : d.Standing) : d.locate d.currentPath = .ok d.current := by
  have htext : d.currentPath.text.toList = '/' :: ("/".intercalate d.current).toList := by
    rw [currentPath, Path.ofPlace, String.toList_append]
    rfl
  have hnull : '\x00' ∉ d.currentPath.text.toList := by
    have hnames : '\x00' ∉ ("/".intercalate d.current).toList :=
      Text.not_mem_intercalate (by decide) fun name hname => (h.names name hname).not_null
    rw [htext]
    exact List.not_mem_cons_of_ne_of_not_mem (by decide) hnames
  refine locate_eq_ok_iff.mpr ⟨hnull, Path.text_ne_empty d.isAbsolute_currentPath, ?_⟩
  rw [start_of_isAbsolute d.isAbsolute_currentPath, Text.splitOn, htext,
    List.splitOn_cons_eq_if_modifyHead, if_pos (beq_self_eq_true _), List.map_cons, ← Text.splitOn,
    follow]
  change d.step [] "" >>= _ = _
  rw [h.step_root]
  change d.follow [] (Text.splitOn '/' ("/".intercalate d.current)) = .ok d.current
  by_cases hcurrent : d.current = []
  · rw [hcurrent]
    exact (follow_singleton [] "").trans h.step_root
  · rw [Text.splitOn_intercalate rfl hcurrent fun name hname => (h.names name hname).not_separated]
    obtain ⟨entries, hentries⟩ := h.directory
    exact follow_names h.names (by simp [hentries])

/-- A relative path leads where its path from the current directory does. -/
theorem Standing.locate_join (h : d.Standing) {p : Path} (hp : p.isAbsolute = false)
    (hfilled : p.text ≠ "") : d.locate (d.currentPath.join p) = d.locate p :=
  Disk.locate_join d.isAbsolute_currentPath h.locate_currentPath hp hfilled

end Disk

end Hygiene
