import Mathlib.Data.List.DropRight
import Hygiene.Proofs.Text.Line
import Hygiene.Gn.Family

/-!
The class of a source, read off the end of its path. A path has a class exactly when it ends in a
dot and one of five extensions, behind a character of the file name. Directories, and dots before
the last one, make no difference.
-/

namespace Hygiene.Gn

/-- A path ends in a dot and an extension, and the character before the dot is no separator. -/
def EndsIn (path : String) (extension : List Char) : Prop :=
  ∃ c, c ≠ '/' ∧ c :: '.' :: extension <:+ path.toList

namespace Family

/-- A search from the end for a mark passes over a list without it. -/
theorem ne_of_mem_reverse {mark : Char} {back : List Char} (h : mark ∉ back) :
    ∀ c ∈ back.reverse, decide (c ≠ mark) = true := by
  intro c hc
  rw [decide_eq_true_iff]
  rintro rfl
  exact h (List.mem_reverse.mp hc)

theorem lastComponent_suffix (path : List Char) : lastComponent path <:+ path :=
  List.rtakeWhile_suffix _ _

theorem not_mem_lastComponent (path : List Char) : '/' ∉ lastComponent path := by
  intro h
  simpa using List.mem_rtakeWhile_imp h

theorem lastComponent_append {back : List Char} (h : '/' ∉ back) (front : List Char) :
    lastComponent (front ++ back) = lastComponent front ++ back := by
  rw [lastComponent, List.reverse_append, List.takeWhile_append_of_pos (ne_of_mem_reverse h),
    List.reverse_append, List.reverse_reverse]
  rfl

/-- Directories do not belong to the last component. -/
theorem lastComponent_append_separator (dir name : List Char) :
    lastComponent (dir ++ '/' :: name) = lastComponent name := by
  rw [lastComponent, lastComponent, List.reverse_append, List.reverse_cons, List.append_assoc,
    List.takeWhile_append]
  split
  next hlength =>
    -- The search has passed over all of the name and stops at the separator.
    rw [(List.takeWhile_prefix _).eq_of_length hlength]
    simp
  next => rfl

theorem splitExtension?_append {extension : List Char} (h : '.' ∉ extension) (stem : List Char) :
    splitExtension? (stem ++ '.' :: extension) = some (stem, extension) := by
  have hback := ne_of_mem_reverse h
  rw [splitExtension?, List.reverse_append, List.reverse_cons, List.append_assoc,
    List.dropWhile_append_of_pos hback, List.takeWhile_append_of_pos hback]
  simp

theorem splitExtension?_of_not_mem {name : List Char} (h : '.' ∉ name) :
    splitExtension? name = none := by
  rw [splitExtension?, List.dropWhile_eq_nil_iff.mpr (ne_of_mem_reverse h)]

/-- A name is split at its last dot. -/
theorem splitExtension?_eq_some_iff {name stem extension : List Char} :
    splitExtension? name = some (stem, extension) ↔
      name = stem ++ '.' :: extension ∧ '.' ∉ extension := by
  constructor
  · intro h
    by_cases hdot : '.' ∈ name
    · obtain ⟨front, back, rfl, hback⟩ := Text.exists_last_mark hdot
      rw [splitExtension?_append hback] at h
      cases h
      exact ⟨rfl, hback⟩
    · rw [splitExtension?_of_not_mem hdot] at h
      cases h
  · rintro ⟨rfl, hdot⟩
    exact splitExtension?_append hdot stem

theorem ofPath?_eq_some_iff_split {path : String} {f : Family} :
    ofPath? path = some f ↔
      ∃ stem extension, stem ≠ [] ∧
        splitExtension? (lastComponent path.toList) = some (stem, extension) ∧
        ofExtension? extension = some f := by
  rw [ofPath?]
  split
  next hsplit => simp [hsplit]
  next hsplit => simp [hsplit]
  next hsplit => simp [hsplit]

/-- What stands behind the last dot in the paths of a family. -/
def extensions : Family → List (List Char)
  | c => [['c']]
  | cpp => [['c', 'c'], ['c', 'p', 'p']]
  | objC => [['m']]
  | objCpp => [['m', 'm']]

theorem ofExtension?_eq_some_iff {extension : List Char} {f : Family} :
    ofExtension? extension = some f ↔ extension ∈ f.extensions := by
  cases f <;> grind [ofExtension?, extensions]

theorem not_mem_of_mem_extensions {extension : List Char} {f : Family}
    (h : extension ∈ f.extensions) : '.' ∉ extension ∧ '/' ∉ extension := by
  cases f <;> grind [extensions]

theorem exists_iff {p : Family → Prop} : (∃ f, p f) ↔ p c ∨ p cpp ∨ p objC ∨ p objCpp := by
  constructor
  · rintro ⟨f, hf⟩
    cases f <;> simp [hf]
  · rintro (h | h | h | h) <;> exact ⟨_, h⟩

end Family

/-- The separator and the dot are looked for one after the other. Where an extension holds neither,
that comes to one look at the end of the path. -/
theorem endsIn_iff {path : String} {extension : List Char} (hdot : '.' ∉ extension)
    (hseparator : '/' ∉ extension) :
    EndsIn path extension ↔
      ∃ stem, stem ≠ [] ∧
        Family.splitExtension? (Family.lastComponent path.toList) = some (stem, extension) := by
  constructor
  · rintro ⟨c, hc, front, hpath⟩
    have hback : '/' ∉ c :: '.' :: extension := by simp [Ne.symm hc, hseparator]
    refine ⟨Family.lastComponent front ++ [c], by simp, ?_⟩
    rw [Family.splitExtension?_eq_some_iff, ← hpath, Family.lastComponent_append hback,
      List.append_assoc, List.singleton_append]
    exact ⟨rfl, hdot⟩
  · rintro ⟨stem, hstem, hsplit⟩
    obtain ⟨hname, -⟩ := Family.splitExtension?_eq_some_iff.mp hsplit
    obtain ⟨init, c, rfl⟩ := (List.eq_nil_or_concat' stem).resolve_left hstem
    rw [List.append_assoc, List.singleton_append] at hname
    have hmem : c ∈ Family.lastComponent path.toList := by simp [hname]
    have hends : c :: '.' :: extension <:+ Family.lastComponent path.toList := ⟨init, hname.symm⟩
    refine ⟨c, ?_, hends.trans (Family.lastComponent_suffix _)⟩
    rintro rfl
    exact Family.not_mem_lastComponent _ hmem

namespace Family

theorem ofPath?_eq_some_iff {path : String} {f : Family} :
    ofPath? path = some f ↔ ∃ extension ∈ f.extensions, EndsIn path extension := by
  rw [ofPath?_eq_some_iff_split]
  constructor
  · rintro ⟨stem, extension, hstem, hsplit, hf⟩
    have hmem := ofExtension?_eq_some_iff.mp hf
    obtain ⟨hdot, hseparator⟩ := not_mem_of_mem_extensions hmem
    exact ⟨extension, hmem, (endsIn_iff hdot hseparator).mpr ⟨stem, hstem, hsplit⟩⟩
  · rintro ⟨extension, hmem, hends⟩
    obtain ⟨hdot, hseparator⟩ := not_mem_of_mem_extensions hmem
    obtain ⟨stem, hstem, hsplit⟩ := (endsIn_iff hdot hseparator).mp hends
    exact ⟨stem, extension, hstem, hsplit, ofExtension?_eq_some_iff.mpr hmem⟩

theorem ofPath?_eq_none_iff {path : String} :
    ofPath? path = none ↔ ¬ ∃ f : Family, ∃ extension ∈ f.extensions, EndsIn path extension := by
  simp only [Option.eq_none_iff_forall_ne_some, ← ofPath?_eq_some_iff, not_exists]

theorem ofPath?_append_separator (dir path : String) :
    ofPath? (dir ++ "/" ++ path) = ofPath? path := by
  have htext : (dir ++ "/" ++ path).toList = dir.toList ++ '/' :: path.toList := by simp
  rw [ofPath?, htext, lastComponent_append_separator]
  rfl

end Family

namespace LanguageClass

theorem ofPath?_eq_some_iff {path : String} {k : LanguageClass} :
    ofPath? path = some k ↔
      ∃ f : Family, f.languageClass = k ∧ ∃ extension ∈ f.extensions, EndsIn path extension := by
  rw [ofPath?, Option.map_eq_some_iff]
  simp only [Family.ofPath?_eq_some_iff, and_comm]

/-- The class of a path is a matter of its end. A path with one of five extensions, behind a dot and
a character other than a separator, has the class of the extension; any other path has none. So the
directories before a path do not count. -/
theorem ofPath?_endsIn (path : String) :
    (ofPath? path = some c ↔ EndsIn path ['c']) ∧
    (ofPath? path = some cpp ↔ EndsIn path ['c', 'c'] ∨ EndsIn path ['c', 'p', 'p']) ∧
    (ofPath? path = some objC ↔ EndsIn path ['m'] ∨ EndsIn path ['m', 'm']) ∧
    (ofPath? path = none ↔
      ¬ ∃ extension ∈ [['c'], ['c', 'c'], ['c', 'p', 'p'], ['m'], ['m', 'm']],
        EndsIn path extension) ∧
    ∀ dir : String, ofPath? (dir ++ "/" ++ path) = ofPath? path := by
  simp only [ofPath?_eq_some_iff, Family.exists_iff, Family.languageClass, Family.extensions]
  refine ⟨by simp, by simp, by simp, ?_, ?_⟩
  · rw [ofPath?, Option.map_eq_none_iff, Family.ofPath?_eq_none_iff, Family.exists_iff]
    simp [Family.extensions, or_assoc]
  · intro dir
    rw [ofPath?, Family.ofPath?_append_separator]
    rfl

/-- Names without a stem, other extensions, and dots in directories. -/
example : [".cc", "dir.cc/", "a.b/c", "foo.CC", "foo.c.h"].map ofPath? = List.replicate 5 none := by
  decide

end LanguageClass

end Hygiene.Gn
