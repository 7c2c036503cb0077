import Hygiene.Proofs.Outcome.Stable

/-!
Sorting findings. The comparison tells of any two findings which comes before the other or that
their keys are equal, so it never contradicts itself; the order in which it puts paths is not that
of their texts. A run that sorts its findings once more, or leaves some of them out before or
behind the sorting, ends with the same list.
-/

namespace Hygiene

namespace Path

inductive Component.Before : Component → Component → Prop
  | kind {a b : Component} (h : a.rank < b.rank) : Before a b
  | name {s t : String} (h : s < t) : Before (.name s) (.name t)

theorem Component.compare_eq_lt_iff {a b : Component} : Ord.compare a b = .lt ↔ a.Before b := by
  have hparts : Ord.compare a b = .lt ↔
      a.rank < b.rank ∨ a.rank = b.rank ∧ a.label < b.label := by
    change (Ord.compare a.rank b.rank).then (Ord.compare a.label b.label) = .lt ↔ _
    rw [Ordering.then_eq_lt, Nat.compare_eq_lt, Nat.compare_eq_eq]
    exact or_congr Iff.rfl (and_congr Iff.rfl compareOfLessAndEq_eq_lt)
  rw [hparts]
  constructor
  · rintro (hrank | ⟨hrank, hlabel⟩)
    · exact .kind hrank
    · -- Components of one kind differ only if they are names.
      cases a with
      | name s =>
          cases b with
          | name t => exact .name hlabel
          | _ => cases hrank
      | _ =>
          cases b with
          | name t => cases hrank
          | _ => exact absurd hlabel (String.lt_irrefl "")
  · rintro (hrank | hname)
    · exact Or.inl hrank
    · exact Or.inr ⟨rfl, hname⟩

theorem compare_components_eq_lt_iff {cs ds : List Component} :
    Ord.compare cs ds = .lt ↔ List.Lex Component.Before cs ds := by
  induction cs generalizing ds with
  | nil =>
      cases ds with
      | nil => exact ⟨nofun, nofun⟩
      | cons d ds => exact ⟨fun _ => .nil, fun _ => rfl⟩
  | cons c cs ih =>
      cases ds with
      | nil => exact ⟨nofun, nofun⟩
      | cons d ds =>
          rw [List.compare_cons_cons, Ordering.then_eq_lt, Component.compare_eq_lt_iff, ih,
            List.cons_lex_cons_iff, Std.LawfulEqCmp.compare_eq_iff_eq]

end Path

namespace Key

/-- One key is sorted before another one: the code comes first, then the file, where no file comes
before any file and paths go by their first components that differ, then the message. -/
inductive Before : Key → Key → Prop
  | code {a b : Key} (h : a.code < b.code) : Before a b
  | file {a b : Key} (hcode : a.code = b.code)
      (h : Option.lt (List.Lex Path.Component.Before) a.file b.file) : Before a b
  | message {a b : Key} (hcode : a.code = b.code) (hfile : a.file = b.file)
      (h : a.message < b.message) : Before a b

theorem compare_file_eq_lt_iff {a b : Option (List Path.Component)} :
    Ord.compare a b = .lt ↔ Option.lt (List.Lex Path.Component.Before) a b := by
  cases a with
  | none =>
      cases b with
      | none => exact ⟨nofun, nofun⟩
      | some ds => exact ⟨fun _ => trivial, fun _ => rfl⟩
  | some cs =>
      cases b with
      | none => exact ⟨nofun, nofun⟩
      | some ds => exact Path.compare_components_eq_lt_iff

theorem compare_eq_lt_iff {a b : Key} : compare a b = .lt ↔ a.Before b := by
  have htext (s t : String) : Ord.compare s t = .lt ↔ s < t := compareOfLessAndEq_eq_lt
  rw [compare, Ordering.then_eq_lt, Ordering.then_eq_lt, htext, htext, compare_file_eq_lt_iff,
    Std.LawfulEqCmp.compare_eq_iff_eq, Std.LawfulEqCmp.compare_eq_iff_eq]
  constructor
  · rintro (hcode | ⟨hcode, hfile | ⟨hfile, hmessage⟩⟩)
    · exact .code hcode
    · exact .file hcode hfile
    · exact .message hcode hfile hmessage
  · rintro (hcode | ⟨hcode, hfile⟩ | ⟨hcode, hfile, hmessage⟩)
    · exact Or.inl hcode
    · exact Or.inr ⟨hcode, Or.inl hfile⟩
    · exact Or.inr ⟨hcode, Or.inr ⟨hfile, hmessage⟩⟩

end Key

namespace Diagnostic

theorem compare_eq_lt_iff {a b : Diagnostic} : compare a b = .lt ↔ a.key.Before b.key := by
  rw [compare_eq, Key.compare_eq_lt_iff]

theorem compare_eq_gt_iff {a b : Diagnostic} : compare a b = .gt ↔ b.key.Before a.key := by
  have hswap : compare a b = (compare b a).swap := Std.OrientedCmp.eq_swap
  rw [hswap, Ordering.swap_eq_gt, compare_eq_lt_iff]

theorem compare_eq_eq_iff {a b : Diagnostic} : compare a b = .eq ↔ a.key = b.key := by
  rw [compare_eq, Std.LawfulEqCmp.compare_eq_iff_eq]

instance : IsPreorder Diagnostic Le where
  refl := Le.refl
  trans _ _ _ := Le.trans

instance : Std.Total Le where
  total := le_total

end Diagnostic

namespace Outcome

/-- The outcome with only those findings that satisfy a predicate. -/
def keep (o : Outcome) (p : Diagnostic → Bool) : Outcome :=
  { o with diagnostics := o.diagnostics.filter p }

theorem sort_sort (o : Outcome) : o.sort.sort = o.sort := by
  have hsorted : o.sort.sort.diagnostics = o.sort.diagnostics :=
    List.mergeSort_of_pairwise o.pairwise_sort
  exact congrArg (Outcome.mk · o.filesChecked) hsorted

theorem sort_keep (o : Outcome) (p : Diagnostic → Bool) : (o.keep p).sort = o.sort.keep p :=
  congrArg (Outcome.mk · o.filesChecked) (diagnostics_sort_filter o.diagnostics p _ _)

/-- What sorting does. The comparison goes by the keys and is a total preorder of all findings.
Sorting puts the findings in that order, keeps those that are tied as they stood, and leaves the
number of files alone; doing it twice changes nothing, and neither does leaving findings out before
it or behind it. -/
theorem sort_stably (o : Outcome) :
    (∀ a b, (Diagnostic.compare a b = .lt ↔ a.key.Before b.key) ∧
        (Diagnostic.compare a b = .eq ↔ a.key = b.key) ∧
        (Diagnostic.compare a b = .gt ↔ b.key.Before a.key)) ∧
      (IsPreorder Diagnostic Diagnostic.Le ∧ Std.Total Diagnostic.Le) ∧
      Diagnostic.StableSort o.diagnostics o.sort.diagnostics ∧
      o.sort.filesChecked = o.filesChecked ∧
      o.sort.sort = o.sort ∧
      ∀ p, (o.keep p).sort = o.sort.keep p := by
  refine ⟨?_, ⟨inferInstance, inferInstance⟩, o.stableSort_sort, rfl, o.sort_sort, o.sort_keep⟩
  intro a b
  exact ⟨Diagnostic.compare_eq_lt_iff, Diagnostic.compare_eq_eq_iff, Diagnostic.compare_eq_gt_iff⟩

/-- The separator is no character of a name: `a/z` comes before `a-b`, and is tied with `a//z`. -/
example : (Ord.compare (⟨"a/z"⟩ : Path) ⟨"a-b"⟩, Ord.compare (⟨"a//z"⟩ : Path) ⟨"a/z"⟩) =
    (.lt, .eq) := by
  decide +kernel

end Outcome

end Hygiene
