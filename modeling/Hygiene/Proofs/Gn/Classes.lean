import Hygiene.Proofs.Gn.Mixing

/-!
What a violation says about a target does not depend on how the sources stand in its lists. Lists
with the same members mix alike and give the same offending sources; only the classes may be met in
another order. That order is the one in which they occur first in the mixing lists.
-/

namespace Hygiene.Gn

section FirstMet

variable {α : Type} [DecidableEq α]

/-- A list holds the members of another one, each once, in the order in which they occur there
first. -/
structure FirstOccurrences (items firsts : List α) : Prop where
  nodup : firsts.Nodup
  mem_iff : ∀ a, a ∈ firsts ↔ a ∈ items
  ordered : firsts.Pairwise fun a b => items.idxOf a < items.idxOf b

theorem firstMet_append (seen items more : List α) :
    firstMet seen (items ++ more) = firstMet (firstMet seen items) more := by
  induction items generalizing seen with
  | nil => rfl
  | cons a rest ih =>
      simp only [List.cons_append, firstMet]
      exact ih _

/-- One more item counts only if it is new. -/
theorem firstMet_snoc (seen items : List α) (a : α) :
    firstMet seen (items ++ [a]) =
      if a ∈ firstMet seen items then firstMet seen items else firstMet seen items ++ [a] := by
  rw [firstMet_append]
  rfl

theorem firstOccurrences_firstMet (items : List α) :
    FirstOccurrences items (firstMet [] items) := by
  have hmem (items : List α) (a : α) : a ∈ firstMet [] items ↔ a ∈ items := by
    simp [mem_firstMet]
  refine ⟨nodup_firstMet items List.nodup_nil, hmem items, ?_⟩
  -- Items are taken in at the end, where they leave the positions of earlier ones as they are.
  induction items using List.reverseRecOn with
  | nil => exact List.Pairwise.nil
  | append_singleton items a ih =>
      have hkept : (firstMet [] items).Pairwise fun x y =>
          (items ++ [a]).idxOf x < (items ++ [a]).idxOf y := by
        apply ih.imp_of_mem
        intro x y hx hy hlt
        rw [List.idxOf_append_of_mem ((hmem items x).mp hx),
          List.idxOf_append_of_mem ((hmem items y).mp hy)]
        exact hlt
      rw [firstMet_snoc]
      split
      · exact hkept
      next hnew =>
        rw [hmem] at hnew
        rw [List.pairwise_append]
        refine ⟨hkept, List.pairwise_singleton _ _, ?_⟩
        intro x hx y hy
        obtain rfl := List.mem_singleton.mp hy
        have hold := (hmem items x).mp hx
        rw [List.idxOf_append_of_mem hold, List.idxOf_append_of_notMem hnew]
        have hlt := List.idxOf_lt_length_of_mem hold
        omega

/-- Leaving out repetitions beforehand changes nothing. -/
theorem firstMet_firstMet (seen items : List α) :
    firstMet seen (firstMet [] items) = firstMet seen items := by
  induction items using List.reverseRecOn with
  | nil => rfl
  | append_singleton items a ih =>
      rw [firstMet_snoc [], firstMet_snoc seen]
      split
      next hold =>
        have hmet : a ∈ firstMet seen items := by
          rw [mem_firstMet] at hold ⊢
          exact Or.inr (hold.resolve_left List.not_mem_nil)
        rw [if_pos hmet]
        exact ih
      next => rw [firstMet_snoc, ih]

theorem firstMet_flatMap {β : Type} (seen : List α) (groups : List β) (f : β → List α) :
    firstMet seen (groups.flatMap fun g => firstMet [] (f g)) =
      firstMet seen (groups.flatMap f) := by
  induction groups generalizing seen with
  | nil => rfl
  | cons g rest ih =>
      rw [List.flatMap_cons, List.flatMap_cons, firstMet_append, firstMet_append, ih,
        firstMet_firstMet]

end FirstMet

/-- Two lists of sources hold the same, up to order and repetition. -/
def SameMembers (group other : List String) : Prop := ∀ s, s ∈ group ↔ s ∈ other

theorem SameMembers.symm {group other : List String} (h : SameMembers group other) :
    SameMembers other group :=
  fun s => (h s).symm

theorem SameMembers.mixes {group other : List String} (h : SameMembers group other)
    (hmixes : Mixes group) : Mixes other := by
  obtain ⟨a, ha, b, hb, k, l, hk, hl, hne⟩ := hmixes
  exact ⟨a, (h a).mp ha, b, (h b).mp hb, k, l, hk, hl, hne⟩

namespace Target

/-- Two targets have one name and the same source lists, up to the order of the sources in a list
and to repetition. How they are declared does not matter. -/
structure Alike (t u : Target) : Prop where
  name_eq : t.name = u.name
  groups : List.Forall₂ SameMembers t.groups u.groups

/-- The classes of the sources in the mixing lists, as they stand there. -/
def mixingClasses (t : Target) : List LanguageClass :=
  (t.groups.filter fun group => Mixes group).flatMap fun group =>
    group.filterMap LanguageClass.ofPath?

theorem mem_mixingClasses {t : Target} {k : LanguageClass} :
    k ∈ t.mixingClasses ↔
      ∃ group ∈ t.groups, Mixes group ∧ ∃ s ∈ group, LanguageClass.ofPath? s = some k := by
  simp [mixingClasses, and_assoc]

theorem mixingGroups_eq (t : Target) :
    t.mixingGroups = t.groups.filter fun group => Mixes group := by
  refine List.filter_congr ?_
  intro group _
  rw [Bool.eq_iff_iff, mixes_iff, decide_eq_true_iff]

theorem classes_of_violation? {t : Target} {file : String} {v : Violation}
    (h : t.violation? file = some v) : v.classes = firstMet [] t.mixingClasses := by
  have hclasses : firstMet [] (t.mixingGroups.flatMap classesOf) =
      firstMet [] t.mixingClasses := by
    rw [mixingClasses, ← mixingGroups_eq]
    exact firstMet_flatMap [] t.mixingGroups _
  rw [violation?] at h
  split at h
  · cases h
  · cases h
    exact hclasses

theorem isSome_violation?_iff {t : Target} (file : String) :
    (t.violation? file).isSome ↔ t.Mixing := by
  constructor
  · intro h
    by_contra hmixing
    rw [violation?_of_not_mixing file hmixing] at h
    cases h
  · intro h
    obtain ⟨v, hv, -⟩ := violation?_of_mixing file h
    rw [hv]
    rfl

/-- A violation names two classes at least, since every mixing list holds sources of two. -/
theorem two_le_length_classes {t : Target} {file : String} {v : Violation}
    (h : t.violation? file = some v) : 2 ≤ v.classes.length := by
  have hmixing : t.Mixing := (isSome_violation?_iff file).mp (by rw [h]; rfl)
  obtain ⟨group, hgroup, hmixes⟩ := hmixing
  have hsubset : classesOf group ⊆ v.classes := by
    intro k hk
    rw [classes_of_violation? h, mem_firstMet, mem_mixingClasses]
    exact Or.inr ⟨group, hgroup, hmixes, mem_classesOf.mp hk⟩
  have htwo : 2 ≤ (classesOf group).length := of_decide_eq_true ((mixes_iff group).mpr hmixes)
  have hle := ((nodup_classesOf group).subperm hsubset).length_le
  omega

theorem Offending.unique {t : Target} {sources others : List String} (h : t.Offending sources)
    (hothers : t.Offending others) : sources = others :=
  h.increasing.eq_of_mem_iff hothers.increasing fun s =>
    (h.mem_iff s).trans (hothers.mem_iff s).symm

namespace Alike

variable {t u : Target}

theorem symm (h : t.Alike u) : u.Alike t where
  name_eq := h.name_eq.symm
  groups := by
    apply List.Forall₂.flip
    exact h.groups.imp fun _ _ hsame => hsame.symm

/-- What holds of a mixing list of one target and depends on its members only holds of a mixing
list of the other one. -/
theorem exists_group (h : t.Alike u) {P : List String → Prop}
    (hP : ∀ group other, SameMembers group other → P group → P other)
    (hgroup : ∃ group ∈ t.groups, Mixes group ∧ P group) :
    ∃ group ∈ u.groups, Mixes group ∧ P group := by
  obtain ⟨group, hmem, hmixes, hgroup⟩ := hgroup
  obtain ⟨i, hi, rfl⟩ := List.getElem_of_mem hmem
  have hlength : i < u.groups.length := h.groups.length_eq ▸ hi
  have hsame : SameMembers t.groups[i] u.groups[i] := h.groups.get hi hlength
  exact ⟨_, List.getElem_mem hlength, hsame.mixes hmixes, hP _ _ hsame hgroup⟩

theorem exists_group_iff (h : t.Alike u) {P : List String → Prop}
    (hP : ∀ group other, SameMembers group other → P group → P other) :
    (∃ group ∈ t.groups, Mixes group ∧ P group) ↔ ∃ group ∈ u.groups, Mixes group ∧ P group :=
  ⟨h.exists_group hP, h.symm.exists_group hP⟩

theorem mixing_iff (h : t.Alike u) : t.Mixing ↔ u.Mixing := by
  have hgroups := h.exists_group_iff (P := fun _ => True) fun _ _ _ _ => trivial
  simpa only [and_true, Mixing] using hgroups

theorem offending (h : t.Alike u) {sources : List String} (ht : t.Offending sources) :
    u.Offending sources where
  increasing := ht.increasing
  mem_iff s := by
    rw [ht.mem_iff s]
    exact h.exists_group_iff fun _ _ hsame hs => ⟨(hsame s).mp hs.1, hs.2⟩

theorem mem_mixingClasses_iff (h : t.Alike u) (k : LanguageClass) :
    k ∈ t.mixingClasses ↔ k ∈ u.mixingClasses := by
  rw [mem_mixingClasses, mem_mixingClasses]
  apply h.exists_group_iff
  rintro group other hsame ⟨s, hs, hk⟩
  exact ⟨s, (hsame s).mp hs, hk⟩

end Alike

end Target

structure Violation.Alike (v w : Violation) : Prop where
  file_eq : v.file = w.file
  target_eq : v.target = w.target
  sources_eq : v.sources = w.sources
  mem_classes_iff : ∀ k, k ∈ v.classes ↔ k ∈ w.classes

/-- Targets that differ at most in how the sources stand in their lists have violations that say
the same, or none; and the classes of a violation are those of the mixing lists, by first
occurrence. -/
theorem violation?_reordered (file : String) :
    (∀ t u : Target, t.Alike u →
      ((t.violation? file).isSome ↔ t.Mixing) ∧
        Option.Rel Violation.Alike (t.violation? file) (u.violation? file)) ∧
    ∀ (t : Target) (v : Violation), t.violation? file = some v →
      FirstOccurrences t.mixingClasses v.classes ∧ 2 ≤ v.classes.length := by
  constructor
  · intro t u h
    refine ⟨Target.isSome_violation?_iff file, ?_⟩
    by_cases hmixing : t.Mixing
    · obtain ⟨v, hv, hdescribes⟩ := Target.violation?_of_mixing file hmixing
      obtain ⟨w, hw, hdescribes'⟩ := Target.violation?_of_mixing file (h.mixing_iff.mp hmixing)
      rw [hv, hw]
      apply Option.Rel.some
      refine ⟨hdescribes.file_eq.trans hdescribes'.file_eq.symm, ?_, ?_, ?_⟩
      · rw [hdescribes.target_eq, hdescribes'.target_eq, h.name_eq]
      · exact (h.offending hdescribes.offending).unique hdescribes'.offending
      · intro k
        rw [Target.classes_of_violation? hv, Target.classes_of_violation? hw, mem_firstMet,
          mem_firstMet, h.mem_mixingClasses_iff]
    · rw [Target.violation?_of_not_mixing file hmixing,
        Target.violation?_of_not_mixing file (mt h.mixing_iff.mpr hmixing)]
      exact Option.Rel.none
  · intro t v h
    refine ⟨?_, Target.two_le_length_classes h⟩
    rw [Target.classes_of_violation? h]
    exact firstOccurrences_firstMet t.mixingClasses

/-- A target with a mixing list between two that do not mix. -/
def scattered : Target :=
  ⟨"lib", "a", [["z.c"], ["x.cc", "y.c", "y.h", "x.cc"], ["w.mm", "v.m"]]⟩

/-- The same sources in another order, some of them repeated, declared in another way. -/
def gathered : Target :=
  ⟨"executable", "a", [["z.c", "z.c"], ["y.c", "y.h", "x.cc"], ["v.m", "w.mm"]]⟩

theorem violation?_reordered_scattered :
    scattered.Alike gathered ∧
    scattered.violation? "BUILD.gn" =
      some ⟨"BUILD.gn", "a", ["x.cc", "y.c"], [.cpp, .c]⟩ ∧
    (∃ w, gathered.violation? "BUILD.gn" = some w ∧ w.sources = ["x.cc", "y.c"] ∧
      ∀ k, k ∈ w.classes ↔ k = .cpp ∨ k = .c) ∧
    FirstOccurrences scattered.mixingClasses [.cpp, .c] := by
  have halike : scattered.Alike gathered := by
    refine ⟨rfl, ?_⟩
    simp [scattered, gathered, SameMembers]
    tauto
  have hv : scattered.violation? "BUILD.gn" =
      some ⟨"BUILD.gn", "a", ["x.cc", "y.c"], [.cpp, .c]⟩ := by decide +kernel
  obtain ⟨hreordered, hrecord⟩ := violation?_reordered "BUILD.gn"
  refine ⟨halike, hv, ?_, (hrecord scattered _ hv).1⟩
  have hrel := (hreordered scattered gathered halike).2
  rw [hv] at hrel
  cases hw : gathered.violation? "BUILD.gn" with
  | none =>
      rw [hw] at hrel
      cases hrel
  | some w =>
      rw [hw] at hrel
      cases hrel with
      | some hsame =>
          refine ⟨w, rfl, hsame.sources_eq.symm, ?_⟩
          intro k
          rw [← hsame.mem_classes_iff]
          simp

end Hygiene.Gn
