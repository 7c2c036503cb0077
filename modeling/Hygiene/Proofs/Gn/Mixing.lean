import Hygiene.Proofs.Text.Order
import Hygiene.Gn.Mixing

/-!
What it means for a target to mix languages, said without the lists of classes by which it is
found out: one of its source lists holds two sources of different classes. A target has a violation
exactly when it mixes, and the violation names the sources with a class in its mixing lists and no
others.
-/

namespace Hygiene.Gn

/-- Two sources of a list are of different classes. -/
def Mixes (group : List String) : Prop :=
  ∃ a ∈ group, ∃ b ∈ group, ∃ k l,
    LanguageClass.ofPath? a = some k ∧ LanguageClass.ofPath? b = some l ∧ k ≠ l

/-- Some source list of a target holds two sources of different classes. -/
def Target.Mixing (t : Target) : Prop := ∃ group ∈ t.groups, Mixes group

theorem mem_firstMet {α : Type} [DecidableEq α] {x : α} {seen items : List α} :
    x ∈ firstMet seen items ↔ x ∈ seen ∨ x ∈ items := by
  induction items generalizing seen with
  | nil => simp [firstMet]
  | cons a rest ih =>
      rw [firstMet, ih, List.mem_cons]
      split
      next hseen =>
        constructor
        · rintro (h | h)
          · exact Or.inl h
          · exact Or.inr (Or.inr h)
        · rintro (h | rfl | h)
          · exact Or.inl h
          · exact Or.inl hseen
          · exact Or.inr h
      next _ =>
        rw [List.mem_append, List.mem_singleton, or_assoc]

theorem nodup_firstMet {α : Type} [DecidableEq α] {seen : List α} (items : List α)
    (hseen : seen.Nodup) : (firstMet seen items).Nodup := by
  induction items generalizing seen with
  | nil => exact hseen
  | cons a rest ih =>
      rw [firstMet]
      split
      · exact ih hseen
      next hnew =>
        apply ih
        rw [List.nodup_append]
        refine ⟨hseen, List.nodup_singleton a, ?_⟩
        intro x hx y hy heq
        rw [List.mem_singleton] at hy
        exact hnew (hy ▸ heq ▸ hx)

theorem mem_classesOf {k : LanguageClass} {group : List String} :
    k ∈ classesOf group ↔ ∃ s ∈ group, LanguageClass.ofPath? s = some k := by
  simp [classesOf, mem_firstMet]

theorem nodup_classesOf (group : List String) : (classesOf group).Nodup :=
  nodup_firstMet _ List.nodup_nil

/-- The classes of a list are counted once each, so there are two of them exactly when two sources
differ in class. -/
theorem mixes_iff (group : List String) : mixes group = true ↔ Mixes group := by
  have hcard : (classesOf group).toFinset.card = (classesOf group).length :=
    List.toFinset_card_of_nodup (nodup_classesOf group)
  have htwo : 2 ≤ (classesOf group).length ↔
      ∃ k ∈ classesOf group, ∃ l ∈ classesOf group, k ≠ l := by
    rw [← hcard, ← Nat.lt_iff_add_one_le, Finset.one_lt_card]
    simp only [List.mem_toFinset]
  rw [mixes, decide_eq_true_iff, htwo]
  simp only [mem_classesOf]
  constructor
  · rintro ⟨k, ⟨a, ha, hk⟩, l, ⟨b, hb, hl⟩, hne⟩
    exact ⟨a, ha, b, hb, k, l, hk, hl, hne⟩
  · rintro ⟨a, ha, b, hb, k, l, hk, hl, hne⟩
    exact ⟨k, ⟨a, ha, hk⟩, l, ⟨b, hb, hl⟩, hne⟩

instance (group : List String) : Decidable (Mixes group) :=
  decidable_of_iff (mixes group = true) (mixes_iff group)

instance (t : Target) : Decidable t.Mixing :=
  inferInstanceAs (Decidable (∃ group ∈ t.groups, Mixes group))

theorem mem_classified {s : String} {group : List String} :
    s ∈ classified group ↔ s ∈ group ∧ (LanguageClass.ofPath? s).isSome := by
  simp [classified]

/-- A list of sources is the offending one of a target: it is strictly increasing, and it holds the
sources with a class in a mixing list of the target and no others. -/
structure Target.Offending (t : Target) (sources : List String) : Prop where
  increasing : sources.Pairwise (· < ·)
  mem_iff : ∀ s, s ∈ sources ↔
    ∃ group ∈ t.groups, Mixes group ∧ s ∈ group ∧ (LanguageClass.ofPath? s).isSome

structure Violation.Describes (v : Violation) (file : String) (t : Target) : Prop where
  file_eq : v.file = file
  target_eq : v.target = t.name
  offending : t.Offending v.sources

namespace Target

theorem mem_mixingGroups {t : Target} {group : List String} :
    group ∈ t.mixingGroups ↔ group ∈ t.groups ∧ Mixes group := by
  rw [mixingGroups, List.mem_filter, mixes_iff]

theorem mixingGroups_eq_nil {t : Target} : t.mixingGroups = [] ↔ ¬ t.Mixing := by
  rw [List.eq_nil_iff_forall_not_mem]
  simp only [mem_mixingGroups, Mixing, not_exists]

theorem offending_offendingSources (t : Target) : t.Offending t.offendingSources where
  increasing := Text.pairwise_sortDistinct _
  mem_iff s := by
    simp only [offendingSources, Text.mem_sortDistinct, List.mem_flatMap, mem_classified,
      mem_mixingGroups, and_assoc]

/-- A mixing list holds sources with a class, so asking for an offending source comes to asking for
a mixing list. -/
theorem isEmpty_offendingSources_iff {t : Target} :
    t.offendingSources.isEmpty = true ↔ t.mixingGroups = [] := by
  rw [List.isEmpty_iff]
  constructor
  · intro hnone
    rw [List.eq_nil_iff_forall_not_mem]
    intro group hgroup
    obtain ⟨hmem, hmixes⟩ := mem_mixingGroups.mp hgroup
    have ⟨s, hs, _, _, k, _, hk, _, _⟩ := hmixes
    have hsource : s ∈ t.offendingSources :=
      (t.offending_offendingSources.mem_iff s).mpr
        ⟨group, hmem, hmixes, hs, Option.isSome_iff_exists.mpr ⟨k, hk⟩⟩
    rw [hnone] at hsource
    exact List.not_mem_nil hsource
  · intro hnone
    rw [offendingSources, hnone]
    rfl

theorem violation?_of_not_mixing {t : Target} (file : String) (h : ¬ t.Mixing) :
    t.violation? file = none := by
  rw [violation?, if_pos (isEmpty_offendingSources_iff.mpr (mixingGroups_eq_nil.mpr h))]

theorem violation?_of_mixing {t : Target} (file : String) (h : t.Mixing) :
    ∃ v, t.violation? file = some v ∧ v.Describes file t := by
  have hsome : ¬ t.offendingSources.isEmpty = true := fun hnone =>
    mixingGroups_eq_nil.mp (isEmpty_offendingSources_iff.mp hnone) h
  exact ⟨_, if_neg hsome, rfl, rfl, t.offending_offendingSources⟩

theorem file_of_violation? {t : Target} {file : String} {v : Violation}
    (h : t.violation? file = some v) : v.file = file := by
  rw [violation?] at h
  split at h
  · cases h
  · cases h
    rfl

end Target

theorem file_of_mem_violations {file text : String} {v : Violation}
    (h : v ∈ violations file text) : v.file = file := by
  obtain ⟨t, -, hv⟩ := List.mem_filterMap.mp h
  exact Target.file_of_violation? hv

/-- The targets of a text that mix languages, in the order of the text. -/
def mixingTargets (text : String) : List Target := (scanTargets text).filter fun t => t.Mixing

theorem mixingTargets_ne_nil {text : String} :
    mixingTargets text ≠ [] ↔ ∃ t ∈ scanTargets text, t.Mixing := by
  simp [mixingTargets, List.filter_eq_nil_iff]

/-- The violations of a file, one behind the other, are those of its mixing targets. -/
theorem violations_describe (file text : String) :
    List.Forall₂ (fun v t => Violation.Describes v file t) (violations file text)
      (mixingTargets text) := by
  rw [violations, mixingTargets]
  induction scanTargets text with
  | nil => exact List.Forall₂.nil
  | cons t rest ih =>
      by_cases hmix : t.Mixing
      · obtain ⟨v, hv, hdescribes⟩ := Target.violation?_of_mixing file hmix
        rw [List.filterMap_cons_some (by exact hv), List.filter_cons_of_pos (by simpa using hmix)]
        exact List.Forall₂.cons hdescribes ih
      · rw [List.filterMap_cons_none (by exact Target.violation?_of_not_mixing file hmix),
          List.filter_cons_of_neg (by simpa using hmix)]
        exact ih

end Hygiene.Gn
