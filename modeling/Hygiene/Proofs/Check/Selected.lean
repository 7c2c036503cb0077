import Mathlib.Tactic
import Hygiene.Check.Preset
import Hygiene.Proofs.Except

/-!
The checks that a configuration selects. Each is made from the section of its own, which the preset
changes in one case: the strict one makes a reference to an issue mandatory where the section leaves
that open.
-/

namespace Hygiene

theorem Section.get?_append (s : Section) (name key : String) (v : Toml.Value) :
    { s with options := s.options ++ [(name, v)] }.get? key =
      (s.get? key).or (if name = key then some v else none) := by
  rw [get?, get?, Toml.Entries.get?, Toml.Entries.get?, List.lookup_append, List.lookup_cons]
  by_cases h : name = key
  · rw [if_pos h, beq_iff_eq.mpr h.symm]
  · rw [if_neg h, beq_eq_false_iff_ne.mpr (Ne.symm h), List.lookup_nil]

namespace BuiltIn

theorem kind_of_ofSection {s : Section} {kind : CheckKind} {b : BuiltIn}
    (h : ofSection s kind = .ok b) : b.kind = kind := by
  cases kind with
  | bugEntry =>
      obtain ⟨_, -, rfl⟩ := Except.map_eq_ok_iff.mp h
      rfl
  | singleNewline =>
      obtain ⟨_, -, rfl⟩ := Except.map_eq_ok_iff.mp h
      rfl
  | noMixing =>
      obtain ⟨_, -, rfl⟩ := Except.map_eq_ok_iff.mp h
      rfl

/-- The rules of two sections with the same threshold and pattern differ at most in whether they
make a reference mandatory. -/
theorem ruleOf_eq_map {s other : Section}
    (hthreshold : s.get? "chromium_threshold" = other.get? "chromium_threshold")
    (hpattern : s.get? "pattern" = other.get? "pattern") :
    ruleOf s =
      (ruleOf other).map fun rule => { rule with require := s.getBool "require" false } := by
  rw [ruleOf, ruleOf, Section.getInteger, Section.getInteger, hthreshold, hpattern]
  dsimp only
  split
  · rfl
  · simp only [pure_bind]
    split
    · rfl
    · cases (Regex.read (Bug.wholeEntry _)) <;> rfl

theorem ruleOf_append_require {s : Section} (h : s.get? "require" = none) {rule : Bug.Rule}
    (hrule : ruleOf { s with options := s.options ++ [("require", .boolean true)] } = .ok rule) :
    rule.require = true ∧ ruleOf s = .ok { rule with require := false } := by
  let mandatory : Section := { s with options := s.options ++ [("require", .boolean true)] }
  have hget (key : String) (hkey : "require" ≠ key) : mandatory.get? key = s.get? key := by
    rw [Section.get?_append, if_neg hkey, Option.or_none]
  have hrequire : mandatory.getBool "require" false = true := by
    rw [Section.getBool, Section.get?_append, h]
    rfl
  have hopen : s.getBool "require" false = false := by
    rw [Section.getBool, h]
    rfl
  constructor
  · -- A rule takes whether a reference is mandatory from its own section.
    have hself := ruleOf_eq_map (s := mandatory) rfl rfl
    rw [hrequire, hrule] at hself
    rw [Except.ok.inj hself]
  · have hthreshold := hget "chromium_threshold" (by decide)
    have hpattern := hget "pattern" (by decide)
    rw [ruleOf_eq_map hthreshold.symm hpattern.symm, hopen, hrule]
    rfl

end BuiltIn

namespace Config

/-- The section of a check as it is written, whatever the preset. -/
def ownSection (c : Config) (kind : CheckKind) : Section :=
  (c.section? kind.name).getD Section.empty

/-- The preset makes a reference to an issue mandatory, and the section leaves that open. -/
def MandatesByPreset (c : Config) (kind : CheckKind) : Prop :=
  c.basePreset = .strict ∧ kind = .bugEntry ∧ ((c.ownSection kind).get? "require").isNone

theorem sectionFor_of_mandates {c : Config} {kind : CheckKind} (h : c.MandatesByPreset kind) :
    c.sectionFor kind =
      { c.ownSection kind with
        options := (c.ownSection kind).options ++ [("require", .boolean true)] } :=
  if_pos h

theorem sectionFor_of_not_mandates {c : Config} {kind : CheckKind}
    (h : ¬ c.MandatesByPreset kind) : c.sectionFor kind = c.ownSection kind :=
  if_neg h

theorem of_checksAmong {c : Config} {kinds : List CheckKind} {checks : List BuiltIn}
    (h : c.checksAmong kinds = .ok checks) :
    checks.map BuiltIn.kind = kinds.filter c.selects ∧
      ∀ b ∈ checks, BuiltIn.ofSection (c.sectionFor b.kind) b.kind = .ok b := by
  induction kinds generalizing checks with
  | nil =>
      obtain rfl := Except.ok.inj h
      exact ⟨rfl, by simp⟩
  | cons kind rest ih =>
      rw [checksAmong] at h
      by_cases hkind : c.selects kind = true
      · rw [if_pos hkind] at h
        obtain ⟨b, hb, h⟩ := Except.bind_eq_ok_iff.mp h
        obtain ⟨more, hmore, h⟩ := Except.bind_eq_ok_iff.mp h
        obtain rfl := Except.ok.inj h
        obtain ⟨hkinds, hmade⟩ := ih hmore
        obtain rfl := BuiltIn.kind_of_ofSection hb
        rw [List.filter_cons_of_pos hkind, List.map_cons, hkinds]
        exact ⟨rfl, List.forall_mem_cons.mpr ⟨hb, hmade⟩⟩
      · rw [if_neg hkind] at h
        rw [List.filter_cons_of_neg hkind]
        exact ih h

theorem filter_kind_selectedChecks {c : Config} {checks : List BuiltIn}
    (h : c.selectedChecks = .ok checks) {b : BuiltIn} (hb : b ∈ checks) :
    (checks.filter fun other => other.kind = b.kind) = [b] := by
  have hnodup : (checks.map BuiltIn.kind).Nodup := by
    have hall : CheckKind.all.Nodup := by decide
    rw [(of_checksAmong h).1]
    exact hall.filter _
  -- The kinds of the selected checks differ, so asking for the kind is asking for the check.
  have hsame : (checks.filter fun other => other.kind = b.kind) = checks.filter (· = b) := by
    refine List.filter_congr ?_
    intro other hother
    exact decide_eq_decide.mpr ⟨List.inj_on_of_nodup_map hnodup hother hb, congrArg _⟩
  rw [hsame, List.filter_eq, List.count_eq_one_of_mem hnodup.of_map hb]
  rfl

/-- The check made from the section as it is written is the one that is selected, unless the preset
makes a reference to an issue mandatory. -/
theorem exists_ofSection_ownSection {c : Config} {b : BuiltIn}
    (h : BuiltIn.ofSection (c.sectionFor b.kind) b.kind = .ok b) :
    ∃ own, BuiltIn.ofSection (c.ownSection b.kind) b.kind = .ok own ∧
      (¬ c.MandatesByPreset b.kind → own = b) ∧
      (c.MandatesByPreset b.kind → ∃ rule : Bug.Rule,
        own = .bugEntry { rule with require := false } ∧
          b = .bugEntry { rule with require := true }) := by
  by_cases hpreset : c.MandatesByPreset b.kind
  · obtain ⟨-, hkind, hopen⟩ := id hpreset
    rw [sectionFor_of_mandates hpreset, hkind] at h
    obtain ⟨rule, hrule, rfl⟩ := Except.map_eq_ok_iff.mp h
    obtain ⟨hrequire, hown⟩ :=
      BuiltIn.ruleOf_append_require (Option.isNone_iff_eq_none.mp hopen) hrule
    refine ⟨.bugEntry { rule with require := false }, Except.map_eq_ok_iff.mpr ⟨_, hown, rfl⟩,
      absurd hpreset, ?_⟩
    intro _
    exact ⟨rule, rfl, by rw [← hrequire]⟩
  · rw [sectionFor_of_not_mandates hpreset] at h
    exact ⟨b, h, fun _ => rfl, fun hmandates => absurd hmandates hpreset⟩

end Config

end Hygiene
