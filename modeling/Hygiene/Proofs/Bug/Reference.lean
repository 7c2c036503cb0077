import Hygiene.Proofs.Bug.Entries
import Hygiene.Proofs.Regex.Match
import Hygiene.Regex.Reader

/-!
What entries are good, where the rule has the pattern that it has by default: those that refer to
an issue by its tracker and its number, and those that refer to none. About each of the others
there is one message, which suggests a tracker where the entry is a number alone.
-/

namespace Hygiene.Bug

/-- An entry is a word, a colon and a decimal number, and nothing besides. -/
def NamesIssue (entry : String) : Prop :=
  ∃ tracker number : List Char, entry.toList = tracker ++ ':' :: number ∧
    (tracker ≠ [] ∧ ∀ c ∈ tracker, Text.isWordChar c = true) ∧
    (number ≠ [] ∧ ∀ c ∈ number, Text.isDecimalDigit c = true)

/-- An entry says `none`, each letter of it small or capital. -/
def SaysNone (entry : String) : Prop :=
  List.Forall₂ (fun c letter => c = letter ∨ c = letter.toUpper) entry.toList "none".toList

def IsGood (entry : String) : Prop := entry = "" ∨ SaysNone entry ∨ NamesIssue entry

/-- An entry is a number alone, written in the digits of ASCII. -/
def IsBareNumber (entry : String) : Prop := entry ≠ "" ∧ ∀ c ∈ entry.toList, c.isDigit = true

theorem wellFormed_defaultPattern : defaultPattern.WellFormed := by
  simp [defaultPattern, Regex.plus, Regex.WellFormed]

/-- The default pattern spans whole texts only. -/
theorem spans_defaultPattern_iff {before behind : Option Char} {taken : List Char} :
    defaultPattern.Spans before taken behind ↔
      before = none ∧ behind = none ∧ NamesIssue (String.ofList taken) := by
  constructor
  · rintro ⟨_, _, rfl, ⟨rfl, hstart⟩, body, _, rfl, hbody, rfl, hend⟩
    obtain ⟨tracker, _, rfl, htracker, colon, number, rfl, hcolon, hnumber⟩ := hbody
    obtain rfl := Regex.spans_single_iff.mp hcolon
    refine ⟨by simpa [Regex.Look.holds] using hstart, by simpa [Regex.Look.holds] using hend, ?_⟩
    refine ⟨tracker, number, by simp, ?_, ?_⟩
    · exact Regex.spans_plus_char_iff.mp htracker
    · exact Regex.spans_plus_char_iff.mp hnumber
  · rintro ⟨rfl, rfl, tracker, number, htaken, htracker, hnumber⟩
    rw [String.toList_ofList] at htaken
    subst htaken
    refine ⟨[], tracker ++ ':' :: number, rfl, ⟨rfl, by simp [Regex.Look.holds]⟩,
      tracker ++ ':' :: number, [], by simp, ?_, rfl, by simp [Regex.Look.holds]⟩
    refine ⟨tracker, ':' :: number, rfl, Regex.spans_plus_char_iff.mpr htracker, ?_⟩
    refine ⟨[':'], number, rfl, Regex.spans_single_iff.mpr rfl, ?_⟩
    exact Regex.spans_plus_char_iff.mpr hnumber

theorem isMatch_defaultPattern_iff {entry : String} :
    defaultPattern.isMatch entry = true ↔ NamesIssue entry := by
  rw [Regex.isMatch_iff wellFormed_defaultPattern]
  constructor
  · rintro ⟨front, taken, rest, hentry, hspans⟩
    obtain ⟨hfront, hrest, hnames⟩ := spans_defaultPattern_iff.mp hspans
    rw [List.getLast?_eq_none_iff] at hfront
    rw [List.head?_eq_none_iff] at hrest
    subst hfront hrest
    rw [List.nil_append, List.append_nil] at hentry
    rw [← hentry, String.ofList_toList] at hnames
    exact hnames
  · intro hnames
    refine ⟨[], entry.toList, [], by simp, ?_⟩
    rw [spans_defaultPattern_iff, String.ofList_toList]
    exact ⟨rfl, rfl, hnames⟩

instance (entry : String) : Decidable (NamesIssue entry) :=
  decidable_of_iff _ isMatch_defaultPattern_iff

instance (entry : String) : Decidable (SaysNone entry) :=
  inferInstanceAs (Decidable (List.Forall₂ _ _ _))

instance (entry : String) : Decidable (IsGood entry) :=
  inferInstanceAs (Decidable (_ ∨ _ ∨ _))

instance (entry : String) : Decidable (IsBareNumber entry) :=
  decidable_of_iff (entry ≠ "" ∧ entry.toList.all Char.isDigit = true) (by simp [IsBareNumber])

theorem toNat_toLower (c : Char) :
    c.toLower.toNat = if 65 ≤ c.toNat ∧ c.toNat ≤ 90 then c.toNat + 32 else c.toNat := by
  unfold Char.toLower
  split
  next h =>
    have hletter : 65 ≤ c.toNat ∧ c.toNat ≤ 90 := h
    have hadd : (c.val + 32).toNat = (c.toNat + 32) % 2 ^ 32 := UInt32.toNat_add c.val 32
    rw [if_pos hletter]
    exact hadd.trans (by omega)
  next h => exact (if_neg h).symm

theorem toNat_toUpper {c : Char} (h : 97 ≤ c.toNat ∧ c.toNat ≤ 122) :
    c.toUpper.toNat = c.toNat - 32 := by
  have hletter : c.val ≥ 'a'.val ∧ c.val ≤ 'z'.val := h
  have hadd : (c.val + 4294967264).toNat = (c.toNat + 4294967264) % 2 ^ 32 :=
    UInt32.toNat_add c.val 4294967264
  unfold Char.toUpper
  rw [dif_pos hletter]
  exact hadd.trans (by omega)

theorem toLower_eq_iff {c letter : Char} (h : 97 ≤ letter.toNat ∧ letter.toNat ≤ 122) :
    c.toLower = letter ↔ c = letter ∨ c = letter.toUpper := by
  simp only [← Char.toNat_inj, toNat_toLower, toNat_toUpper h]
  split <;> omega

theorem saysNone_iff {entry : String} :
    (entry.map Char.toLower == "none") = true ↔ SaysNone entry := by
  have hsmall : ∀ letter ∈ "none".toList, 97 ≤ letter.toNat ∧ letter.toNat ≤ 122 := by simp
  have hletter {cs : List Char} {c letter : Char} (hmem : (c, letter) ∈ cs.zip "none".toList) :
      c.toLower = letter ↔ c = letter ∨ c = letter.toUpper :=
    toLower_eq_iff (hsmall letter (List.of_mem_zip hmem).2)
  rw [beq_iff_eq, ← String.toList_inj, String.toList_map, ← List.forall₂_eq_eq_eq,
    List.forall₂_map_left_iff, SaysNone, List.forall₂_iff_zip, List.forall₂_iff_zip]
  refine and_congr_right fun _ => ⟨?_, ?_⟩
  · exact fun h c letter hmem => (hletter hmem).mp (h hmem)
  · exact fun h c letter hmem => (hletter hmem).mpr (h hmem)

/-- The digits of ASCII are neither letters nor colons, so that a number alone is never good. -/
theorem not_isGood_of_isBareNumber {entry : String} (h : IsBareNumber entry) : ¬ IsGood entry := by
  have hdigit {c : Char} (hc : c ∈ entry.toList) : 48 ≤ c.toNat ∧ c.toNat ≤ 57 :=
    Char.isDigit_iff_toNat.mp (h.2 c hc)
  rintro (hempty | hnone | ⟨tracker, number, hentry, -, -⟩)
  · exact h.1 hempty
  · cases hentry : entry.toList with
    | nil => simp [SaysNone, hentry] at hnone
    | cons c cs =>
        rw [SaysNone, hentry] at hnone
        have hc : c = 'n' ∨ c = 'N' := (List.forall₂_cons.mp hnone).1
        have := hdigit (c := c) (by simp [hentry])
        rcases hc with rfl | rfl <;> simp at this
  · have := hdigit (c := ':') (by simp [hentry])
    simp at this

namespace Rule

def standard (require : Bool) (threshold : UInt64) : Rule := ⟨require, threshold, defaultPattern⟩

def complaint (r : Rule) (entry : String) : String :=
  if IsBareNumber entry then
    "BUG entry requires issue tracker prefix, e.g. " ++ r.guessTracker entry ++ ":" ++ entry
  else "Bogus BUG entry: " ++ entry ++ ". " ++ exampleText

/-- A colon is no digit, so the test for one adds nothing to the test for digits. -/
theorem isNumber_test_eq (cs : List Char) :
    (!cs.contains ':' && cs.all Char.isDigit) = cs.all Char.isDigit := by
  rw [Bool.and_eq_right_iff_imp, Bool.not_eq_true']
  intro hdigits
  rw [List.contains_eq_mem, decide_eq_false_iff_not]
  intro hcolon
  exact absurd (List.all_eq_true.mp hdigits ':' hcolon) (by decide)

/-- A number alone is told apart before the pattern is looked at. -/
theorem complaint?_of_isBareNumber (r : Rule) {entry : String} (h : IsBareNumber entry) :
    r.complaint? entry = some (r.complaint entry) := by
  have hgood := not_isGood_of_isBareNumber h
  have hskip : ¬ (entry.isEmpty || entry.map Char.toLower == "none") = true := by
    rw [Bool.or_eq_true, String.isEmpty_iff, saysNone_iff]
    rintro (hempty | hnone)
    · exact hgood (Or.inl hempty)
    · exact hgood (Or.inr (Or.inl hnone))
  rw [complaint?, isNumber_test_eq, if_neg hskip, if_pos (List.all_eq_true.mpr h.2), complaint,
    if_pos h]
  rfl

variable (require : Bool) (threshold : UInt64)

theorem complaint?_standard (entry : String) :
    (standard require threshold).complaint? entry =
      if IsGood entry then none else some ((standard require threshold).complaint entry) := by
  by_cases hnumber : IsBareNumber entry
  · rw [complaint?_of_isBareNumber _ hnumber, if_neg (not_isGood_of_isBareNumber hnumber)]
  · rw [complaint?, isNumber_test_eq]
    split
    next hskip =>
      rw [Bool.or_eq_true, String.isEmpty_iff, saysNone_iff] at hskip
      have hgood : IsGood entry := hskip.imp_right Or.inl
      rw [if_pos hgood]
    next hskip =>
      rw [Bool.or_eq_true, String.isEmpty_iff, saysNone_iff, not_or] at hskip
      have hdigits : ¬ entry.toList.all Char.isDigit = true := by
        intro hall
        exact hnumber ⟨hskip.1, List.all_eq_true.mp hall⟩
      have hmatch : (standard require threshold).pattern.isMatch entry = true ↔ IsGood entry := by
        simp only [IsGood, hskip.1, hskip.2, false_or]
        exact isMatch_defaultPattern_iff
      rw [if_neg hdigits, complaint, if_neg hnumber]
      by_cases hgood : IsGood entry
      · rw [if_pos hgood, if_pos (hmatch.mpr hgood)]
      · rw [if_neg hgood, if_neg fun h => hgood (hmatch.mp h)]
        rfl

end Rule

end Hygiene.Bug
