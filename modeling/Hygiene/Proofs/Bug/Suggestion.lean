import Mathlib.Data.List.DropRight
import Mathlib.Data.List.TakeWhile
import Hygiene.Proofs.Bug.Reference

/-!
The trackers that are suggested for bare numbers. The guess goes by the number itself, however many
digits it has. A suggestion that is put in the place of the number is a good entry, and leaves the
other entries of the field as they are.
-/

namespace Hygiene.Bug

/-- The number that decimal digits denote, the last of which counts least. -/
def numberOf (digits : List Char) : Nat :=
  Nat.ofDigits 10 (digits.reverse.map fun d => d.toNat - '0'.toNat)

theorem numberOf_snoc (digits : List Char) (d : Char) :
    numberOf (digits ++ [d]) = numberOf digits * 10 + (d.toNat - '0'.toNat) := by
  rw [numberOf, List.reverse_append, List.reverse_singleton, List.singleton_append, List.map_cons,
    Nat.ofDigits_cons, numberOf]
  omega

/-- Digits are read as a machine word exactly when their number fits one. -/
theorem word?_eq (digits : List Char) :
    word? digits = if numberOf digits < UInt64.size then some (numberOf digits) else none := by
  induction digits using List.reverseRecOn with
  | nil => rfl
  | append_singleton digits d ih =>
      have hstep : word? (digits ++ [d]) = (word? digits).bind fun n =>
          if n * 10 + (d.toNat - '0'.toNat) < UInt64.size
          then some (n * 10 + (d.toNat - '0'.toNat)) else none := by
        simp only [word?, List.foldl_append, List.foldl_cons, List.foldl_nil]
      rw [hstep, ih, numberOf_snoc]
      by_cases hfits : numberOf digits < UInt64.size
      · rw [if_pos hfits, Option.bind_some]
      · -- A number that does not fit stays so whatever digits follow.
        have hmore : ¬ numberOf digits * 10 + (d.toNat - '0'.toNat) < UInt64.size := by omega
        rw [if_neg hfits, if_neg hmore, Option.bind_none]

namespace Rule

theorem guessTracker_eq (r : Rule) (number : String) :
    r.guessTracker number =
      if r.threshold.toNat < numberOf number.toList then "chromium" else "webrtc" := by
  have hthreshold : r.threshold.toNat < UInt64.size := r.threshold.toNat_lt_size
  rw [guessTracker, word?_eq]
  by_cases hfits : numberOf number.toList < UInt64.size
  · rw [if_pos hfits]
  · rw [if_neg hfits, if_pos (by omega)]

end Rule

/-- Characters that neither end an entry nor may be dropped from its ends. -/
def IsInner (c : Char) : Prop := c ≠ ',' ∧ Text.isBlank c = false

theorem isInner_of_isDigit {c : Char} (h : c.isDigit = true) : IsInner c := by
  have hdigit : 48 ≤ c.toNat ∧ c.toNat ≤ 57 := Char.isDigit_iff_toNat.mp h
  constructor
  · rintro rfl
    simp at hdigit
  · simp only [Text.isBlank, Bool.or_eq_false_iff, Bool.and_eq_false_iff, decide_eq_false_iff_not,
      beq_eq_false_iff_ne]
    omega

theorem entries_of_isInner {entry : String} (h : ∀ c ∈ entry.toList, IsInner c) :
    Rule.entries entry = [entry] := by
  have hcomma : ',' ∉ entry.toList := fun hmem => (h ',' hmem).1 rfl
  rw [Rule.entries_of_not_mem hcomma, Text.trim,
    Text.dropAround_eq_self fun c hc => (h c hc).2, String.ofList_toList]

namespace Rule

variable (r : Rule)

/-- What the message about a bare number suggests in its place. -/
def suggestion (number : String) : String := r.guessTracker number ++ ":" ++ number

theorem guessTracker_cases (number : String) :
    r.guessTracker number = "chromium" ∨ r.guessTracker number = "webrtc" := by
  rw [guessTracker_eq]
  split
  · exact Or.inl rfl
  · exact Or.inr rfl

theorem isInner_of_mem_suggestion {number : String} (h : IsBareNumber number) :
    ∀ c ∈ (r.suggestion number).toList, IsInner c := by
  have hcolon : IsInner ':' := by simp [IsInner, Text.isBlank]
  have htracker : ∀ c ∈ (r.guessTracker number).toList, IsInner c := by
    rcases r.guessTracker_cases number with htracker | htracker <;>
      simp [htracker, IsInner, Text.isBlank]
  intro c hc
  simp only [suggestion, String.toList_append, List.mem_append] at hc
  rcases hc with (hc | hc) | hc
  · exact htracker c hc
  · obtain rfl : c = ':' := by simpa using hc
    exact hcolon
  · exact isInner_of_isDigit (h.2 c hc)

/-- A suggestion names an issue. -/
theorem namesIssue_suggestion {number : String} (h : IsBareNumber number) :
    NamesIssue (r.suggestion number) := by
  have htracker : (r.guessTracker number).toList ≠ [] ∧
      ∀ c ∈ (r.guessTracker number).toList, Text.isWordChar c = true := by
    rcases r.guessTracker_cases number with htracker | htracker <;>
      simp [htracker, Text.isWordChar]
  have hdigit (c : Char) (hc : c ∈ number.toList) : Text.isDecimalDigit c = true := by
    have hdigit : 48 ≤ c.toNat ∧ c.toNat ≤ 57 := Char.isDigit_iff_toNat.mp (h.2 c hc)
    rw [Text.isDecimalDigit, if_pos (by omega)]
    exact h.2 c hc
  have hnumber : number.toList ≠ [] := fun hnil => h.1 (String.toList_eq_nil_iff.mp hnil)
  refine ⟨(r.guessTracker number).toList, number.toList, ?_, htracker, hnumber, hdigit⟩
  simp [suggestion]

/-- About a field that is a number alone there is one message, whatever the pattern is. The tracker
in it is the larger one exactly when the number is above the threshold. -/
theorem validate_bareNumber {number : String} (h : IsBareNumber number) :
    r.validate number =
        ["BUG entry requires issue tracker prefix, e.g. " ++ r.guessTracker number ++ ":" ++ number] ∧
      (r.guessTracker number = "chromium" ↔ r.threshold.toNat < numberOf number.toList) ∧
      (r.guessTracker number = "webrtc" ↔ numberOf number.toList ≤ r.threshold.toNat) := by
  have hinner : ∀ c ∈ number.toList, IsInner c := fun c hc => isInner_of_isDigit (h.2 c hc)
  constructor
  · rw [validate, entries_of_isInner hinner,
      List.filterMap_cons_some (r.complaint?_of_isBareNumber h), complaint, if_pos h,
      List.filterMap_nil]
  · rw [guessTracker_eq]
    by_cases habove : r.threshold.toNat < numberOf number.toList
    · simp [habove]
    · simp [habove, Nat.le_of_not_lt habove]

/-- The largest threshold, the number next to it and the threshold itself, behind zeros that do not
count. -/
theorem validate_bareNumber_widest :
    let r : Rule := ⟨false, 18446744073709551615, defaultPattern⟩
    r.validate "00018446744073709551616" =
        ["BUG entry requires issue tracker prefix, e.g. chromium:00018446744073709551616"] ∧
      r.validate "00018446744073709551615" =
        ["BUG entry requires issue tracker prefix, e.g. webrtc:00018446744073709551615"] := by
  intro r
  have habove : IsBareNumber "00018446744073709551616" := by decide
  have hequal : IsBareNumber "00018446744073709551615" := by decide
  obtain ⟨hvalidate, hchromium, -⟩ := r.validate_bareNumber habove
  obtain ⟨hvalidate', -, hwebrtc⟩ := r.validate_bareNumber hequal
  rw [hvalidate, hvalidate', hchromium.mpr (by decide), hwebrtc.mpr (by decide)]
  decide

/-- A piece of a field with another entry in it. The blanks around the entry stay. -/
def withEntry (piece entry : String) : String :=
  String.ofList (piece.toList.takeWhile Text.isBlank ++ entry.toList ++
    piece.toList.rtakeWhile Text.isBlank)

theorem trim_withEntry (piece : String) {entry : String} (h : ∀ c ∈ entry.toList, IsInner c) :
    Text.trim (withEntry piece entry) = entry := by
  have hfront : ∀ c ∈ piece.toList.takeWhile Text.isBlank, Text.isBlank c = true :=
    fun c hc => List.mem_takeWhile_imp hc
  have hback : ∀ c ∈ piece.toList.rtakeWhile Text.isBlank, Text.isBlank c = true :=
    fun c hc => List.mem_rtakeWhile_imp hc
  rw [Text.trim, withEntry, String.toList_ofList, Text.dropAround_append_right hback,
    Text.dropAround_append_left hfront, Text.dropAround_eq_self fun c hc => (h c hc).2,
    String.ofList_toList]

theorem not_mem_withEntry {piece entry : String} (hpiece : ',' ∉ piece.toList)
    (hentry : ∀ c ∈ entry.toList, IsInner c) : ',' ∉ (withEntry piece entry).toList := by
  simp only [withEntry, String.toList_ofList, List.mem_append, not_or]
  refine ⟨⟨?_, ?_⟩, ?_⟩
  · exact fun hmem => hpiece ((List.takeWhile_prefix _).subset hmem)
  · exact fun hmem => (hentry ',' hmem).1 rfl
  · exact fun hmem => hpiece ((List.rtakeWhile_suffix _ _).subset hmem)

section

variable {α β γ : Type}

theorem map_mapIdx (f : Nat → α → β) (g : β → γ) (places : List α) :
    (places.mapIdx f).map g = places.mapIdx fun i a => g (f i a) := by
  apply List.ext_getElem?
  intro i
  rw [List.getElem?_map, List.getElem?_mapIdx, List.getElem?_mapIdx, Option.map_map]
  rfl

theorem mapIdx_map (f : α → β) (g : Nat → β → γ) (places : List α) :
    (places.map f).mapIdx g = places.mapIdx fun i a => g i (f a) := by
  apply List.ext_getElem?
  intro i
  rw [List.getElem?_mapIdx, List.getElem?_map, List.getElem?_mapIdx, Option.map_map]
  rfl

end

/-- A field with suggestions in it, in the place of bare numbers. `chosen` says at which places. -/
def amend (chosen : Nat → Bool) (field : String) : String :=
  ",".intercalate ((Text.splitOn ',' field).mapIdx fun i piece =>
    if chosen i ∧ IsBareNumber (Text.trim piece) then
      withEntry piece (r.suggestion (Text.trim piece))
    else piece)

/-- What is written in one place does not show in the others. -/
theorem entries_amend (chosen : Nat → Bool) (field : String) :
    entries (r.amend chosen field) = (entries field).mapIdx fun i entry =>
      if chosen i ∧ IsBareNumber entry then r.suggestion entry else entry := by
  have hpieces : ∀ piece ∈ Text.splitOn ',' field, ',' ∉ piece.toList := by
    intro piece hpiece
    obtain ⟨cs, hcs, rfl⟩ := List.mem_map.mp hpiece
    rw [String.toList_ofList]
    exact Text.not_mem_of_mem_splitOn hcs
  have hne : Text.splitOn ',' field ≠ [] := by
    simp [Text.splitOn, List.splitOn_ne_nil]
  rw [amend, entries_intercalate_of_not_mem, entries]
  · rw [map_mapIdx, mapIdx_map, List.mapIdx_eq_mapIdx_iff]
    intro i _
    split
    next h => exact trim_withEntry _ (r.isInner_of_mem_suggestion h.2)
    next => rfl
  · simpa using hne
  · intro piece hpiece
    obtain ⟨i, hi, rfl⟩ := List.mem_mapIdx.mp hpiece
    have hmem := hpieces _ (List.getElem_mem hi)
    split
    next h => exact not_mem_withEntry hmem (r.isInner_of_mem_suggestion h.2)
    next => exact hmem

/-- A message says that an entry is neither good nor a number alone. -/
def IsBogus (message : String) : Prop := "Bogus BUG entry: ".toList <+: message.toList

instance (message : String) : Decidable (IsBogus message) :=
  inferInstanceAs (Decidable (_ <+: _))

theorem isBogus_complaint_iff {entry : String} :
    IsBogus (r.complaint entry) ↔ ¬ IsBareNumber entry := by
  by_cases h : IsBareNumber entry
  · simp [IsBogus, complaint, h]
  · simp only [IsBogus, complaint, h, if_false, String.toList_append, List.append_assoc,
      not_false_eq_true, iff_true]
    exact List.prefix_append _ _

variable (require : Bool) (threshold : UInt64)

theorem complaint?_suggestion {number : String} (h : IsBareNumber number) :
    (standard require threshold).complaint? ((standard require threshold).suggestion number) =
      none := by
  have hgood : IsGood ((standard require threshold).suggestion number) :=
    Or.inr (Or.inr (namesIssue_suggestion _ h))
  rw [complaint?_standard, if_pos hgood]

/-- Taking a suggestion settles the message about its number and no other. -/
theorem complaint?_amended (entry : String) :
    (standard require threshold).complaint?
        (if IsBareNumber entry then (standard require threshold).suggestion entry else entry) =
      ((standard require threshold).complaint? entry).filter fun message => IsBogus message := by
  by_cases hnumber : IsBareNumber entry
  · have hbogus : ¬ IsBogus ((standard require threshold).complaint entry) := by
      rw [isBogus_complaint_iff, not_not]
      exact hnumber
    rw [if_pos hnumber, complaint?_suggestion require threshold hnumber,
      complaint?_of_isBareNumber _ hnumber, Option.filter_some, if_neg (by simpa using hbogus)]
  · have hbogus : IsBogus ((standard require threshold).complaint entry) :=
      (isBogus_complaint_iff _).mpr hnumber
    rw [if_neg hnumber, complaint?_standard]
    split
    next => rw [Option.filter_none]
    next => rw [Option.filter_some, if_pos (by simpa using hbogus)]

/-- With the default pattern, a field whose bare numbers have all given way to the suggestions for
them is left with its other messages, in their order. A suggestion is good wherever it is put, and
does not change what is said about the other entries. -/
theorem validate_amend (field : String) :
    (standard require threshold).validate
          ((standard require threshold).amend (fun _ => true) field) =
        ((standard require threshold).validate field).filter (fun message => IsBogus message) ∧
      (∀ chosen : Nat → Bool,
        (entries ((standard require threshold).amend chosen field)).map
            (standard require threshold).complaint? =
          (entries field).mapIdx fun i entry =>
            if chosen i ∧ IsBareNumber entry then none
            else (standard require threshold).complaint? entry) ∧
      ∀ number, IsBareNumber number →
        (standard require threshold).complaint? number =
            some ("BUG entry requires issue tracker prefix, e.g. " ++
              (standard require threshold).suggestion number) ∧
          (standard require threshold).validate
            ((standard require threshold).suggestion number) = [] := by
  generalize hr : standard require threshold = r
  have hgood {number : String} (h : IsBareNumber number) :
      r.complaint? (r.suggestion number) = none := by
    rw [← hr]
    exact complaint?_suggestion require threshold h
  refine ⟨?_, ?_, ?_⟩
  · have hentries : entries (r.amend (fun _ => true) field) =
        (entries field).map fun entry =>
          if IsBareNumber entry then r.suggestion entry else entry := by
      rw [entries_amend, List.mapIdx_eq_iff]
      intro i
      simp
    have hamended (entry : String) :
        r.complaint? (if IsBareNumber entry then r.suggestion entry else entry) =
          (r.complaint? entry).filter fun message => IsBogus message := by
      rw [← hr]
      exact complaint?_amended require threshold entry
    rw [validate, hentries, List.filterMap_map, validate, List.filter_filterMap]
    exact List.filterMap_congr fun entry _ => hamended entry
  · intro chosen
    rw [entries_amend, map_mapIdx, List.mapIdx_eq_mapIdx_iff]
    intro i _
    split
    next h => exact hgood h.2
    next => rfl
  · intro number hnumber
    constructor
    · rw [complaint?_of_isBareNumber r hnumber, complaint, if_pos hnumber, suggestion]
      simp only [String.append_assoc]
    · rw [validate, entries_of_isInner (r.isInner_of_mem_suggestion hnumber),
        List.filterMap_cons_none (hgood hnumber), List.filterMap_nil]

/-- Bare numbers on either side of the threshold, one of them between blanks, beside an entry that
is bogus and one that is good. -/
theorem validate_amend_mixed :
    let r := standard false 100000
    r.amend (fun _ => true) " 7 ,x=2,webrtc:1, 100001" =
        " webrtc:7 ,x=2,webrtc:1, chromium:100001" ∧
      r.validate " webrtc:7 ,x=2,webrtc:1, chromium:100001" =
        ["Bogus BUG entry: x=2. " ++ exampleText] ∧
      r.validate (r.suggestion "7") = [] := by
  intro r
  have hamend : r.amend (fun _ => true) " 7 ,x=2,webrtc:1, 100001" =
      " webrtc:7 ,x=2,webrtc:1, chromium:100001" := by decide +kernel
  have hbogus : (r.validate " 7 ,x=2,webrtc:1, 100001").filter (fun message => IsBogus message) =
      ["Bogus BUG entry: x=2. " ++ exampleText] := by decide +kernel
  obtain ⟨hvalidate, -, hgood⟩ := validate_amend false 100000 " 7 ,x=2,webrtc:1, 100001"
  refine ⟨hamend, ?_, (hgood "7" (by decide)).2⟩
  rw [← hamend]
  exact hvalidate.trans hbogus

end Rule

end Hygiene.Bug
