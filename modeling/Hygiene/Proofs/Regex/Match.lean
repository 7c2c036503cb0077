import Mathlib.Tactic
import Hygiene.Regex.Match

/-!
What it means that an expression matches, told by what the expression is made of and without a
search: an expression stands for the stretches of text that it spans. The search, which takes the
text in character by character, finds a match exactly where some stretch of the text is spanned.
-/

namespace Hygiene.Regex

/-- Stretches of text, each told by its characters and by those before and behind it, which are
missing at an end of the text. -/
abbrev Stretches := Option Char → List Char → Option Char → Prop

namespace Stretches

def FollowedBy (S T : Stretches) : Stretches := fun before taken behind =>
  ∃ first second, taken = first ++ second ∧ S before first (second.head?.or behind) ∧
    T (first.getLast?.or before) second behind

def Turns (S : Stretches) : Nat → Stretches
  | 0 => fun _ taken _ => taken = []
  | n + 1 => S.FollowedBy (Turns S n)

def After (S : Stretches) (before : Option Char) (c : Char) : Stretches := fun _ taken behind =>
  S before (c :: taken) behind

variable {S T : Stretches} {before behind : Option Char} {c : Char} {taken : List Char}

theorem followedBy_nil_iff :
    S.FollowedBy T before [] behind ↔ S before [] behind ∧ T before [] behind := by
  constructor
  · rintro ⟨first, second, htaken, hS, hT⟩
    obtain ⟨rfl, rfl⟩ := List.append_eq_nil_iff.mp htaken.symm
    exact ⟨hS, hT⟩
  · rintro ⟨hS, hT⟩
    exact ⟨[], [], rfl, hS, hT⟩

/-- A first character belongs to the first part, unless that part is empty. -/
theorem followedBy_cons_iff :
    S.FollowedBy T before (c :: taken) behind ↔
      (S.After before c).FollowedBy T (some c) taken behind ∨
        S before [] (some c) ∧ T before (c :: taken) behind := by
  constructor
  · rintro ⟨first, second, htaken, hS, hT⟩
    cases first with
    | nil =>
        rw [List.nil_append] at htaken
        subst htaken
        exact Or.inr ⟨hS, hT⟩
    | cons d first =>
        obtain ⟨rfl, rfl⟩ := List.cons.inj htaken
        refine Or.inl ⟨first, second, rfl, hS, ?_⟩
        simpa [List.getLast?_cons] using hT
  · rintro (⟨first, second, rfl, hS, hT⟩ | ⟨hS, hT⟩)
    · refine ⟨c :: first, second, rfl, hS, ?_⟩
      simpa [List.getLast?_cons] using hT
    · exact ⟨[], c :: taken, rfl, hS, hT⟩

/-- When the first part is a stretch of one of several kinds, so is the whole. -/
theorem followedBy_iff_exists {α : Type} {kinds : List α} {kind : α → Stretches}
    (h : ∀ taken behind, S before taken behind ↔ ∃ k ∈ kinds, kind k before taken behind) :
    S.FollowedBy T before taken behind ↔
      ∃ k ∈ kinds, (kind k).FollowedBy T before taken behind := by
  constructor
  · rintro ⟨first, second, htaken, hS, hT⟩
    obtain ⟨k, hk, hkind⟩ := (h _ _).mp hS
    exact ⟨k, hk, first, second, htaken, hkind, hT⟩
  · rintro ⟨k, hk, first, second, htaken, hkind, hT⟩
    exact ⟨first, second, htaken, (h _ _).mpr ⟨k, hk, hkind⟩, hT⟩

theorem turns_nil_iff {n : Nat} :
    S.Turns n before [] behind ↔ n = 0 ∨ S before [] behind := by
  induction n with
  | zero => simp [Turns]
  | succ n ih =>
      simp only [Turns, followedBy_nil_iff, ih, Nat.add_one_ne_zero, false_or]
      constructor
      · exact fun h => h.1
      · exact fun h => ⟨h, Or.inr h⟩

/-- A first character is taken in by some turn. The turns before it take in nothing. -/
theorem turns_cons_iff {n : Nat} :
    S.Turns n before (c :: taken) behind ↔
      ∃ idle more, n = idle + 1 + more ∧ (idle = 0 ∨ S before [] (some c)) ∧
        (S.After before c).FollowedBy (S.Turns more) (some c) taken behind := by
  induction n with
  | zero =>
      constructor
      · intro h
        cases h
      · rintro ⟨idle, more, hn, -⟩
        omega
  | succ n ih =>
      rw [Turns, followedBy_cons_iff, ih]
      constructor
      · rintro (h | ⟨hS, idle, more, rfl, -, h⟩)
        · exact ⟨0, n, by omega, Or.inl rfl, h⟩
        · exact ⟨idle + 1, more, by omega, Or.inr hS, h⟩
      · rintro ⟨idle, more, hn, hidle, h⟩
        cases idle with
        | zero =>
            obtain rfl : n = more := by omega
            exact Or.inl h
        | succ idle =>
            have hS : S before [] (some c) := hidle.resolve_left (Nat.succ_ne_zero idle)
            exact Or.inr ⟨hS, idle, more, by omega, Or.inr hS, h⟩

end Stretches

open Stretches

/-- The stretches that an expression spans. -/
def Spans : Regex → Stretches
  | empty, _, taken, _ => taken = []
  | char set, _, taken, _ => ∃ c, set.contains c = true ∧ taken = [c]
  | look condition, before, taken, behind => taken = [] ∧ condition.holds ⟨before, behind⟩ = true
  | seq a b, before, taken, behind => a.Spans.FollowedBy b.Spans before taken behind
  | alt a b, before, taken, behind => a.Spans before taken behind ∨ b.Spans before taken behind
  | rep a least most, before, taken, behind =>
      ∃ n, least ≤ n ∧ (∀ bound ∈ most, n ≤ bound) ∧ a.Spans.Turns n before taken behind
  | group _ a, before, taken, behind => a.Spans before taken behind

/-- No repetition in an expression asks for more turns than it allows. -/
def WellFormed : Regex → Prop
  | seq a b => a.WellFormed ∧ b.WellFormed
  | alt a b => a.WellFormed ∧ b.WellFormed
  | rep a least most => a.WellFormed ∧ ∀ bound ∈ most, least ≤ bound
  | group _ a => a.WellFormed
  | empty | char _ | look _ => True

variable {r : Regex} {before behind : Option Char} {c : Char} {taken : List Char}

theorem nullable_iff (h : r.WellFormed) :
    r.nullable ⟨before, behind⟩ = true ↔ r.Spans before [] behind := by
  induction r generalizing before behind with
  | empty => simp [nullable, Spans]
  | char set => simp [nullable, Spans]
  | look condition => simp [nullable, Spans]
  | seq a b iha ihb =>
      rw [nullable, Bool.and_eq_true, iha h.1, ihb h.2, Spans, followedBy_nil_iff]
  | alt a b iha ihb => rw [nullable, Bool.or_eq_true, iha h.1, ihb h.2, Spans]
  | rep a least most ih =>
      simp only [nullable, Bool.or_eq_true, beq_iff_eq, ih h.1, Spans, turns_nil_iff]
      constructor
      · rintro (hleast | ha)
        · exact ⟨0, by omega, by simp, Or.inl rfl⟩
        · exact ⟨least, Nat.le_refl least, h.2, Or.inr ha⟩
      · rintro ⟨n, hleast, -, hn | ha⟩
        · exact Or.inl (by omega)
        · exact Or.inr ha
  | group name a ih => exact ih h

/-- Leaving out the empty expression in front changes nothing. -/
theorem spans_behind (a b : Regex) : (a.behind b).Spans = (seq a b).Spans := by
  funext before taken behind
  cases a with
  | empty =>
      apply propext
      simp only [Regex.behind, Spans, Stretches.FollowedBy]
      constructor
      · exact fun h => ⟨[], taken, rfl, rfl, h⟩
      · rintro ⟨first, second, rfl, rfl, h⟩
        exact h
  | _ => rfl

theorem wellFormed_behind {a b : Regex} (ha : a.WellFormed) (hb : b.WellFormed) :
    (a.behind b).WellFormed := by
  cases a with
  | empty => exact hb
  | _ => exact ⟨ha, hb⟩

/-- How many turns may follow one that takes in a character, when the turns before it take in
nothing. `free` says whether there may be any such turns. -/
theorem exists_idle_iff {least more : Nat} {most : Option Nat} {free : Bool}
    (h : ∀ bound ∈ most, least ≤ bound) :
    (∃ idle, least ≤ idle + 1 + more ∧ (∀ bound ∈ most, idle + 1 + more ≤ bound) ∧
        (idle = 0 ∨ free = true)) ↔
      most ≠ some 0 ∧ (if free then 0 else least - 1) ≤ more ∧
        ∀ bound ∈ most.map (· - 1), more ≤ bound := by
  have hbounds : (∀ bound ∈ most.map (· - 1), more ≤ bound) ↔
      ∀ bound ∈ most, more ≤ bound - 1 := by
    cases most <;> simp
  rw [hbounds]
  constructor
  · rintro ⟨idle, hleast, hmost, hidle⟩
    refine ⟨?_, ?_, ?_⟩
    · rintro rfl
      have := hmost 0 rfl
      omega
    · split
      · omega
      · have hzero : idle = 0 := hidle.resolve_right (by assumption)
        omega
    · intro bound hbound
      have := hmost bound hbound
      omega
  · rintro ⟨hne, hleast, hmost⟩
    have hpos (bound : Nat) (hbound : bound ∈ most) : bound ≠ 0 := by
      rintro rfl
      exact hne hbound
    cases free with
    | true =>
        refine ⟨least - (1 + more), by omega, ?_, Or.inr rfl⟩
        intro bound hbound
        have := hmost bound hbound
        have := hpos bound hbound
        have := h bound hbound
        omega
    | false =>
        rw [if_neg Bool.false_ne_true] at hleast
        refine ⟨0, by omega, ?_, Or.inl rfl⟩
        intro bound hbound
        have := hmost bound hbound
        have := hpos bound hbound
        omega

/-- What may be left of an expression, with another one behind it. -/
theorem exists_behind_iff {a : Regex} {rests : List Regex}
    (h : ∀ taken behind, a.Spans before (c :: taken) behind ↔
      ∃ rest ∈ rests, rest.Spans (some c) taken behind)
    (b : Regex) (taken : List Char) (behind : Option Char) :
    (∃ rest ∈ rests.map (·.behind b), rest.Spans (some c) taken behind) ↔
      (a.Spans.After before c).FollowedBy b.Spans (some c) taken behind := by
  rw [followedBy_iff_exists h]
  simp only [List.mem_map, exists_exists_and_eq_and, spans_behind]
  rfl

/-- A first character that a repetition takes in belongs to one of its turns, and what follows are
the turns that may still come. -/
theorem spans_rep_cons_iff {a : Regex} {least : Nat} {most : Option Nat} (ha : a.WellFormed)
    (h : ∀ bound ∈ most, least ≤ bound) :
    (rep a least most).Spans before (c :: taken) behind ↔
      most ≠ some 0 ∧ (a.Spans.After before c).FollowedBy
        (rep a (if a.nullable ⟨before, some c⟩ then 0 else least - 1) (most.map (· - 1))).Spans
        (some c) taken behind := by
  simp only [Spans, turns_cons_iff, ← nullable_iff ha]
  constructor
  · rintro ⟨n, hleast, hmost, idle, more, rfl, hidle, first, second, htaken, hfirst, hsecond⟩
    obtain ⟨hne, hlower, hupper⟩ := (exists_idle_iff h).mp ⟨idle, hleast, hmost, hidle⟩
    exact ⟨hne, first, second, htaken, hfirst, more, hlower, hupper, hsecond⟩
  · rintro ⟨hne, first, second, htaken, hfirst, more, hlower, hupper, hsecond⟩
    obtain ⟨idle, hleast, hmost, hidle⟩ := (exists_idle_iff h).mpr ⟨hne, hlower, hupper⟩
    exact ⟨idle + 1 + more, hleast, hmost, idle, more, rfl, hidle, first, second, htaken, hfirst,
      hsecond⟩

/-- What may be left of an expression spans what is left of the stretches that it spans. -/
theorem derive_iff (h : r.WellFormed) :
    r.Spans before (c :: taken) behind ↔
      ∃ rest ∈ r.derive ⟨before, some c⟩ c, rest.Spans (some c) taken behind := by
  induction r generalizing taken behind with
  | empty => simp [Spans, derive]
  | char set =>
      by_cases hc : set.contains c = true
      · simp [Spans, derive, hc]
      · simp [Spans, derive, hc]
  | look condition => simp [Spans, derive]
  | seq a b iha ihb =>
      have hfirst := exists_behind_iff (fun _ _ => iha h.1) b taken behind
      rw [Spans, followedBy_cons_iff, ← hfirst, ihb h.2, ← nullable_iff h.1, derive]
      cases a.nullable ⟨before, some c⟩ <;> simp [or_and_right, exists_or]
  | alt a b iha ihb =>
      rw [Spans, iha h.1, ihb h.2, derive]
      simp only [List.mem_append, or_and_right, exists_or]
  | rep a least most ih =>
      rw [spans_rep_cons_iff h.1 h.2, ← exists_behind_iff fun _ _ => ih h.1, derive]
      by_cases hzero : most = some 0
      · simp [hzero]
      · simp only [hzero, ne_eq, not_false_eq_true, true_and, if_false]
  | group name a ih => exact ih h

theorem wellFormed_of_mem_derive {p : Site} {rest : Regex} (h : r.WellFormed)
    (hrest : rest ∈ r.derive p c) : rest.WellFormed := by
  induction r generalizing rest with
  | empty => simp [derive] at hrest
  | char set =>
      rw [derive] at hrest
      split at hrest
      · obtain rfl := List.mem_singleton.mp hrest
        trivial
      · simp at hrest
  | look condition => simp [derive] at hrest
  | seq a b iha ihb =>
      rw [derive, List.mem_append, List.mem_map] at hrest
      rcases hrest with ⟨rest', hrest', rfl⟩ | hrest'
      · exact wellFormed_behind (iha h.1 hrest') h.2
      · split at hrest'
        · exact ihb h.2 hrest'
        · simp at hrest'
  | alt a b iha ihb =>
      rw [derive, List.mem_append] at hrest
      rcases hrest with hrest | hrest
      · exact iha h.1 hrest
      · exact ihb h.2 hrest
  | rep a least most ih =>
      rw [derive] at hrest
      split at hrest
      · simp at hrest
      · obtain ⟨rest', hrest', rfl⟩ := List.mem_map.mp hrest
        refine wellFormed_behind (ih h.1 hrest') ⟨h.1, ?_⟩
        intro bound hbound
        obtain ⟨bound', hbound', rfl⟩ := Option.map_eq_some_iff.mp hbound
        have := h.2 bound' hbound'
        split <;> omega
  | group name a ih => exact ih h hrest

def Begins (r : Regex) (before : Option Char) (cs : List Char) : Prop :=
  ∃ taken rest, cs = taken ++ rest ∧ r.Spans before taken rest.head?

theorem begins_nil_iff (h : r.WellFormed) :
    r.Begins before [] ↔ r.nullable ⟨before, none⟩ = true := by
  rw [nullable_iff h]
  constructor
  · rintro ⟨taken, rest, hcs, hspans⟩
    obtain ⟨rfl, rfl⟩ := List.append_eq_nil_iff.mp hcs.symm
    exact hspans
  · intro hspans
    exact ⟨[], [], rfl, hspans⟩

/-- A stretch that begins here is empty, or goes on behind the next character. -/
theorem begins_cons_iff {cs : List Char} (h : r.WellFormed) :
    r.Begins before (c :: cs) ↔
      r.nullable ⟨before, some c⟩ = true ∨
        ∃ u ∈ r.derive ⟨before, some c⟩ c, u.Begins (some c) cs := by
  rw [nullable_iff h]
  constructor
  · rintro ⟨taken, rest, hcs, hspans⟩
    cases taken with
    | nil =>
        rw [List.nil_append] at hcs
        subst hcs
        exact Or.inl hspans
    | cons d taken =>
        obtain ⟨rfl, rfl⟩ := List.cons.inj hcs
        obtain ⟨u, hu, hspans⟩ := (derive_iff h).mp hspans
        exact Or.inr ⟨u, hu, taken, rest, rfl, hspans⟩
  · rintro (hspans | ⟨u, hu, taken, rest, rfl, hspans⟩)
    · exact ⟨[], c :: cs, rfl, hspans⟩
    · exact ⟨c :: taken, rest, rfl, (derive_iff h).mpr ⟨u, hu, hspans⟩⟩

/-- A stretch begins here or later. -/
def Occurs (r : Regex) (before : Option Char) (cs : List Char) : Prop :=
  ∃ front rest, cs = front ++ rest ∧ r.Begins (front.getLast?.or before) rest

theorem occurs_nil_iff : r.Occurs before [] ↔ r.Begins before [] := by
  constructor
  · rintro ⟨front, rest, hcs, h⟩
    obtain ⟨rfl, rfl⟩ := List.append_eq_nil_iff.mp hcs.symm
    exact h
  · intro h
    exact ⟨[], [], rfl, h⟩

theorem occurs_cons_iff {cs : List Char} :
    r.Occurs before (c :: cs) ↔ r.Begins before (c :: cs) ∨ r.Occurs (some c) cs := by
  constructor
  · rintro ⟨front, rest, hcs, h⟩
    cases front with
    | nil =>
        rw [List.nil_append] at hcs
        subst hcs
        exact Or.inl h
    | cons d front =>
        obtain ⟨rfl, rfl⟩ := List.cons.inj hcs
        refine Or.inr ⟨front, rest, rfl, ?_⟩
        simpa [List.getLast?_cons] using h
  · rintro (h | ⟨front, rest, rfl, h⟩)
    · exact ⟨[], c :: cs, rfl, h⟩
    · refine ⟨c :: front, rest, rfl, ?_⟩
      simpa [List.getLast?_cons] using h

/-- Some attempt can be brought to an end, where all of them have reached the end of the text. -/
theorem any_nullable_iff {attempts : List Regex} (h : ∀ u ∈ attempts, u.WellFormed) :
    attempts.any (·.nullable ⟨before, none⟩) = true ↔ ∃ u ∈ attempts, u.Begins before [] := by
  rw [List.any_eq_true]
  constructor
  · rintro ⟨u, hu, hnull⟩
    exact ⟨u, hu, (begins_nil_iff (h u hu)).mpr hnull⟩
  · rintro ⟨u, hu, hbegins⟩
    exact ⟨u, hu, (begins_nil_iff (h u hu)).mp hbegins⟩

/-- Some attempt can be brought to an end: at once, or from what is left behind the next
character. -/
theorem exists_begins_cons_iff {attempts : List Regex} {cs : List Char}
    (h : ∀ u ∈ attempts, u.WellFormed) :
    (∃ u ∈ attempts, u.Begins before (c :: cs)) ↔
      attempts.any (·.nullable ⟨before, some c⟩) = true ∨
        ∃ v ∈ (attempts.flatMap (derive ⟨before, some c⟩ c)).eraseDups, v.Begins (some c) cs := by
  simp only [List.any_eq_true, List.mem_eraseDups, List.mem_flatMap]
  constructor
  · rintro ⟨u, hu, hbegins⟩
    rcases (begins_cons_iff (h u hu)).mp hbegins with hnull | ⟨v, hv, hbegins⟩
    · exact Or.inl ⟨u, hu, hnull⟩
    · exact Or.inr ⟨v, ⟨u, hu, hv⟩, hbegins⟩
  · rintro (⟨u, hu, hnull⟩ | ⟨v, ⟨u, hu, hv⟩, hbegins⟩)
    · exact ⟨u, hu, (begins_cons_iff (h u hu)).mpr (Or.inl hnull)⟩
    · exact ⟨u, hu, (begins_cons_iff (h u hu)).mpr (Or.inr ⟨v, hv, hbegins⟩)⟩

/-- The search succeeds when an attempt that is under way can be brought to an end, or when a
stretch begins here or later. -/
theorem search_iff {underway : List Regex} {cs : List Char} (hr : r.WellFormed)
    (hunderway : ∀ u ∈ underway, u.WellFormed) :
    search r underway before cs = true ↔
      (∃ u ∈ underway, u.Begins before cs) ∨ r.Occurs before cs := by
  induction cs generalizing underway before with
  | nil =>
      have hall : ∀ u ∈ r :: underway, u.WellFormed := List.forall_mem_cons.mpr ⟨hr, hunderway⟩
      rw [search, any_nullable_iff hall, List.exists_mem_cons_iff, occurs_nil_iff, or_comm]
  | cons c cs ih =>
      have hall : ∀ u ∈ r :: underway, u.WellFormed := List.forall_mem_cons.mpr ⟨hr, hunderway⟩
      let next := ((r :: underway).flatMap (derive ⟨before, some c⟩ c)).eraseDups
      have hnext : ∀ v ∈ next, v.WellFormed := by
        intro v hv
        obtain ⟨u, hu, hv⟩ := List.mem_flatMap.mp (List.mem_eraseDups.mp hv)
        exact wellFormed_of_mem_derive (hall u hu) hv
      calc search r underway before (c :: cs) = true
          ↔ (r :: underway).any (·.nullable ⟨before, some c⟩) = true ∨
              ((∃ v ∈ next, v.Begins (some c) cs) ∨ r.Occurs (some c) cs) := by
            rw [search, Bool.or_eq_true, ih hnext]
        _ ↔ (∃ u ∈ r :: underway, u.Begins before (c :: cs)) ∨ r.Occurs (some c) cs := by
            rw [exists_begins_cons_iff hall, or_assoc]
        _ ↔ (∃ u ∈ underway, u.Begins before (c :: cs)) ∨ r.Occurs before (c :: cs) := by
            rw [List.exists_mem_cons_iff, occurs_cons_iff, or_comm (a := r.Begins _ _), or_assoc]

/-- A text matches when some stretch of it is spanned. -/
theorem isMatch_iff (h : r.WellFormed) {text : String} :
    r.isMatch text = true ↔
      ∃ front taken rest, text.toList = front ++ (taken ++ rest) ∧
        r.Spans front.getLast? taken rest.head? := by
  have hnone : ∀ u ∈ ([] : List Regex), u.WellFormed := by simp
  rw [isMatch, search_iff h hnone]
  constructor
  · rintro (⟨u, hu, -⟩ | ⟨front, _, htext, taken, rest, rfl, hspans⟩)
    · cases hu
    · exact ⟨front, taken, rest, htext, by simpa using hspans⟩
  · rintro ⟨front, taken, rest, htext, hspans⟩
    exact Or.inr ⟨front, taken ++ rest, htext, taken, rest, rfl, by simpa using hspans⟩

theorem turns_char_iff {set : CharSet} {n : Nat} :
    (char set).Spans.Turns n before taken behind ↔
      taken.length = n ∧ ∀ c ∈ taken, set.contains c = true := by
  induction n generalizing before taken with
  | zero =>
      rw [Turns, List.length_eq_zero_iff]
      constructor
      · rintro rfl
        simp
      · exact fun h => h.1
  | succ n ih =>
      constructor
      · rintro ⟨_, second, rfl, ⟨c, hc, rfl⟩, hsecond⟩
        obtain ⟨hlength, hall⟩ := ih.mp hsecond
        exact ⟨by simp [hlength], List.forall_mem_cons.mpr ⟨hc, hall⟩⟩
      · rintro ⟨hlength, hall⟩
        cases taken with
        | nil => simp at hlength
        | cons c second =>
            rw [List.forall_mem_cons] at hall
            have hsecond : second.length = n := by simpa using hlength
            exact ⟨[c], second, rfl, ⟨c, hall.1, rfl⟩, ih.mpr ⟨hsecond, hall.2⟩⟩

/-- Characters of a set in a row, at least one. -/
theorem spans_plus_char_iff {set : CharSet} :
    (plus (char set)).Spans before taken behind ↔
      taken ≠ [] ∧ ∀ c ∈ taken, set.contains c = true := by
  rw [← List.length_pos_iff]
  constructor
  · rintro ⟨n, hn, -, hturns⟩
    obtain ⟨rfl, hall⟩ := turns_char_iff.mp hturns
    exact ⟨hn, hall⟩
  · rintro ⟨hpos, hall⟩
    exact ⟨taken.length, hpos, by simp, turns_char_iff.mpr ⟨rfl, hall⟩⟩

theorem spans_single_iff {d : Char} :
    (char (.single d)).Spans before taken behind ↔ taken = [d] := by
  have hcontains (c : Char) : (CharSet.single d).contains c = true ↔ c = d := by
    simp only [CharSet.single, CharSet.contains, Bool.and_eq_true, decide_eq_true_eq]
    constructor
    · rintro ⟨hle, hge⟩
      exact Char.le_antisymm hge hle
    · rintro rfl
      exact ⟨Char.le_refl c, Char.le_refl c⟩
  simp only [Spans, hcontains, exists_eq_left]

end Hygiene.Regex
