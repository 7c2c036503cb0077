import Mathlib.Tactic
import Hygiene.Glob.Match

/-!
What glob patterns cover. A text is covered when it falls into pieces, one for each part of the
pattern. The matcher looks for such pieces and gives up early: once the rest of the pattern has run
out of text, it tries no longer runs for the wildcards before. That costs no match, provided that
`**` stands where it may, because then whatever could be matched further on would have been matched
where the text ran out.
-/

namespace Hygiene.Glob

/-- A text falls into pieces that the parts of a pattern cover one by one. Behind directories the
text goes on after a separator, unless they take nothing or all that is there. -/
inductive Covers : List GlobToken → List Char → Prop
  | nil : Covers [] []
  | one {t : GlobToken} {c : Char} {tokens : List GlobToken} {cs : List Char}
      (hallows : t.allows c = true) (hrest : Covers tokens cs) : Covers (t :: tokens) (c :: cs)
  | sequence (front : List Char) {tokens : List GlobToken} {rest : List Char}
      (hrest : Covers tokens rest) : Covers (.anySequence :: tokens) (front ++ rest)
  | noDirectories {tokens : List GlobToken} {cs : List Char} (hrest : Covers tokens cs) :
      Covers (.anyDirectories :: tokens) cs
  | directories (front : List Char) {tokens : List GlobToken} {rest : List Char}
      (hrest : Covers tokens rest) : Covers (.anyDirectories :: tokens) (front ++ '/' :: rest)
  | everything (cs : List Char) {tokens : List GlobToken} (hrest : Covers tokens []) :
      Covers (.anyDirectories :: tokens) cs

/-! ### What a wildcard leaves -/

/-- What a wildcard can leave of a text after it has taken something: what stands behind a character
at which it may stop, or nothing. -/
inductive Leaves (stops : Char → Bool) : List Char → List Char → Prop
  | nothing : Leaves stops [] []
  | stop {c : Char} (hstop : stops c = true) (rest : List Char) : Leaves stops (c :: rest) rest
  | goOn (c : Char) {cs rest : List Char} (hrest : Leaves stops cs rest) :
      Leaves stops (c :: cs) rest

variable {stops : Char → Bool} {cs rest : List Char}

theorem leaves_nil (stops : Char → Bool) (cs : List Char) : Leaves stops cs [] := by
  induction cs with
  | nil => exact .nothing
  | cons c cs ih => exact .goOn c ih

theorem leaves_append {c : Char} (hstop : stops c = true) (front rest : List Char) :
    Leaves stops (front ++ c :: rest) rest := by
  induction front with
  | nil => exact .stop hstop rest
  | cons d front ih => exact .goOn d ih

theorem Leaves.cases (h : Leaves stops cs rest) :
    rest = [] ∨ ∃ front c, stops c = true ∧ cs = front ++ c :: rest := by
  induction h with
  | nothing => exact Or.inl rfl
  | @stop c hstop rest => exact Or.inr ⟨[], c, hstop, rfl⟩
  | goOn d _ ih =>
      rcases ih with hnil | ⟨front, c, hstop, rfl⟩
      · exact Or.inl hnil
      · exact Or.inr ⟨d :: front, c, hstop, rfl⟩

theorem Leaves.trans {further : List Char} (h : Leaves stops cs rest)
    (hfurther : Leaves stops rest further) : Leaves stops cs further := by
  induction h with
  | nothing => exact hfurther
  | @stop c _ rest => exact .goOn c hfurther
  | goOn c _ ih => exact .goOn c (ih hfurther)

/-- A wildcard that may stop anywhere leaves what any other one leaves. -/
theorem Leaves.anywhere (h : Leaves stops cs rest) : Leaves (fun _ => true) cs rest := by
  induction h with
  | nothing => exact .nothing
  | stop _ rest => exact .stop rfl rest
  | goOn c _ ih => exact .goOn c ih

theorem leaves_nil_iff : Leaves stops [] rest ↔ rest = [] := by
  constructor
  · rintro ⟨⟩
    rfl
  · rintro rfl
    exact .nothing

theorem leaves_cons_iff {c : Char} :
    Leaves stops (c :: cs) rest ↔ (stops c = true ∧ rest = cs) ∨ Leaves stops cs rest := by
  constructor
  · intro h
    cases h with
    | stop hstop => exact Or.inl ⟨hstop, rfl⟩
    | goOn _ hrest => exact Or.inr hrest
  · rintro (⟨hstop, rfl⟩ | hrest)
    · exact .stop hstop rest
    · exact .goOn c hrest

/-! ### Giving up -/

/-- Where an attempt runs out of text, none that begins further on succeeds. -/
def GivesUpRightly (stops : Char → Bool) (next : List Char → Attempt) : Prop :=
  ∀ cs rest, next cs = .exhausted → Leaves stops cs rest → next rest ≠ .matched

theorem GivesUpRightly.of_anywhere {next : List Char → Attempt}
    (h : GivesUpRightly (fun _ => true) next) (stops : Char → Bool) : GivesUpRightly stops next :=
  fun cs rest hexhausted hrest => h cs rest hexhausted hrest.anywhere

theorem orElse_eq_matched_iff {first second : Attempt}
    (h : first = .exhausted → second ≠ .matched) :
    first.orElse second = .matched ↔ first = .matched ∨ second = .matched := by
  cases first with
  | matched => simp [Attempt.orElse]
  | mismatch => simp [Attempt.orElse]
  | exhausted => simp [Attempt.orElse, h]

variable {next : List Char → Attempt}

/-- A wildcard finds a run that works out, if there is one. -/
theorem sweep_eq_matched_iff (hgive : GivesUpRightly stops next) :
    sweep next stops cs = .matched ↔ ∃ rest, Leaves stops cs rest ∧ next rest = .matched := by
  induction cs with
  | nil => simp [sweep, leaves_nil_iff]
  | cons c cs ih =>
      simp only [leaves_cons_iff]
      rw [sweep]
      split
      next hstop =>
        have hlonger : next cs = .exhausted → sweep next stops cs ≠ .matched := by
          intro hexhausted hmatched
          obtain ⟨rest, hrest, hnext⟩ := ih.mp hmatched
          exact hgive cs rest hexhausted hrest hnext
        rw [orElse_eq_matched_iff hlonger, ih]
        simp [hstop, or_and_right, exists_or]
      next hstop =>
        rw [ih]
        simp [hstop]

/-- The same with the empty run, which is tried first. -/
theorem take_eq_matched_iff (hgive : GivesUpRightly stops next) :
    (next cs).orElse (sweep next stops cs) = .matched ↔
      ∃ rest, (rest = cs ∨ Leaves stops cs rest) ∧ next rest = .matched := by
  have hlonger : next cs = .exhausted → sweep next stops cs ≠ .matched := by
    intro hexhausted hmatched
    obtain ⟨rest, hrest, hnext⟩ := (sweep_eq_matched_iff hgive).mp hmatched
    exact hgive cs rest hexhausted hrest hnext
  rw [orElse_eq_matched_iff hlonger, sweep_eq_matched_iff hgive]
  simp [or_and_right, exists_or]

/-- A wildcard in front of what gives up rightly gives up rightly. -/
theorem GivesUpRightly.take (hgive : GivesUpRightly stops next) :
    GivesUpRightly stops fun cs => (next cs).orElse (sweep next stops cs) := by
  intro cs rest hexhausted hrest hmatched
  obtain ⟨further, hfurther, hnext⟩ := (take_eq_matched_iff hgive).mp hmatched
  have hleaves : Leaves stops cs further := by
    rcases hfurther with rfl | hfurther
    · exact hrest
    · exact hrest.trans hfurther
  have htaken := (take_eq_matched_iff hgive).mpr ⟨further, Or.inr hleaves, hnext⟩
  cases hexhausted.symm.trans htaken

/-! ### Where directories stand -/

def MayFollow (t next : GlobToken) : Prop :=
  next = .anyDirectories → t = .char '/' ∨ t = .anyDirectories

/-- In a pattern `**` stands in front, behind a separator or behind another `**`. -/
def IsPlaced (tokens : List GlobToken) : Prop := tokens.IsChain MayFollow

/-- Where runs in front of some tokens have to stop: only at a separator, if `**` comes next. -/
def stopsBefore (tokens : List GlobToken) : Char → Bool :=
  if tokens.head? = some .anyDirectories then (· == '/') else fun _ => true

variable {t : GlobToken} {tokens : List GlobToken}

theorem stopsBefore_of_ne (h : tokens.head? ≠ some .anyDirectories) :
    stopsBefore tokens = fun _ => true :=
  if_neg h

/-- A character that is matched in front of some tokens is one at which a run may stop. -/
theorem stopsBefore_of_allows {c : Char} (hnext : ∀ next ∈ tokens.head?, MayFollow t next)
    (hallows : t.allows c = true) : stopsBefore tokens c = true := by
  unfold stopsBefore
  split
  next hhead =>
    rcases hnext .anyDirectories hhead rfl with rfl | rfl
    · exact hallows
    · cases hallows
  next => rfl

theorem covers_anySequence_iff :
    Covers (.anySequence :: tokens) cs ↔
      ∃ rest, (rest = cs ∨ Leaves (fun _ => true) cs rest) ∧ Covers tokens rest := by
  constructor
  · intro h
    cases h with
    | one hallows _ => cases hallows
    | sequence front hrest =>
        rcases List.eq_nil_or_concat front with rfl | ⟨front, c, rfl⟩
        · exact ⟨_, Or.inl rfl, hrest⟩
        · rw [List.concat_eq_append, List.append_assoc]
          exact ⟨_, Or.inr (leaves_append rfl front _), hrest⟩
  · rintro ⟨rest, rfl | hleaves, hrest⟩
    · exact .sequence [] hrest
    · rcases hleaves.cases with rfl | ⟨front, c, -, rfl⟩
      · have hall := Covers.sequence cs hrest
        rwa [List.append_nil] at hall
      · have hfront := Covers.sequence (front ++ [c]) hrest
        rwa [List.append_assoc] at hfront

theorem covers_anyDirectories_iff :
    Covers (.anyDirectories :: tokens) cs ↔
      ∃ rest, (rest = cs ∨ Leaves (· == '/') cs rest) ∧ Covers tokens rest := by
  constructor
  · intro h
    cases h with
    | one hallows _ => cases hallows
    | noDirectories hrest => exact ⟨cs, Or.inl rfl, hrest⟩
    | directories front hrest => exact ⟨_, Or.inr (leaves_append rfl front _), hrest⟩
    | everything _ hrest => exact ⟨[], Or.inr (leaves_nil _ cs), hrest⟩
  · rintro ⟨rest, rfl | hleaves, hrest⟩
    · exact .noDirectories hrest
    · rcases hleaves.cases with rfl | ⟨front, c, hstop, rfl⟩
      · exact .everything cs hrest
      · obtain rfl := beq_iff_eq.mp hstop
        exact .directories front hrest

def IsSingle (t : GlobToken) : Prop := t ≠ .anySequence ∧ t ≠ .anyDirectories

theorem attempt_single_nil (h : IsSingle t) : attempt (t :: tokens) [] = .exhausted := by
  rw [attempt]
  · exact h.1
  · exact h.2

theorem attempt_single_cons (h : IsSingle t) (c : Char) (cs : List Char) :
    attempt (t :: tokens) (c :: cs) = if t.allows c then attempt tokens cs else .mismatch := by
  rw [attempt]
  · exact h.1
  · exact h.2

theorem covers_single_iff (h : IsSingle t) :
    Covers (t :: tokens) cs ↔
      ∃ c rest, cs = c :: rest ∧ t.allows c = true ∧ Covers tokens rest := by
  constructor
  · intro hcovers
    cases hcovers with
    | one hallows hrest => exact ⟨_, _, rfl, hallows, hrest⟩
    | sequence => exact absurd rfl h.1
    | noDirectories => exact absurd rfl h.2
    | directories => exact absurd rfl h.2
    | everything => exact absurd rfl h.2
  · rintro ⟨c, rest, rfl, hallows, hrest⟩
    exact .one hallows hrest

theorem attempt_single_eq_matched_iff (h : IsSingle t) :
    attempt (t :: tokens) cs = .matched ↔
      ∃ c rest, cs = c :: rest ∧ t.allows c = true ∧ attempt tokens rest = .matched := by
  cases cs with
  | nil => simp [attempt_single_nil h]
  | cons c cs =>
      rw [attempt_single_cons h]
      split
      next hallows => simp [hallows]
      next hallows => simp [hallows]

/-- A single character in front of what gives up rightly gives up rightly. -/
theorem GivesUpRightly.single (hgive : GivesUpRightly (stopsBefore tokens) (attempt tokens))
    (hsingle : IsSingle t) (hnext : ∀ next ∈ tokens.head?, MayFollow t next) :
    GivesUpRightly (fun _ => true) (attempt (t :: tokens)) := by
  intro cs rest hexhausted hleaves hmatched
  obtain ⟨d, rest, rfl, hallows, hmatched⟩ := (attempt_single_eq_matched_iff hsingle).mp hmatched
  -- The characters that both attempts begin with are matched, and the second stands further on.
  obtain ⟨front, c, -, rfl⟩ := hleaves.cases.resolve_left (List.cons_ne_nil d rest)
  obtain ⟨b, cs, hcs⟩ : ∃ b cs, front ++ c :: d :: rest = b :: (cs ++ d :: rest) := by
    cases front with
    | nil => exact ⟨c, [], rfl⟩
    | cons b front => exact ⟨b, front ++ [c], by simp⟩
  rw [hcs, attempt_single_cons hsingle] at hexhausted
  split at hexhausted
  next =>
    have hstop := stopsBefore_of_allows hnext hallows
    exact hgive _ rest hexhausted (leaves_append hstop cs rest) hmatched
  next => cases hexhausted

theorem attempt_nil_eq_matched_iff : attempt [] cs = .matched ↔ Covers [] cs := by
  cases cs with
  | nil => exact ⟨fun _ => .nil, fun _ => rfl⟩
  | cons c cs =>
      constructor
      · intro hmatched
        cases hmatched
      · rintro ⟨⟩

/-- A pattern of no parts never runs out of text. -/
theorem givesUpRightly_nil (stops : Char → Bool) : GivesUpRightly stops (attempt []) := by
  intro cs rest hexhausted
  cases cs with
  | nil => cases hexhausted
  | cons c cs => cases hexhausted

/-- A pattern whose directories are well placed matches what it covers, and where it runs out of
text it gives up rightly. -/
theorem attempt_placed (h : IsPlaced tokens) :
    (∀ cs, attempt tokens cs = .matched ↔ Covers tokens cs) ∧
      GivesUpRightly (stopsBefore tokens) (attempt tokens) := by
  induction tokens with
  | nil => exact ⟨fun _ => attempt_nil_eq_matched_iff, givesUpRightly_nil _⟩
  | cons t tokens ih =>
      obtain ⟨hnext, hplaced⟩ := List.isChain_cons.mp h
      obtain ⟨hcovers, hgive⟩ := ih hplaced
      by_cases hsequence : t = .anySequence
      · subst hsequence
        have hanywhere : stopsBefore tokens = fun _ => true := by
          refine stopsBefore_of_ne fun hhead => ?_
          rcases hnext .anyDirectories hhead rfl with h | h <;> cases h
        rw [hanywhere] at hgive
        rw [stopsBefore_of_ne (by simp)]
        refine ⟨fun cs => ?_, hgive.take⟩
        rw [attempt, take_eq_matched_iff hgive, covers_anySequence_iff]
        simp only [hcovers]
      by_cases hdirectories : t = .anyDirectories
      · subst hdirectories
        have hgive : GivesUpRightly (· == '/') (attempt tokens) := by
          unfold stopsBefore at hgive
          split at hgive
          next => exact hgive
          next => exact hgive.of_anywhere _
        refine ⟨fun cs => ?_, hgive.take⟩
        rw [attempt, take_eq_matched_iff hgive, covers_anyDirectories_iff]
        simp only [hcovers]
      · have hsingle : IsSingle t := ⟨hsequence, hdirectories⟩
        rw [stopsBefore_of_ne (by simp [hdirectories])]
        refine ⟨fun cs => ?_, hgive.single hsingle hnext⟩
        rw [attempt_single_eq_matched_iff hsingle, covers_single_iff hsingle]
        simp only [hcovers]

end Hygiene.Glob
