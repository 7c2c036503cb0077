import Mathlib.Tactic
import Hygiene.Proofs.Gn.Move

/-!
Where list literals end. A list literal reaches from its opening bracket to the bracket that
balances it, however many lists are in between and whatever else stands there; if no bracket
balances it, it reaches to the end of the tokens. All string literals in its range are its members.

Reading counts the brackets that are open. The count is also kept here as one that may not fall
below zero, and it never comes to that.
-/

namespace Hygiene.Gn

def Token.literal? : Token String → Option String
  | .quoted text => some text
  | _ => none

def literals (ts : List (Token String)) : List String := ts.filterMap Token.literal?

/-- Every bracket among the tokens has its partner. What else stands there does not matter. -/
inductive Balanced : List (Token String) → Prop
  | nil : Balanced []
  | plain {t : Token String} {rest : List (Token String)} (hopen : t ≠ .openBracket)
      (hclose : t ≠ .closeBracket) (hrest : Balanced rest) : Balanced (t :: rest)
  | list {inside rest : List (Token String)} (hinside : Balanced inside)
      (hrest : Balanced rest) : Balanced (.openBracket :: (inside ++ .closeBracket :: rest))

/-- The bracket at `start` is balanced by the one in front of `stop`. -/
def Encloses (tokens : List (Token String)) (start stop : Nat) : Prop :=
  ∃ inside rest, Balanced inside ∧
    tokens.drop start = .openBracket :: (inside ++ .closeBracket :: rest) ∧
      stop = start + inside.length + 2

/-! ### Balanced tokens -/

theorem openBehind_plain {t : Token String} (hopen : t ≠ .openBracket) (hclose : t ≠ .closeBracket)
    (depth : Nat) (rest : List (Token String)) :
    openBehind depth (t :: rest) = openBehind depth rest := by
  cases t with
  | openBracket => exact absurd rfl hopen
  | closeBracket => exact absurd rfl hclose
  | _ => rfl

theorem openBehind_close (depth : Nat) (rest : List (Token String)) :
    openBehind (depth + 2) (.closeBracket :: rest) = openBehind (depth + 1) rest := by
  rw [openBehind, if_neg (by omega)]
  rfl

/-- Balanced tokens leave the number of open brackets as it was. -/
theorem Balanced.openBehind_append {ts : List (Token String)} (h : Balanced ts) (depth : Nat)
    (us : List (Token String)) : openBehind (depth + 1) (ts ++ us) = openBehind (depth + 1) us := by
  induction h generalizing depth us with
  | nil => rfl
  | plain hopen hclose _ ih => rw [List.cons_append, openBehind_plain hopen hclose, ih]
  | list _ _ ihinside ihrest =>
      rw [List.cons_append, List.append_assoc, List.cons_append, openBehind, ihinside,
        openBehind_close, ihrest]

/-- Tokens that close the innermost of the open brackets do so behind balanced tokens. -/
theorem exists_balanced_of_openBehind {depth : Nat} {ts : List (Token String)}
    (h : openBehind (depth + 1) ts = none) :
    ∃ inside rest, Balanced inside ∧ ts = inside ++ .closeBracket :: rest ∧
      (0 < depth → openBehind depth rest = none) := by
  induction hlength : ts.length using Nat.strong_induction_on generalizing depth ts with
  | _ length ih =>
      cases ts with
      | nil => cases h
      | cons t ts =>
          rw [List.length_cons] at hlength
          by_cases hopen : t = .openBracket
          · -- A list inside is passed in two steps: to its own bracket, and from there to ours.
            subst hopen
            rw [openBehind] at h
            obtain ⟨inside, rest, hinside, rfl, hbehind⟩ := ih ts.length (by omega) h rfl
            rw [List.length_append, List.length_cons] at hlength
            obtain ⟨inside', rest', hinside', rfl, hbehind'⟩ :=
              ih rest.length (by omega) (hbehind (Nat.succ_pos depth)) rfl
            exact ⟨_, rest', .list hinside hinside', by simp, hbehind'⟩
          by_cases hclose : t = .closeBracket
          · subst hclose
            refine ⟨[], ts, .nil, rfl, fun hdepth => ?_⟩
            obtain ⟨depth, rfl⟩ := Nat.exists_eq_succ_of_ne_zero hdepth.ne'
            rwa [openBehind_close] at h
          · rw [openBehind_plain hopen hclose] at h
            obtain ⟨inside, rest, hinside, rfl, hbehind⟩ := ih ts.length (by omega) h rfl
            exact ⟨t :: inside, rest, .plain hopen hclose hinside, rfl, hbehind⟩

theorem openBehind_eq_none_iff {ts : List (Token String)} :
    openBehind 1 ts = none ↔
      ∃ inside rest, Balanced inside ∧ ts = inside ++ .closeBracket :: rest := by
  constructor
  · intro h
    obtain ⟨inside, rest, hinside, hts, -⟩ := exists_balanced_of_openBehind h
    exact ⟨inside, rest, hinside, hts⟩
  · rintro ⟨inside, rest, hinside, rfl⟩
    rw [hinside.openBehind_append, openBehind, if_pos (Nat.le_refl 1)]

/-! ### What is read -/

/-- What is read of a list literal that is not closed: all string literals that are there. -/
theorem readItems_of_open {depth deeper : Nat} {ts : List (Token String)}
    (h : openBehind depth ts = some deeper) : readItems depth ts = (literals ts, []) := by
  induction ts generalizing depth with
  | nil => rfl
  | cons t ts ih =>
      cases t with
      | closeBracket =>
          rw [openBehind] at h
          split at h
          next => cases h
          next hdepth =>
            rw [readItems, if_neg hdepth, ih h]
            rfl
      | quoted text =>
          rw [readItems, ih h]
          rfl
      | _ => exact ih h

/-- A list literal is read up to the bracket that balances its own. -/
theorem readItems_of_balanced {inside : List (Token String)} (h : Balanced inside)
    (rest : List (Token String)) :
    readItems 1 (inside ++ .closeBracket :: rest) = (literals inside, rest) := by
  have hopen : openBehind 1 inside = some 1 := by
    have hinside := h.openBehind_append 0 []
    rwa [List.append_nil] at hinside
  have hclose : readItems 1 (.closeBracket :: rest) = ([], rest) := by
    rw [readItems, if_pos (Nat.le_refl 1)]
  rw [readItems_append_of_open hopen, readItems_of_open hopen, hclose, List.append_nil]

/-! ### Counting -/

/-- The brackets that are open behind a token when `depth` of them are open in front of it, unless
the count falls below zero. -/
def countBracket? : Nat → Token String → Option Nat
  | depth, .openBracket => some (depth + 1)
  | 0, .closeBracket => none
  | depth + 1, .closeBracket => some depth
  | depth, _ => some depth

def readCounted? (depth position : Nat) : List (Token String) → Option (List String × Nat)
  | [] => some ([], position)
  | t :: rest =>
      (countBracket? depth t).bind fun deeper =>
        if t = .closeBracket ∧ deeper = 0 then some ([], position + 1)
        else
          (readCounted? deeper (position + 1) rest).map fun (items, next) =>
            (t.literal?.toList ++ items, next)

/-- Reads the list literal that begins at a position, if one does: its string literals, and the
position behind it. -/
def readListAt? (tokens : List (Token String)) (start : Nat) :
    Option (Option (List String) × Nat) :=
  if tokens[start]? = some .openBracket then
    (readCounted? 0 start (tokens.drop start)).map fun (items, next) => (some items, next)
  else some (none, start)

theorem readItems_plain {t : Token String} (hopen : t ≠ .openBracket) (hclose : t ≠ .closeBracket)
    (depth : Nat) (rest : List (Token String)) :
    readItems depth (t :: rest) =
      (t.literal?.toList ++ (readItems depth rest).1, (readItems depth rest).2) := by
  cases t with
  | openBracket => exact absurd rfl hopen
  | closeBracket => exact absurd rfl hclose
  | _ => rfl

theorem countBracket?_plain {t : Token String} (hopen : t ≠ .openBracket)
    (hclose : t ≠ .closeBracket) (depth : Nat) : countBracket? depth t = some depth := by
  cases t with
  | openBracket => exact absurd rfl hopen
  | closeBracket => exact absurd rfl hclose
  | _ => rfl

/-- While a bracket is open the count is above zero, so a bracket can be closed. -/
theorem readCounted?_succ (depth position : Nat) (ts : List (Token String)) :
    readCounted? (depth + 1) position ts =
      some ((readItems (depth + 1) ts).1,
        position + (ts.length - (readItems (depth + 1) ts).2.length)) := by
  induction ts generalizing depth position with
  | nil => rfl
  | cons t ts ih =>
      have hbehind (deeper : Nat) :
          position + 1 + (ts.length - (readItems deeper ts).2.length) =
            position + ((t :: ts).length - (readItems deeper ts).2.length) := by
        have hle := length_readItems deeper ts
        rw [List.length_cons]
        omega
      by_cases hopen : t = .openBracket
      · subst hopen
        rw [readCounted?, countBracket?, Option.bind_some, if_neg (by simp), ih, hbehind]
        rfl
      by_cases hclose : t = .closeBracket
      · subst hclose
        rw [readCounted?, countBracket?, Option.bind_some]
        cases depth with
        | zero =>
            rw [if_pos ⟨rfl, rfl⟩, readItems, if_pos (Nat.le_refl 1)]
            simp
        | succ depth =>
            rw [if_neg (by simp), ih, hbehind, readItems, if_neg (by omega)]
            rfl
      · rw [readCounted?, countBracket?_plain hopen hclose, Option.bind_some,
          if_neg (by simp [hclose]), ih, hbehind, readItems_plain hopen hclose]
        rfl

/-! ### Positions -/

/-- What is read are the string literals of what is consumed. -/
theorem exists_consumed (depth : Nat) (ts : List (Token String)) :
    ∃ consumed rest, ts = consumed ++ rest ∧ readItems depth ts = (literals consumed, rest) := by
  induction ts generalizing depth with
  | nil => exact ⟨[], [], rfl, rfl⟩
  | cons t ts ih =>
      by_cases hopen : t = .openBracket
      · subst hopen
        obtain ⟨consumed, rest, rfl, hread⟩ := ih (depth + 1)
        exact ⟨.openBracket :: consumed, rest, rfl, hread⟩
      by_cases hclose : t = .closeBracket
      · subst hclose
        rw [readItems]
        split
        · exact ⟨[.closeBracket], ts, rfl, rfl⟩
        · obtain ⟨consumed, rest, rfl, hread⟩ := ih (depth - 1)
          exact ⟨.closeBracket :: consumed, rest, rfl, hread⟩
      · obtain ⟨consumed, rest, rfl, hread⟩ := ih depth
        refine ⟨t :: consumed, rest, rfl, ?_⟩
        rw [readItems_plain hopen hclose, hread]
        cases t <;> rfl

theorem readList_of_ne {ts : List (Token String)} (h : ts.head? ≠ some .openBracket) :
    readList ts = (none, ts) := by
  cases ts with
  | nil => rfl
  | cons t ts =>
      cases t with
      | openBracket => exact absurd rfl h
      | _ => rfl

/-- A part of a list that is known by what stands behind its start. -/
theorem range_of_drop_eq {α : Type} {l front rest : List α} {start : Nat}
    (h : l.drop start = front ++ rest) :
    (l.take (start + front.length)).drop start = front ∧
      l.drop (start + front.length) = rest := by
  rw [List.drop_take, Nat.add_sub_cancel_left, ← List.drop_drop, h]
  exact ⟨List.take_left, List.drop_left⟩

structure Begins (tokens : List (Token String)) (start : Nat)
    (consumed rest : List (Token String)) : Prop where
  drop_eq : tokens.drop start = .openBracket :: (consumed ++ rest)
  read : readItems 1 (consumed ++ rest) = (literals consumed, rest)

section

variable {tokens consumed rest : List (Token String)} {start stop : Nat}

theorem exists_begins (h : (tokens.drop start).head? = some .openBracket) :
    ∃ consumed rest, Begins tokens start consumed rest := by
  obtain ⟨ts, hts⟩ := List.head?_eq_some_iff.mp h
  obtain ⟨consumed, rest, rfl, hread⟩ := exists_consumed 1 ts
  exact ⟨consumed, rest, hts, hread⟩

theorem Begins.length_eq (h : Begins tokens start consumed rest) :
    tokens.length = start + (consumed.length + 1) + rest.length := by
  have hlength := congrArg List.length h.drop_eq
  rw [List.length_drop, List.length_cons, List.length_append] at hlength
  omega

theorem Begins.readListAt?_eq (h : Begins tokens start consumed rest) :
    readListAt? tokens start = some (some (literals consumed), start + (consumed.length + 1)) := by
  have hnext : start + 1 + ((consumed ++ rest).length - rest.length) =
      start + (consumed.length + 1) := by
    rw [List.length_append]
    omega
  unfold readListAt?
  rw [← List.head?_drop, h.drop_eq, if_pos List.head?_cons, readCounted?, countBracket?,
    Option.bind_some, if_neg (by simp), readCounted?_succ, Nat.zero_add, h.read, hnext]
  rfl

theorem Begins.stop_eq (h : Begins tokens start consumed rest)
    (hstop : Encloses tokens start stop) : start + (consumed.length + 1) = stop := by
  obtain ⟨inside, rest', hinside, henclosed, rfl⟩ := hstop
  have hsame : consumed ++ rest = inside ++ .closeBracket :: rest' :=
    (List.cons.inj (h.drop_eq.symm.trans henclosed)).2
  have hread := readItems_of_balanced hinside rest'
  rw [← hsame, h.read] at hread
  obtain rfl : rest = rest' := congrArg Prod.snd hread
  have hlength := congrArg List.length hsame
  rw [List.length_append, List.length_append, List.length_cons] at hlength
  omega

theorem Begins.rest_eq_nil (h : Begins tokens start consumed rest)
    (hopen : ∀ stop, ¬ Encloses tokens start stop) : rest = [] := by
  cases hbehind : openBehind 1 (consumed ++ rest) with
  | none =>
      obtain ⟨inside, rest', hinside, hsame⟩ := openBehind_eq_none_iff.mp hbehind
      have hts := h.drop_eq
      rw [hsame] at hts
      exact absurd ⟨inside, rest', hinside, hts, rfl⟩ (hopen _)
  | some deeper =>
      have hread := h.read
      rw [readItems_of_open hbehind] at hread
      exact (congrArg Prod.snd hread).symm

end

/-- Reading at a position. Where no list literal begins, nothing is read and nothing consumed.
Otherwise the string literals are read of all that is consumed, which reaches to the bracket that
balances the first one, or to the end if there is none. The count of open brackets does not fall
below zero. -/
theorem readList_at (tokens : List (Token String)) (start : Nat) :
    ∃ list next, readListAt? tokens start = some (list, next) ∧
      readList (tokens.drop start) = (list, tokens.drop next) ∧
      (tokens[start]? ≠ some .openBracket → list = none ∧ next = start) ∧
      (tokens[start]? = some .openBracket →
        list = some (literals ((tokens.take next).drop start)) ∧
          start < next ∧ next ≤ tokens.length ∧
          (∀ stop, Encloses tokens start stop → next = stop) ∧
          ((∀ stop, ¬ Encloses tokens start stop) → next = tokens.length)) := by
  rw [← List.head?_drop]
  by_cases h : (tokens.drop start).head? = some .openBracket
  · obtain ⟨consumed, rest, hbegins⟩ := exists_begins h
    have hdrop : tokens.drop start = (.openBracket :: consumed) ++ rest := hbegins.drop_eq
    obtain ⟨hrange, hbehind⟩ := range_of_drop_eq hdrop
    have hlength := hbegins.length_eq
    refine ⟨some (literals consumed), start + (consumed.length + 1), hbegins.readListAt?_eq, ?_,
      fun hne => absurd h hne, fun _ => ⟨?_, by omega, by omega, ?_, ?_⟩⟩
    · rw [hbegins.drop_eq, readList, hbegins.read]
      exact congrArg _ hbehind.symm
    · have hliterals : literals consumed = literals (.openBracket :: consumed) := rfl
      rw [hliterals, ← hrange]
      rfl
    · exact fun stop hstop => hbegins.stop_eq hstop
    · intro hopen
      rw [hlength, hbegins.rest_eq_nil hopen]
      rfl
  · refine ⟨none, start, ?_, readList_of_ne h, fun _ => ⟨rfl, rfl⟩, fun hlist => absurd hlist h⟩
    rw [readListAt?, ← List.head?_drop, if_neg h]

def twoLists : List (Token String) :=
  [.openBracket, .quoted "a.c", .openBracket, .closeBrace, .quoted "b.cc", .closeBracket,
    .closeBracket, .quoted "c.m", .openBracket, .quoted "d.mm"]

theorem readList_at_twoLists :
    twoLists[0]? = some .openBracket ∧ Encloses twoLists 0 7 ∧
      readList twoLists = (some ["a.c", "b.cc"], twoLists.drop 7) := by
  have hopen : twoLists[0]? = some .openBracket := rfl
  have hinner : Balanced [.closeBrace, .quoted "b.cc"] :=
    .plain nofun nofun (.plain nofun nofun .nil)
  have hinside : Balanced (.quoted "a.c" :: _) := .plain nofun nofun (hinner.list .nil)
  have henclosed : Encloses twoLists 0 7 :=
    ⟨_, [.quoted "c.m", .openBracket, .quoted "d.mm"], hinside, rfl, rfl⟩
  obtain ⟨list, next, -, hread, -, hlist⟩ := readList_at twoLists 0
  obtain ⟨rfl, -, -, hends, -⟩ := hlist hopen
  obtain rfl := hends 7 henclosed
  exact ⟨hopen, henclosed, hread⟩

end Hygiene.Gn
