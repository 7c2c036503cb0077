import Hygiene.Proofs.Regex.Match
import Hygiene.Regex.Reader

/-!
The reader of expressions makes none in which a repetition asks for more turns than it allows. What
is known about the search thus holds for every expression that a text spells.
-/

namespace Hygiene.Regex

variable {flags : Flags} {r : Regex} {rest cs : List Char}

/-- What was read of a chain so far is well formed, piece by piece. -/
def PiecesWellFormed (done : List (Option Regex)) : Prop := ∀ a, some a ∈ done → a.WellFormed

theorem PiecesWellFormed.push {done : List (Option Regex)} (h : PiecesWellFormed done)
    {a : Regex} (ha : a.WellFormed) : PiecesWellFormed (some a :: done) := by
  intro b hb
  rcases List.mem_cons.mp hb with hb | hb
  · obtain rfl := Option.some.inj hb
    exact ha
  · exact h b hb

theorem wellFormed_foldr_seq {pieces : List Regex} {last : Regex}
    (h : ∀ a ∈ pieces, a.WellFormed) (hlast : last.WellFormed) :
    (pieces.foldr seq last).WellFormed := by
  induction pieces with
  | nil => exact hlast
  | cons a pieces ih =>
      rw [List.forall_mem_cons] at h
      exact ⟨h.1, ih h.2⟩

theorem wellFormed_chain {done : List (Option Regex)} (h : PiecesWellFormed done) :
    (chain done).WellFormed := by
  have hpieces : ∀ a ∈ done.reverse.filterMap id, a.WellFormed := by
    intro a ha
    obtain ⟨piece, hpiece, rfl⟩ := List.mem_filterMap.mp ha
    exact h a (List.mem_reverse.mp hpiece)
  rw [chain]
  split
  next => trivial
  next a rest heq =>
    rw [heq] at hpieces
    apply wellFormed_foldr_seq
    · exact fun b hb => hpieces b (List.mem_of_mem_dropLast hb)
    · exact hpieces _ (List.getLast_mem _)

theorem PiecesWellFormed.repeatLast {done again : List (Option Regex)} {least : Nat}
    {most : Option Nat} (h : PiecesWellFormed done) (hbounds : ∀ bound ∈ most, least ≤ bound)
    (hagain : repeatLast done least most = some again) : PiecesWellFormed again := by
  unfold Regex.repeatLast at hagain
  split at hagain
  next a rest =>
    obtain rfl := Option.some.inj hagain
    have hrest : PiecesWellFormed rest := fun b hb => h b (List.mem_cons_of_mem _ hb)
    exact hrest.push ⟨h a List.mem_cons_self, hbounds⟩
  next => cases hagain

/-- Bounds that are the wrong way around are refused. -/
theorem le_of_readBounds {least : Nat} {most : Option Nat}
    (h : readBounds flags cs = some (least, most, rest)) : ∀ bound ∈ most, least ≤ bound := by
  unfold readBounds at h
  obtain ⟨lower, -, h⟩ := Option.bind_eq_some_iff.mp h
  by_cases hlower : countFits lower = true
  · simp only [hlower, Bool.not_true, Bool.false_eq_true, if_false] at h
    split at h
    · cases h
      simp
    · split at h
      · cases h
        simp
      · obtain ⟨upper, -, h⟩ := Option.bind_eq_some_iff.mp h
        split at h
        · split at h
          next hbounds =>
            cases h
            rw [Bool.and_eq_true, decide_eq_true_eq] at hbounds
            simpa using hbounds.2
          next => cases h
        · cases h
    · cases h
  · simp [hlower] at h

theorem wellFormed_of_setRegex? {s : CharSet} (h : setRegex? flags s = some r) : r.WellFormed := by
  unfold setRegex? at h
  split at h
  · cases h
    trivial
  · cases h

theorem wellFormed_of_readBracketed (h : readBracketed flags cs = some (r, rest)) :
    r.WellFormed := by
  unfold readBracketed at h
  obtain ⟨⟨s, _⟩, -, h⟩ := Option.bind_eq_some_iff.mp h
  obtain ⟨_, hset, h⟩ := Option.bind_eq_some_iff.mp h
  cases h
  exact wellFormed_of_setRegex? hset

theorem wellFormed_of_escapeRegex? {e : Escape} (h : escapeRegex? flags e = some r) :
    r.WellFormed := by
  cases e with
  | char c =>
      cases h
      trivial
  | byte c =>
      rw [escapeRegex?] at h
      split at h
      · cases h
      · cases h
        trivial
  | set s => exact wellFormed_of_setRegex? h
  | look condition =>
      cases h
      trivial

/-- What `fuel` steps of the reader make is well formed, where what was read before is. -/
structure Sound (fuel : Nat) : Prop where
  alternatives {flags : Flags} {cs rest : List Char} {r : Regex} :
    readAlternatives fuel flags cs = some (r, rest) → r.WellFormed
  chain {flags flags' : Flags} {done : List (Option Regex)} {cs rest : List Char} {r : Regex} :
    PiecesWellFormed done → readChain fuel flags done cs = some (r, flags', rest) → r.WellFormed

theorem Sound.alternatives_succ {fuel : Nat} (h : Sound fuel)
    (hread : readAlternatives (fuel + 1) flags cs = some (r, rest)) : r.WellFormed := by
  have hnone : PiecesWellFormed [] := by simp [PiecesWellFormed]
  simp only [readAlternatives] at hread
  split at hread
  next => cases hread
  next a flags' rest' hchain =>
    have ha : a.WellFormed := h.chain hnone hchain
    split at hread
    · obtain ⟨⟨b, _⟩, hb, heq⟩ := Option.map_eq_some_iff.mp hread
      cases heq
      exact ⟨ha, h.alternatives hb⟩
    · cases hread
      exact ha

theorem Sound.chain_succ {fuel : Nat} (h : Sound fuel) {flags' : Flags}
    {done : List (Option Regex)} (hdone : PiecesWellFormed done)
    (hread : readChain (fuel + 1) flags done cs = some (r, flags', rest)) : r.WellFormed := by
  simp only [readChain] at hread
  split at hread
  -- The end of a chain: that of the text, a parenthesis or a bar.
  · cases hread
    exact wellFormed_chain hdone
  · cases hread
    exact wellFormed_chain hdone
  · cases hread
    exact wellFormed_chain hdone
  -- A parenthesis sets flags or opens a group.
  · split at hread
    · cases hread
    · have hgap : PiecesWellFormed (none :: done) := by simpa [PiecesWellFormed] using hdone
      exact h.chain hgap hread
    next name inner rest' _ =>
      split at hread
      next b _ hb =>
        have hwf : b.WellFormed := h.alternatives hb
        exact h.chain (hdone.push (a := group name b) hwf) hread
      next => cases hread
  · split at hread
    next => cases hread
    next hset => exact h.chain (hdone.push (wellFormed_of_readBracketed hset)) hread
  -- The marks of a repetition, the last of which gives its bounds.
  · split at hread
    next => cases hread
    next again heq => exact h.chain (hdone.repeatLast (by simp) heq) hread
  · split at hread
    next => cases hread
    next again heq => exact h.chain (hdone.repeatLast (by simp) heq) hread
  · split at hread
    next => cases hread
    next again heq => exact h.chain (hdone.repeatLast (by simp) heq) hread
  · split at hread
    next => cases hread
    next hbounds =>
      split at hread
      next => cases hread
      next again heq => exact h.chain (hdone.repeatLast (le_of_readBounds hbounds) heq) hread
  · split at hread
    next => cases hread
    next e _ _ =>
      split at hread
      next => cases hread
      next heq =>
        obtain ⟨_, he, heq⟩ := Option.map_eq_some_iff.mp heq
        cases heq
        exact h.chain (hdone.push (wellFormed_of_escapeRegex? he)) hread
  · split at hread
    next => cases hread
    next heq =>
      obtain ⟨_, hdot, heq⟩ := Option.map_eq_some_iff.mp heq
      cases heq
      exact h.chain (hdone.push (wellFormed_of_setRegex? hdot)) hread
  -- A condition or a character.
  · exact h.chain (hdone.push (by trivial)) hread
  · exact h.chain (hdone.push (by trivial)) hread
  · exact h.chain (hdone.push (by trivial)) hread

theorem sound (fuel : Nat) : Sound fuel := by
  induction fuel with
  | zero =>
      constructor
      · intro _ _ _ _ hread
        simp [readAlternatives] at hread
      · intro _ _ _ _ _ _ _ hread
        simp [readChain] at hread
  | succ fuel ih => exact ⟨ih.alternatives_succ, ih.chain_succ⟩

/-- Every expression that is read is one that the search is right about. -/
theorem wellFormed_of_read {text : String} (h : read text = .ok r) : r.WellFormed := by
  unfold read at h
  split at h
  next heq =>
    split_ifs at h
    cases h
    exact (sound _).alternatives heq
  next => cases h

/-- A text matches what was read exactly when some stretch of it is spanned. -/
theorem isMatch_of_read_iff {pattern text : String} (h : read pattern = .ok r) :
    r.isMatch text = true ↔
      ∃ front taken rest, text.toList = front ++ (taken ++ rest) ∧
        r.Spans front.getLast? taken rest.head? :=
  isMatch_iff (wellFormed_of_read h)

end Hygiene.Regex
