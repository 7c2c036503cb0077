import Mathlib.Tactic
import Hygiene.Proofs.Except
import Hygiene.Proofs.Glob.Match

/-!
How glob patterns are read. In a pattern that is read `**` is always well placed, so that it matches
what it covers. What is left of a pattern without the `**/` at its front is again a pattern, with
the same parts but for some `**` at the front; so it covers nothing that the whole does not cover.
-/

namespace Hygiene.Glob

/-- A part of a pattern that is no `**` at the front of a text, with its last character and what
follows it. -/
inductive ReadsPart : List Char → GlobToken → Char → List Char → Prop
  | anyChar (rest : List Char) : ReadsPart ('?' :: rest) .anyChar '?' rest
  | anySequence {rest : List Char} (hrest : rest.head? ≠ some '*') :
      ReadsPart ('*' :: rest) .anySequence '*' rest
  | within {rest after : List Char} {t : GlobToken} (hclass : readClass? rest = some (t, after)) :
      ReadsPart ('[' :: rest) t ']' after
  | char {c : Char} (hany : c ≠ '?') (hstar : c ≠ '*') (hclass : c ≠ '[') (rest : List Char) :
      ReadsPart (c :: rest) (.char c) c rest

/-- A `**` may stand behind this character. -/
def OpensComponent (previous : Option Char) : Prop := previous = none ∨ previous = some '/'

inductive Reads : Option Char → List GlobToken → List Char → List GlobToken → Prop
  | nothing (previous : Option Char) (done : List GlobToken) : Reads previous done [] done.reverse
  | part {previous : Option Char} {done tokens : List GlobToken} {cs rest : List Char}
      {t : GlobToken} {last : Char} (hpart : ReadsPart cs t last rest)
      (hrest : Reads (some last) (t :: done) rest tokens) : Reads previous done cs tokens
  | directories {previous : Option Char} {done tokens : List GlobToken} {rest : List Char}
      (hopens : OpensComponent previous)
      (hrest : Reads (some '/') (pushDirectories done) rest tokens) :
      Reads previous done ('*' :: '*' :: '/' :: rest) tokens
  | lastDirectories {previous : Option Char} (hopens : OpensComponent previous)
      (done : List GlobToken) : Reads previous done ['*', '*'] (pushDirectories done).reverse

theorem reads_of_readFrom {position : Nat} {previous : Option Char} {done tokens : List GlobToken}
    {cs : List Char} (h : readFrom position previous done cs = .ok tokens) :
    Reads previous done cs tokens := by
  revert h
  fun_induction readFrom position previous done cs with
  | case1 position previous done =>
      rintro ⟨⟩
      exact .nothing previous done
  | case2 position previous done rest ih =>
      intro h
      exact .part (.anyChar rest) (ih h)
  | case3 => nofun
  | case4 position previous done hopens =>
      rintro ⟨⟩
      exact .lastDirectories hopens done
  | case5 position previous done hopens rest _ ih =>
      intro h
      exact .directories hopens (ih h)
  | case6 => nofun
  | case7 => nofun
  | case8 position previous done rest _ hstar ih =>
      intro h
      have hrest : rest.head? ≠ some '*' := by
        intro hhead
        obtain ⟨tail, rfl⟩ := List.head?_eq_some_iff.mp hhead
        exact hstar tail rfl
      exact .part (.anySequence hrest) (ih h)
  | case9 => nofun
  | case10 position previous done rest t after hclass _ ih =>
      intro h
      exact .part (.within hclass) (ih h)
  | case11 position previous done c rest hany _ _ hstar hclass ih =>
      intro h
      exact .part (.char hany hstar hclass rest) (ih h)

theorem readFrom_of_part {cs rest : List Char} {t : GlobToken} {last : Char}
    (h : ReadsPart cs t last rest) (position : Nat) (previous : Option Char)
    (done : List GlobToken) :
    ∃ further, readFrom position previous done cs =
      readFrom further (some last) (t :: done) rest := by
  cases h with
  | anyChar => exact ⟨position + 1, by rw [readFrom]⟩
  | anySequence hrest =>
      refine ⟨position + 1, ?_⟩
      rw [readFrom]
      · rintro tail rfl
        exact hrest rfl
      · rintro tail rfl
        exact hrest rfl
  | @within inside _ _ hclass =>
      refine ⟨position + 1 + (inside.length - rest.length), ?_⟩
      rw [readFrom]
      split
      next hnone =>
        rw [hclass] at hnone
        cases hnone
      next found =>
        rw [hclass] at found
        cases found
        rfl
  | char hany hstar hclass =>
      refine ⟨position + 1, ?_⟩
      rw [readFrom]
      · exact hany
      · rintro tail rfl
        exact absurd rfl hstar
      · rintro tail rfl
        exact absurd rfl hstar
      · exact hstar
      · exact hclass

theorem readFrom_of_reads {previous : Option Char} {done tokens : List GlobToken} {cs : List Char}
    (h : Reads previous done cs tokens) (position : Nat) :
    readFrom position previous done cs = .ok tokens := by
  induction h generalizing position with
  | nothing => rw [readFrom]
  | part hpart _ ih =>
      obtain ⟨further, hfurther⟩ := readFrom_of_part hpart position _ _
      rw [hfurther, ih]
  | directories hopens _ ih =>
      unfold OpensComponent at hopens
      rw [readFrom, if_pos hopens]
      · exact ih _
      · intro tail h
        cases h
  | lastDirectories hopens =>
      unfold OpensComponent at hopens
      rw [readFrom, if_pos hopens]

/-! ### Where directories stand -/

/-- Directories are not read twice in a row behind other parts. -/
theorem pushDirectories_cases (done : List GlobToken) :
    pushDirectories done = .anyDirectories :: done ∨
      pushDirectories done = done ∧ done.head? = some .anyDirectories := by
  unfold pushDirectories
  split
  next h =>
    rw [Bool.and_eq_true, beq_iff_eq] at h
    exact Or.inr ⟨rfl, h.2⟩
  next => exact Or.inl rfl

structure WellDone (previous : Option Char) (done : List GlobToken) : Prop where
  placed : IsPlaced done.reverse
  follows : OpensComponent previous → ∀ t ∈ done.head?, MayFollow t .anyDirectories

theorem WellDone.push {previous : Option Char} {done : List GlobToken} {t : GlobToken}
    (h : WellDone previous done) {last : Char} (hfollows : ∀ u ∈ done.head?, MayFollow u t)
    (hlast : last = '/' → MayFollow t .anyDirectories) : WellDone (some last) (t :: done) := by
  refine ⟨?_, ?_⟩
  · rw [IsPlaced, List.reverse_cons, List.isChain_append]
    refine ⟨h.placed, List.isChain_singleton t, ?_⟩
    intro u hu v hv
    rw [List.getLast?_reverse] at hu
    obtain rfl : t = v := by simpa using hv
    exact hfollows u hu
  · intro hopens u hu
    obtain rfl : t = u := by simpa using hu
    exact hlast (by simpa [OpensComponent] using hopens)

theorem mayFollow_of_ne {t : GlobToken} (ht : t ≠ .anyDirectories) (u : GlobToken) :
    MayFollow u t :=
  fun h => absurd h ht

theorem ne_anyDirectories_of_readClass? {cs after : List Char} {t : GlobToken}
    (h : readClass? cs = some (t, after)) : t ≠ .anyDirectories := by
  rintro rfl
  unfold readClass? at h
  split at h
  · obtain ⟨_, -, hclass⟩ := Option.map_eq_some_iff.mp h
    cases hclass
  · obtain ⟨_, -, hclass⟩ := Option.map_eq_some_iff.mp h
    cases hclass
  · cases h

theorem ReadsPart.ne_anyDirectories {cs rest : List Char} {t : GlobToken} {last : Char}
    (h : ReadsPart cs t last rest) : t ≠ .anyDirectories := by
  cases h with
  | within hclass => exact ne_anyDirectories_of_readClass? hclass
  | _ => nofun

theorem ReadsPart.eq_char {cs rest : List Char} {t : GlobToken}
    (h : ReadsPart cs t '/' rest) : t = .char '/' := by
  cases h with
  | char => rfl

theorem WellDone.pushDirectories {previous : Option Char} {done : List GlobToken}
    (h : WellDone previous done) (hopens : OpensComponent previous) :
    WellDone (some '/') (pushDirectories done) := by
  rcases pushDirectories_cases done with hpush | ⟨hpush, -⟩
  · rw [hpush]
    exact h.push (h.follows hopens) fun _ _ => Or.inr rfl
  · rw [hpush]
    exact ⟨h.placed, fun _ => h.follows hopens⟩

theorem Reads.isPlaced {previous : Option Char} {done tokens : List GlobToken} {cs : List Char}
    (h : Reads previous done cs tokens) (hdone : WellDone previous done) : IsPlaced tokens := by
  induction h with
  | nothing => exact hdone.placed
  | part hpart _ ih =>
      refine ih (hdone.push (fun u _ => mayFollow_of_ne hpart.ne_anyDirectories u) ?_)
      rintro rfl _
      exact Or.inl hpart.eq_char
  | directories hopens _ ih => exact ih (hdone.pushDirectories hopens)
  | lastDirectories hopens => exact (hdone.pushDirectories hopens).placed

/-- A pattern matches the texts that it covers. -/
theorem isMatch_iff_covers {text : String} {g : Glob} (h : read text = .ok g) (path : String) :
    g.isMatch path = true ↔ Covers g.tokens path.toList := by
  obtain ⟨tokens, hread, rfl⟩ := Except.map_eq_ok_iff.mp h
  have hplaced := (reads_of_readFrom hread).isPlaced ⟨List.isChain_nil, fun _ => nofun⟩
  rw [isMatch, beq_iff_eq]
  exact (attempt_placed hplaced).1 path.toList

/-! ### Patterns without the directories at their front -/

/-- What is done is the same, or there are directories more in front of it. -/
def Precedes (done done' : List GlobToken) : Prop :=
  done = done' ++ [.anyDirectories] ∨ done = done'

theorem Precedes.push {done done' : List GlobToken} (h : Precedes done done') (t : GlobToken) :
    Precedes (t :: done) (t :: done') := by
  rcases h with rfl | rfl
  · exact Or.inl rfl
  · exact Or.inr rfl

/-- Directories can be counted as read once more when nothing else is done. -/
theorem Precedes.pushDirectories {done done' : List GlobToken} (h : Precedes done done') :
    Precedes (pushDirectories done) (pushDirectories done') := by
  rcases h with rfl | rfl
  · match done' with
    | [] => exact Or.inl rfl
    | [t] =>
        by_cases ht : t = .anyDirectories
        · subst ht
          exact Or.inr rfl
        · left
          simp [Glob.pushDirectories, ht]
    | t :: u :: done' =>
        left
        by_cases ht : t = .anyDirectories
        · simp [Glob.pushDirectories, ht]
        · simp [Glob.pushDirectories, ht]
  · exact Or.inr rfl

theorem Precedes.reverse {done done' : List GlobToken} (h : Precedes done done') :
    done.reverse = .anyDirectories :: done'.reverse ∨ done.reverse = done'.reverse := by
  rcases h with rfl | rfl
  · exact Or.inl (List.reverse_concat ..)
  · exact Or.inr rfl

/-- With directories less in front the same text is read, and its parts are the same ones but for
those directories. -/
theorem Reads.shorten {previous previous' : Option Char} {done done' tokens : List GlobToken}
    {cs : List Char} (h : Reads previous done cs tokens) (hdone : Precedes done done')
    (hopens : OpensComponent previous → OpensComponent previous') :
    ∃ tokens', Reads previous' done' cs tokens' ∧
      (tokens = .anyDirectories :: tokens' ∨ tokens = tokens') := by
  induction h generalizing previous' done' with
  | nothing => exact ⟨done'.reverse, .nothing previous' done', hdone.reverse⟩
  | part hpart _ ih =>
      obtain ⟨tokens', hread, htokens⟩ := ih (hdone.push _) id
      exact ⟨tokens', .part hpart hread, htokens⟩
  | directories hslash _ ih =>
      obtain ⟨tokens', hread, htokens⟩ := ih hdone.pushDirectories id
      exact ⟨tokens', .directories (hopens hslash) hread, htokens⟩
  | lastDirectories hslash =>
      exact ⟨_, .lastDirectories (hopens hslash) done', hdone.pushDirectories.reverse⟩

open withoutLeadingDirectories? (strip)

/-- What is left of a pattern behind the directories at its front is a pattern. -/
theorem Reads.exists_strip {cs : List Char} {tokens : List GlobToken}
    (h : Reads none [] cs tokens) :
    ∃ n tokens', Reads none [] (strip cs) tokens' ∧
      tokens = List.replicate n .anyDirectories ++ tokens' := by
  induction cs using withoutLeadingDirectories?.strip.induct generalizing tokens with
  | case1 rest ih =>
      rw [withoutLeadingDirectories?.strip]
      cases h with
      | part hpart =>
          cases hpart with
          | anySequence hrest => exact absurd rfl hrest
          | char _ hstar => exact absurd rfl hstar
      | directories _ hrest =>
          have hdone : Precedes (pushDirectories []) [] := Or.inl rfl
          obtain ⟨tokens', hread, htokens⟩ := hrest.shorten hdone fun _ => Or.inl rfl
          obtain ⟨n, tokens'', hread', rfl⟩ := ih hread
          rcases htokens with rfl | rfl
          · exact ⟨n + 1, tokens'', hread', rfl⟩
          · exact ⟨n, tokens'', hread', rfl⟩
  | case2 cs hnone =>
      rw [withoutLeadingDirectories?.strip]
      · exact ⟨0, tokens, h, rfl⟩
      · exact hnone

/-- Directories in front of a pattern can take nothing. -/
theorem attempt_replicate {tokens : List GlobToken} {cs : List Char}
    (h : attempt tokens cs = .matched) (n : Nat) :
    attempt (List.replicate n .anyDirectories ++ tokens) cs = .matched := by
  induction n with
  | zero => exact h
  | succ n ih =>
      rw [List.replicate_succ, List.cons_append, attempt, ih]
      rfl

/-- What is left of a pattern without the directories at its front matches nothing that the pattern
does not match. -/
theorem isMatch_of_shorter {text : String} {g shorter : Glob} (h : read text = .ok g)
    (hshorter : g.withoutLeadingDirectories? = some shorter) {path : String}
    (hmatch : shorter.isMatch path = true) : g.isMatch path = true := by
  obtain ⟨tokens, hread, rfl⟩ := Except.map_eq_ok_iff.mp h
  unfold withoutLeadingDirectories? at hshorter
  dsimp only at hshorter
  split at hshorter
  next => cases hshorter
  next =>
    obtain ⟨n, tokens', hrest, rfl⟩ := (reads_of_readFrom hread).exists_strip
    have hread' : read (String.ofList (strip text.toList)) =
        .ok ⟨String.ofList (strip text.toList), tokens'⟩ := by
      rw [read, String.toList_ofList, readFrom_of_reads hrest]
      rfl
    rw [hread'] at hshorter
    obtain rfl := Option.some.inj hshorter
    unfold isMatch at hmatch ⊢
    rw [beq_iff_eq] at hmatch ⊢
    exact attempt_replicate hmatch n

end Hygiene.Glob
