import Mathlib.Tactic
import Hygiene.Gn.Target

/-!
The steps of a scan, one equation for each kind of front. Later proofs cite these and never open
the scan itself.
-/

namespace Hygiene.Gn.Scan

/-- A header has a parenthesis behind its first word. -/
theorem header?_of_next {w : String} {rest : List (Token String)}
    (h : rest.head? ≠ some .openParen) : header? (.word w :: rest) = none := by
  rw [header?.eq_def]
  split
  next heq =>
    cases heq
    exact absurd rfl h
  next => rfl

theorem header?_eq_some_iff {tokens body : List (Token String)} {kind name : String} :
    header? tokens = some (kind, name, body) ↔
      kind ∉ blockCalls ∧
        tokens = .word kind :: .openParen :: .quoted name :: .closeParen :: .openBrace :: body := by
  constructor
  · intro h
    rw [header?.eq_def] at h
    split at h
    · split at h
      next => cases h
      next hkind =>
        cases h
        exact ⟨fun hmem => hkind (List.contains_iff_mem.mpr hmem), rfl⟩
    · cases h
  · rintro ⟨hkind, rfl⟩
    have hcontains : ¬ blockCalls.contains kind = true :=
      fun hmem => hkind (List.contains_iff_mem.mp hmem)
    rw [header?, if_neg hcontains]

theorem sourcesAssignment?_eq_some_iff {tokens value : List (Token String)} {op : Assignment} :
    sourcesAssignment? tokens = some (op, value) ↔
      ∃ t, Assignment.ofToken? t = some op ∧ tokens = .word "sources" :: t :: value := by
  constructor
  · intro h
    rw [sourcesAssignment?.eq_def] at h
    split at h
    · split at h
      next hname =>
        subst hname
        obtain ⟨found, hfound, heq⟩ := Option.map_eq_some_iff.mp h
        cases heq
        exact ⟨_, hfound, rfl⟩
      next => cases h
    · cases h
  · rintro ⟨t, ht, rfl⟩
    rw [sourcesAssignment?, if_pos rfl, ht]
    rfl

theorem header?_of_assignment {t : Token String} {op : Assignment}
    (hop : Assignment.ofToken? t = some op) (w : String) (rest : List (Token String)) :
    header? (.word w :: t :: rest) = none := by
  refine header?_of_next ?_
  rintro ⟨⟩
  cases hop

/-- A call of a block declares no target. -/
theorem header?_of_block {w : String} (h : w ∈ blockCalls) (rest : List (Token String)) :
    header? (.word w :: rest) = none := by
  rw [header?.eq_def]
  split
  next heq =>
    obtain ⟨hword, -⟩ := List.cons.inj heq
    rw [← Token.word.inj hword, if_pos (List.contains_iff_mem.mpr h)]
  next => rfl

/-- An assignment has an operator behind its first word. -/
theorem sourcesAssignment?_of_next {w : String} {rest : List (Token String)}
    (h : ∀ t ∈ rest.head?, Assignment.ofToken? t = none) :
    sourcesAssignment? (.word w :: rest) = none := by
  cases rest with
  | nil => rfl
  | cons t rest =>
      rw [sourcesAssignment?, h t rfl, Option.map_none, ite_self]

variable (s : Scan) (afterDot : Bool)

@[simp] theorem run_nil : s.run afterDot [] = s := by
  rw [run]

/-- The header of a target opens its body, whatever stands in front of it. -/
theorem run_declare {kind : String} (hkind : kind ∉ blockCalls) (name : String)
    (rest : List (Token String)) :
    s.run afterDot
        (.word kind :: .openParen :: .quoted name :: .closeParen :: .openBrace :: rest) =
      (s.declare kind name).run false rest := by
  have hheader : header?
      (.word kind :: .openParen :: .quoted name :: .closeParen :: .openBrace :: rest) =
        some (kind, name, rest) := header?_eq_some_iff.mpr ⟨hkind, rfl⟩
  rw [run]
  split
  next k n body h =>
    rw [hheader] at h
    cases h
    rfl
  next h =>
    rw [hheader] at h
    cases h

theorem run_openBrace (rest : List (Token String)) :
    s.run afterDot (.openBrace :: rest) = s.openBlock.run false rest := by
  rw [run]
  rfl

theorem run_closeBrace (rest : List (Token String)) :
    s.run afterDot (.closeBrace :: rest) = s.closeBlock.run false rest := by
  rw [run]
  rfl

/-- An assignment to `sources` takes its value with it when that is a list. -/
theorem run_sources {op : Token String} {assignment : Assignment}
    (hop : Assignment.ofToken? op = some assignment) (rest : List (Token String)) :
    s.run false (.word "sources" :: op :: rest) =
      (s.assign assignment (readList rest).1).run false (readList rest).2 := by
  have hheader := header?_of_assignment hop "sources" rest
  have hsources : (if false then none else sourcesAssignment? (.word "sources" :: op :: rest)) =
      some (assignment, rest) := by
    simp only [sourcesAssignment?, Bool.false_eq_true, if_true, if_false, hop, Option.map_some]
  rw [run]
  split
  next h =>
    rw [hheader] at h
    cases h
  next =>
    dsimp only
    split
    next h =>
      rw [hsources] at h
      cases h
      rfl
    next h =>
      rw [hsources] at h
      cases h

/-- A token that begins nothing is passed over. -/
theorem run_skip {t : Token String} {rest : List (Token String)}
    (hopen : t ≠ .openBrace) (hclose : t ≠ .closeBrace) (hheader : header? (t :: rest) = none)
    (hsources : afterDot = true ∨ sourcesAssignment? (t :: rest) = none) :
    s.run afterDot (t :: rest) = s.run (t == .dot) rest := by
  have hnone : (if afterDot then none else sourcesAssignment? (t :: rest)) = none := by
    rcases hsources with rfl | h
    · rfl
    · rw [h, ite_self]
  rw [run]
  split
  next h =>
    rw [hheader] at h
    cases h
  next =>
    split
    · exact absurd rfl hopen
    · exact absurd rfl hclose
    · split
      next h =>
        rw [hnone] at h
        cases h
      next => rfl

theorem run_word {w : String} {rest : List (Token String)}
    (hheader : header? (.word w :: rest) = none)
    (hsources : afterDot = true ∨ sourcesAssignment? (.word w :: rest) = none) :
    s.run afterDot (.word w :: rest) = s.run false rest :=
  run_skip s afterDot nofun nofun hheader hsources

/-- Only a word can begin a header or an assignment. -/
theorem run_skip_of_not_word {t : Token String} (hopen : t ≠ .openBrace)
    (hclose : t ≠ .closeBrace) (hword : ∀ w, t ≠ .word w) (rest : List (Token String)) :
    s.run afterDot (t :: rest) = s.run (t == .dot) rest := by
  refine run_skip s afterDot hopen hclose ?_ (Or.inr ?_)
  · cases t with
    | word w => exact absurd rfl (hword w)
    | _ => rfl
  · cases t with
    | word w => exact absurd rfl (hword w)
    | _ => rfl

end Hygiene.Gn.Scan
