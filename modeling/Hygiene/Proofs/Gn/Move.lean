import Mathlib.Tactic
import Hygiene.Proofs.Gn.Scan

/-!
A scan, one move at a time. What a scan does at the front of some tokens and where it goes on from
there depends on the tokens alone, and not on the blocks that are open. So the actions that tokens
call for can be listed first and carried out afterwards.

A move looks at the tokens behind its front, so it may depend on what follows a given run of them.
It does only where that run ends inside a declaration or an assignment that has begun, or inside a
list literal that is read and not closed.
-/

namespace Hygiene.Gn

/-- The brackets that are open behind some tokens when `depth` of them are open in front; none if
the outermost one has been closed. -/
def openBehind (depth : Nat) : List (Token String) → Option Nat
  | [] => some depth
  | .openBracket :: rest => openBehind (depth + 1) rest
  | .closeBracket :: rest => if depth ≤ 1 then none else openBehind (depth - 1) rest
  | _ :: rest => openBehind depth rest

/-- A list literal that ends among the first tokens is read in the same way whatever follows. -/
theorem readItems_append_of_closed {depth : Nat} {ts : List (Token String)}
    (h : openBehind depth ts = none) (us : List (Token String)) :
    readItems depth (ts ++ us) = ((readItems depth ts).1, (readItems depth ts).2 ++ us) := by
  induction ts generalizing depth with
  | nil => cases h
  | cons t ts ih =>
      cases t with
      | closeBracket =>
          rw [List.cons_append, readItems, readItems]
          rw [openBehind] at h
          split at h
          next hdepth => rw [if_pos hdepth, if_pos hdepth]
          next hdepth => rw [if_neg hdepth, if_neg hdepth, ih h]
      | quoted text =>
          have htail := ih h
          simp only [List.cons_append, readItems, htail]
      | _ => exact ih h

/-- A list literal that is open behind the first tokens is read on in those that follow. -/
theorem readItems_append_of_open {depth deeper : Nat} {ts : List (Token String)}
    (h : openBehind depth ts = some deeper) (us : List (Token String)) :
    readItems depth (ts ++ us) =
      ((readItems depth ts).1 ++ (readItems deeper us).1, (readItems deeper us).2) := by
  induction ts generalizing depth with
  | nil =>
      obtain rfl := Option.some.inj h
      rfl
  | cons t ts ih =>
      cases t with
      | closeBracket =>
          rw [List.cons_append, readItems, readItems]
          rw [openBehind] at h
          split at h
          next => cases h
          next hdepth => rw [if_neg hdepth, if_neg hdepth, ih h]
      | quoted text =>
          have htail := ih h
          simp only [List.cons_append, readItems, htail]
      | _ => exact ih h

/-- The list literal in which the tokens stand is not closed by any of them. -/
def StaysOpen (inside : List (Token String)) : Prop :=
  ∀ front, front <+: inside → front.count .closeBracket ≤ front.count .openBracket

private theorem forall_prefix_cons {α : Type} {P : List α → Prop} (a : α) (l : List α)
    (hnil : P []) :
    (∀ front, front <+: a :: l → P front) ↔ ∀ front, front <+: l → P (a :: front) := by
  constructor
  · intro h front hfront
    exact h (a :: front) (List.prefix_cons_inj a |>.mpr hfront)
  · intro h front hfront
    rcases List.prefix_cons_iff.mp hfront with rfl | ⟨tail, rfl, htail⟩
    · exact hnil
    · exact h tail htail

theorem isSome_openBehind_iff (depth : Nat) (ts : List (Token String)) :
    (openBehind (depth + 1) ts).isSome ↔
      ∀ front, front <+: ts → front.count .closeBracket ≤ front.count .openBracket + depth := by
  induction ts generalizing depth with
  | nil =>
      refine ⟨fun _ front hfront => ?_, fun _ => rfl⟩
      obtain rfl := List.prefix_nil.mp hfront
      exact Nat.zero_le _
  | cons t ts ih =>
      rw [forall_prefix_cons t ts (Nat.zero_le _)]
      cases t with
      | openBracket =>
          rw [openBehind, ih]
          refine forall₂_congr fun front _ => ?_
          simp only [List.count_cons, beq_self_eq_true, if_true, reduceCtorEq, beq_iff_eq, if_false]
          omega
      | closeBracket =>
          cases depth with
          | zero =>
              refine ⟨nofun, fun h => ?_⟩
              have hone := h [] List.nil_prefix
              cases hone
          | succ depth =>
              rw [openBehind, if_neg (by omega), Nat.add_sub_cancel, ih]
              refine forall₂_congr fun front _ => ?_
              simp only [List.count_cons, beq_self_eq_true, if_true, reduceCtorEq, beq_iff_eq,
                if_false]
              omega
      | _ =>
          refine (ih depth).trans (forall₂_congr fun front _ => ?_)
          simp only [List.count_cons, reduceCtorEq, beq_iff_eq, if_false, Nat.add_zero]

theorem staysOpen_iff {inside : List (Token String)} :
    StaysOpen inside ↔ (openBehind 1 inside).isSome :=
  (isSome_openBehind_iff 0 inside).symm

theorem readItems_suffix (depth : Nat) (ts : List (Token String)) :
    (readItems depth ts).2 <:+ ts := by
  induction ts generalizing depth with
  | nil => exact List.suffix_rfl
  | cons t ts ih =>
      cases t with
      | closeBracket =>
          rw [readItems]
          split
          · exact List.suffix_cons _ _
          · exact (ih _).trans (List.suffix_cons _ _)
      | _ => exact (ih _).trans (List.suffix_cons _ _)

theorem readList_suffix (ts : List (Token String)) : (readList ts).2 <:+ ts := by
  cases ts with
  | nil => exact List.suffix_rfl
  | cons t ts =>
      cases t with
      | openBracket => exact (readItems_suffix 1 ts).trans (List.suffix_cons _ _)
      | _ => exact List.suffix_rfl

namespace Scan

inductive Action where
  | declare (kind name : String)
  | openBlock
  | closeBlock
  | assign (op : Assignment) (list : Option (List String))
  deriving DecidableEq, Repr

def act (s : Scan) : Action → Scan
  | .declare kind name => s.declare kind name
  | .openBlock => s.openBlock
  | .closeBlock => s.closeBlock
  | .assign op list => s.assign op list

/-- One move of a scan: what it does, if anything, and where it goes on. -/
structure Move where
  action : Option Action
  afterDot : Bool
  rest : List (Token String)

def Move.append (m : Move) (us : List (Token String)) : Move :=
  { m with rest := m.rest ++ us }

def move (afterDot : Bool) : Token String → List (Token String) → Move
  | .openBrace, rest => ⟨some .openBlock, false, rest⟩
  | .closeBrace, rest => ⟨some .closeBlock, false, rest⟩
  | .word w, rest =>
      match header? (.word w :: rest) with
      | some (kind, name, body) => ⟨some (.declare kind name), false, body⟩
      | none =>
          match if afterDot then none else sourcesAssignment? (.word w :: rest) with
          | some (op, value) => ⟨some (.assign op (readList value).1), false, (readList value).2⟩
          | none => ⟨none, false, rest⟩
  | t, rest => ⟨none, t == .dot, rest⟩

variable (afterDot : Bool)

theorem move_declare {kind : String} (hkind : kind ∉ blockCalls) (name : String)
    (body : List (Token String)) :
    move afterDot (.word kind)
        (.openParen :: .quoted name :: .closeParen :: .openBrace :: body) =
      ⟨some (.declare kind name), false, body⟩ := by
  rw [move, header?_eq_some_iff.mpr ⟨hkind, rfl⟩]

theorem move_assign {t : Token String} {op : Assignment} (hop : Assignment.ofToken? t = some op)
    (value : List (Token String)) :
    move false (.word "sources") (t :: value) =
      ⟨some (.assign op (readList value).1), false, (readList value).2⟩ := by
  have hheader := header?_of_assignment hop "sources" value
  have hsources : sourcesAssignment? (.word "sources" :: t :: value) = some (op, value) :=
    sourcesAssignment?_eq_some_iff.mpr ⟨t, hop, rfl⟩
  simp only [move, hheader, Bool.false_eq_true, if_false, hsources]

theorem move_skip {w : String} {rest : List (Token String)}
    (hheader : header? (.word w :: rest) = none)
    (hsources : afterDot = true ∨ sourcesAssignment? (.word w :: rest) = none) :
    move afterDot (.word w) rest = ⟨none, false, rest⟩ := by
  have hnone : (if afterDot then none else sourcesAssignment? (.word w :: rest)) = none := by
    rcases hsources with rfl | h
    · rfl
    · rw [h, ite_self]
  simp only [move, hheader, hnone]

/-- A word begins a declaration or an assignment, or it is passed over. -/
theorem word_cases (w : String) (rest : List (Token String)) :
    (∃ name body, w ∉ blockCalls ∧
        rest = .openParen :: .quoted name :: .closeParen :: .openBrace :: body) ∨
      (afterDot = false ∧ w = "sources" ∧
        ∃ t op value, Assignment.ofToken? t = some op ∧ rest = t :: value) ∨
      (header? (.word w :: rest) = none ∧
        (afterDot = true ∨ sourcesAssignment? (.word w :: rest) = none)) := by
  cases hheader : header? (.word w :: rest) with
  | some found =>
      obtain ⟨kind, name, body⟩ := found
      obtain ⟨hkind, heq⟩ := header?_eq_some_iff.mp hheader
      obtain ⟨hword, rfl⟩ := List.cons.inj heq
      obtain rfl := Token.word.inj hword
      exact Or.inl ⟨name, body, hkind, rfl⟩
  | none =>
      cases afterDot with
      | true => exact Or.inr (Or.inr ⟨rfl, Or.inl rfl⟩)
      | false =>
          cases hsources : sourcesAssignment? (.word w :: rest) with
          | none => exact Or.inr (Or.inr ⟨rfl, Or.inr rfl⟩)
          | some found =>
              obtain ⟨op, value⟩ := found
              obtain ⟨t, hop, heq⟩ := sourcesAssignment?_eq_some_iff.mp hsources
              obtain ⟨hword, rfl⟩ := List.cons.inj heq
              exact Or.inr (Or.inl ⟨rfl, Token.word.inj hword, t, op, value, hop, rfl⟩)

theorem run_cons (s : Scan) (t : Token String) (rest : List (Token String)) :
    s.run afterDot (t :: rest) =
      ((move afterDot t rest).action.elim s s.act).run (move afterDot t rest).afterDot
        (move afterDot t rest).rest := by
  cases t with
  | word w =>
      rcases word_cases afterDot w rest with
        ⟨name, body, hkind, rfl⟩ | ⟨rfl, rfl, t, op, value, hop, rfl⟩ | ⟨hheader, hsources⟩
      · rw [run_declare s afterDot hkind, move_declare afterDot hkind]
        rfl
      · rw [run_sources s hop, move_assign hop]
        rfl
      · rw [run_word s afterDot hheader hsources, move_skip afterDot hheader hsources]
        rfl
  | openBrace => exact run_openBrace s afterDot rest
  | closeBrace => exact run_closeBrace s afterDot rest
  | _ =>
      refine run_skip_of_not_word s afterDot ?_ ?_ ?_ rest
      all_goals nofun

theorem move_suffix (t : Token String) (rest : List (Token String)) :
    (move afterDot t rest).rest <:+ rest := by
  cases t with
  | word w =>
      rcases word_cases afterDot w rest with
        ⟨name, body, hkind, rfl⟩ | ⟨rfl, rfl, t, op, value, hop, rfl⟩ | ⟨hheader, hsources⟩
      · rw [move_declare afterDot hkind]
        exact ⟨[.openParen, .quoted name, .closeParen, .openBrace], rfl⟩
      · rw [move_assign hop]
        exact (readList_suffix value).trans (List.suffix_cons t value)
      · rw [move_skip afterDot hheader hsources]
  | _ => exact List.suffix_rfl

theorem length_move_lt (t : Token String) (rest : List (Token String)) :
    (move afterDot t rest).rest.length < (t :: rest).length :=
  Nat.lt_succ_of_le (move_suffix afterDot t rest).length_le

/-- Everything that some tokens call for, in their order. -/
def actions (afterDot : Bool) : List (Token String) → List Action
  | [] => []
  | t :: rest =>
      have := length_move_lt afterDot t rest
      (move afterDot t rest).action.toList ++
        actions (move afterDot t rest).afterDot (move afterDot t rest).rest
termination_by tokens => tokens.length
decreasing_by exact this

@[simp] theorem actions_nil : actions afterDot [] = [] := by
  rw [actions]

theorem actions_cons (t : Token String) (rest : List (Token String)) :
    actions afterDot (t :: rest) =
      (move afterDot t rest).action.toList ++
        actions (move afterDot t rest).afterDot (move afterDot t rest).rest := by
  rw [actions]

/-- A scan carries out what the tokens call for. -/
theorem run_eq_foldl (s : Scan) (tokens : List (Token String)) :
    s.run afterDot tokens = (actions afterDot tokens).foldl act s := by
  induction afterDot, tokens using actions.induct generalizing s with
  | case1 afterDot => rw [run_nil, actions_nil, List.foldl_nil]
  | case2 afterDot t rest _ ih =>
      rw [run_cons, actions_cons, List.foldl_append, ih]
      cases (move afterDot t rest).action <;> rfl

inductive Begun : List (Token String) → Prop
  | word (w : String) : Begun [.word w]
  | call (w : String) : Begun [.word w, .openParen]
  | named (w name : String) : Begun [.word w, .openParen, .quoted name]
  | called (w name : String) : Begun [.word w, .openParen, .quoted name, .closeParen]
  | assigned {t : Token String} {op : Assignment} (hop : Assignment.ofToken? t = some op) :
      Begun [.word "sources", t]

/-- An assignment to `sources` stands in front, and its list literal takes up all that follows. -/
inductive OpensList : Bool → List (Token String) → Prop
  | intro {t : Token String} {op : Assignment} {inside : List (Token String)}
      (hop : Assignment.ofToken? t = some op) (hopen : StaysOpen inside) :
      OpensList false (.word "sources" :: t :: .openBracket :: inside)

/-- A value that is complete is read in the same way whatever follows. -/
theorem readList_append {value : List (Token String)} (hvalue : value ≠ [])
    (hopen : ∀ inside, value = .openBracket :: inside → ¬ StaysOpen inside)
    (us : List (Token String)) :
    readList (value ++ us) = ((readList value).1, (readList value).2 ++ us) := by
  obtain ⟨v, value, rfl⟩ := List.exists_cons_of_ne_nil hvalue
  cases v with
  | openBracket =>
      have hclosed : openBehind 1 value = none :=
        Option.not_isSome_iff_eq_none.mp fun h => hopen value rfl (staysOpen_iff.mpr h)
      rw [List.cons_append, readList, readList, readItems_append_of_closed hclosed]
  | _ => rfl

/-- A move that is complete is the same whatever follows. -/
theorem move_append {t : Token String} {rest : List (Token String)}
    (hbegun : ¬ Begun (t :: rest)) (hopen : ¬ OpensList afterDot (t :: rest))
    (us : List (Token String)) :
    move afterDot t (rest ++ us) = (move afterDot t rest).append us := by
  cases t with
  | word w =>
      rcases word_cases afterDot w rest with
        ⟨name, body, hkind, rfl⟩ | ⟨rfl, rfl, t, op, value, hop, rfl⟩ | ⟨hheader, hsources⟩
      · rw [move_declare afterDot hkind]
        exact move_declare afterDot hkind name (body ++ us)
      · have hvalue : value ≠ [] := by
          rintro rfl
          exact hbegun (.assigned hop)
        have hlist : ∀ inside, value = .openBracket :: inside → ¬ StaysOpen inside := by
          rintro inside rfl hinside
          exact hopen (.intro hop hinside)
        rw [move_assign hop, List.cons_append, move_assign hop,
          readList_append hvalue hlist]
        rfl
      · rw [move_skip afterDot hheader hsources]
        -- What follows could only matter by completing a front that has begun.
        rcases word_cases afterDot w (rest ++ us) with
          ⟨name, body, hkind, hshape⟩ | ⟨rfl, rfl, t, op, value, hop, hshape⟩ |
            ⟨hheader', hsources'⟩
        · exfalso
          rcases rest with _ | ⟨a, _ | ⟨b, _ | ⟨c, _ | ⟨d, rest⟩⟩⟩⟩
          · exact hbegun (.word w)
          · obtain ⟨rfl, -⟩ := List.cons.inj hshape
            exact hbegun (.call w)
          · simp only [List.cons_append, List.cons.injEq] at hshape
            obtain ⟨rfl, rfl, -⟩ := hshape
            exact hbegun (.named w name)
          · simp only [List.cons_append, List.cons.injEq] at hshape
            obtain ⟨rfl, rfl, rfl, -⟩ := hshape
            exact hbegun (.called w name)
          · simp only [List.cons_append, List.cons.injEq] at hshape
            obtain ⟨rfl, rfl, rfl, rfl, -⟩ := hshape
            rw [header?_eq_some_iff.mpr ⟨hkind, rfl⟩] at hheader
            cases hheader
        · exfalso
          rcases rest with _ | ⟨a, rest⟩
          · exact hbegun (.word _)
          · obtain ⟨rfl, -⟩ := List.cons.inj hshape
            rcases hsources with h | h
            · cases h
            · rw [sourcesAssignment?_eq_some_iff.mpr ⟨a, hop, rfl⟩] at h
              cases h
        · rw [move_skip afterDot hheader' hsources']
          rfl
  | _ => rfl

/-- A list literal that is open takes up what follows, as far as it goes. -/
theorem move_append_of_opensList {t : Token String} {rest : List (Token String)}
    (h : OpensList afterDot (t :: rest)) :
    ∃ op items deeper, ∀ us, move afterDot t (rest ++ us) =
      ⟨some (.assign op (some (items ++ (readItems deeper us).1))), false,
        (readItems deeper us).2⟩ := by
  cases h with
  | @intro t op inside hop hopen =>
      obtain ⟨deeper, hdeeper⟩ := Option.isSome_iff_exists.mp (staysOpen_iff.mp hopen)
      refine ⟨op, (readItems 1 inside).1, deeper, fun us => ?_⟩
      rw [List.cons_append, List.cons_append, move_assign hop, readList,
        readItems_append_of_open hdeeper]

end Scan

end Hygiene.Gn
