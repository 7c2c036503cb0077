import Mathlib.Tactic
import Hygiene.Path
import Hygiene.Proofs.Text.Line

/-!
Absolute paths and their parents. A parent is cut out of the text of a path, so it is written like
the front of it; its components are those of the path without the last one.
-/

namespace Hygiene.Path

/-! ### Segments -/

def segments (p : Path) : List (Nat × List Char) := segmentsFrom 0 [] p.text.toList

theorem map_snd_segmentsFrom (start : Nat) (current cs : List Char) :
    (segmentsFrom start current cs).map Prod.snd =
      (cs.splitOn '/').modifyHead (current.reverse ++ ·) := by
  induction cs generalizing start current with
  | nil => simp [segmentsFrom]
  | cons c cs ih =>
      unfold segmentsFrom
      by_cases hc : c = '/'
      · subst hc
        rw [if_pos rfl, List.map_cons, ih, List.splitOn_cons_eq_if_modifyHead,
          if_pos (beq_self_eq_true _), List.modifyHead_cons, List.append_nil]
        exact congrArg _ (congrFun List.modifyHead_id _)
      · rw [if_neg hc, ih, List.splitOn_cons_eq_if_modifyHead, if_neg (by simpa using hc)]
        simp [Function.comp_def]

theorem map_snd_segments (p : Path) :
    p.segments.map (fun x => String.ofList x.2) = Text.splitOn '/' p.text := by
  have hpieces : p.segments.map Prod.snd = p.text.toList.splitOn '/' :=
    (map_snd_segmentsFrom 0 [] p.text.toList).trans (congrFun List.modifyHead_id _)
  rw [Text.splitOn, ← hpieces, List.map_map]
  rfl

theorem le_of_mem_segmentsFrom {start : Nat} {current cs : List Char} {x : Nat × List Char}
    (h : x ∈ segmentsFrom start current cs) : start + current.length ≤ x.1 + x.2.length := by
  induction cs generalizing start current with
  | nil =>
      obtain rfl := List.mem_singleton.mp h
      simp
  | cons c cs ih =>
      unfold segmentsFrom at h
      split at h
      · rcases List.mem_cons.mp h with rfl | h
        · simp
        · have hnext := ih h
          simp at hnext
          omega
      · have hnext := ih h
        simp at hnext
        omega

private theorem take_cons_of_lt {c : Char} {cs : List Char} {n m : Nat} (h : n < m) :
    (c :: cs).take (m - n) = c :: cs.take (m - (n + 1)) := by
  have hm : m - n = m - (n + 1) + 1 := by omega
  rw [hm, List.take_succ_cons]

/-- A text that ends where a segment ends has the segments up to that one. -/
theorem segmentsFrom_take {start : Nat} {current cs : List Char} {x : Nat × List Char}
    {front rest : List (Nat × List Char)}
    (h : segmentsFrom start current cs = front ++ x :: rest) :
    segmentsFrom start current (cs.take (x.1 + x.2.length - (start + current.length))) =
      front ++ [x] := by
  induction cs generalizing start current front with
  | nil =>
      unfold segmentsFrom at h
      cases front with
      | nil =>
          obtain ⟨rfl, -⟩ := List.cons.inj h
          simp [segmentsFrom]
      | cons y front => simp at h
  | cons c cs ih =>
      unfold segmentsFrom at h
      by_cases hc : c = '/'
      · subst hc
        rw [if_pos rfl] at h
        cases front with
        | nil =>
            obtain ⟨rfl, -⟩ := List.cons.inj h
            simp [segmentsFrom]
        | cons y front =>
            obtain ⟨rfl, hrest⟩ := List.cons.inj h
            have hmem : x ∈ segmentsFrom (start + current.length + 1) [] cs := by
              rw [hrest]
              simp
            have hlt : start + current.length < x.1 + x.2.length := le_of_mem_segmentsFrom hmem
            rw [take_cons_of_lt hlt]
            unfold segmentsFrom
            rw [if_pos rfl]
            exact congrArg _ (ih hrest)
      · rw [if_neg hc] at h
        have hmem : x ∈ segmentsFrom start (c :: current) cs := by
          rw [h]
          simp
        have hlt : start + current.length < x.1 + x.2.length := le_of_mem_segmentsFrom hmem
        rw [take_cons_of_lt hlt]
        unfold segmentsFrom
        rw [if_neg hc]
        exact ih h

/-! ### Pieces -/

/-- The kinds of segments: blank ones, a `.` in front, a `..`, and names. -/
theorem pieceOf_cases (x : Nat × List Char) :
    ((x.2 = [] ∨ x.2 = ['.']) ∧ pieceOf x = none) ∨
      (x.2 = ['.'] ∧ x.1 = 0 ∧ pieceOf x = some ⟨.current, 0, 1⟩) ∨
      (x.2 = ['.', '.'] ∧ pieceOf x = some ⟨.parent, x.1, x.1 + 2⟩) ∨
      (x.2 ≠ [] ∧ x.2 ≠ ['.'] ∧ x.2 ≠ ['.', '.'] ∧
        pieceOf x = some ⟨.name (String.ofList x.2), x.1, x.1 + x.2.length⟩) := by
  obtain ⟨start, cs⟩ := x
  by_cases hempty : cs = []
  · subst hempty
    exact Or.inl ⟨Or.inl rfl, rfl⟩
  by_cases hcurrent : cs = ['.']
  · subst hcurrent
    by_cases hstart : start = 0
    · subst hstart
      exact Or.inr (Or.inl ⟨rfl, rfl, rfl⟩)
    · exact Or.inl ⟨Or.inr rfl, if_neg hstart⟩
  by_cases hparent : cs = ['.', '.']
  · subst hparent
    exact Or.inr (Or.inr (Or.inl ⟨rfl, rfl⟩))
  · refine Or.inr (Or.inr (Or.inr ⟨hempty, hcurrent, hparent, ?_⟩))
    unfold pieceOf
    split
    next heq => exact absurd (Prod.ext_iff.mp heq).2 hempty
    next heq => exact absurd (Prod.ext_iff.mp heq).2 hcurrent
    next heq => exact absurd (Prod.ext_iff.mp heq).2 hparent
    next heq =>
      cases heq
      rfl

theorem pieceOf_eq_some {x : Nat × List Char} {piece : Piece} (h : pieceOf x = some piece) :
    x.2 ≠ [] ∧ piece.stop = x.1 + x.2.length ∧ piece.component ≠ .root := by
  rcases pieceOf_cases x with ⟨-, hx⟩ | ⟨hcs, hstart, hx⟩ | ⟨hcs, hx⟩ | ⟨hne, -, -, hx⟩
  · rw [h] at hx
    cases hx
  · obtain rfl := Option.some.inj (h.symm.trans hx)
    simp [hcs, hstart]
  · obtain rfl := Option.some.inj (h.symm.trans hx)
    simp [hcs]
  · obtain rfl := Option.some.inj (h.symm.trans hx)
    simp [hne]

theorem pieces_of_isAbsolute {p : Path} (h : p.isAbsolute = true) :
    p.pieces = ⟨.root, 0, 1⟩ :: p.segments.filterMap pieceOf := by
  unfold pieces
  rw [if_pos h]
  rfl

theorem exists_text_of_isAbsolute {p : Path} (h : p.isAbsolute = true) :
    ∃ cs, p.text.toList = '/' :: cs := by
  unfold isAbsolute at h
  split at h
  next cs htext => exact ⟨cs, htext⟩
  next => cases h

theorem text_ne_empty {p : Path} (h : p.isAbsolute = true) : p.text ≠ "" := by
  obtain ⟨cs, hcs⟩ := exists_text_of_isAbsolute h
  intro hempty
  simp [hempty] at hcs

theorem isEmpty_text {p : Path} (h : p.isAbsolute = true) : p.text.isEmpty = false := by
  simpa using text_ne_empty h

theorem isAbsolute_of_text {p : Path} {cs : List Char} (h : p.text.toList = '/' :: cs) :
    p.isAbsolute = true := by
  unfold isAbsolute
  rw [h]
  rfl

theorem isAbsolute_of_not_mem {text : String} (h : '/' ∉ text.toList) :
    (Path.mk text).isAbsolute = false := by
  cases habsolute : (Path.mk text).isAbsolute with
  | false => rfl
  | true =>
      obtain ⟨cs, hcs⟩ := exists_text_of_isAbsolute habsolute
      exact absurd (by simp [hcs]) h

theorem toList_cut (p : Path) (stop : Nat) :
    (p.cut 0 stop).text.toList = p.text.toList.take stop := by
  unfold cut
  rw [String.toList_ofList, List.drop_zero]

theorem isAbsolute_cut {p : Path} (h : p.isAbsolute = true) {stop : Nat} (hstop : 0 < stop) :
    (p.cut 0 stop).isAbsolute = true := by
  obtain ⟨cs, hcs⟩ := exists_text_of_isAbsolute h
  obtain ⟨n, rfl⟩ : ∃ n, stop = n + 1 := ⟨stop - 1, by omega⟩
  apply isAbsolute_of_text
  rw [toList_cut, hcs, List.take_succ_cons]

theorem segments_cut {p : Path} {front rest : List (Nat × List Char)} {x : Nat × List Char}
    (h : p.segments = front ++ x :: rest) :
    (p.cut 0 (x.1 + x.2.length)).segments = front ++ [x] := by
  unfold segments
  rw [toList_cut]
  exact segmentsFrom_take h

/-- The front of an absolute path up to one of its pieces is again an absolute path. It has the
pieces up to that one, and unless it is the root alone, it has the segments of the path up to
some place. -/
theorem pieces_cut {p : Path} (h : p.isAbsolute = true) {front after : List Piece} {last : Piece}
    (hpieces : p.pieces = front ++ last :: after) :
    (p.cut 0 last.stop).isAbsolute = true ∧ (p.cut 0 last.stop).pieces = front ++ [last] ∧
      (p.cut 0 last.stop = ⟨"/"⟩ ∨ (p.cut 0 last.stop).segments <+: p.segments) := by
  rw [pieces_of_isAbsolute h] at hpieces
  cases front with
  | nil =>
      obtain ⟨rfl, -⟩ := List.cons.inj hpieces
      obtain ⟨cs, hcs⟩ := exists_text_of_isAbsolute h
      have hroot : p.cut 0 1 = ⟨"/"⟩ := by
        unfold cut
        rw [hcs]
        rfl
      refine ⟨isAbsolute_cut h Nat.zero_lt_one, ?_, Or.inl hroot⟩
      rw [hroot]
      rfl
  | cons root front =>
      obtain ⟨rfl, hnamed⟩ := List.cons.inj hpieces
      obtain ⟨xs, ys, hsegments, hfront, hrest⟩ := List.filterMap_eq_append_iff.mp hnamed
      obtain ⟨blank, x, zs, rfl, hblank, hx, -⟩ := List.filterMap_eq_cons_iff.mp hrest
      obtain ⟨hne, hstop, -⟩ := pieceOf_eq_some hx
      have hpositive : 0 < last.stop := by
        have hlength := List.length_pos_iff.mpr hne
        omega
      have habsolute := isAbsolute_cut h hpositive
      rw [← List.append_assoc] at hsegments
      have hcut := segments_cut hsegments
      rw [← hstop] at hcut
      refine ⟨habsolute, ?_, Or.inr ?_⟩
      · rw [pieces_of_isAbsolute habsolute, hcut, List.filterMap_append, List.filterMap_append,
          hfront, List.filterMap_eq_nil_iff.mpr hblank, List.append_nil,
          List.filterMap_cons_some hx]
        rfl
      · rw [hcut, hsegments]
        exact ⟨zs, by simp⟩

/-! ### Paths put together -/

theorem join_of_isAbsolute {q : Path} (h : q.isAbsolute = true) (p : Path) : p.join q = q := by
  unfold join
  rw [h, Bool.true_or, if_pos rfl]

theorem isAbsolute_join {p : Path} (h : p.isAbsolute = true) (q : Path) :
    (p.join q).isAbsolute = true := by
  obtain ⟨cs, hcs⟩ := exists_text_of_isAbsolute h
  unfold join
  rw [isEmpty_text h, Bool.or_false]
  split
  next hq => exact hq
  next =>
    split
    · apply isAbsolute_of_text
      rw [String.toList_append, hcs, List.cons_append]
    · apply isAbsolute_of_text
      rw [String.toList_append, String.toList_append, hcs, List.cons_append, List.cons_append]

/-- A relative path is written behind a separator, which is the one at the end of the path in front
if there is one. -/
theorem toList_join {p q : Path} (hp : p.text ≠ "") (hq : q.isAbsolute = false) :
    (∃ cs, p.text.toList = cs ++ ['/'] ∧ (p.join q).text.toList = cs ++ '/' :: q.text.toList) ∨
      (p.join q).text.toList = p.text.toList ++ '/' :: q.text.toList := by
  have hfilled : p.text.isEmpty = false := by simpa using hp
  have hslash : "/".toList = ['/'] := rfl
  unfold join
  rw [hq, hfilled, Bool.or_self, if_neg Bool.false_ne_true]
  split
  next hlast =>
    obtain ⟨cs, hcs⟩ := List.getLast?_eq_some_iff.mp hlast
    refine Or.inl ⟨cs, hcs, ?_⟩
    rw [String.toList_append, hcs, List.append_assoc, List.singleton_append]
  next =>
    right
    rw [String.toList_append, String.toList_append, hslash, List.append_assoc,
      List.singleton_append]

theorem mem_toList_join {p q : Path} (hp : p.text ≠ "") (hq : q.isAbsolute = false) {c : Char}
    (hc : c ≠ '/') :
    c ∈ (p.join q).text.toList ↔ c ∈ p.text.toList ∨ c ∈ q.text.toList := by
  rcases toList_join hp hq with ⟨cs, hcs, htext⟩ | htext
  · rw [htext, hcs]
    simp [hc]
  · rw [htext]
    simp [hc]

/-! ### Parents -/

theorem parent?_of_pieces {p : Path} {front : List Piece} {before last : Piece}
    (h : p.pieces = front ++ [before, last]) (hlast : last.component ≠ .root) :
    p.parent? = some (p.cut 0 before.stop) := by
  have hreverse : p.pieces.reverse = last :: before :: front.reverse := by
    rw [h]
    simp
  unfold parent?
  rw [hreverse]
  split
  next heq => cases heq
  next heq =>
    obtain ⟨rfl, -⟩ := List.cons.inj heq
    exact absurd rfl hlast
  next heq => cases heq
  next heq =>
    obtain ⟨-, heq⟩ := List.cons.inj heq
    obtain ⟨rfl, -⟩ := List.cons.inj heq
    rfl

/-- An absolute path is the root, which has no parent, or it has a parent and one component
more than that. -/
theorem parent?_cases {p : Path} (h : p.isAbsolute = true) :
    (p.components = [.root] ∧ p.parent? = none) ∨
      ∃ q last, p.parent? = some q ∧ q.isAbsolute = true ∧
        p.components = q.components ++ [last] ∧ last ≠ .root ∧ q.text.toList <+: p.text.toList ∧
        (q = ⟨"/"⟩ ∨ q.segments <+: p.segments) := by
  have hpieces := pieces_of_isAbsolute h
  rcases List.eq_nil_or_concat (p.segments.filterMap pieceOf) with hnone | ⟨named, last, hnamed⟩
  · rw [hnone] at hpieces
    refine Or.inl ⟨?_, ?_⟩
    · rw [components, hpieces]
      rfl
    · unfold parent?
      rw [hpieces]
      rfl
  · right
    have hlast : last.component ≠ .root := by
      have hmem : last ∈ p.segments.filterMap pieceOf := by
        rw [hnamed]
        simp
      obtain ⟨x, -, hx⟩ := List.mem_filterMap.mp hmem
      exact (pieceOf_eq_some hx).2.2
    obtain ⟨front, before, hfront⟩ : ∃ front before,
        (⟨.root, 0, 1⟩ : Piece) :: named = front ++ [before] :=
      ⟨_, _, (List.dropLast_append_getLast (List.cons_ne_nil _ named)).symm⟩
    have hsplit : p.pieces = front ++ [before, last] := by
      rw [hpieces, hnamed, List.concat_eq_append, ← List.cons_append, hfront]
      simp
    obtain ⟨habsolute, hcut, hsegments⟩ := pieces_cut h hsplit
    refine ⟨_, last.component, parent?_of_pieces hsplit hlast, habsolute, ?_, hlast, ?_, hsegments⟩
    · rw [components, components, hsplit, hcut]
      simp
    · rw [toList_cut]
      exact List.take_prefix _ _

end Hygiene.Path
