import Mathlib
import Hygiene.Proofs.Gn.Move
import Hygiene.Proofs.Gn.Unclosed

/-!
Scans of texts that break off. A cut may shorten the last token, and it may leave a declaration, an
assignment or a list literal unfinished. Still it makes up no target: the declarations found in
front of the cut are the first ones of the whole text. A string literal that is never closed is as
good as a cut in front of it.
-/

namespace Hygiene.Gn

def Target.declaration (t : Target) : String × String := (t.kind, t.name)

namespace Scan

def Action.declared? : Action → Option (String × String)
  | .declare kind name => some (kind, name)
  | _ => none

def declarations (s : Scan) : List (String × String) := s.targets.map Target.declaration

theorem declarations_assign (s : Scan) (op : Assignment) (list : Option (List String)) :
    (s.assign op list).declarations = s.declarations := by
  rw [assign]
  cases innermost? s.frames with
  | none => rfl
  | some index =>
      have hkeep (t : Target) : (t.apply op list).declaration = t.declaration := rfl
      refine List.ext_getElem? fun i => ?_
      simp only [declarations, List.getElem?_map, List.getElem?_modify]
      cases s.targets[i]? with
      | none => rfl
      | some t =>
          simp only [Option.map_eq_map, Option.map_some, apply_ite Target.declaration, hkeep,
            ite_self]

/-- Only a declaration adds to what is declared. -/
theorem declarations_act (s : Scan) (a : Action) :
    (s.act a).declarations = s.declarations ++ a.declared?.toList := by
  cases a with
  | declare kind name => exact List.map_append
  | openBlock => exact (List.append_nil _).symm
  | closeBlock => exact (List.append_nil _).symm
  | assign op list => exact (declarations_assign s op list).trans (List.append_nil _).symm

theorem declarations_foldl (s : Scan) (as : List Action) :
    (as.foldl act s).declarations = s.declarations ++ as.filterMap Action.declared? := by
  induction as generalizing s with
  | nil => exact (List.append_nil _).symm
  | cons a as ih =>
      rw [List.foldl_cons, ih, declarations_act, List.append_assoc]
      cases hdeclared : a.declared? with
      | none => rw [List.filterMap_cons_none hdeclared]; rfl
      | some found => rw [List.filterMap_cons_some hdeclared]; rfl

/-- What tokens declare, in their order. -/
def declared (afterDot : Bool) (tokens : List (Token String)) : List (String × String) :=
  (actions afterDot tokens).filterMap Action.declared?

theorem declared_cons (afterDot : Bool) (t : Token String) (rest : List (Token String)) :
    declared afterDot (t :: rest) =
      ((move afterDot t rest).action.bind Action.declared?).toList ++
        declared (move afterDot t rest).afterDot (move afterDot t rest).rest := by
  rw [declared, actions_cons, List.filterMap_append]
  cases (move afterDot t rest).action with
  | none => rfl
  | some a =>
      refine congrArg (· ++ _) ?_
      cases hdeclared : a.declared? with
      | none => simp [hdeclared]
      | some found => simp [hdeclared]

/-- A target is declared by its brace. -/
theorem declared_of_not_mem (afterDot : Bool) {ts : List (Token String)}
    (h : Token.openBrace ∉ ts) : declared afterDot ts = [] := by
  induction afterDot, ts using actions.induct with
  | case1 afterDot => rw [declared, actions_nil, List.filterMap_nil]
  | case2 afterDot t rest _ ih =>
      have hrest : Token.openBrace ∉ rest := fun hmem => h (List.mem_cons_of_mem t hmem)
      have hnone : (move afterDot t rest).action.bind Action.declared? = none := by
        cases t with
        | word w =>
            rcases word_cases afterDot w rest with
              ⟨name, body, hkind, rfl⟩ | ⟨rfl, rfl, t, op, value, hop, rfl⟩ | ⟨hheader, hsources⟩
            · exact absurd (by simp) hrest
            · rw [move_assign hop]
              rfl
            · rw [move_skip afterDot hheader hsources]
              rfl
        | _ => rfl
      rw [declared_cons, hnone,
        ih fun hmem => hrest ((move_suffix afterDot t rest).subset hmem)]
      rfl

theorem Begun.not_mem_openBrace {ts : List (Token String)} (h : Begun ts) :
    Token.openBrace ∉ ts := by
  cases h with
  | assigned hop =>
      intro hmem
      rcases List.mem_pair.mp hmem with h | rfl
      · cases h
      · cases hop
  | _ => simp

theorem readItems_of_not_mem (depth : Nat) {ts : List (Token String)}
    (h : Token.closeBracket ∉ ts) : (readItems depth ts).2 = [] := by
  induction ts generalizing depth with
  | nil => rfl
  | cons t ts ih =>
      have hts : Token.closeBracket ∉ ts := fun hmem => h (List.mem_cons_of_mem t hmem)
      cases t with
      | closeBracket => exact absurd (List.mem_cons_self ..) h
      | _ => exact ih _ hts

/-- Where tokens are cut, and the cut itself is no brace and no bracket, nothing is declared in
front of it that is not declared in the whole. -/
theorem declared_append_prefix (afterDot : Bool) (ts : List (Token String))
    {cut : List (Token String)} (hcut : ∀ t ∈ cut, t ≠ .openBrace ∧ t ≠ .closeBracket)
    (more : List (Token String)) :
    declared afterDot (ts ++ cut) <+: declared afterDot (ts ++ more) := by
  have hbrace : Token.openBrace ∉ cut := fun hmem => (hcut _ hmem).1 rfl
  have hbracket : Token.closeBracket ∉ cut := fun hmem => (hcut _ hmem).2 rfl
  induction afterDot, ts using actions.induct with
  | case1 afterDot =>
      rw [List.nil_append, declared_of_not_mem afterDot hbrace]
      exact List.nil_prefix
  | case2 afterDot t rest _ ih =>
      by_cases hbegun : Begun (t :: rest)
      · -- The front reaches into the cut, and no brace that would complete it stands there.
        have hnone : Token.openBrace ∉ t :: rest ++ cut := by
          rw [List.mem_append]
          exact not_or.mpr ⟨hbegun.not_mem_openBrace, hbrace⟩
        rw [declared_of_not_mem afterDot hnone]
        exact List.nil_prefix
      by_cases hopen : OpensList afterDot (t :: rest)
      · -- The list literal takes up the whole cut, so nothing is left to be scanned.
        obtain ⟨op, items, deeper, hmove⟩ := move_append_of_opensList afterDot hopen
        rw [List.cons_append, declared_cons, hmove cut, readItems_of_not_mem deeper hbracket,
          declared_of_not_mem false (List.not_mem_nil)]
        exact List.nil_prefix
      · rw [List.cons_append, List.cons_append, declared_cons, declared_cons,
          move_append afterDot hbegun hopen, move_append afterDot hbegun hopen]
        exact (List.prefix_append_right_inj _).mpr ih

end Scan

theorem map_declaration_scanTargets (text : String) :
    (scanTargets text).map Target.declaration = Scan.declared false (tokens text) := by
  have hfold := Scan.declarations_foldl Scan.start (Scan.actions false (tokens text))
  rw [← Scan.run_eq_foldl] at hfold
  exact hfold

/-- Whatever is in front of a cut declares the first of the targets of the whole text; and a text
that ends in a string literal has the targets that stand in front of that literal. -/
theorem scanTargets_of_cut (text : String) :
    (∀ front rest, text = front ++ rest →
        (scanTargets front).map Target.declaration <+:
          (scanTargets text).map Target.declaration) ∧
      ∀ front inside, EndsInString text front inside → scanTargets text = scanTargets front := by
  constructor
  · rintro front rest rfl
    obtain ⟨common, cut, more, hfront, hwhole, hcut⟩ := tokens_append front rest
    rw [map_declaration_scanTargets, map_declaration_scanTargets, hfront, hwhole]
    exact Scan.declared_append_prefix false common hcut more
  · intro front inside h
    rw [scanTargets, scanTargets, h.tokens_eq]

/-- A library whose second source is not closed. The quotes that look like its end are escaped. -/
def openLiteral : String :=
  "lib(\"a\") \x7b sources = [ \"x.c\", \"y\\\".c ] \x7d test(\\\"b\\\") \x7b"

theorem scanTargets_of_cut_openLiteral :
    (scanTargets "lib(\"a\") \x7b sou").map Target.declaration <+:
        (scanTargets openLiteral).map Target.declaration ∧
      EndsInString openLiteral "lib(\"a\") \x7b sources = [ \"x.c\", "
        "y\\\".c ] \x7d test(\\\"b\\\") \x7b" ∧
      scanTargets openLiteral = [⟨"lib", "a", [["x.c"]]⟩] := by
  have hends : EndsInString openLiteral "lib(\"a\") \x7b sources = [ \"x.c\", "
      "y\\\".c ] \x7d test(\\\"b\\\") \x7b" := by
    refine ⟨by decide, by cbv, unclosed_of_isBody (by cbv)⟩
  have hfront : scanTargets "lib(\"a\") \x7b sources = [ \"x.c\", " =
      [⟨"lib", "a", [["x.c"]]⟩] := by
    cbv
  have hcut := scanTargets_of_cut openLiteral
  refine ⟨hcut.1 _ "rces = [ \"x.c\", \"y\\\".c ] \x7d test(\\\"b\\\") \x7b" (by decide), hends, ?_⟩
  rw [hcut.2 _ _ hends, hfront]

end Hygiene.Gn
