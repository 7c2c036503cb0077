import Mathlib
import Hygiene.Proofs.Gn.Move
import Hygiene.Proofs.Gn.Unclosed

/-!
Texts one behind the other. When all that a text begins is complete at its end, a scan goes on
behind it as if it began there: nothing is open, nothing is being read, and no front that the scan
looks at reaches across. So the targets of both texts are found, and those of the second are the
same as if it stood alone.
-/

namespace Hygiene.Gn

def Frame.shift (n : Nat) : Frame → Frame
  | .target index => .target (n + index)
  | .block => .block

theorem innermost?_map_shift (n : Nat) (frames : List Frame) :
    innermost? (frames.map (Frame.shift n)) = (innermost? frames).map (n + ·) := by
  induction frames with
  | nil => rfl
  | cons frame frames ih =>
      cases frame with
      | target index => rfl
      | block => exact ih

namespace Scan

def behind (front : List Target) (s : Scan) : Scan :=
  ⟨front ++ s.targets, s.frames.map (Frame.shift front.length)⟩

/-- What a scan does, it does behind other targets as well. -/
theorem act_behind (front : List Target) (s : Scan) (a : Action) :
    (s.behind front).act a = (s.act a).behind front := by
  cases a with
  | declare kind name =>
      simp only [act, declare, behind, List.append_assoc, List.length_append, List.map_cons,
        Frame.shift]
  | openBlock => rfl
  | closeBlock => simp only [act, closeBlock, behind, List.map_tail]
  | assign op list =>
      simp only [act, assign, behind, innermost?_map_shift]
      cases innermost? s.frames with
      | none => rfl
      | some index =>
          simp only [Option.map_some, List.modify, List.modifyTailIdx_add]

theorem run_behind (front : List Target) (s : Scan) (afterDot : Bool)
    (tokens : List (Token String)) :
    (s.behind front).run afterDot tokens = (s.run afterDot tokens).behind front := by
  rw [run_eq_foldl, run_eq_foldl]
  exact List.foldl_hom (behind front) (act_behind front)

inductive Comes : Bool → List (Token String) → Bool → List (Token String) → Prop
  | here (afterDot : Bool) (tokens : List (Token String)) : Comes afterDot tokens afterDot tokens
  | onward {afterDot afterDot' : Bool} {t : Token String} {rest tokens' : List (Token String)}
      (h : Comes (move afterDot t rest).afterDot (move afterDot t rest).rest afterDot' tokens') :
      Comes afterDot (t :: rest) afterDot' tokens'

/-- The scan comes to an assignment to `sources` whose list literal is not closed. -/
def LeavesListOpen (afterDot : Bool) (tokens : List (Token String)) : Prop :=
  ∃ afterDot' tokens', Comes afterDot tokens afterDot' tokens' ∧ OpensList afterDot' tokens'

theorem Comes.suffix {afterDot afterDot' : Bool} {tokens tokens' : List (Token String)}
    (h : Comes afterDot tokens afterDot' tokens') : tokens' <:+ tokens := by
  induction h with
  | here => exact List.suffix_rfl
  | @onward afterDot _ t rest _ _ ih =>
      exact (ih.trans (move_suffix afterDot t rest)).trans (List.suffix_cons t rest)

theorem not_begun_of_closeBrace {ts : List (Token String)}
    (hlast : ∀ t ∈ ts.getLast?, t = .closeBrace) : ¬ Begun ts := by
  intro h
  cases h with
  | assigned hop =>
      obtain rfl := hlast _ rfl
      cases hop
  | _ => cases hlast _ rfl

/-- The scan looks back only at a dot. -/
theorem afterDot_move {afterDot : Bool} {t : Token String} {rest : List (Token String)}
    (h : (move afterDot t rest).afterDot = true) :
    t = .dot ∧ (move afterDot t rest).rest = rest := by
  cases t with
  | dot => exact ⟨rfl, rfl⟩
  | word w =>
      rcases word_cases afterDot w rest with
        ⟨name, body, hkind, rfl⟩ | ⟨rfl, rfl, t, op, value, hop, rfl⟩ | ⟨hheader, hsources⟩
      · rw [move_declare afterDot hkind] at h
        cases h
      · rw [move_assign hop] at h
        cases h
      · rw [move_skip afterDot hheader hsources] at h
        cases h
  | _ => cases h

/-- Tokens that end in a closing brace and leave no list open call for the same actions whatever
follows, and what follows them is scanned as if they were not there. -/
theorem actions_append {afterDot : Bool} {ts : List (Token String)}
    (hlast : ∀ t ∈ ts.getLast?, t = .closeBrace) (hdot : ts = [] → afterDot = false)
    (hlists : ¬ LeavesListOpen afterDot ts) (us : List (Token String)) :
    actions afterDot (ts ++ us) = actions afterDot ts ++ actions false us := by
  induction afterDot, ts using actions.induct with
  | case1 afterDot =>
      rw [hdot rfl, actions_nil]
      rfl
  | case2 afterDot t rest _ ih =>
      have hopen : ¬ OpensList afterDot (t :: rest) :=
        fun h => hlists ⟨_, _, .here afterDot (t :: rest), h⟩
      have hrest :
          ¬ LeavesListOpen (move afterDot t rest).afterDot (move afterDot t rest).rest := by
        rintro ⟨afterDot', tokens', hcomes, h⟩
        exact hlists ⟨afterDot', tokens', .onward hcomes, h⟩
      -- What the move leaves ends as before, or is empty; and then the move was not at a dot.
      have hlast' : ∀ u ∈ (move afterDot t rest).rest.getLast?, u = .closeBrace := by
        intro u hu
        obtain ⟨front, hfront⟩ := move_suffix afterDot t rest
        refine hlast u ?_
        rw [← hfront, ← List.cons_append]
        exact List.mem_getLast?_append_of_mem_getLast? hu
      have hdot' : (move afterDot t rest).rest = [] → (move afterDot t rest).afterDot = false := by
        intro hnil
        by_contra h
        obtain ⟨rfl, hsame⟩ := afterDot_move (Bool.not_eq_false _ ▸ h)
        rw [hsame] at hnil
        subst hnil
        cases hlast _ rfl
      rw [List.cons_append, actions_cons, actions_cons,
        move_append afterDot (not_begun_of_closeBrace hlast) hopen, List.append_assoc]
      exact congrArg (_ ++ ·) (ih hlast' hdot' hrest)

end Scan

/-- All that a text begins is complete at its end, which is a closing brace. -/
structure Complete (text : String) : Prop where
  strings : ∀ front inside, ¬ EndsInString text front inside
  lists : ¬ Scan.LeavesListOpen false (tokens text)
  blocks : (Scan.start.run false (tokens text)).frames = []
  last : (tokens text).getLast? = some .closeBrace

/-- What stands on the lines behind a complete text is scanned as if it stood alone, whatever it
is. -/
theorem scanTargets_append_newline {front : String} (h : Complete front) (rest : String) :
    scanTargets (front ++ "\n" ++ rest) = scanTargets front ++ scanTargets rest := by
  have hmode : (Lexer.modeBehind front).inString = false := by
    by_contra hmode
    obtain ⟨before, inside, hends⟩ :=
      (exists_endsInString_iff front).mpr (Bool.not_eq_false _ ▸ hmode)
    exact h.strings before inside hends
  have hlast : ∀ t ∈ (tokens front).getLast?, t = .closeBrace := by
    intro t ht
    rw [h.last] at ht
    exact (Option.some.inj ht).symm
  have hactions := Scan.actions_append hlast (fun _ => rfl) h.lists (tokens rest)
  have hfront : Scan.start.run false (tokens front) =
      Scan.start.behind (scanTargets front) := by
    have hblocks := h.blocks
    rw [scanTargets, Scan.behind]
    generalize Scan.start.run false (tokens front) = s at hblocks
    obtain ⟨targets, frames⟩ := s
    obtain rfl : frames = [] := hblocks
    exact congrArg (Scan.mk · []) (List.append_nil targets).symm
  rw [scanTargets, tokens_append_newline hmode, Scan.run_eq_foldl, hactions, List.foldl_append,
    ← Scan.run_eq_foldl, ← Scan.run_eq_foldl, hfront, Scan.run_behind]
  rfl

def completeText : String :=
  "lib(\"a\") \x7b sources = [ \"x.c\", [ \"y.c\" ] ] if (w) \x7b \x7d \x7d # \"\x7b ["

theorem tokens_completeText :
    tokens completeText =
      [.word "lib", .openParen, .quoted "a", .closeParen, .openBrace, .word "sources", .assign,
        .openBracket, .quoted "x.c", .other, .openBracket, .quoted "y.c", .closeBracket,
        .closeBracket, .word "if", .openParen, .word "w", .closeParen, .openBrace, .closeBrace,
        .closeBrace] := by
  cbv

theorem run_completeText :
    Scan.start.run false (tokens completeText) = ⟨[⟨"lib", "a", [["x.c", "y.c"]]⟩], []⟩ := by
  rw [tokens_completeText]
  cbv

theorem complete_completeText : Complete completeText := by
  refine ⟨?_, ?_, ?_, ?_⟩
  · intro front inside h
    have hmode := (exists_endsInString_iff completeText).mp ⟨front, inside, h⟩
    have houtside : (Lexer.modeBehind completeText).inString = false := by cbv
    rw [houtside] at hmode
    cases hmode
  · rintro ⟨afterDot, ts, hcomes, hopens⟩
    have hsuffix := hcomes.suffix
    rw [tokens_completeText] at hsuffix
    cases hopens with
    | @intro t op inside hop hopen =>
        have hinside := staysOpen_iff.mp hopen
        obtain ⟨rfl, rfl⟩ : t = .assign ∧ inside =
            [.quoted "x.c", .other, .openBracket, .quoted "y.c", .closeBracket, .closeBracket,
              .word "if", .openParen, .word "w", .closeParen, .openBrace, .closeBrace,
              .closeBrace] := by
          simpa [List.suffix_cons_iff] using hsuffix
        cases hinside
  · rw [run_completeText]
  · rw [tokens_completeText]
    rfl

/-- A closing brace too many, and a list that is not closed. -/
theorem scanTargets_append_newline_malformed :
    Complete completeText ∧
      scanTargets (completeText ++ "\n" ++ "\x7d test(\"b\") \x7b sources += [ \"z.c\"") =
        [⟨"lib", "a", [["x.c", "y.c"]]⟩, ⟨"test", "b", [["z.c"]]⟩] := by
  have hfront : scanTargets completeText = [⟨"lib", "a", [["x.c", "y.c"]]⟩] := by
    rw [scanTargets, run_completeText]
  have hrest : scanTargets "\x7d test(\"b\") \x7b sources += [ \"z.c\"" =
      [⟨"test", "b", [["z.c"]]⟩] := by
    cbv
  refine ⟨complete_completeText, ?_⟩
  rw [scanTargets_append_newline complete_completeText, hfront, hrest]
  rfl

end Hygiene.Gn
