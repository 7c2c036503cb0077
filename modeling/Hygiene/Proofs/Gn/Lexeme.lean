import Mathlib
import Hygiene.Gn.Target
import Hygiene.Proofs.Gn.Token

/-!
How tokens are written. A lexeme is a token together with its spelling, and between lexemes stand
blanks and comments. A text that spells some lexemes is read as exactly their tokens, so neither
the gaps nor the choice of a spelling matters to what a scan finds.
-/

namespace Hygiene.Gn

structure Identifier where
  first : Char
  more : List Char
  begins : Reader.beginsWord first = true
  continues : more.all Reader.continuesWord = true
  deriving DecidableEq

namespace Identifier

def chars (w : Identifier) : List Char := w.first :: w.more

def text (w : Identifier) : String := String.ofList w.chars

end Identifier

/-- Whether characters can stand between quotes: each quote among them is escaped, and the last
one begins no escape. -/
def isBody : List Char → Bool
  | [] => true
  | c :: rest =>
      if c = '\\' then
        match rest with
        | [] => false
        | _ :: rest => isBody rest
      else c != '"' && isBody rest

theorem isBody_escape (escaped : Char) (rest : List Char) :
    isBody ('\\' :: escaped :: rest) = isBody rest := by
  rw [isBody, if_pos rfl]

theorem isBody_cons {c : Char} (h : c ≠ '\\') (rest : List Char) :
    isBody (c :: rest) = (c != '"' && isBody rest) := by
  rw [isBody.eq_def]
  exact if_neg h

structure Literal where
  body : List Char
  isBody : isBody body = true
  deriving DecidableEq

def Literal.text (l : Literal) : String := String.ofList l.body

structure Symbol where
  char : Char
  ascii : char.toNat < 128
  plain : Reader.beginsWord char = false ∧ Reader.isBlank char = false ∧
    char ∉ ['#', '"', '=', '(', ')', '\x7b', '\x7d', '[', ']', '.']
  deriving DecidableEq

structure Comparator where
  char : Char
  compares : char ∈ ['=', '!', '<', '>']
  deriving DecidableEq

inductive Lexeme where
  | word (w : Identifier)
  | quoted (l : Literal)
  | openParen
  | closeParen
  | openBrace
  | closeBrace
  | openBracket
  | closeBracket
  | dot
  | assign
  | addAssign
  | subAssign
  | symbol (s : Symbol)
  | comparison (c : Comparator)
  deriving DecidableEq

namespace Lexeme

def chars : Lexeme → List Char
  | .word w => w.chars
  | .quoted l => '"' :: l.body ++ ['"']
  | .openParen => ['(']
  | .closeParen => [')']
  | .openBrace => ['\x7b']
  | .closeBrace => ['\x7d']
  | .openBracket => ['[']
  | .closeBracket => [']']
  | .dot => ['.']
  | .assign => ['=']
  | .addAssign => ['+', '=']
  | .subAssign => ['-', '=']
  | .symbol s => [s.char]
  | .comparison c => [c.char, '=']

def token : Lexeme → Token String
  | .word w => .word w.text
  | .quoted l => .quoted l.text
  | .openParen => .openParen
  | .closeParen => .closeParen
  | .openBrace => .openBrace
  | .closeBrace => .closeBrace
  | .openBracket => .openBracket
  | .closeBracket => .closeBracket
  | .dot => .dot
  | .assign => .assign
  | .addAssign => .addAssign
  | .subAssign => .subAssign
  | .symbol _ => .other
  | .comparison _ => .other

def Apart : Lexeme → List Char → Prop
  | .word _, rest => ∀ c ∈ rest.head?, Reader.continuesWord c = false
  | .assign, rest => rest.head? ≠ some '='
  | .symbol s, rest => Reader.beginsOperator s.char = true → rest.head? ≠ some '='
  | _, _ => True

end Lexeme

inductive Filler where
  | blank (c : Char) (h : Reader.isBlank c = true)
  | comment (body : List Char) (h : '\n' ∉ body)

def Filler.chars : Filler → List Char
  | .blank c _ => [c]
  | .comment body _ => '#' :: body ++ ['\n']

abbrev Gap := List Filler

def Gap.chars (gap : Gap) : List Char := gap.flatMap Filler.chars

/-- The characters spell the lexemes, with gaps between them where they would run together and
anywhere else. The last comment needs no end of line. -/
inductive Spells : List Lexeme → List Char → Prop where
  | done (gap : Gap) : Spells [] gap.chars
  | comment (gap : Gap) (body : List Char) (h : '\n' ∉ body) :
      Spells [] (gap.chars ++ '#' :: body)
  | next (gap : Gap) (l : Lexeme) {lexemes : List Lexeme} {rest : List Char}
      (apart : l.Apart rest) (spells : Spells lexemes rest) :
      Spells (l :: lexemes) (gap.chars ++ (l.chars ++ rest))

namespace Reader

variable (others : Char → Nat)

theorem begin_word {c : Char} (h : beginsWord c = true) : begin others c = (.word [c], []) := by
  have hhash : c ≠ '#' := by
    rintro rfl
    exact absurd h (by decide)
  have hquote : c ≠ '"' := by
    rintro rfl
    exact absurd h (by decide)
  simp only [begin, if_neg hhash, if_neg hquote, h, if_true]

theorem begin_blank {c : Char} (h : isBlank c = true) : begin others c = (.between, []) := by
  simp only [isBlank, Bool.or_eq_true, beq_iff_eq] at h
  rcases h with (((rfl | rfl) | rfl) | rfl) | rfl <;> rfl

theorem begin_symbol (s : Symbol) :
    begin others s.char =
      if beginsOperator s.char then (.operator s.char, []) else (.between, [single s.char]) := by
  obtain ⟨hword, hblank, hplain⟩ := s.plain
  simp only [List.mem_cons, not_or] at hplain
  simp only [begin, if_neg hplain.1, if_neg hplain.2.1, hword, hblank, if_pos s.ascii,
    Bool.false_eq_true, if_false]

theorem single_symbol (s : Symbol) : single s.char = .other := by
  obtain ⟨-, -, hplain⟩ := s.plain
  simp only [List.mem_cons, not_or] at hplain
  obtain ⟨-, -, hassign, hopenParen, hcloseParen, hopenBrace, hcloseBrace, hopenBracket,
    hcloseBracket, hdot, -⟩ := hplain
  simp only [single, if_neg hassign, if_neg hopenParen, if_neg hcloseParen, if_neg hopenBrace,
    if_neg hcloseBrace, if_neg hopenBracket, if_neg hcloseBracket, if_neg hdot]

/-- A word ends at the first character that cannot belong to it, which is then read afresh. -/
theorem run_word_of_apart (text rest : List Char)
    (h : ∀ c ∈ rest.head?, continuesWord c = false) :
    run others (.word text) rest = .word (String.ofList text) :: run others .between rest := by
  cases rest with
  | nil => rfl
  | cons c rest =>
      have hc : continuesWord c = false := h c rfl
      simp only [run, step, hc, Bool.false_eq_true, if_false, List.cons_append]

theorem run_word (text more rest : List Char) (hmore : ∀ c ∈ more, continuesWord c = true)
    (h : ∀ c ∈ rest.head?, continuesWord c = false) :
    run others (.word text) (more ++ rest) =
      .word (String.ofList (text ++ more)) :: run others .between rest := by
  induction more generalizing text with
  | nil =>
      rw [List.append_nil]
      exact run_word_of_apart others text rest h
  | cons c more ih =>
      have hc : continuesWord c = true := hmore c (List.mem_cons_self ..)
      have htail := ih (text ++ [c]) fun d hd => hmore d (List.mem_cons_of_mem _ hd)
      rw [List.append_assoc, List.singleton_append] at htail
      simp only [List.cons_append, run, step, hc, if_true, List.nil_append]
      exact htail

/-- A string literal ends at the first quote that is not escaped. -/
theorem run_string (text body rest : List Char) (h : isBody body = true) :
    run others (.string text) (body ++ '"' :: rest) =
      .quoted (String.ofList (text ++ body)) :: run others .between rest := by
  induction body using isBody.induct generalizing text with
  | case1 =>
      rw [List.append_nil]
      rfl
  | case2 => simp [isBody] at h
  | case3 escaped body ih =>
      have hbody : isBody body = true := (isBody_escape escaped body).symm.trans h
      have htail := ih (text ++ ['\\', escaped]) hbody
      rw [List.append_assoc] at htail
      simp only [List.cons_append, run, step, if_true, List.nil_append,
        List.append_assoc] at htail ⊢
      exact htail
  | case4 c body hc ih =>
      have hbody : c ≠ '"' ∧ isBody body = true := by
        rwa [isBody_cons hc, Bool.and_eq_true, bne_iff_ne] at h
      have htail := ih (text ++ [c]) hbody.2
      rw [List.append_assoc, List.singleton_append] at htail
      simp only [List.cons_append, run, step, if_neg hc, if_neg hbody.1, List.nil_append]
      exact htail

/-- An operator that no equals sign completes is a token by itself. -/
theorem run_operator_of_apart (first : Char) (rest : List Char) (h : rest.head? ≠ some '=') :
    run others (.operator first) rest = single first :: run others .between rest := by
  cases rest with
  | nil => rfl
  | cons c rest =>
      have hc : c ≠ '=' := by
        rintro rfl
        exact h rfl
      simp only [run, step, if_neg hc, List.cons_append]

theorem run_comment (body rest : List Char) (h : '\n' ∉ body) :
    run others .comment (body ++ '\n' :: rest) = run others .between rest := by
  induction body with
  | nil => rfl
  | cons c body ih =>
      obtain ⟨hc, hbody⟩ := List.ne_and_not_mem_of_not_mem_cons h
      simp only [List.cons_append, run, step, if_neg (Ne.symm hc), List.nil_append]
      exact ih hbody

theorem run_comment_to_end (body : List Char) (h : '\n' ∉ body) :
    run others .comment body = [] := by
  induction body with
  | nil => rfl
  | cons c body ih =>
      obtain ⟨hc, hbody⟩ := List.ne_and_not_mem_of_not_mem_cons h
      simp only [run, step, if_neg (Ne.symm hc), List.nil_append]
      exact ih hbody

/-- What lies between lexemes is passed over. -/
theorem run_gap (gap : Gap) (rest : List Char) :
    run others .between (gap.chars ++ rest) = run others .between rest := by
  induction gap with
  | nil => rfl
  | cons filler gap ih =>
      rw [Gap.chars, List.flatMap_cons, List.append_assoc]
      cases filler with
      | blank c h =>
          have hblank := begin_blank others h
          simp only [Filler.chars, List.singleton_append, run, step, hblank, List.nil_append]
          exact ih
      | comment body h =>
          have hbody := run_comment others body (Gap.chars gap ++ rest) h
          simp only [Filler.chars, List.cons_append, List.append_assoc]
          rw [run]
          exact hbody.trans ih

/-- A lexeme is read as its token, and what follows it afresh. -/
theorem run_lexeme (l : Lexeme) (rest : List Char) (h : l.Apart rest) :
    run others .between (l.chars ++ rest) = l.token :: run others .between rest := by
  cases l with
  | word w =>
      have hbegin := begin_word others w.begins
      have hmore := run_word others [w.first] w.more rest (List.all_eq_true.mp w.continues) h
      simp only [Lexeme.chars, Identifier.chars, List.cons_append, run, step, hbegin,
        List.nil_append]
      exact hmore
  | quoted l =>
      have hbody := run_string others [] l.body rest l.isBody
      simp only [Lexeme.chars, List.cons_append, List.append_assoc, List.nil_append]
      rw [run]
      exact hbody
  | symbol s =>
      have hbegin := begin_symbol others s
      have hsingle := single_symbol s
      simp only [Lexeme.chars, List.singleton_append, run, step, hbegin]
      cases hoperator : beginsOperator s.char with
      | false =>
          simp only [Bool.false_eq_true, if_false, List.singleton_append, hsingle, Lexeme.token]
      | true =>
          simp only [if_true, List.nil_append]
          rw [run_operator_of_apart others s.char rest (h hoperator), hsingle]
          rfl
  | assign =>
      have hend := run_operator_of_apart others '=' rest h
      exact hend
  | comparison c =>
      obtain ⟨first, hfirst⟩ := c
      simp only [List.mem_cons, List.not_mem_nil, or_false] at hfirst
      rcases hfirst with rfl | rfl | rfl | rfl <;> rfl
  | _ => rfl

end Reader

/-- A text is read as the tokens of the lexemes that it spells. -/
theorem run_of_spells (others : Char → Nat) {lexemes : List Lexeme} {cs : List Char}
    (h : Spells lexemes cs) :
    Reader.run others .between cs = lexemes.map Lexeme.token := by
  induction h with
  | done gap =>
      have hgap := Reader.run_gap others gap []
      rw [List.append_nil] at hgap
      exact hgap
  | comment gap body h =>
      rw [Reader.run_gap]
      exact Reader.run_comment_to_end others body h
  | next gap l apart _ ih =>
      rw [Reader.run_gap, Reader.run_lexeme others l _ apart, ih, List.map_cons]

theorem tokens_of_spells {lexemes : List Lexeme} {text : String}
    (h : Spells lexemes text.toList) : tokens text = lexemes.map Lexeme.token := by
  rw [tokens_eq_run]
  exact run_of_spells Char.utf8Size h

/-- A gap in front of each lexeme, and one behind the last. -/
def written (pieces : List (Gap × Lexeme)) (last : Gap) : List Char :=
  (pieces.flatMap fun piece => piece.1.chars ++ piece.2.chars) ++ last.chars

/-- A filler at the front keeps any lexeme apart. -/
theorem apart_of_gap (l : Lexeme) {gap : Gap} (h : gap ≠ []) (rest : List Char) :
    l.Apart (gap.chars ++ rest) := by
  obtain ⟨filler, gap, rfl⟩ := List.exists_cons_of_ne_nil h
  have hhead : ∃ c, (Gap.chars (filler :: gap) ++ rest).head? = some c ∧
      Reader.continuesWord c = false ∧ c ≠ '=' := by
    cases filler with
    | blank c hblank =>
        refine ⟨c, rfl, ?_⟩
        simp only [Reader.isBlank, Bool.or_eq_true, beq_iff_eq] at hblank
        rcases hblank with (((rfl | rfl) | rfl) | rfl) | rfl <;> exact ⟨rfl, by decide⟩
    | comment body _ => exact ⟨'#', rfl, rfl, by decide⟩
  obtain ⟨c, hc, hcontinues, hequals⟩ := hhead
  have hassign : (Gap.chars (filler :: gap) ++ rest).head? ≠ some '=' := by
    rw [hc]
    intro h
    exact hequals (Option.some.inj h)
  cases l with
  | word w =>
      intro d hd
      rw [hc] at hd
      obtain rfl := Option.some.inj hd
      exact hcontinues
  | assign => exact hassign
  | symbol s => exact fun _ => hassign
  | _ => trivial

theorem apart_nil (l : Lexeme) : l.Apart [] := by
  have hassign : ([] : List Char).head? ≠ some '=' := nofun
  cases l with
  | word w =>
      intro c hc
      cases hc
  | assign => exact hassign
  | symbol s => exact fun _ => hassign
  | _ => trivial

/-- Lexemes with something in every gap between them are spelled by what is written. -/
theorem spells_written (pieces : List (Gap × Lexeme)) (last : Gap)
    (h : ∀ piece ∈ pieces.tail, piece.1 ≠ []) :
    Spells (pieces.map Prod.snd) (written pieces last) := by
  induction pieces with
  | nil => exact .done last
  | cons piece pieces ih =>
      have hrest := ih fun next hnext => h next (List.mem_of_mem_tail hnext)
      have hapart : piece.2.Apart (written pieces last) := by
        cases pieces with
        | nil =>
            cases hlast : last with
            | nil => exact apart_nil piece.2
            | cons filler gap =>
                have hgap := apart_of_gap piece.2 (List.cons_ne_nil filler gap) []
                rwa [List.append_nil] at hgap
        | cons next pieces =>
            rw [written, List.flatMap_cons, List.append_assoc, List.append_assoc]
            exact apart_of_gap piece.2 (h next (List.mem_cons_self ..)) _
      have hnext := Spells.next piece.1 piece.2 hapart hrest
      rw [List.map_cons, written, List.flatMap_cons, List.append_assoc, List.append_assoc]
      exact hnext

/-- Lexemes with something in every gap between them are read as their tokens, and it does not
matter to a scan what there is in the gaps. -/
theorem tokens_written (pieces : List (Gap × Lexeme)) (last : Gap)
    (h : ∀ piece ∈ pieces.tail, piece.1 ≠ []) :
    tokens (String.ofList (written pieces last)) = pieces.map (fun piece => piece.2.token) ∧
      ∀ (pieces' : List (Gap × Lexeme)) (last' : Gap), (∀ piece ∈ pieces'.tail, piece.1 ≠ []) →
        pieces'.map Prod.snd = pieces.map Prod.snd →
        scanTargets (String.ofList (written pieces' last')) =
          scanTargets (String.ofList (written pieces last)) := by
  have htokens (pieces : List (Gap × Lexeme)) (last : Gap)
      (h : ∀ piece ∈ pieces.tail, piece.1 ≠ []) :
      tokens (String.ofList (written pieces last)) =
        (pieces.map Prod.snd).map Lexeme.token := by
    refine tokens_of_spells ?_
    rw [String.toList_ofList]
    exact spells_written pieces last h
  constructor
  · rw [htokens pieces last h, List.map_map]
    rfl
  · intro pieces' last' h' hsame
    rw [scanTargets, scanTargets, htokens pieces last h, htokens pieces' last' h', hsame]

/-- A library with one source, whose name has an escaped quote, and an update and a comparison
that are not about sources. -/
def libraryLexemes : List Lexeme :=
  [.word ⟨'l', ['i', 'b'], rfl, rfl⟩, .openParen, .quoted ⟨['a', '\\', '"', '#'], rfl⟩, .closeParen,
    .openBrace, .word ⟨'n', [], rfl, rfl⟩, .addAssign,
    .symbol ⟨'1', by decide, by decide⟩, .symbol ⟨'+', by decide, by decide⟩,
    .symbol ⟨'2', by decide, by decide⟩, .comparison ⟨'=', by decide⟩,
    .word ⟨'s', ['o', 'u', 'r', 'c', 'e', 's'], rfl, rfl⟩, .assign, .openBracket,
    .quoted ⟨['x', '.', 'c'], rfl⟩, .closeBracket, .closeBrace]

def eachBehind (gap : Gap) (lexemes : List Lexeme) : List (Gap × Lexeme) :=
  lexemes.map fun l => (gap, l)

theorem ne_nil_of_mem_eachBehind {gap : Gap} (hgap : gap ≠ []) (lexemes : List Lexeme) :
    ∀ piece ∈ (eachBehind gap lexemes).tail, piece.1 ≠ [] := by
  intro piece hpiece
  obtain ⟨l, -, rfl⟩ := List.mem_map.mp (List.mem_of_mem_tail hpiece)
  exact hgap

def blankGap : Gap := [.blank ' ' (by decide)]

/-- A gap that looks like the end of a string literal and of a block. -/
def commentGap : Gap := [.comment ['"', '\x7d'] (by decide), .blank '\t' (by decide)]

theorem tokens_written_commented :
    tokens (String.ofList (written (eachBehind commentGap libraryLexemes) [])) =
        [.word "lib", .openParen, .quoted "a\\\"#", .closeParen, .openBrace, .word "n", .addAssign,
          .other, .other, .other, .other, .word "sources", .assign, .openBracket, .quoted "x.c",
          .closeBracket, .closeBrace] ∧
      scanTargets (String.ofList (written (eachBehind blankGap libraryLexemes) blankGap)) =
        [⟨"lib", "a\\\"#", [["x.c"]]⟩] := by
  obtain ⟨htokens, hsame⟩ := tokens_written (eachBehind commentGap libraryLexemes) []
    (ne_nil_of_mem_eachBehind (List.cons_ne_nil _ _) _)
  have hread : tokens (String.ofList (written (eachBehind commentGap libraryLexemes) [])) =
      [.word "lib", .openParen, .quoted "a\\\"#", .closeParen, .openBrace, .word "n", .addAssign,
        .other, .other, .other, .other, .word "sources", .assign, .openBracket, .quoted "x.c",
        .closeBracket, .closeBrace] :=
    htokens.trans (by decide)
  have hblank := hsame (eachBehind blankGap libraryLexemes) blankGap
    (ne_nil_of_mem_eachBehind (List.cons_ne_nil _ _) _) rfl
  refine ⟨hread, ?_⟩
  rw [hblank, scanTargets, hread]
  cbv

end Hygiene.Gn
