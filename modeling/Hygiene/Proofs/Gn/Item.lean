import Mathlib.Tactic
import Hygiene.Proofs.Gn.Lexeme
import Hygiene.Proofs.Gn.Scan

/-!
What a scan finds in a well-formed build file. The file is a tree of items; the scan sees a flat
run of tokens and keeps its own stack of open blocks. The targets that it returns are those of the
tree from the outside in, and each of them has got exactly the assignments of its own body.
-/

namespace Hygiene.Gn

inductive Element where
  | literal (l : Literal)
  | comma
  | nested (elements : List Element)

def Symbol.comma : Symbol := ⟨',', by decide, by decide⟩

namespace Element

mutual

def lexemes : Element → List Lexeme
  | .literal l => [.quoted l]
  | .comma => [.symbol Symbol.comma]
  | .nested elements => .openBracket :: (lexemesOf elements ++ [.closeBracket])

def lexemesOf : List Element → List Lexeme
  | [] => []
  | e :: rest => e.lexemes ++ lexemesOf rest

end

mutual

def texts : Element → List String
  | .literal l => [l.text]
  | .comma => []
  | .nested elements => textsOf elements

def textsOf : List Element → List String
  | [] => []
  | e :: rest => e.texts ++ textsOf rest

end

end Element

def Lexeme.isPlain : Lexeme → Bool
  | .openBrace | .closeBrace | .assign | .addAssign | .subAssign => false
  | _ => true

/-- A lexeme that a scan passes over wherever it stands. -/
def Lexeme.Inert (l : Lexeme) : Prop :=
  l.isPlain = true ∧ l.token ≠ .dot ∧ ∀ w, l.token ≠ .word w

def balanced (depth : Nat) : List Lexeme → Bool
  | [] => depth == 0
  | .openParen :: rest => balanced (depth + 1) rest
  | .closeParen :: rest =>
      match depth with
      | 0 => false
      | depth + 1 => balanced depth rest
  | _ :: rest => balanced depth rest

/-- Names, calls, literals and operators: what a condition, an argument list or a value that is
no list literal consists of. -/
structure Phrase where
  lexemes : List Lexeme
  plain : lexemes.all Lexeme.isPlain = true
  balanced : balanced 0 lexemes = true
  complete : lexemes.getLast? ≠ some .dot

inductive Value where
  | list (elements : List Element)
  | phrase (p : Phrase) (h : p.lexemes.head? ≠ some .openBracket)

namespace Value

def lexemes : Value → List Lexeme
  | .list elements => .openBracket :: (Element.lexemesOf elements ++ [.closeBracket])
  | .phrase p _ => p.lexemes

def list? : Value → Option (List String)
  | .list elements => some (Element.textsOf elements)
  | .phrase _ _ => none

end Value

def Assignment.lexeme : Assignment → Lexeme
  | .set => .assign
  | .add => .addAssign
  | .remove => .subAssign

inductive Header where
  | call (keyword : Identifier) (h : keyword.text ∈ blockCalls) (arguments : Phrase)
  | otherwise
  | otherwiseIf (condition : Phrase)

namespace Header

def elseWord : Identifier := ⟨'e', ['l', 's', 'e'], by decide, by decide⟩

def ifWord : Identifier := ⟨'i', ['f'], by decide, by decide⟩

def callLexemes (keyword : Identifier) (arguments : Phrase) : List Lexeme :=
  .word keyword :: .openParen :: (arguments.lexemes ++ [.closeParen])

def lexemes : Header → List Lexeme
  | .call keyword _ arguments => callLexemes keyword arguments
  | .otherwise => [.word elseWord]
  | .otherwiseIf condition => .word elseWord :: callLexemes ifWord condition

end Header

/-- A statement of a build file. The owners of an assigned name stand in front of it, each with a
dot. -/
inductive Item where
  | target (kind : Identifier) (h : kind.text ∉ blockCalls) (name : Literal) (body : List Item)
  | block (header : Header) (body : List Item)
  | assign (owners : List Identifier) (name : Identifier) (op : Assignment) (value : Value)

/-- An assignment to `sources`: the operator and the list, if the value is one. -/
abbrev Contribution := Assignment × Option (List String)

/-- The source lists after one more assignment. The last list is the only one that `+=` and `-=`
reach. -/
def contribute (groups : List (List String)) : Contribution → List (List String)
  | (.set, list) => groups ++ [list.getD []]
  | (.add, some list) =>
      match groups.getLast? with
      | some last => groups.dropLast ++ [last ++ list]
      | none => [list]
  | (.remove, some list) =>
      match groups.getLast? with
      | some last => groups.dropLast ++ [last.filter (· ∉ list)]
      | none => []
  | (_, none) => groups

namespace Item

mutual

def lexemes : Item → List Lexeme
  | .target kind _ name body =>
      .word kind :: .openParen :: .quoted name :: .closeParen :: .openBrace ::
        (lexemesOf body ++ [.closeBrace])
  | .block header body => header.lexemes ++ .openBrace :: (lexemesOf body ++ [.closeBrace])
  | .assign owners name op value =>
      (owners.flatMap fun owner => [.word owner, .dot]) ++
        .word name :: op.lexeme :: value.lexemes

def lexemesOf : List Item → List Lexeme
  | [] => []
  | item :: rest => item.lexemes ++ lexemesOf rest

end

mutual

/-- The assignments to `sources` that count for the innermost target around an item. -/
def contributions : Item → List Contribution
  | .target _ _ _ _ => []
  | .block _ body => contributionsOf body
  | .assign owners name op value =>
      if owners = [] ∧ name.text = "sources" then [(op, value.list?)] else []

def contributionsOf : List Item → List Contribution
  | [] => []
  | item :: rest => item.contributions ++ contributionsOf rest

end

mutual

/-- The targets of an item, each in front of those in its body. -/
def targets : Item → List Target
  | .target kind _ name body =>
      ⟨kind.text, name.text, (contributionsOf body).foldl contribute []⟩ :: targetsOf body
  | .block _ body => targetsOf body
  | .assign _ _ _ _ => []

def targetsOf : List Item → List Target
  | [] => []
  | item :: rest => item.targets ++ targetsOf rest

end

end Item

private def readBehind (texts : List String) (read : List String × List (Token String)) :
    List String × List (Token String) :=
  (texts ++ read.1, read.2)

namespace Element

mutual

theorem readItems_lexemes (e : Element) (depth : Nat) (hdepth : 0 < depth)
    (rest : List (Token String)) :
    readItems depth (e.lexemes.map Lexeme.token ++ rest) =
      readBehind e.texts (readItems depth rest) := by
  cases e with
  | literal l => rfl
  | comma => rfl
  | nested elements =>
      have hinside := readItems_lexemesOf elements (depth + 1) (Nat.succ_pos depth)
        (.closeBracket :: rest)
      have hclose : readItems (depth + 1) (.closeBracket :: rest) = readItems depth rest := by
        rw [readItems, if_neg (by omega), Nat.add_sub_cancel]
      rw [hclose] at hinside
      simp only [lexemes, List.map_cons, List.map_append, List.map_nil, List.cons_append,
        List.append_assoc, List.nil_append, Lexeme.token, readItems, texts]
      exact hinside

theorem readItems_lexemesOf (elements : List Element) (depth : Nat) (hdepth : 0 < depth)
    (rest : List (Token String)) :
    readItems depth ((lexemesOf elements).map Lexeme.token ++ rest) =
      readBehind (textsOf elements) (readItems depth rest) := by
  cases elements with
  | nil => rfl
  | cons e elements =>
      rw [lexemesOf, List.map_append, List.append_assoc,
        readItems_lexemes e depth hdepth, readItems_lexemesOf elements depth hdepth, textsOf]
      simp only [readBehind, List.append_assoc]

end

/-- A list literal is read to its end, and its string literals are what it contains. -/
theorem readList_lexemesOf (elements : List Element) (rest : List (Token String)) :
    readList (.openBracket :: ((lexemesOf elements).map Lexeme.token ++ .closeBracket :: rest)) =
      (some (textsOf elements), rest) := by
  have hclose : readItems 1 (.closeBracket :: rest) = ([], rest) := by
    rw [readItems, if_pos (Nat.le_refl 1)]
  rw [readList, readItems_lexemesOf elements 1 (Nat.succ_pos 0), hclose]
  simp only [readBehind, List.append_nil]

mutual

theorem inert_of_mem_lexemes (e : Element) {l : Lexeme} (h : l ∈ e.lexemes) : l.Inert := by
  cases e with
  | literal _ =>
      obtain rfl := List.mem_singleton.mp h
      exact ⟨rfl, nofun, nofun⟩
  | comma =>
      obtain rfl := List.mem_singleton.mp h
      exact ⟨rfl, nofun, nofun⟩
  | nested elements =>
      simp only [lexemes, List.mem_cons, List.mem_append, List.not_mem_nil, or_false] at h
      rcases h with rfl | h | rfl
      · exact ⟨rfl, nofun, nofun⟩
      · exact inert_of_mem_lexemesOf elements h
      · exact ⟨rfl, nofun, nofun⟩

/-- A list literal holds nothing that a scan would look at. -/
theorem inert_of_mem_lexemesOf (elements : List Element) {l : Lexeme}
    (h : l ∈ lexemesOf elements) : l.Inert := by
  cases elements with
  | nil => cases h
  | cons e elements =>
      rcases List.mem_append.mp h with h | h
      · exact inert_of_mem_lexemes e h
      · exact inert_of_mem_lexemesOf elements h

end

end Element

theorem Lexeme.token_of_isPlain {l : Lexeme} (h : l.isPlain = true) :
    l.token ≠ .openBrace ∧ l.token ≠ .closeBrace ∧ Assignment.ofToken? l.token = none := by
  cases l <;> simp_all [Lexeme.isPlain, Lexeme.token, Assignment.ofToken?]

theorem Lexeme.eq_openParen_of_token {l : Lexeme} (h : l.token = .openParen) : l = .openParen := by
  cases l <;> first | rfl | cases h

theorem Lexeme.exists_literal_of_token {l : Lexeme} {text : String} (h : l.token = .quoted text) :
    ∃ literal, l = .quoted literal := by
  cases l with
  | quoted literal => exact ⟨literal, rfl⟩
  | _ => cases h

/-- What may follow an item or a phrase: a word, a closing brace or parenthesis, or nothing. -/
def Stops (rest : List (Token String)) : Prop :=
  ∀ t ∈ rest.head?, (∃ w, t = .word w) ∨ t = .closeBrace ∨ t = .closeParen

namespace Scan

variable (s : Scan)

/-- A scan passes over a run of inert lexemes. -/
theorem run_inert (ls : List Lexeme) (h : ∀ l ∈ ls, l.Inert) (rest : List (Token String)) :
    s.run false (ls.map Lexeme.token ++ rest) = s.run false rest := by
  induction ls with
  | nil => rfl
  | cons l ls ih =>
      obtain ⟨hplain, hdot, hword⟩ := h l (List.mem_cons_self ..)
      have htail := ih fun m hm => h m (List.mem_cons_of_mem _ hm)
      obtain ⟨hopen, hclose, -⟩ := Lexeme.token_of_isPlain hplain
      rw [List.map_cons, List.cons_append, run_skip_of_not_word s false hopen hclose hword,
        beq_eq_false_iff_ne.mpr hdot]
      exact htail

/-- No header begins inside a phrase: its parentheses are closed before any brace opens. -/
theorem header?_phrase (w : String) {ls : List Lexeme} {depth : Nat}
    (hplain : ∀ l ∈ ls, l.isPlain = true) (hbalanced : balanced depth ls = true)
    {rest : List (Token String)} (hrest : Stops rest) :
    header? (.word w :: (ls.map Lexeme.token ++ rest)) = none := by
  by_contra h
  obtain ⟨n, body, hshape⟩ : ∃ n body, ls.map Lexeme.token ++ rest =
      .openParen :: .quoted n :: .closeParen :: .openBrace :: body := by
    generalize ls.map Lexeme.token ++ rest = ts at h
    rw [header?.eq_def] at h
    split at h
    next heq =>
      cases heq
      exact ⟨_, _, rfl⟩
    next => exact absurd rfl h
  -- The brace lies outside the phrase, so at most three lexemes of it stand in front.
  rcases ls with _ | ⟨a, _ | ⟨b, _ | ⟨c, _ | ⟨d, ls⟩⟩⟩⟩
  · rw [List.map_nil, List.nil_append] at hshape
    rcases hrest .openParen (by rw [hshape]; rfl) with ⟨_, h⟩ | h | h <;> cases h
  · rw [List.map_singleton, List.singleton_append] at hshape
    obtain rfl := Lexeme.eq_openParen_of_token (List.cons.inj hshape).1
    cases hbalanced
  · simp only [List.map_cons, List.map_nil, List.cons_append, List.cons.injEq] at hshape
    obtain rfl := Lexeme.eq_openParen_of_token hshape.1
    obtain ⟨l, rfl⟩ := Lexeme.exists_literal_of_token hshape.2.1
    cases hbalanced
  · simp only [List.map_cons, List.map_nil, List.cons_append, List.nil_append,
      List.cons.injEq] at hshape
    rcases hrest .openBrace (by rw [hshape.2.2.2]; rfl) with ⟨_, h⟩ | h | h <;> cases h
  · have hd : d.isPlain = true := hplain d (by simp)
    simp only [List.map_cons, List.cons_append, List.cons.injEq] at hshape
    exact (Lexeme.token_of_isPlain hd).1 hshape.2.2.2.1

/-- The token behind a word in a phrase is no assignment. -/
theorem ofToken?_phrase {ls : List Lexeme} (hplain : ∀ l ∈ ls, l.isPlain = true)
    {rest : List (Token String)} (hrest : Stops rest) :
    ∀ t ∈ (ls.map Lexeme.token ++ rest).head?, Assignment.ofToken? t = none := by
  intro t ht
  cases ls with
  | nil =>
      rcases hrest t ht with ⟨w, rfl⟩ | rfl | rfl <;> rfl
  | cons l ls =>
      obtain rfl := Option.some.inj ht
      exact (Lexeme.token_of_isPlain (hplain l (List.mem_cons_self ..))).2.2

/-- A scan passes over a phrase from any place inside it to its end. -/
theorem run_phrase_from (afterDot : Bool) {ls : List Lexeme} {depth : Nat}
    (hplain : ∀ l ∈ ls, l.isPlain = true) (hbalanced : balanced depth ls = true)
    {rest : List (Token String)} (hrest : Stops rest) :
    s.run afterDot (ls.map Lexeme.token ++ rest) =
      s.run ((ls.getLast?.map fun l => l.token == .dot).getD afterDot) rest := by
  induction ls generalizing afterDot depth with
  | nil => rfl
  | cons l ls ih =>
      obtain ⟨hopen, hclose, -⟩ :=
        Lexeme.token_of_isPlain (hplain l (List.mem_cons_self ..))
      have hplain' : ∀ m ∈ ls, m.isPlain = true :=
        fun m hm => hplain m (List.mem_cons_of_mem _ hm)
      obtain ⟨depth', hbalanced'⟩ : ∃ depth', balanced depth' ls = true := by
        cases l with
        | openParen => exact ⟨depth + 1, hbalanced⟩
        | closeParen =>
            cases depth with
            | zero => cases hbalanced
            | succ depth => exact ⟨depth, hbalanced⟩
        | _ => exact ⟨depth, hbalanced⟩
      have hstep : s.run afterDot (l.token :: (ls.map Lexeme.token ++ rest)) =
          s.run (l.token == .dot) (ls.map Lexeme.token ++ rest) := by
        by_cases hword : ∃ w, l.token = .word w
        · obtain ⟨w, hw⟩ := hword
          rw [hw]
          exact run_skip s afterDot nofun nofun (header?_phrase w hplain' hbalanced' hrest)
            (Or.inr (sourcesAssignment?_of_next (ofToken?_phrase hplain' hrest)))
        · exact run_skip_of_not_word s afterDot hopen hclose (fun w hw => hword ⟨w, hw⟩) _
      have hlast : (((l :: ls).getLast?.map fun l => l.token == .dot).getD afterDot) =
          (ls.getLast?.map fun l => l.token == .dot).getD (l.token == .dot) := by
        rw [List.getLast?_cons]
        cases ls.getLast? <;> rfl
      rw [List.map_cons, List.cons_append, hstep, hlast]
      exact ih (l.token == .dot) hplain' hbalanced'

theorem run_phrase (p : Phrase) {rest : List (Token String)} (hrest : Stops rest) :
    s.run false (p.lexemes.map Lexeme.token ++ rest) = s.run false rest := by
  rw [run_phrase_from s false (List.all_eq_true.mp p.plain) p.balanced hrest]
  cases hlast : p.lexemes.getLast? with
  | none => rfl
  | some l =>
      have hdot : l.token ≠ .dot := by
        intro h
        have hl : l = .dot := by cases l <;> first | rfl | cases h
        exact p.complete (hl ▸ hlast)
      rw [Option.map_some, Option.getD_some, beq_eq_false_iff_ne.mpr hdot]

/-- A scan passes over the value of an assignment that it does not look at. -/
theorem run_value (v : Value) {rest : List (Token String)} (hrest : Stops rest) :
    s.run false (v.lexemes.map Lexeme.token ++ rest) = s.run false rest := by
  cases v with
  | phrase p _ => exact run_phrase s p hrest
  | list elements =>
      refine run_inert s _ ?_ rest
      intro l hl
      exact Element.inert_of_mem_lexemes (.nested elements) hl

theorem readList_value (v : Value) {rest : List (Token String)} (hrest : Stops rest) :
    (readList (v.lexemes.map Lexeme.token ++ rest)).1 = v.list? ∧
      s.run false (readList (v.lexemes.map Lexeme.token ++ rest)).2 = s.run false rest := by
  cases v with
  | list elements =>
      have hshape : (Value.list elements).lexemes.map Lexeme.token ++ rest =
          .openBracket ::
            ((Element.lexemesOf elements).map Lexeme.token ++ .closeBracket :: rest) := by
        simp only [Value.lexemes, List.map_cons, List.map_append, List.map_nil, List.cons_append,
          List.append_assoc, List.nil_append, Lexeme.token]
      rw [hshape, Element.readList_lexemesOf]
      exact ⟨rfl, rfl⟩
  | phrase p h =>
      have hread : readList (p.lexemes.map Lexeme.token ++ rest) =
          (none, p.lexemes.map Lexeme.token ++ rest) := by
        cases hlexemes : p.lexemes with
        | nil =>
            cases rest with
            | nil => rfl
            | cons t rest => rcases hrest t rfl with ⟨w, rfl⟩ | rfl | rfl <;> rfl
        | cons l ls =>
            rw [hlexemes] at h
            cases l with
            | openBracket => exact absurd rfl h
            | _ => rfl
      rw [Value.lexemes, hread]
      exact ⟨rfl, run_phrase s p hrest⟩

/-- A call passes and leaves its last parenthesis behind. -/
theorem run_call (afterDot : Bool) (keyword : Identifier) (arguments : Phrase)
    (hkeyword : keyword.text ∈ blockCalls) (rest : List (Token String)) :
    s.run afterDot ((Header.callLexemes keyword arguments).map Lexeme.token ++ rest) =
      s.run false rest := by
  have hstops : Stops (.closeParen :: rest) := by
    intro t ht
    exact Or.inr (Or.inr (Option.some.inj ht).symm)
  have hparen (ts : List (Token String)) : ∀ t ∈ (Token.openParen :: ts).head?,
      Assignment.ofToken? t = none := by
    intro t ht
    obtain rfl := Option.some.inj ht
    rfl
  simp only [Header.callLexemes, List.map_cons, List.map_append, List.map_nil, List.cons_append,
    List.append_assoc, List.nil_append, Lexeme.token]
  rw [run_word s afterDot (header?_of_block hkeyword _)
      (Or.inr (sourcesAssignment?_of_next (hparen _))),
    run_skip_of_not_word (t := .openParen) s false nofun nofun nofun]
  have hclose := run_skip_of_not_word (t := .closeParen) s false nofun nofun nofun rest
  exact (run_phrase s arguments hstops).trans hclose

/-- The block behind a header is no target. -/
theorem run_header (header : Header) (rest : List (Token String)) :
    s.run false (header.lexemes.map Lexeme.token ++ .openBrace :: rest) =
      s.openBlock.run false rest := by
  have helse (t : Token String) (ts : List (Token String)) (hparen : t ≠ .openParen)
      (hop : Assignment.ofToken? t = none) :
      s.run false (.word Header.elseWord.text :: t :: ts) = s.run false (t :: ts) := by
    refine run_word s false (header?_of_next ?_) (Or.inr (sourcesAssignment?_of_next ?_))
    · intro h
      exact hparen (Option.some.inj h)
    · intro u hu
      obtain rfl := Option.some.inj hu
      exact hop
  cases header with
  | call keyword h arguments =>
      rw [Header.lexemes, run_call s false keyword arguments h, run_openBrace]
  | otherwise =>
      exact (helse .openBrace rest nofun rfl).trans (run_openBrace s false rest)
  | otherwiseIf condition =>
      have hcall := run_call s false Header.ifWord condition (by decide) (.openBrace :: rest)
      rw [run_openBrace] at hcall
      have hword := helse (.word Header.ifWord.text)
        (.openParen ::
          ((condition.lexemes ++ [Lexeme.closeParen]).map Lexeme.token ++ .openBrace :: rest))
        nofun rfl
      exact hword.trans hcall

/-- A name with owners is a member of something else, so its assignment is passed over. -/
theorem run_owners (owners : List Identifier) (howners : owners ≠ []) (afterDot : Bool)
    (rest : List (Token String)) :
    s.run afterDot
        ((owners.flatMap fun owner => [Lexeme.word owner, .dot]).map Lexeme.token ++ rest) =
      s.run true rest := by
  induction owners generalizing afterDot with
  | nil => exact absurd rfl howners
  | cons owner owners ih =>
      have hword (ts : List (Token String)) :
          s.run afterDot (.word owner.text :: .dot :: ts) = s.run true ts := by
        have hnext : ∀ t ∈ (Token.dot :: ts).head?, Assignment.ofToken? t = none := by
          intro t ht
          obtain rfl := Option.some.inj ht
          rfl
        have hfirst : (Token.dot :: ts).head? ≠ some (Token.openParen : Token String) := nofun
        rw [run_word s afterDot (header?_of_next hfirst)
          (Or.inr (sourcesAssignment?_of_next hnext))]
        exact run_skip_of_not_word (t := .dot) s false nofun nofun nofun ts
      rw [List.flatMap_cons]
      simp only [List.map_cons, List.cons_append, List.nil_append, Lexeme.token]
      rw [hword]
      cases owners with
      | nil => rfl
      | cons next owners => exact ih (List.cons_ne_nil next owners) true

end Scan

section Modify

variable {α : Type} (f : α → α)

/-- A change in a list leaves what stands behind the list alone. -/
theorem modify_append {index : Nat} {l : List α} (h : index < l.length) (more : List α) :
    (l ++ more).modify index f = l.modify index f ++ more := by
  have hmore : index < (l ++ more).length := by
    rw [List.length_append]
    exact Nat.lt_add_right more.length h
  rw [List.modify_eq_take_cons_drop hmore, List.modify_eq_take_cons_drop h,
    List.take_append_of_le_length (Nat.le_of_lt h), List.drop_append_of_le_length h,
    List.getElem_append_left h, List.append_assoc, List.cons_append]

/-- A list changed at its last place. -/
theorem modify_last (l : List α) :
    l.modify (l.length - 1) f =
      match l.getLast? with
      | some last => l.dropLast ++ [f last]
      | none => [] := by
  rcases List.eq_nil_or_concat' l with rfl | ⟨init, last, rfl⟩
  · rfl
  · have hplace : (init ++ [last]).length - 1 = init.length + 0 := by simp
    rw [hplace, List.modify, List.modifyTailIdx_add, List.getLast?_concat, List.dropLast_concat]
    rfl

end Modify

theorem Target.assign_eq_contribute (groups : List (List String)) (c : Contribution) :
    Target.assign groups c.1 c.2 = contribute groups c := by
  obtain ⟨op, list⟩ := c
  cases op with
  | set => rfl
  | add =>
      cases list with
      | none => rfl
      | some list =>
          rw [Target.assign, modify_last, contribute]
          cases groups with
          | nil => rfl
          | cons group groups =>
              rw [List.getLast?_cons]
              rfl
  | remove =>
      cases list with
      | none => rfl
      | some list =>
          rw [Target.assign, modify_last, contribute]
          cases groups.getLast? with
          | none => rfl
          | some last =>
              refine congrArg (groups.dropLast ++ [·]) (List.filter_congr fun s _ => ?_)
              rw [List.contains_eq_mem, decide_not]

/-- A target after more assignments to its sources. -/
def Target.contributeAll (t : Target) (contributions : List Contribution) : Target :=
  { t with groups := contributions.foldl contribute t.groups }

namespace Scan

/-- The innermost open target is one that the scan has found. -/
def Sound (s : Scan) : Prop :=
  ∀ index, innermost? s.frames = some index → index < s.targets.length

/-- The scan behind some items: their assignments have gone to the innermost open target, and
their targets stand behind those found before. -/
def absorb (s : Scan) (contributions : List Contribution) (found : List Target) : Scan :=
  { s with
    targets :=
      (match innermost? s.frames with
        | none => s.targets
        | some index => s.targets.modify index fun t => t.contributeAll contributions) ++ found }

theorem assign_eq_absorb (s : Scan) (op : Assignment) (list : Option (List String)) :
    s.assign op list = s.absorb [(op, list)] [] := by
  have happly : (fun t : Target => t.apply op list) = fun t => t.contributeAll [(op, list)] := by
    funext t
    rw [Target.apply, Target.assign_eq_contribute t.groups (op, list)]
    rfl
  rw [assign, absorb]
  cases innermost? s.frames with
  | none =>
      dsimp only
      rw [List.append_nil]
  | some index =>
      dsimp only
      rw [List.append_nil, happly]

/-- Without an assignment only targets are added. -/
theorem absorb_nil_left (s : Scan) (found : List Target) :
    s.absorb [] found = ⟨s.targets ++ found, s.frames⟩ := by
  rw [absorb]
  cases innermost? s.frames with
  | none => rfl
  | some index =>
      have hid : (fun t : Target => t.contributeAll []) = id := rfl
      dsimp only
      rw [hid, List.modify_id]

/-- What two runs of items do one after the other is what both do together. -/
theorem absorb_absorb {s : Scan} (hs : s.Sound) (first second : List Contribution)
    (found more : List Target) :
    (s.absorb first found).absorb second more = s.absorb (first ++ second) (found ++ more) := by
  have hcompose : (fun t : Target => t.contributeAll (first ++ second)) =
      (fun t => t.contributeAll second) ∘ fun t => t.contributeAll first := by
    funext t
    simp only [Target.contributeAll, Function.comp_apply, List.foldl_append]
  rw [absorb, absorb, absorb]
  cases hindex : innermost? s.frames with
  | none =>
      dsimp only
      rw [List.append_assoc]
  | some index =>
      dsimp only
      have hlength : index < (s.targets.modify index fun t => t.contributeAll first).length := by
        rw [List.length_modify]
        exact hs index hindex
      rw [modify_append _ hlength, List.modify_modify_eq, List.append_assoc, hcompose]

theorem sound_absorb {s : Scan} (hs : s.Sound) (contributions : List Contribution)
    (found : List Target) : (s.absorb contributions found).Sound := by
  intro index hindex
  have hbound := hs index hindex
  have hinner : innermost? s.frames = some index := hindex
  simp only [absorb, hinner, List.length_append, List.length_modify]
  omega

theorem sound_declare (s : Scan) (kind name : String) : (s.declare kind name).Sound := by
  intro index hindex
  obtain rfl := Option.some.inj hindex
  simp only [declare, List.length_append, List.length_singleton]
  omega

/-- The body of a target leaves behind the target with its own assignments, and the targets
inside. -/
theorem closeBlock_absorb_declare (s : Scan) (kind name : String)
    (contributions : List Contribution) (found : List Target) :
    ((s.declare kind name).absorb contributions found).closeBlock =
      s.absorb [] (⟨kind, name, contributions.foldl contribute []⟩ :: found) := by
  have hlast : (s.targets ++ [Target.new kind name]).modify s.targets.length
        (fun t => t.contributeAll contributions) =
      s.targets ++ [(Target.new kind name).contributeAll contributions] :=
    List.modifyTailIdx_add _ 0 s.targets [Target.new kind name]
  rw [absorb_nil_left, ← List.singleton_append, ← List.append_assoc]
  exact congrArg (Scan.mk · s.frames) (congrArg (· ++ found) hlast)

end Scan

namespace Item

/-- An item begins with a word. -/
theorem exists_word (item : Item) : ∃ w ls, item.lexemes = .word w :: ls := by
  cases item with
  | target kind _ name body => exact ⟨kind, _, rfl⟩
  | block header body =>
      cases header with
      | call keyword _ arguments => exact ⟨keyword, _, rfl⟩
      | otherwise => exact ⟨Header.elseWord, _, rfl⟩
      | otherwiseIf condition => exact ⟨Header.elseWord, _, rfl⟩
  | assign owners name op value =>
      cases owners with
      | nil => exact ⟨name, _, rfl⟩
      | cons owner owners => exact ⟨owner, _, rfl⟩

theorem stops_lexemesOf (items : List Item) {rest : List (Token String)} (hrest : Stops rest) :
    Stops ((lexemesOf items).map Lexeme.token ++ rest) := by
  cases items with
  | nil => exact hrest
  | cons item items =>
      obtain ⟨w, ls, hls⟩ := exists_word item
      intro t ht
      rw [lexemesOf, hls] at ht
      exact Or.inl ⟨w.text, (Option.some.inj ht).symm⟩

theorem stops_closeBrace (rest : List (Token String)) : Stops (.closeBrace :: rest) := by
  intro t ht
  exact Or.inr (Or.inl (Option.some.inj ht).symm)

open Scan

/-- An assignment goes to the innermost target when it assigns `sources` itself, and is passed over
otherwise. -/
theorem run_assign (owners : List Identifier) (name : Identifier) (op : Assignment) (value : Value)
    (s : Scan) {rest : List (Token String)} (hrest : Stops rest) :
    s.run false ((assign owners name op value).lexemes.map Lexeme.token ++ rest) =
      (s.absorb (assign owners name op value).contributions []).run false rest := by
  have hop : Assignment.ofToken? op.lexeme.token = some op := by cases op <;> rfl
  have hheader (w : String) (ts : List (Token String)) :
      header? (.word w :: op.lexeme.token :: ts) = none := by
    refine header?_of_next ?_
    cases op <;> exact nofun
  have hvalue (t : Scan) : t.run false (op.lexeme.token ::
      (value.lexemes.map Lexeme.token ++ rest)) = t.run false rest := by
    have hskip := run_value t value hrest
    cases op with
    | set => exact (run_skip_of_not_word (t := .assign) t false nofun nofun nofun _).trans hskip
    | add => exact (run_skip_of_not_word (t := .addAssign) t false nofun nofun nofun _).trans hskip
    | remove =>
        exact (run_skip_of_not_word (t := .subAssign) t false nofun nofun nofun _).trans hskip
  have hword : (Lexeme.word name).token = .word name.text := rfl
  simp only [lexemes, List.map_append, List.map_cons, List.append_assoc, List.cons_append, hword,
    contributions]
  by_cases howners : owners = []
  · subst howners
    by_cases hname : name.text = "sources"
    · obtain ⟨hlist, hbehind⟩ := readList_value (s.assign op value.list?) value hrest
      rw [if_pos ⟨rfl, hname⟩, List.flatMap_nil, List.map_nil, List.nil_append, hname,
        run_sources s hop, hlist, hbehind, assign_eq_absorb]
    · have hsources (ts : List (Token String)) :
          sourcesAssignment? (.word name.text :: ts) = none := by
        cases ts with
        | nil => rfl
        | cons t ts => rw [sourcesAssignment?, if_neg hname]
      rw [if_neg fun h => hname h.2, List.flatMap_nil, List.map_nil, List.nil_append,
        run_word s false (hheader _ _) (Or.inr (hsources _)), hvalue, absorb_nil_left,
        List.append_nil]
  · rw [if_neg fun h => howners h.1, run_owners s owners howners,
      run_word s true (hheader _ _) (Or.inl rfl), hvalue, absorb_nil_left, List.append_nil]

mutual

theorem run_lexemes (item : Item) {s : Scan} (hs : s.Sound) {rest : List (Token String)}
    (hrest : Stops rest) :
    s.run false (item.lexemes.map Lexeme.token ++ rest) =
      (s.absorb item.contributions item.targets).run false rest := by
  cases item with
  | target kind h name body =>
      have hbody := run_lexemesOf body (sound_declare s kind.text name.text)
        (stops_closeBrace rest)
      simp only [lexemes, List.map_cons, List.map_append, List.map_nil, List.cons_append,
        List.append_assoc, List.nil_append, Lexeme.token]
      rw [run_declare s false h, hbody, run_closeBrace, closeBlock_absorb_declare]
      rfl
  | block header body =>
      have hbody := run_lexemesOf body (s := s.openBlock) hs (stops_closeBrace rest)
      simp only [lexemes, List.map_cons, List.map_append, List.map_nil, List.cons_append,
        List.append_assoc, List.nil_append, Lexeme.token]
      rw [run_header s, hbody, run_closeBrace]
      rfl
  | assign owners name op value => exact run_assign owners name op value s hrest

/-- The scan of a run of items, with whatever is open around them. -/
theorem run_lexemesOf (items : List Item) {s : Scan} (hs : s.Sound) {rest : List (Token String)}
    (hrest : Stops rest) :
    s.run false ((lexemesOf items).map Lexeme.token ++ rest) =
      (s.absorb (contributionsOf items) (targetsOf items)).run false rest := by
  cases items with
  | nil =>
      rw [contributionsOf, targetsOf, absorb_nil_left, List.append_nil]
      rfl
  | cons item items =>
      have hitem := run_lexemes item hs (stops_lexemesOf items hrest)
      have hitems := run_lexemesOf items (sound_absorb hs item.contributions item.targets) hrest
      rw [lexemesOf, List.map_append, List.append_assoc, hitem, hitems, absorb_absorb hs]
      rfl

end

end Item

/-- However a file is spelled, a scan finds the targets of its items, and in each of them the
source lists that the assignments of its own body make up. -/
theorem scanTargets_of_spells (items : List Item) (text : String)
    (h : Spells (Item.lexemesOf items) text.toList) :
    scanTargets text = Item.targetsOf items := by
  have hstart : Scan.start.Sound := nofun
  have hnothing : Stops [] := nofun
  have hrun := Item.run_lexemesOf items hstart hnothing
  rw [List.append_nil, Scan.run_nil] at hrun
  rw [scanTargets, tokens_of_spells h, hrun]
  rfl

namespace Item

def sourcesWord : Identifier := ⟨'s', ['o', 'u', 'r', 'c', 'e', 's'], by decide, by decide⟩

/-- A library with a list, a conditional addition, a test inside it that takes its sources from a
call, and an assignment to a member of something else. -/
def nestedItems : List Item :=
  [.target ⟨'l', ['i', 'b'], by decide, by decide⟩ (by decide) ⟨['a'], by decide⟩
    [.assign [] sourcesWord .set
        (.list [.literal ⟨['x', '.', 'c'], by decide⟩, .comma,
          .nested [.literal ⟨['y', '.', 'c'], by decide⟩]]),
      .block (.call Header.ifWord (by decide)
          ⟨[.word ⟨'w', ['i', 'n'], by decide, by decide⟩], by decide, by decide, by decide⟩)
        [.assign [] sourcesWord .add (.list [.literal ⟨['z', '.', 'm'], by decide⟩])],
      .target ⟨'t', ['e', 's', 't'], by decide, by decide⟩ (by decide) ⟨['b'], by decide⟩
        [.assign [] sourcesWord .set
          (.phrase ⟨[.word ⟨'g', [], by decide, by decide⟩, .openParen, .closeParen], by decide,
            by decide, by decide⟩ (by decide))],
      .assign [⟨'o', [], by decide, by decide⟩] sourcesWord .set
        (.list [.literal ⟨['n', '.', 'c'], by decide⟩]),
      .assign [] sourcesWord .remove (.list [.literal ⟨['x', '.', 'c'], by decide⟩])]]

def nestedText : String :=
  " lib ( \"a\" ) \x7b sources = [ \"x.c\" , [ \"y.c\" ] ]" ++
    " if ( win ) \x7b sources += [ \"z.m\" ] \x7d" ++
    " test ( \"b\" ) \x7b sources = g ( ) \x7d" ++
    " o . sources = [ \"n.c\" ] sources -= [ \"x.c\" ] \x7d"

end Item

theorem scanTargets_of_spells_nested :
    Spells (Item.lexemesOf Item.nestedItems) Item.nestedText.toList ∧
      scanTargets Item.nestedText =
        [⟨"lib", "a", [["y.c", "z.m"]]⟩, ⟨"test", "b", [[]]⟩] := by
  have hspells : Spells (Item.lexemesOf Item.nestedItems) Item.nestedText.toList := by
    have hwritten := spells_written
      ((Item.lexemesOf Item.nestedItems).map fun l => ([.blank ' ' rfl], l)) []
      (by
        intro piece hpiece
        obtain ⟨l, -, rfl⟩ := List.mem_map.mp (List.mem_of_mem_tail hpiece)
        exact List.cons_ne_nil _ _)
    have htext : Item.nestedText = String.ofList
        (written ((Item.lexemesOf Item.nestedItems).map fun l => ([.blank ' ' rfl], l)) []) := by
      decide +kernel
    rwa [List.map_map, Function.comp_def, List.map_id', ← String.toList_ofList (l := written _ _),
      ← htext] at hwritten
  have htargets : Item.targetsOf Item.nestedItems =
      [⟨"lib", "a", [["y.c", "z.m"]]⟩, ⟨"test", "b", [[]]⟩] := by
    decide +kernel
  exact ⟨hspells, (scanTargets_of_spells Item.nestedItems Item.nestedText hspells).trans htargets⟩

end Hygiene.Gn
