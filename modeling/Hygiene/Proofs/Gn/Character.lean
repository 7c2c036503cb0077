import Mathlib
import Hygiene.Proofs.Gn.Move
import Hygiene.Proofs.Gn.Token

/-!
Bytes and characters of a build file. The lexer works on bytes, passes over the one behind a
backslash whatever it is, and takes each byte outside ASCII for a token of its own. Nevertheless it
cuts a text between characters only, and a scan finds what it would find in the tokens of a reader
that knows characters alone and takes each of them outside ASCII for one token.
-/

namespace Hygiene.Gn

def Token.range? : Token Span → Option Span
  | .word span => some span
  | .quoted span => some span
  | _ => none

namespace Lexer

def Mode.start? : Mode → Option Nat
  | .word start | .string start | .escape start => some start
  | _ => none

theorem range?_single (b : UInt8) : (single b).range? = none := by
  unfold single
  split_ifs <;> rfl

theorem range?_completed (b : UInt8) : (completed b).range? = none := by
  unfold completed
  split_ifs <;> rfl

theorem range?_of_mem_begin {position : Nat} {b : UInt8} {t : Token Span}
    (h : t ∈ (begin position b).2) : t.range? = none := by
  rw [begin] at h
  split at h
  · cases h
  split at h
  · cases h
  split at h
  · cases h
  split at h
  · cases h
  split at h
  · cases h
  · obtain rfl := List.mem_singleton.mp h
    exact range?_single b

/-- A range ends where the byte stands that ends it, and begins where what is being read began. -/
theorem range?_of_mem_step {mode : Mode} {position : Nat} {b : UInt8} {t : Token Span}
    {range : Span} (h : t ∈ (step mode position b).2) (hrange : t.range? = some range) :
    ∃ start, mode.start? = some start ∧ range = span start position := by
  have hbegin : t ∉ (begin position b).2 := by
    intro hmem
    rw [range?_of_mem_begin hmem] at hrange
    cases hrange
  cases mode with
  | between => exact absurd h hbegin
  | comment =>
      rw [step] at h
      split at h <;> cases h
  | word start =>
      rw [step] at h
      split at h
      · cases h
      · rcases List.mem_cons.mp h with rfl | hmem
        · exact ⟨start, rfl, (Option.some.inj hrange).symm⟩
        · exact absurd hmem hbegin
  | string start =>
      rw [step] at h
      split at h
      · cases h
      split at h
      · obtain rfl := List.mem_singleton.mp h
        exact ⟨start, rfl, (Option.some.inj hrange).symm⟩
      · cases h
  | escape start => cases h
  | operator first =>
      rw [step] at h
      split at h
      · obtain rfl := List.mem_singleton.mp h
        rw [range?_completed] at hrange
        cases hrange
      · rcases List.mem_cons.mp h with rfl | hmem
        · rw [range?_single] at hrange
          cases hrange
        · exact absurd hmem hbegin

/-- Bytes outside ASCII end nothing but at the first of them. -/
theorem range?_of_mem_feed_foreign {mode : Mode} {position : Nat} {b : UInt8} {bytes : List UInt8}
    (hforeign : ∀ a ∈ b :: bytes, 128 ≤ a.toNat) {t : Token Span} {range : Span}
    (h : t ∈ (feed mode position (b :: bytes)).2) (hrange : t.range? = some range) :
    ∃ start, mode.start? = some start ∧ range = span start position := by
  have hb := hforeign b (List.mem_cons_self ..)
  have hbytes : ∀ a ∈ bytes, 128 ≤ a.toNat := fun a ha => hforeign a (List.mem_cons_of_mem _ ha)
  obtain ⟨-, -, -, -, hquote, -, hequals, hbackslash, hnewline, hcontinues⟩ := plain_of_foreign hb
  -- The first byte ends whatever it can end, and what is begun behind it has no range.
  have hmore : t ∉ (feed (step mode position b).1 (position + 1) bytes).2 := by
    intro hmem
    have hother : t ∉ List.replicate bytes.length Token.other := by
      intro hmem
      rw [List.eq_of_mem_replicate hmem] at hrange
      cases hrange
    cases mode with
    | between =>
        rw [step, begin_foreign position hb, feed_between_foreign hbytes] at hmem
        exact hother hmem
    | comment =>
        rw [step, if_neg hnewline, feed_comment_foreign hbytes] at hmem
        cases hmem
    | word start =>
        rw [step, hcontinues, begin_foreign position hb] at hmem
        simp only [Bool.false_eq_true, if_false, feed_between_foreign hbytes] at hmem
        exact hother hmem
    | string start =>
        rw [step, if_neg hbackslash, if_neg hquote, feed_string_foreign hbytes] at hmem
        cases hmem
    | escape start =>
        rw [step, feed_string_foreign hbytes] at hmem
        cases hmem
    | operator first =>
        rw [step, if_neg hequals, begin_foreign position hb, feed_between_foreign hbytes] at hmem
        exact hother hmem
  rcases List.mem_append.mp h with hfirst | hmem
  · exact range?_of_mem_step hfirst hrange
  · exact absurd hmem hmore

end Lexer

namespace Reader

open String (utf8Len)

/-- A range of bytes that covers some of the characters. -/
def Covers (cs : List Char) (range : Span) : Prop :=
  ∃ front text rest, cs = front ++ text ++ rest ∧
    range = Lexer.span (utf8Len front) (utf8Len (front ++ text))

theorem Agree.exists_of_start? {before : List Char} {mode : Mode} {bytewise : Lexer.Mode}
    (h : Agree before mode bytewise) {start : Nat} (hstart : bytewise.start? = some start) :
    ∃ front text, before = front ++ text ∧ start = utf8Len front := by
  cases h with
  | word front text => exact ⟨front, text, rfl, (Option.some.inj hstart).symm⟩
  | string front text => exact ⟨front, text, rfl, (Option.some.inj hstart).symm⟩
  | escape front text => exact ⟨front, text, rfl, (Option.some.inj hstart).symm⟩
  | _ => cases hstart

theorem covers_of_mem_feed {before : List Char} {mode : Mode} {bytewise : Lexer.Mode}
    (hagree : Agree before mode bytewise) (c : Char) (rest : List Char) {t : Token Span}
    {range : Span}
    (h : t ∈ (Lexer.feed bytewise (utf8Len before) (String.utf8EncodeChar c)).2)
    (hrange : t.range? = some range) : Covers (before ++ c :: rest) range := by
  have hwhere : ∃ start, bytewise.start? = some start ∧
      range = Lexer.span start (utf8Len before) := by
    rcases Nat.lt_or_ge c.toNat 128 with hc | hc
    · rw [Text.Utf8.utf8EncodeChar_of_lt hc] at h
      simp only [Lexer.feed, List.append_nil] at h
      exact Lexer.range?_of_mem_step h hrange
    · have hforeign : ∀ b ∈ String.utf8EncodeChar c, 128 ≤ b.toNat :=
        fun _ hb => Text.Utf8.le_of_mem_utf8EncodeChar hc hb
      generalize String.utf8EncodeChar c = bytes at h hforeign
      cases bytes with
      | nil => cases h
      | cons b bytes => exact Lexer.range?_of_mem_feed_foreign hforeign h hrange
  obtain ⟨start, hstart, rfl⟩ := hwhere
  obtain ⟨front, text, rfl, rfl⟩ := hagree.exists_of_start? hstart
  exact ⟨front, text, c :: rest, rfl, rfl⟩

theorem covers_of_mem_finish {before : List Char} {mode : Mode} {bytewise : Lexer.Mode}
    (hagree : Agree before mode bytewise) {t : Token Span} {range : Span}
    (h : t ∈ Lexer.finish bytewise (utf8Len before)) (hrange : t.range? = some range) :
    Covers before range := by
  cases hagree with
  | word front text =>
      obtain rfl := List.mem_singleton.mp h
      obtain rfl := Option.some.inj hrange
      exact ⟨front, text, [], (List.append_nil _).symm, rfl⟩
  | operator _ hfirst =>
      obtain rfl := List.mem_singleton.mp h
      rw [Lexer.range?_single] at hrange
      cases hrange
  | _ => cases h

/-- To the end of the text, the lexer cuts between characters. -/
theorem covers_of_mem_run {before : List Char} {mode : Mode} {bytewise : Lexer.Mode}
    (hagree : Agree before mode bytewise) (rest : List Char) {t : Token Span} {range : Span}
    (h : t ∈ Lexer.run bytewise (utf8Len before) (rest.flatMap String.utf8EncodeChar))
    (hrange : t.range? = some range) : Covers (before ++ rest) range := by
  induction rest generalizing before mode bytewise with
  | nil =>
      rw [List.append_nil]
      exact covers_of_mem_finish hagree h hrange
  | cons c rest ih =>
      have hnext := (feed_agree (c := c) hagree rest).1
      rw [List.flatMap_cons, Lexer.run_append, utf8Len_snoc] at h
      rcases List.mem_append.mp h with hmem | hmem
      · exact covers_of_mem_feed hagree c rest hmem hrange
      · have hrest := ih hnext hmem
        rwa [List.append_assoc, List.singleton_append] at hrest

theorem Covers.isValid {cs : List Char} {range : Span} (h : Covers cs range) :
    range.start.IsValid (String.ofList cs) ∧ range.stop.IsValid (String.ofList cs) ∧
      range.start ≤ range.stop := by
  obtain ⟨front, text, rest, rfl, rfl⟩ := h
  have hend (cs : List Char) : (⟨utf8Len cs⟩ : String.Pos.Raw) = (String.ofList cs).rawEndPos :=
    (String.rawEndPos_ofList cs).symm
  refine ⟨?_, ?_, ?_⟩
  · refine String.Pos.Raw.isValid_iff_exists_append.mpr
      ⟨String.ofList front, String.ofList (text ++ rest), ?_, hend front⟩
    rw [← String.ofList_append, List.append_assoc]
  · refine String.Pos.Raw.isValid_iff_exists_append.mpr
      ⟨String.ofList (front ++ text), String.ofList rest, ?_, hend (front ++ text)⟩
    rw [← String.ofList_append]
  · rw [String.Pos.Raw.le_iff]
    exact String.utf8Len_le_of_prefix (List.prefix_append front text)

end Reader

namespace Scan

variable (afterDot : Bool)

/-- A front that has begun goes on with no token of no interest. -/
theorem move_append_other {t : Token String} {rest : List (Token String)}
    (hopen : ¬ OpensList afterDot (t :: rest)) (us : List (Token String)) :
    move afterDot t (rest ++ .other :: us) = (move afterDot t rest).append (.other :: us) := by
  by_cases hbegun : Begun (t :: rest)
  · have hnext (w : String) (u : Token String) (tail : List (Token String))
        (hheader : header? (.word w :: u :: tail) = none)
        (hop : Assignment.ofToken? u = none) :
        move afterDot (.word w) (u :: tail) = ⟨none, false, u :: tail⟩ := by
      refine move_skip afterDot hheader (Or.inr (sourcesAssignment?_of_next ?_))
      rintro t ⟨⟩
      exact hop
    cases hbegun with
    | word w =>
        have hfront : move afterDot (.word w) [] = ⟨none, false, []⟩ :=
          move_skip afterDot rfl (Or.inr rfl)
        rw [hfront]
        exact hnext w .other us rfl rfl
    | call w =>
        rw [hnext w .openParen [] rfl rfl]
        exact hnext w .openParen (.other :: us) rfl rfl
    | named w name =>
        rw [hnext w .openParen [.quoted name] rfl rfl]
        exact hnext w .openParen (.quoted name :: .other :: us) rfl rfl
    | called w name =>
        rw [hnext w .openParen [.quoted name, .closeParen] rfl rfl]
        exact hnext w .openParen (.quoted name :: .closeParen :: .other :: us) rfl rfl
    | @assigned t op hop =>
        have hheader := header?_of_assignment hop "sources"
        cases afterDot with
        | true =>
            rw [move_skip true (hheader _) (Or.inl rfl)]
            exact move_skip true (hheader _) (Or.inl rfl)
        | false =>
            rw [move_assign hop]
            exact move_assign hop _
  · exact move_append afterDot hbegun hopen _

/-- Of two tokens of no interest that stand together, one does not matter. -/
theorem actions_other_other (ts us : List (Token String)) :
    actions afterDot (ts ++ .other :: .other :: us) = actions afterDot (ts ++ .other :: us) := by
  induction afterDot, ts using actions.induct with
  | case1 afterDot =>
      have hskip (afterDot : Bool) (us : List (Token String)) :
          actions afterDot (.other :: us) = actions false us := actions_cons afterDot .other us
      rw [List.nil_append, List.nil_append, hskip, hskip, hskip]
  | case2 afterDot t rest _ ih =>
      rw [List.cons_append, List.cons_append, actions_cons, actions_cons]
      by_cases hopen : OpensList afterDot (t :: rest)
      · obtain ⟨op, items, deeper, hmove⟩ := move_append_of_opensList afterDot hopen
        rw [hmove, hmove]
        rfl
      · rw [move_append_other afterDot hopen, move_append_other afterDot hopen]
        exact congrArg (_ ++ ·) ih

theorem actions_replicate_other (n : Nat) (ts us : List (Token String)) :
    actions afterDot (ts ++ (List.replicate (n + 1) .other ++ us)) =
      actions afterDot (ts ++ .other :: us) := by
  induction n with
  | zero => rfl
  | succ n ih =>
      rw [List.replicate_succ, List.replicate_succ, List.cons_append, List.cons_append,
        actions_other_other]
      exact ih

end Scan

namespace Reader

/-- Only where a character outside ASCII begins nothing does it matter for how much it counts. -/
theorem begin_cases (c : Char) :
    ∃ next found, (∀ others, begin others c = (next, found)) ∨
      ∀ others, begin others c = (next, List.replicate (others c) .other) := by
  simp only [begin]
  split_ifs <;> first | exact ⟨_, _, Or.inl fun _ => rfl⟩ | exact ⟨_, [], Or.inr fun _ => rfl⟩

theorem step_cases (mode : Mode) (c : Char) :
    ∃ next found, (∀ others, step others mode c = (next, found)) ∨
      ∀ others, step others mode c = (next, found ++ List.replicate (others c) .other) := by
  obtain ⟨next, found, hbegin⟩ := begin_cases c
  have hbehind (ended : List (Token String)) :
      ∃ next found,
        (∀ others, ((begin others c).1, ended ++ (begin others c).2) = (next, found)) ∨
        ∀ others, ((begin others c).1, ended ++ (begin others c).2) =
          (next, found ++ List.replicate (others c) .other) := by
    rcases hbegin with hbegin | hbegin
    · exact ⟨next, ended ++ found, Or.inl fun others => by rw [hbegin]⟩
    · exact ⟨next, ended, Or.inr fun others => by rw [hbegin]⟩
  cases mode with
  | between => exact hbehind []
  | comment => exact ⟨_, _, Or.inl fun _ => rfl⟩
  | word text =>
      by_cases hc : continuesWord c = true
      · exact ⟨.word (text ++ [c]), [], Or.inl fun _ => by rw [step, if_pos hc]⟩
      · simp only [step, if_neg hc]
        exact hbehind [.word (String.ofList text)]
  | string text => exact ⟨_, _, Or.inl fun _ => rfl⟩
  | escape text => exact ⟨_, _, Or.inl fun _ => rfl⟩
  | operator first =>
      by_cases hc : c = '='
      · exact ⟨.between, [completed first], Or.inl fun _ => by rw [step, if_pos hc]⟩
      · simp only [step, if_neg hc]
        exact hbehind [single first]

/-- What a stray character counts for does not matter to what is called for. The induction goes
over the characters, with everything that was read before in front. -/
theorem actions_run (others : Char → Nat) (hothers : ∀ c, 0 < others c) (afterDot : Bool)
    (front : List (Token String)) (mode : Mode) (cs : List Char) :
    Scan.actions afterDot (front ++ run others mode cs) =
      Scan.actions afterDot (front ++ run (fun _ => 1) mode cs) := by
  induction cs generalizing front mode with
  | nil => rfl
  | cons c cs ih =>
      obtain ⟨next, found, hstep | hstep⟩ := step_cases mode c
      · rw [run, run, hstep, hstep, ← List.append_assoc, ih, List.append_assoc]
      · obtain ⟨n, hn⟩ := Nat.exists_eq_add_one_of_ne_zero (hothers c).ne'
        have hmany := Scan.actions_replicate_other afterDot n (front ++ found)
        have hone := Scan.actions_replicate_other afterDot 0 (front ++ found)
        simp only [run, hstep, hn, ← List.append_assoc] at hmany hone ⊢
        rw [ih, hmany, hone]

end Reader

/-- The tokens of a text as a reader of characters finds them: a backslash in a string literal
takes the character behind it along, and a character outside ASCII that belongs to no literal and
no comment is one token. -/
def characterTokens (text : String) : List (Token String) :=
  Reader.run (fun _ => 1) .between text.toList

/-- The lexer cuts a text between characters only, and a scan finds in its tokens what it finds in
those of a reader of characters. -/
theorem scanTargets_characterwise (text : String) :
    (∀ t ∈ spans text, ∀ range, t.range? = some range →
        range.start.IsValid text ∧ range.stop.IsValid text ∧ range.start ≤ range.stop) ∧
      scanTargets text = (Scan.start.run false (characterTokens text)).targets := by
  constructor
  · intro t ht range hrange
    rw [spans, Text.Utf8.toList_toUTF8] at ht
    have hcovers := Reader.covers_of_mem_run (.between []) text.toList ht hrange
    have hvalid := hcovers.isValid
    rwa [List.nil_append, String.ofList_toList] at hvalid
  · have hactions := Reader.actions_run Char.utf8Size Char.utf8Size_pos false [] .between
      text.toList
    rw [List.nil_append, List.nil_append, ← tokens_eq_run] at hactions
    rw [scanTargets, Scan.run_eq_foldl, Scan.run_eq_foldl, hactions]
    rfl

/-- A library whose name has an escape of a character of two bytes, and another such character
between its tokens. -/
def accentedText : String := "é lib(\"a\\é\") \x7b sources = [ \"ü.c\" ] \x7d"

/-- The tokens differ, the targets do not; and the name of the library is cut out of the text in
front of its closing quote, not in the middle of the character there. -/
theorem scanTargets_characterwise_accented :
    Token.quoted (Lexer.span 8 12) ∈ spans accentedText ∧
      (Lexer.span 8 12).stop.IsValid accentedText ∧
      ¬ String.Pos.Raw.IsValid accentedText ⟨11⟩ ∧
      tokens accentedText = .other :: characterTokens accentedText ∧
      scanTargets accentedText = [⟨"lib", "a\\é", [["ü.c"]]⟩] := by
  have hmem : Token.quoted (Lexer.span 8 12) ∈ spans accentedText := by
    have hspans : spans accentedText =
        [.other, .other, .word (Lexer.span 3 6), .openParen, .quoted (Lexer.span 8 12), .closeParen,
          .openBrace, .word (Lexer.span 17 24), .assign, .openBracket,
          .quoted (Lexer.span 30 34), .closeBracket, .closeBrace] := by
      cbv
    rw [hspans]
    decide
  obtain ⟨hvalid, htargets⟩ := scanTargets_characterwise accentedText
  have hcharacters : (Scan.start.run false (characterTokens accentedText)).targets =
      [⟨"lib", "a\\é", [["ü.c"]]⟩] := by
    cbv
  exact ⟨hmem, (hvalid _ hmem _ rfl).2.1, by decide, by cbv, htargets.trans hcharacters⟩

end Hygiene.Gn
