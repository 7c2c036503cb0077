import Mathlib.Tactic
import Hygiene.Proofs.Gn.Lexeme

/-!
What the end of a text is in the middle of. A string literal that is never closed yields nothing,
and neither does anything behind the quote that opens it. Everything else is over at the next line
feed, so texts that end outside string literals can be put on lines of their own.
-/

namespace Hygiene.Gn

namespace Lexer

def Mode.inString : Mode → Bool
  | .string _ | .escape _ => true
  | _ => false

def Mode.opensString : Mode → Bool
  | .between | .word _ | .operator _ => true
  | _ => false

theorem feed_append (mode : Mode) (position : Nat) (front rest : List UInt8) :
    feed mode position (front ++ rest) =
      ((feed (feed mode position front).1 (position + front.length) rest).1,
        (feed mode position front).2 ++
          (feed (feed mode position front).1 (position + front.length) rest).2) := by
  induction front generalizing mode position with
  | nil => rfl
  | cons b front ih =>
      have hlength : position + 1 + front.length = position + (b :: front).length := by
        rw [List.length_cons]
        omega
      simp only [List.cons_append, feed, ih, hlength, List.append_assoc]

def modeBehind (text : String) : Mode := (feed .between 0 text.toUTF8.toList).1

end Lexer

/-- The string literal in which the characters stand is not closed by any of them. -/
def Unclosed (inside : List Char) : Prop :=
  ∀ body rest, inside = body ++ '"' :: rest → isBody body = false

/-- A text ends in a string literal: `front` stands before the quote that opens it, and `inside`
behind that quote. -/
structure EndsInString (text front inside : String) : Prop where
  split : text = front ++ "\"" ++ inside
  opens : (Lexer.modeBehind front).opensString = true
  unclosed : Unclosed inside.toList

theorem isBody_append {body : List Char} (h : isBody body = true) (rest : List Char) :
    isBody (body ++ rest) = isBody rest := by
  induction body using isBody.induct with
  | case1 => rfl
  | case2 => simp [isBody] at h
  | case3 escaped body ih =>
      have hbody : isBody body = true := (isBody_escape escaped body).symm.trans h
      exact (isBody_escape escaped (body ++ rest)).trans (ih hbody)
  | case4 c body hc ih =>
      have hbody : c ≠ '"' ∧ isBody body = true := by
        rwa [isBody_cons hc, Bool.and_eq_true, bne_iff_ne] at h
      rw [List.cons_append, isBody_cons hc, bne_iff_ne.mpr hbody.1, Bool.true_and, ih hbody.2]

theorem unclosed_of_isBody {body : List Char} (h : isBody body = true) : Unclosed body := by
  rintro front rest rfl
  by_contra hfront
  rw [isBody_append (Bool.not_eq_false _ ▸ hfront), isBody_cons (by decide)] at h
  cases h

/-- A backslash at the end closes nothing. -/
theorem unclosed_append_backslash {body : List Char} (h : isBody body = true) :
    Unclosed (body ++ ['\\']) := by
  intro front rest heq
  rcases List.eq_nil_or_concat rest with rfl | ⟨rest, last, rfl⟩
  · have hlast := congrArg List.getLast? heq
    simp at hlast
  · have hbody : body = front ++ '"' :: rest := by
      rw [List.concat_eq_append, ← List.cons_append, ← List.append_assoc] at heq
      exact (List.append_inj' heq rfl).1
    exact unclosed_of_isBody h front rest hbody

namespace Reader

variable (others : Char → Nat)

def Mode.inString : Mode → Bool
  | .string _ | .escape _ => true
  | _ => false

def Mode.opensString : Mode → Bool
  | .between | .word _ | .operator _ => true
  | _ => false

def feed (mode : Mode) : List Char → Mode × List (Token String)
  | [] => (mode, [])
  | c :: rest =>
      let (next, tokens) := step others mode c
      let (last, more) := feed next rest
      (last, tokens ++ more)

theorem run_append (mode : Mode) (front rest : List Char) :
    run others mode (front ++ rest) =
      (feed others mode front).2 ++ run others (feed others mode front).1 rest := by
  induction front generalizing mode with
  | nil => rfl
  | cons c front ih => simp only [List.cons_append, run, feed, ih, List.append_assoc]

theorem run_eq_feed (mode : Mode) (cs : List Char) :
    run others mode cs = (feed others mode cs).2 ++ finish (feed others mode cs).1 := by
  have hrun := run_append others mode cs []
  rwa [List.append_nil] at hrun

theorem mode_feed_append (mode : Mode) (front rest : List Char) :
    (feed others mode (front ++ rest)).1 = (feed others (feed others mode front).1 rest).1 := by
  induction front generalizing mode with
  | nil => rfl
  | cons c front ih => exact ih _

def Accounts (before : List Char) : Mode → Prop
  | .string text => ∃ front, before = front ++ '"' :: text ∧
      (feed others .between front).1.opensString = true ∧ isBody text = true
  | .escape text => ∃ front body, text = body ++ ['\\'] ∧ before = front ++ '"' :: text ∧
      (feed others .between front).1.opensString = true ∧ isBody body = true
  | .operator first => beginsOperator first = true
  | _ => True

variable {others}

theorem accounts_begin {before : List Char}
    (hopens : (feed others .between before).1.opensString = true) (c : Char) :
    Accounts others (before ++ [c]) (begin others c).1 := by
  rw [begin]
  split
  · trivial
  split
  next hquote =>
    subst hquote
    exact ⟨before, rfl, hopens, rfl⟩
  split
  · trivial
  split
  · trivial
  split
  next hoperator => exact hoperator
  next => split <;> trivial

theorem accounts_step {before : List Char} {mode : Mode}
    (hmode : (feed others .between before).1 = mode)
    (h : Accounts others before mode) (c : Char) :
    Accounts others (before ++ [c]) (step others mode c).1 := by
  have hbegin (hopens : mode.opensString = true) :
      Accounts others (before ++ [c]) (begin others c).1 :=
    accounts_begin (hmode ▸ hopens) c
  cases mode with
  | between => exact hbegin rfl
  | comment =>
      rw [step]
      split <;> trivial
  | word text =>
      rw [step]
      split
      · trivial
      · exact hbegin rfl
  | string text =>
      obtain ⟨front, rfl, hopens, hbody⟩ := h
      rw [step]
      split
      next hc =>
        subst hc
        exact ⟨front, text, rfl, by rw [List.append_assoc]; rfl, hopens, hbody⟩
      next hc =>
        split
        · trivial
        next hquote =>
          refine ⟨front, by rw [List.append_assoc]; rfl, hopens, ?_⟩
          rw [isBody_append hbody, isBody_cons hc, bne_iff_ne.mpr hquote]
          rfl
  | escape text =>
      obtain ⟨front, body, rfl, rfl, hopens, hbody⟩ := h
      refine ⟨front, by rw [List.append_assoc]; rfl, hopens, ?_⟩
      rw [List.append_assoc, isBody_append hbody]
      exact isBody_escape c []
  | operator first =>
      rw [step]
      split
      · trivial
      · exact hbegin rfl

theorem accounts_feed (others : Char → Nat) (cs : List Char) :
    Accounts others cs (feed others .between cs).1 := by
  induction cs using List.reverseRecOn with
  | nil => trivial
  | append_singleton cs c ih =>
      rw [mode_feed_append]
      exact accounts_step rfl ih c

variable (others)

/-- A string literal that is not closed is read to the end of the text, and yields nothing. -/
theorem feed_string_of_unclosed (text : List Char) {inside : List Char} (h : Unclosed inside) :
    (feed others (.string text) inside).1.inString = true ∧
      (feed others (.string text) inside).2 = [] := by
  induction inside using isBody.induct generalizing text with
  | case1 => exact ⟨rfl, rfl⟩
  | case2 => exact ⟨rfl, rfl⟩
  | case3 escaped inside ih =>
      have hinside : Unclosed inside := by
        rintro body rest rfl
        have hbody := h ('\\' :: escaped :: body) rest rfl
        rwa [isBody_escape] at hbody
      exact ih _ hinside
  | case4 c inside hc ih =>
      have hquote : c ≠ '"' := by
        rintro rfl
        cases h [] inside rfl
      have hinside : Unclosed inside := by
        rintro body rest rfl
        have hbody := h (c :: body) rest rfl
        rwa [isBody_cons hc, bne_iff_ne.mpr hquote, Bool.true_and] at hbody
      have hstep : step others (.string text) c = (.string (text ++ [c]), []) := by
        rw [step, if_neg hc, if_neg hquote]
      rw [feed, hstep]
      exact ih _ hinside

/-- What is being read in front of a quote is over there. -/
theorem step_quote {mode : Mode} (h : mode.opensString = true) :
    step others mode '"' = (.string [], finish mode) := by
  cases mode with
  | between => rfl
  | word text => rfl
  | operator first => rfl
  | _ => cases h

theorem finish_of_inString {mode : Mode} (h : mode.inString = true) : finish mode = [] := by
  cases mode with
  | string text => rfl
  | escape text => rfl
  | _ => cases h

/-- Outside string literals, what is being read is over at the end of the line. -/
theorem run_newline {mode : Mode} (h : mode.inString = false) (rest : List Char) :
    run others mode ('\n' :: rest) = finish mode ++ run others .between rest := by
  cases mode with
  | between => rfl
  | comment => rfl
  | word text => rfl
  | operator first => rfl
  | _ => cases h

/-- The end of a text completes no brace and no bracket. -/
theorem plain_of_mem_finish {before : List Char} {mode : Mode}
    (h : Accounts others before mode) {t : Token String} (ht : t ∈ finish mode) :
    t ≠ .openBrace ∧ t ≠ .closeBracket := by
  cases mode with
  | word text =>
      obtain rfl := List.mem_singleton.mp ht
      exact ⟨nofun, nofun⟩
  | operator first =>
      obtain rfl := List.mem_singleton.mp ht
      have hfirst : beginsOperator first = true := h
      simp only [beginsOperator, Bool.or_eq_true, beq_iff_eq] at hfirst
      rcases hfirst with ((((rfl | rfl) | rfl) | rfl) | rfl) | rfl <;> decide
  | _ => cases ht

open String (utf8Len)

theorem feed_agree_all {before : List Char} {mode : Mode} {bytewise : Lexer.Mode}
    (hagree : Agree before mode bytewise) (cs : List Char) :
    Agree (before ++ cs) (feed Char.utf8Size mode cs).1
      (Lexer.feed bytewise (utf8Len before) (cs.flatMap String.utf8EncodeChar)).1 := by
  induction cs generalizing before mode bytewise with
  | nil =>
      rw [List.append_nil]
      exact hagree
  | cons c cs ih =>
      have hnext := (feed_agree (c := c) hagree cs).1
      have hrest := ih hnext
      rw [List.append_assoc, List.singleton_append] at hrest
      rw [List.flatMap_cons, Lexer.feed_append, utf8Len_snoc]
      exact hrest

/-- The reader leaves a text in the mode in which the lexer leaves it. -/
theorem agree_modeBehind (text : String) :
    Agree text.toList (feed Char.utf8Size .between text.toList).1 (Lexer.modeBehind text) := by
  have hagree := feed_agree_all (Agree.between []) text.toList
  rw [Lexer.modeBehind, Text.Utf8.toList_toUTF8]
  exact hagree

theorem Agree.inString_eq {before : List Char} {mode : Mode} {bytewise : Lexer.Mode}
    (h : Agree before mode bytewise) : bytewise.inString = mode.inString := by
  cases h <;> rfl

theorem Agree.opensString_eq {before : List Char} {mode : Mode} {bytewise : Lexer.Mode}
    (h : Agree before mode bytewise) : bytewise.opensString = mode.opensString := by
  cases h <;> rfl

end Reader

namespace EndsInString

variable {text front inside : String}

theorem toList_eq (h : EndsInString text front inside) :
    text.toList = front.toList ++ '"' :: inside.toList := by
  rw [h.split, String.toList_append, String.toList_append, List.append_assoc]
  rfl

theorem opens_reader (h : EndsInString text front inside) :
    (Reader.feed Char.utf8Size .between front.toList).1.opensString = true := by
  rw [← (Reader.agree_modeBehind front).opensString_eq]
  exact h.opens

/-- Nothing behind the quote is read as a token. -/
theorem tokens_eq (h : EndsInString text front inside) : tokens text = tokens front := by
  have hquote := Reader.step_quote Char.utf8Size h.opens_reader
  obtain ⟨hmode, hnone⟩ := Reader.feed_string_of_unclosed Char.utf8Size [] h.unclosed
  rw [tokens_eq_run, tokens_eq_run, h.toList_eq, Reader.run_append,
    Reader.run_eq_feed _ _ front.toList, Reader.run, hquote, Reader.run_eq_feed, hnone,
    Reader.finish_of_inString hmode, List.append_nil, List.append_nil]

end EndsInString

/-- A text ends in a string literal when the lexer is inside one behind it. -/
theorem exists_endsInString_iff (text : String) :
    (∃ front inside, EndsInString text front inside) ↔
      (Lexer.modeBehind text).inString = true := by
  have hagree := Reader.agree_modeBehind text
  rw [hagree.inString_eq]
  constructor
  · rintro ⟨front, inside, h⟩
    have hquote := Reader.step_quote Char.utf8Size h.opens_reader
    rw [h.toList_eq, Reader.mode_feed_append, Reader.feed, hquote]
    exact (Reader.feed_string_of_unclosed Char.utf8Size [] h.unclosed).1
  · intro h
    -- The mode accounts for the place where the literal began.
    have haccounts := Reader.accounts_feed Char.utf8Size text.toList
    have hplace (front inside : List Char) (hsplit : text.toList = front ++ '"' :: inside)
        (hopens : (Reader.feed Char.utf8Size .between front).1.opensString = true)
        (hunclosed : Unclosed inside) :
        EndsInString text (String.ofList front) (String.ofList inside) := by
      refine ⟨?_, ?_, ?_⟩
      · rw [← String.toList_inj, String.toList_append, String.toList_append, hsplit,
          List.append_assoc]
        simp only [String.toList_ofList]
        rfl
      · rw [(Reader.agree_modeBehind (String.ofList front)).opensString_eq,
          String.toList_ofList]
        exact hopens
      · rw [String.toList_ofList]
        exact hunclosed
    generalize (Reader.feed Char.utf8Size .between text.toList).1 = mode at h haccounts
    cases mode with
    | string inside =>
        obtain ⟨front, hsplit, hopens, hbody⟩ := haccounts
        exact ⟨_, _, hplace front inside hsplit hopens (unclosed_of_isBody hbody)⟩
    | escape inside =>
        obtain ⟨front, body, rfl, hsplit, hopens, hbody⟩ := haccounts
        exact ⟨_, _, hplace front _ hsplit hopens (unclosed_append_backslash hbody)⟩
    | _ => cases h

/-- A text that ends outside string literals is read by itself when a line feed follows it. -/
theorem tokens_append_newline {front : String} (h : (Lexer.modeBehind front).inString = false)
    (rest : String) : tokens (front ++ "\n" ++ rest) = tokens front ++ tokens rest := by
  have hlist : (front ++ "\n" ++ rest).toList = front.toList ++ '\n' :: rest.toList := by
    rw [String.toList_append, String.toList_append, List.append_assoc]
    rfl
  rw [(Reader.agree_modeBehind front).inString_eq] at h
  rw [tokens_eq_run, tokens_eq_run, tokens_eq_run, hlist, Reader.run_append,
    Reader.run_newline _ h, Reader.run_eq_feed _ _ front.toList, List.append_assoc]

/-- Where a text is cut, its tokens part: those in front of the cut are the same, and the cut
itself completes no brace and no bracket. -/
theorem tokens_append (front rest : String) :
    ∃ common cut more, tokens front = common ++ cut ∧ tokens (front ++ rest) = common ++ more ∧
      ∀ t ∈ cut, t ≠ .openBrace ∧ t ≠ .closeBracket := by
  have haccounts := Reader.accounts_feed Char.utf8Size front.toList
  have hfront := Reader.run_eq_feed Char.utf8Size .between front.toList
  have hwhole := Reader.run_append Char.utf8Size .between front.toList rest.toList
  rw [← tokens_eq_run] at hfront
  rw [← String.toList_append, ← tokens_eq_run] at hwhole
  exact ⟨_, _, _, hfront, hwhole, fun t ht => Reader.plain_of_mem_finish _ haccounts ht⟩

end Hygiene.Gn
