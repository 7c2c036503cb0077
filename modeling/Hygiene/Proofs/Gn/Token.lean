import Mathlib.Tactic
import Mathlib.Data.String.Basic
import Hygiene.Gn.Token
import Hygiene.Proofs.Text.Utf8

/-!
The tokens of a text, read from its characters. The lexer sees bytes and cuts its words and string
literals out of the text by position; the reader below sees characters and carries along what it
has read. Both find the same tokens. The one place where the bytes show is a character outside
ASCII that is part of no string literal and no comment: it counts once for each of its bytes, and
the reader takes that count as a parameter.
-/

namespace Hygiene.Gn

namespace Lexer

/-- What the lexer emits over some bytes, and the mode that it is in behind them. -/
def feed (mode : Mode) (position : Nat) : List UInt8 → Mode × List (Token Span)
  | [] => (mode, [])
  | b :: rest =>
      let (next, tokens) := step mode position b
      let (last, more) := feed next (position + 1) rest
      (last, tokens ++ more)

theorem run_append (mode : Mode) (position : Nat) (front rest : List UInt8) :
    run mode position (front ++ rest) =
      (feed mode position front).2 ++
        run (feed mode position front).1 (position + front.length) rest := by
  induction front generalizing mode position with
  | nil => rfl
  | cons b front ih =>
      have hlength : position + 1 + front.length = position + (b :: front).length := by
        rw [List.length_cons]
        omega
      simp only [List.cons_append, run, feed, ih, hlength, List.append_assoc]

/-- No byte outside ASCII has a meaning of its own. -/
theorem plain_of_foreign {b : UInt8} (h : 128 ≤ b.toNat) :
    beginsWord b = false ∧ isBlank b = false ∧ beginsOperator b = false ∧ single b = .other ∧
      b ≠ 34 ∧ b ≠ 35 ∧ b ≠ 61 ∧ b ≠ 92 ∧ b ≠ 10 ∧ continuesWord b = false := by
  have htable : ∀ n : Fin 256, 128 ≤ n.val →
      beginsWord (UInt8.ofNat n) = false ∧ isBlank (UInt8.ofNat n) = false ∧
        beginsOperator (UInt8.ofNat n) = false ∧ single (UInt8.ofNat n) = .other ∧
        UInt8.ofNat n ≠ 34 ∧ UInt8.ofNat n ≠ 35 ∧ UInt8.ofNat n ≠ 61 ∧ UInt8.ofNat n ≠ 92 ∧
        UInt8.ofNat n ≠ 10 ∧ continuesWord (UInt8.ofNat n) = false := by
    decide +kernel
  have hb := htable ⟨b.toNat, UInt8.toNat_lt b⟩ h
  rwa [UInt8.ofNat_toNat] at hb

theorem begin_foreign (position : Nat) {b : UInt8} (h : 128 ≤ b.toNat) :
    begin position b = (.between, [.other]) := by
  obtain ⟨hword, hblank, hoperator, hsingle, hquote, hhash, -⟩ := plain_of_foreign h
  simp only [begin, if_neg hhash, if_neg hquote, hword, hblank, hoperator, hsingle,
    Bool.false_eq_true, if_false]

variable {bytes : List UInt8} (hforeign : ∀ b ∈ bytes, 128 ≤ b.toNat) (position : Nat)
include hforeign

/-- Between tokens, each byte outside ASCII is a token. -/
theorem feed_between_foreign :
    feed .between position bytes = (.between, List.replicate bytes.length .other) := by
  induction bytes generalizing position with
  | nil => rfl
  | cons b bytes ih =>
      have hb := begin_foreign position (hforeign b (List.mem_cons_self ..))
      have hrest := ih (fun b hb => hforeign b (List.mem_cons_of_mem _ hb)) (position + 1)
      simp only [feed, step, hb, hrest, List.length_cons, List.replicate_succ,
        List.singleton_append]

/-- Inside a comment they are passed over. -/
theorem feed_comment_foreign : feed .comment position bytes = (.comment, []) := by
  induction bytes generalizing position with
  | nil => rfl
  | cons b bytes ih =>
      have hb := plain_of_foreign (hforeign b (List.mem_cons_self ..))
      have hrest := ih (fun b hb => hforeign b (List.mem_cons_of_mem _ hb)) (position + 1)
      simp only [feed, step, hb, hrest, if_false, List.append_nil]

/-- Inside a string literal they belong to its text. -/
theorem feed_string_foreign (start : Nat) :
    feed (.string start) position bytes = (.string start, []) := by
  induction bytes generalizing position with
  | nil => rfl
  | cons b bytes ih =>
      have hb := plain_of_foreign (hforeign b (List.mem_cons_self ..))
      have hrest := ih (fun b hb => hforeign b (List.mem_cons_of_mem _ hb)) (position + 1)
      simp only [feed, step, hb, hrest, if_false, List.append_nil]

end Lexer

namespace Reader

/-- What the reader is in the middle of, with what it has read of it. -/
inductive Mode where
  | between
  | comment
  | word (text : List Char)
  | string (text : List Char)
  | escape (text : List Char)
  | operator (first : Char)

def beginsWord (c : Char) : Bool :=
  c.isAlpha || c == '_'

def continuesWord (c : Char) : Bool :=
  c.isAlphanum || c == '_'

def isBlank (c : Char) : Bool :=
  c == '\t' || c == '\n' || c == '\x0c' || c == '\r' || c == ' '

def beginsOperator (c : Char) : Bool :=
  c == '+' || c == '-' || c == '=' || c == '!' || c == '<' || c == '>'

def single (c : Char) : Token String :=
  if c = '(' then .openParen
  else if c = ')' then .closeParen
  else if c = '\x7b' then .openBrace
  else if c = '\x7d' then .closeBrace
  else if c = '[' then .openBracket
  else if c = ']' then .closeBracket
  else if c = '.' then .dot
  else if c = '=' then .assign
  else .other

def completed (c : Char) : Token String :=
  if c = '+' then .addAssign
  else if c = '-' then .subAssign
  else .other

variable (others : Char → Nat)

/-- Reads a character in the middle of nothing. One outside ASCII yields `others` tokens. -/
def begin (c : Char) : Mode × List (Token String) :=
  if c = '#' then (.comment, [])
  else if c = '"' then (.string [], [])
  else if beginsWord c then (.word [c], [])
  else if isBlank c then (.between, [])
  else if beginsOperator c then (.operator c, [])
  else if c.toNat < 128 then (.between, [single c])
  else (.between, List.replicate (others c) .other)

def step (mode : Mode) (c : Char) : Mode × List (Token String) :=
  match mode with
  | .between => begin others c
  | .comment => if c = '\n' then (.between, []) else (.comment, [])
  | .word text =>
      if continuesWord c then (.word (text ++ [c]), [])
      else ((begin others c).1, .word (String.ofList text) :: (begin others c).2)
  | .string text =>
      if c = '\\' then (.escape (text ++ [c]), [])
      else if c = '"' then (.between, [.quoted (String.ofList text)])
      else (.string (text ++ [c]), [])
  | .escape text => (.string (text ++ [c]), [])
  | .operator first =>
      if c = '=' then (.between, [completed first])
      else ((begin others c).1, single first :: (begin others c).2)

def finish : Mode → List (Token String)
  | .word text => [.word (String.ofList text)]
  | .operator first => [single first]
  | _ => []

def run (mode : Mode) : List Char → List (Token String)
  | [] => finish mode
  | c :: rest => (step others mode c).2 ++ run (step others mode c).1 rest

/-- The bytes of two characters of ASCII agree only when the characters do. -/
theorem byte_eq_iff {c d : Char} (hc : c.toNat < 128) (hd : d.toNat < 128) {b : UInt8}
    (hb : UInt8.ofNat d.toNat = b) : UInt8.ofNat c.toNat = b ↔ c = d := by
  subst hb
  constructor
  · intro h
    have hcodes := congrArg UInt8.toNat h
    simp only [UInt8.toNat_ofNat'] at hcodes
    have hequal : c.toNat = d.toNat := by omega
    exact Char.toNat_inj.mp hequal
  · rintro rfl
    rfl

section Ascii

variable {c : Char} (hc : c.toNat < 128)
include hc

/-- The lexer and the reader sort the characters of ASCII in the same way. -/
theorem classes_eq :
    Lexer.beginsWord (UInt8.ofNat c.toNat) = beginsWord c ∧
      Lexer.continuesWord (UInt8.ofNat c.toNat) = continuesWord c ∧
      Lexer.isBlank (UInt8.ofNat c.toNat) = isBlank c ∧
      Lexer.beginsOperator (UInt8.ofNat c.toNat) = beginsOperator c := by
  have htable : ∀ n : Fin 128,
      Lexer.beginsWord (UInt8.ofNat n) = beginsWord (Char.ofNat n) ∧
        Lexer.continuesWord (UInt8.ofNat n) = continuesWord (Char.ofNat n) ∧
        Lexer.isBlank (UInt8.ofNat n) = isBlank (Char.ofNat n) ∧
        Lexer.beginsOperator (UInt8.ofNat n) = beginsOperator (Char.ofNat n) := by
    decide +kernel
  have hrow := htable ⟨c.toNat, hc⟩
  rwa [Char.ofNat_toNat] at hrow

theorem map_single (f : Span → String) :
    (Lexer.single (UInt8.ofNat c.toNat)).map f = single c := by
  have hopenParen := byte_eq_iff hc (d := '(') (by decide) (b := 40) rfl
  have hcloseParen := byte_eq_iff hc (d := ')') (by decide) (b := 41) rfl
  have hopenBrace := byte_eq_iff hc (d := '\x7b') (by decide) (b := 123) rfl
  have hcloseBrace := byte_eq_iff hc (d := '\x7d') (by decide) (b := 125) rfl
  have hopenBracket := byte_eq_iff hc (d := '[') (by decide) (b := 91) rfl
  have hcloseBracket := byte_eq_iff hc (d := ']') (by decide) (b := 93) rfl
  have hdot := byte_eq_iff hc (d := '.') (by decide) (b := 46) rfl
  have hassign := byte_eq_iff hc (d := '=') (by decide) (b := 61) rfl
  simp only [Lexer.single, single, hopenParen, hcloseParen, hopenBrace, hcloseBrace,
    hopenBracket, hcloseBracket, hdot, hassign, apply_ite (Token.map f)]
  rfl

theorem map_completed (f : Span → String) :
    (Lexer.completed (UInt8.ofNat c.toNat)).map f = completed c := by
  have hadd := byte_eq_iff hc (d := '+') (by decide) (b := 43) rfl
  have hsub := byte_eq_iff hc (d := '-') (by decide) (b := 45) rfl
  simp only [Lexer.completed, completed, hadd, hsub, apply_ite (Token.map f)]
  rfl

end Ascii

open String (utf8Len)

/-- The lexer and the reader are at the same place of a text, behind the characters `before`. -/
inductive Agree : List Char → Mode → Lexer.Mode → Prop where
  | between (before : List Char) : Agree before .between .between
  | comment (before : List Char) : Agree before .comment .comment
  | word (before text : List Char) :
      Agree (before ++ text) (.word text) (.word (utf8Len before))
  | string (before text : List Char) :
      Agree (before ++ text) (.string text) (.string (utf8Len before))
  | escape (before text : List Char) :
      Agree (before ++ text) (.escape text) (.escape (utf8Len before))
  | operator (before : List Char) {first : Char} (h : first.toNat < 128) :
      Agree before (.operator first) (.operator (UInt8.ofNat first.toNat))

/-- The text behind some characters is what the lexer cuts out between their ends. -/
theorem cut_span (before text rest : List Char) :
    Span.cut (String.ofList (before ++ text ++ rest))
        (Lexer.span (utf8Len before) (utf8Len (before ++ text))) = String.ofList text := by
  rw [String.utf8Len_append]
  exact String.extract_of_valid before text rest

theorem begin_agree (before : List Char) {c : Char} (hc : c.toNat < 128) :
    Agree (before ++ [c]) (begin others c).1
        (Lexer.begin (utf8Len before) (UInt8.ofNat c.toNat)).1 ∧
      ∀ f : Span → String,
        (Lexer.begin (utf8Len before) (UInt8.ofNat c.toNat)).2.map (Token.map f) =
          (begin others c).2 := by
  obtain ⟨hword, -, hblank, hoperator⟩ := classes_eq hc
  have hhash := byte_eq_iff hc (d := '#') (by decide) (b := 35) rfl
  have hquote := byte_eq_iff hc (d := '"') (by decide) (b := 34) rfl
  have hsize : utf8Len before + 1 = utf8Len (before ++ ['"']) := by
    rw [String.utf8Len_append]
    rfl
  simp only [begin, Lexer.begin, hhash, hquote, hword, hblank, hoperator, if_pos hc]
  split
  · exact ⟨.comment _, fun _ => rfl⟩
  split
  next h =>
    subst h
    rw [hsize]
    have hopen := Agree.string (before ++ ['"']) []
    rw [List.append_nil] at hopen
    exact ⟨hopen, fun _ => rfl⟩
  split
  · exact ⟨.word before [c], fun _ => rfl⟩
  split
  · exact ⟨.between _, fun _ => rfl⟩
  split
  · exact ⟨.operator _ hc, fun _ => rfl⟩
  · exact ⟨.between _, fun f => by rw [List.map_singleton, map_single hc]⟩

/-- A character of ASCII takes the lexer and the reader to the same place. -/
theorem step_agree_of_ascii {before : List Char} {c : Char} {mode : Mode}
    {bytewise : Lexer.Mode} (hagree : Agree before mode bytewise) (hc : c.toNat < 128)
    (rest : List Char) :
    Agree (before ++ [c]) (step others mode c).1
        (Lexer.step bytewise (utf8Len before) (UInt8.ofNat c.toNat)).1 ∧
      (Lexer.step bytewise (utf8Len before) (UInt8.ofNat c.toNat)).2.map
          (Token.map (Span.cut (String.ofList (before ++ c :: rest)))) =
        (step others mode c).2 := by
  obtain ⟨-, hcontinues, -, -⟩ := classes_eq hc
  have hnewline := byte_eq_iff hc (d := '\n') (by decide) (b := 10) rfl
  have hbackslash := byte_eq_iff hc (d := '\\') (by decide) (b := 92) rfl
  have hquote := byte_eq_iff hc (d := '"') (by decide) (b := 34) rfl
  have hequals := byte_eq_iff hc (d := '=') (by decide) (b := 61) rfl
  have hbegin := begin_agree others before hc
  cases hagree with
  | between => exact ⟨hbegin.1, hbegin.2 _⟩
  | comment =>
      simp only [step, Lexer.step, hnewline]
      split
      · exact ⟨.between _, rfl⟩
      · exact ⟨.comment _, rfl⟩
  | word front text =>
      simp only [step, Lexer.step, hcontinues]
      split
      · rw [List.append_assoc]
        exact ⟨.word front (text ++ [c]), rfl⟩
      · refine ⟨hbegin.1, ?_⟩
        rw [List.map_cons, hbegin.2, Token.map, cut_span]
  | string front text =>
      simp only [step, Lexer.step, hbackslash, hquote]
      split
      · rw [List.append_assoc]
        exact ⟨.escape front (text ++ [c]), rfl⟩
      split
      · refine ⟨.between _, ?_⟩
        rw [List.map_singleton, Token.map, cut_span]
      · rw [List.append_assoc]
        exact ⟨.string front (text ++ [c]), rfl⟩
  | escape front text =>
      rw [List.append_assoc]
      exact ⟨.string front (text ++ [c]), rfl⟩
  | operator _ hfirst =>
      simp only [step, Lexer.step, hequals]
      split
      · refine ⟨.between _, ?_⟩
        rw [List.map_singleton, map_completed hfirst]
      · refine ⟨hbegin.1, ?_⟩
        rw [List.map_cons, hbegin.2, map_single hfirst]

theorem not_alphanum_of_foreign {c : Char} (hc : 128 ≤ c.toNat) :
    c.isAlpha = false ∧ c.isDigit = false := by
  have hbeyond (d : Char) (hd : d.toNat < 128) : ¬ c.val ≤ d.val := by
    intro h
    have hle : c.toNat ≤ d.toNat := UInt32.le_iff_toNat_le.mp h
    omega
  have hupper : c.isUpper = false := decide_eq_false fun h => hbeyond 'Z' (by decide) h.2
  have hlower : c.isLower = false := by
    change (decide (c.val ≥ 'a'.val) && decide (c.val ≤ 'z'.val)) = false
    rw [decide_eq_false (hbeyond 'z' (by decide)), Bool.and_false]
  constructor
  · change (c.isUpper || c.isLower) = false
    rw [hupper, hlower, Bool.false_or]
  · change (decide (c.val ≥ '0'.val) && decide (c.val ≤ '9'.val)) = false
    rw [decide_eq_false (hbeyond '9' (by decide)), Bool.and_false]

/-- No character outside ASCII has a meaning of its own. -/
theorem plain_of_foreign {c : Char} (hc : 128 ≤ c.toNat) :
    begin others c = (.between, List.replicate (others c) .other) ∧ continuesWord c = false ∧
      c ≠ '\n' ∧ c ≠ '\\' ∧ c ≠ '"' ∧ c ≠ '=' := by
  have hne (d : Char) (hd : d.toNat < 128) : c ≠ d := by
    rintro rfl
    omega
  obtain ⟨halpha, hdigit⟩ := not_alphanum_of_foreign hc
  have hbegin : beginsWord c = false := by
    simp only [beginsWord, halpha, Bool.false_or, beq_eq_false_iff_ne]
    exact hne '_' (by decide)
  have hblank : isBlank c = false := by
    simp only [isBlank, Bool.or_eq_false_iff, beq_eq_false_iff_ne]
    exact ⟨⟨⟨⟨hne _ (by decide), hne _ (by decide)⟩, hne _ (by decide)⟩, hne _ (by decide)⟩,
      hne _ (by decide)⟩
  have hoperator : beginsOperator c = false := by
    simp only [beginsOperator, Bool.or_eq_false_iff, beq_eq_false_iff_ne]
    exact ⟨⟨⟨⟨⟨hne _ (by decide), hne _ (by decide)⟩, hne _ (by decide)⟩, hne _ (by decide)⟩,
      hne _ (by decide)⟩, hne _ (by decide)⟩
  refine ⟨?_, ?_, hne _ (by decide), hne _ (by decide), hne _ (by decide), hne _ (by decide)⟩
  · simp only [begin, if_neg (hne '#' (by decide)), if_neg (hne '"' (by decide)), hbegin, hblank,
      hoperator, if_neg (Nat.not_lt.mpr hc), Bool.false_eq_true, if_false]
  · simp only [continuesWord, Char.isAlphanum, halpha, hdigit, Bool.false_or,
      beq_eq_false_iff_ne]
    exact hne '_' (by decide)

/-- The bytes of a character outside ASCII take the lexer to where that character takes a reader
that counts it once for each byte. -/
theorem feed_agree_of_foreign {before : List Char} {c : Char} {mode : Mode}
    {bytewise : Lexer.Mode} (hagree : Agree before mode bytewise) (hc : 128 ≤ c.toNat)
    (rest : List Char) :
    Agree (before ++ [c]) (step Char.utf8Size mode c).1
        (Lexer.feed bytewise (utf8Len before) (String.utf8EncodeChar c)).1 ∧
      (Lexer.feed bytewise (utf8Len before) (String.utf8EncodeChar c)).2.map
          (Token.map (Span.cut (String.ofList (before ++ c :: rest)))) =
        (step Char.utf8Size mode c).2 := by
  obtain ⟨hbegin, hcontinues, hnewline, hbackslash, hquote, hequals⟩ :=
    plain_of_foreign Char.utf8Size hc
  have hforeign : ∀ b ∈ String.utf8EncodeChar c, 128 ≤ b.toNat :=
    fun _ hb => Text.Utf8.le_of_mem_utf8EncodeChar hc hb
  have hsize : (String.utf8EncodeChar c).length = c.utf8Size := String.length_utf8EncodeChar c
  generalize String.utf8EncodeChar c = bytes at hforeign hsize
  -- A mode that the character ends is over at its first byte, so that byte is told apart.
  obtain ⟨b, bytes, rfl⟩ : ∃ b tail, bytes = b :: tail := by
    refine List.exists_cons_of_length_pos ?_
    rw [hsize]
    exact Char.utf8Size_pos c
  have hb := hforeign b (List.mem_cons_self ..)
  have htail : ∀ a ∈ bytes, 128 ≤ a.toNat := fun a ha => hforeign a (List.mem_cons_of_mem _ ha)
  obtain ⟨-, -, -, -, -, -, hbequals, -, -, hbcontinues⟩ := Lexer.plain_of_foreign hb
  have hothers : List.replicate c.utf8Size (Token.other : Token String) =
      .other :: List.replicate bytes.length .other := by
    rw [← hsize, List.length_cons, List.replicate_succ]
  cases hagree with
  | between =>
      rw [Lexer.feed_between_foreign hforeign, step, hbegin, hsize]
      exact ⟨.between _, List.map_replicate⟩
  | comment =>
      rw [Lexer.feed_comment_foreign hforeign, step, if_neg hnewline]
      exact ⟨.comment _, rfl⟩
  | word front text =>
      simp only [Lexer.feed, Lexer.step, hbcontinues, Lexer.begin_foreign _ hb,
        Lexer.feed_between_foreign htail, step, hcontinues, hbegin, hothers, Bool.false_eq_true,
        if_false]
      refine ⟨.between _, ?_⟩
      simp only [List.map_cons, List.map_replicate, Token.map, cut_span, List.cons_append,
        List.nil_append]
  | string front text =>
      rw [Lexer.feed_string_foreign hforeign, step, if_neg hbackslash, if_neg hquote,
        List.append_assoc]
      exact ⟨.string front (text ++ [c]), rfl⟩
  | escape front text =>
      simp only [Lexer.feed, Lexer.step, Lexer.feed_string_foreign htail, step, List.append_assoc]
      exact ⟨.string front (text ++ [c]), rfl⟩
  | operator _ hfirst =>
      simp only [Lexer.feed, Lexer.step, if_neg hbequals, Lexer.begin_foreign _ hb,
        Lexer.feed_between_foreign htail, step, if_neg hequals, hbegin, hothers]
      refine ⟨.between _, ?_⟩
      rw [List.cons_append, List.map_cons, map_single hfirst]
      rw [List.singleton_append, List.map_cons, List.map_replicate]
      rfl

theorem feed_agree {before : List Char} {c : Char} {mode : Mode} {bytewise : Lexer.Mode}
    (hagree : Agree before mode bytewise) (rest : List Char) :
    Agree (before ++ [c]) (step Char.utf8Size mode c).1
        (Lexer.feed bytewise (utf8Len before) (String.utf8EncodeChar c)).1 ∧
      (Lexer.feed bytewise (utf8Len before) (String.utf8EncodeChar c)).2.map
          (Token.map (Span.cut (String.ofList (before ++ c :: rest)))) =
        (step Char.utf8Size mode c).2 := by
  rcases Nat.lt_or_ge c.toNat 128 with hc | hc
  · rw [Text.Utf8.utf8EncodeChar_of_lt hc]
    simp only [Lexer.feed, List.append_nil]
    exact step_agree_of_ascii Char.utf8Size hagree hc rest
  · exact feed_agree_of_foreign hagree hc rest

theorem finish_agree {before : List Char} {mode : Mode} {bytewise : Lexer.Mode}
    (hagree : Agree before mode bytewise) :
    (Lexer.finish bytewise (utf8Len before)).map
        (Token.map (Span.cut (String.ofList before))) = finish mode := by
  cases hagree with
  | word front text =>
      have hcut := cut_span front text []
      rw [List.append_nil] at hcut
      simp only [Lexer.finish, finish, List.map_cons, List.map_nil, Token.map, hcut]
  | operator _ hfirst =>
      simp only [Lexer.finish, finish, List.map_cons, List.map_nil, map_single hfirst]
  | _ => rfl

theorem utf8Len_snoc (before : List Char) (c : Char) :
    utf8Len before + (String.utf8EncodeChar c).length = utf8Len (before ++ [c]) := by
  rw [String.length_utf8EncodeChar, String.utf8Len_append, String.utf8Len_cons,
    String.utf8Len_nil, Nat.zero_add]

/-- Lexer and reader stay together to the end of the text. -/
theorem run_agree {before : List Char} {mode : Mode} {bytewise : Lexer.Mode}
    (hagree : Agree before mode bytewise) (rest : List Char) :
    (Lexer.run bytewise (utf8Len before) (rest.flatMap String.utf8EncodeChar)).map
        (Token.map (Span.cut (String.ofList (before ++ rest)))) =
      run Char.utf8Size mode rest := by
  induction rest generalizing before mode bytewise with
  | nil =>
      rw [List.append_nil]
      exact finish_agree hagree
  | cons c rest ih =>
      obtain ⟨hnext, htokens⟩ := feed_agree hagree rest
      have hrest := ih hnext
      rw [List.append_assoc, List.singleton_append] at hrest
      rw [List.flatMap_cons, Lexer.run_append, List.map_append, htokens, utf8Len_snoc, hrest,
        run]

end Reader

/-- The tokens of a text are what a reader finds that counts a stray character once for each of
its bytes. -/
theorem tokens_eq_run (text : String) :
    tokens text = Reader.run Char.utf8Size .between text.toList := by
  have hrun := Reader.run_agree (Reader.Agree.between []) text.toList
  rw [List.nil_append, String.ofList_toList] at hrun
  rw [tokens, spans, Text.Utf8.toList_toUTF8]
  exact hrun

end Hygiene.Gn
