import Mathlib.Tactic
import Hygiene.Json.Reader
import Hygiene.Proofs.Json.Layout

/-!
Reading back what the writer writes. Each character is written as itself or as escapes, and the
reader puts the escapes together again; separators and indentation are blanks to it. So a value is
read from the front of any text that begins with its own.
-/

namespace Hygiene.Json

theorem hexDigit?_hexDigitChar {n : Nat} (h : n < 16) : hexDigit? (hexDigitChar n) = some n := by
  have htable : ∀ n : Fin 16, hexDigit? (hexDigitChar n) = some n.val := by decide
  exact htable ⟨n, h⟩

/-- Four digits spell the code unit that they were made of. -/
theorem codeUnit?_digits {u : Nat} (h : u < 0x10000) :
    codeUnit? (hexDigitChar (u / 4096 % 16)) (hexDigitChar (u / 256 % 16))
      (hexDigitChar (u / 16 % 16)) (hexDigitChar (u % 16)) = some u := by
  have hdigit (m : Nat) : hexDigit? (hexDigitChar (m % 16)) = some (m % 16) :=
    hexDigit?_hexDigitChar (Nat.mod_lt m (by omega))
  simp only [codeUnit?, hdigit, Option.some.injEq]
  omega

def withParts (parts : List Part) (read : Option (List Part × List Char)) :
    Option (List Part × List Char) :=
  read.map fun (more, rest) => (parts ++ more, rest)

theorem readParts_unitEscape {u : Nat} (h : u < 0x10000) (rest : List Char) :
    readParts (unitEscape u ++ rest) = withParts [partOfUnit u] (readParts rest) := by
  simp only [unitEscape, List.cons_append, List.nil_append]
  rw [readParts, codeUnit?_digits h]
  rfl

theorem readParts_unescape {c d : Char} (h : unescape? c = some d) (rest : List Char) :
    readParts ('\\' :: c :: rest) = withParts [.char d] (readParts rest) := by
  rw [readParts.eq_def]
  split
  next heq => cases heq
  next heq => cases heq
  next heq =>
    cases heq
    cases h
  next heq =>
    cases heq
    rw [h]
    rfl
  next hplain heq =>
    cases heq
    exact (hplain c rest rfl rfl).elim

/-- A character that needs no escape stands for itself. -/
theorem readParts_plain {c : Char} (hquote : c ≠ '"') (hbackslash : c ≠ '\\') (hprint : ¬ c < ' ')
    (rest : List Char) : readParts (c :: rest) = withParts [.char c] (readParts rest) := by
  rw [readParts.eq_def]
  split
  next heq => cases heq
  next heq => exact absurd (List.cons.inj heq).1 hquote
  next heq => exact absurd (List.cons.inj heq).1 hbackslash
  next heq => exact absurd (List.cons.inj heq).1 hbackslash
  next heq =>
    cases heq
    rw [if_neg hprint]
    rfl

/-- A code unit that is a character by itself. -/
theorem partOfUnit_toNat (c : Char) : partOfUnit c.toNat = .char c := by
  have hscalar : c.toNat < 0xD800 ∨ 0xDFFF < c.toNat ∧ c.toNat < 0x110000 := c.valid
  have hopens : opensPair c.toNat = false := by
    simp only [opensPair, Bool.and_eq_false_iff, decide_eq_false_iff_not]
    omega
  have hcloses : closesPair c.toNat = false := by
    simp only [closesPair, Bool.and_eq_false_iff, decide_eq_false_iff_not]
    omega
  rw [partOfUnit, hopens, hcloses, Char.ofNat_toNat]
  rfl

theorem partOfUnit_opening {u : Nat} (hlow : 0xD800 ≤ u) (hhigh : u ≤ 0xDBFF) :
    partOfUnit u = .opening u := by
  have hopens : opensPair u = true := by
    simp only [opensPair, Bool.and_eq_true, decide_eq_true_eq]
    omega
  rw [partOfUnit, if_pos hopens]

theorem partOfUnit_closing {u : Nat} (hlow : 0xDC00 ≤ u) (hhigh : u ≤ 0xDFFF) :
    partOfUnit u = .closing u := by
  have hopens : opensPair u = false := by
    simp only [opensPair, Bool.and_eq_false_iff, decide_eq_false_iff_not]
    omega
  have hcloses : closesPair u = true := by
    simp only [closesPair, Bool.and_eq_true, decide_eq_true_eq]
    omega
  rw [partOfUnit, hopens, if_neg Bool.false_ne_true, if_pos hcloses]

/-- Some characters inside a string literal spell a character: they are read as parts that are put
together to it. -/
def SpellsChar (cs : List Char) (c : Char) : Prop :=
  ∃ parts, (∀ rest, readParts (cs ++ rest) = withParts parts (readParts rest)) ∧
    ∀ more, textOfParts (parts ++ more) = (textOfParts more).map (c :: ·)

theorem spellsChar_of_char {cs : List Char} {c : Char}
    (h : ∀ rest, readParts (cs ++ rest) = withParts [.char c] (readParts rest)) :
    SpellsChar cs c :=
  ⟨[.char c], h, fun _ => rfl⟩

theorem spellsChar_unescape {c d : Char} (h : unescape? c = some d) : SpellsChar ['\\', c] d :=
  spellsChar_of_char (readParts_unescape h)

theorem spellsChar_unitEscape {c : Char} (h : c.toNat < 0x10000) :
    SpellsChar (unitEscape c.toNat) c := by
  refine spellsChar_of_char fun rest => ?_
  rw [readParts_unitEscape h, partOfUnit_toNat]

/-- A character beyond the first plane is put together from the halves of its pair. -/
theorem spellsChar_charEscape (c : Char) : SpellsChar (charEscape c) c := by
  have hscalar : c.toNat < 0xD800 ∨ 0xDFFF < c.toNat ∧ c.toNat < 0x110000 := c.valid
  rw [charEscape]
  split
  next h => exact spellsChar_unitEscape h
  next h =>
    have hopening : partOfUnit (0xD800 + (c.toNat - 0x10000) / 0x400) = .opening _ :=
      partOfUnit_opening (by omega) (by omega)
    have hclosing : partOfUnit (0xDC00 + (c.toNat - 0x10000) % 0x400) = .closing _ :=
      partOfUnit_closing (by omega) (by omega)
    refine ⟨[.opening (0xD800 + (c.toNat - 0x10000) / 0x400),
      .closing (0xDC00 + (c.toNat - 0x10000) % 0x400)], fun rest => ?_, fun more => ?_⟩
    · rw [List.append_assoc, readParts_unitEscape (by omega), readParts_unitEscape (by omega),
        hopening, hclosing]
      cases readParts rest <;> rfl
    · have hpair : pairChar (0xD800 + (c.toNat - 0x10000) / 0x400)
          (0xDC00 + (c.toNat - 0x10000) % 0x400) = c := by
        rw [pairChar, show 0x10000 + (0xD800 + (c.toNat - 0x10000) / 0x400 - 0xD800) * 0x400 +
          (0xDC00 + (c.toNat - 0x10000) % 0x400 - 0xDC00) = c.toNat by omega, Char.ofNat_toNat]
      rw [List.cons_append, List.cons_append, List.nil_append, textOfParts, hpair]

variable (style : Style)

theorem spellsChar_writeChar (c : Char) : SpellsChar (writeChar style c) c := by
  rw [writeChar]
  split
  next h =>
    subst h
    exact spellsChar_unescape rfl
  split
  next h =>
    subst h
    exact spellsChar_unescape rfl
  split
  next h =>
    subst h
    exact spellsChar_unescape rfl
  split
  next h =>
    subst h
    exact spellsChar_unescape rfl
  split
  next h =>
    subst h
    exact spellsChar_unescape rfl
  split
  next h =>
    subst h
    exact spellsChar_unescape rfl
  split
  next h =>
    subst h
    exact spellsChar_unescape rfl
  split
  next h =>
    have hlow : c.toNat < 32 := h
    exact spellsChar_unitEscape (by omega)
  next hprint =>
    split
    · exact spellsChar_charEscape c
    · exact spellsChar_of_char (readParts_plain ‹_› ‹_› hprint)

/-- A string literal is read as the text that it was written for. -/
theorem readText_flatMap (cs rest : List Char) :
    readText (cs.flatMap (writeChar style) ++ '"' :: rest) = some (some cs, rest) := by
  obtain ⟨parts, hparts, htext⟩ : ∃ parts,
      readParts (cs.flatMap (writeChar style) ++ '"' :: rest) = some (parts, rest) ∧
        textOfParts parts = some cs := by
    induction cs with
    | nil => exact ⟨[], rfl, rfl⟩
    | cons c cs ih =>
        obtain ⟨parts, hparts, htext⟩ := ih
        obtain ⟨front, hread, hspell⟩ := spellsChar_writeChar style c
        refine ⟨front ++ parts, ?_, ?_⟩
        · rw [List.flatMap_cons, List.append_assoc, hread, hparts]
          rfl
        · rw [hspell, htext]
          rfl
  rw [readText, hparts, Option.map_some]
  exact congrArg some (Prod.ext htext rfl)

/-- What may follow a number: no more of it. -/
def Ends (rest : List Char) : Prop :=
  ∀ c ∈ rest.head?, c.isDigit = false ∧ c ≠ '.' ∧ c ≠ 'e' ∧ c ≠ 'E'

theorem head?_toDigits_ne_zero {n : Nat} (h : 0 < n) : (Nat.toDigits 10 n).head? ≠ some '0' := by
  induction n using Nat.strongRecOn with
  | ind n ih =>
      rcases Nat.lt_or_ge n 10 with hn | hn
      · rw [Nat.toDigits_of_lt_base hn]
        interval_cases n <;> decide
      · have hhigh : 0 < n / 10 := by omega
        rw [Nat.toDigits_of_base_le (by decide) hn,
          List.head?_append_of_ne_nil _ Nat.toDigits_ne_nil]
        exact ih (n / 10) (by omega) hhigh

theorem readWhole_toDigits (n : Nat) {rest : List Char} (hrest : Ends rest) :
    readWhole (Nat.toDigits 10 n ++ rest) = some (Nat.toDigits 10 n, rest) := by
  rcases Nat.eq_zero_or_pos n with rfl | hn
  · rw [Nat.toDigits_zero]
    rfl
  · have hdigits : ∀ c ∈ Nat.toDigits 10 n, c.isDigit = true :=
      fun c hc => Nat.isDigit_of_mem_toDigits (by decide) (by decide) hc
    have hnone : rest.takeWhile Char.isDigit = [] ∧ rest.dropWhile Char.isDigit = rest := by
      cases rest with
      | nil => exact ⟨rfl, rfl⟩
      | cons c rest =>
          have hc : ¬ c.isDigit = true := by rw [(hrest c rfl).1]; exact Bool.false_ne_true
          exact ⟨List.takeWhile_cons_of_neg hc, List.dropWhile_cons_of_neg hc⟩
    have hread : readDigits (Nat.toDigits 10 n ++ rest) = some (Nat.toDigits 10 n, rest) := by
      rw [readDigits, List.takeWhile_append_of_pos hdigits, List.dropWhile_append_of_pos hdigits,
        hnone.1, hnone.2, List.append_nil]
      cases hempty : Nat.toDigits 10 n with
      | nil => exact absurd hempty Nat.toDigits_ne_nil
      | cons d ds => rfl
    rw [readWhole.eq_def]
    split
    next heq =>
      have hhead := head?_toDigits_ne_zero hn
      rw [← List.head?_append_of_ne_nil _ Nat.toDigits_ne_nil, heq] at hhead
      exact absurd rfl hhead
    next => exact hread

theorem ofDigits_toDigits (n : Nat) : ofDigits (Nat.toDigits 10 n) = n := by
  have hstep : (fun (m : Nat) (d : Char) => m * 10 + (d.toNat - '0'.toNat)) =
      fun m d => 10 * m + (d.toNat - '0'.toNat) := by
    funext m d
    rw [Nat.mul_comm]
  rw [ofDigits, hstep, ← Nat.ofDigitChars_eq_foldl, Nat.ofDigitChars_ten_toDigits]

/-- The decimal digits of a natural number are read as that number. -/
theorem readNumber_toDigits (n : Nat) {rest : List Char} (hrest : Ends rest) :
    readNumber (Nat.toDigits 10 n ++ rest) = some (.natural n, rest) := by
  have hfraction : readFraction rest = some ([], rest) := by
    rw [readFraction.eq_def]
    split
    next => exact absurd rfl (hrest '.' rfl).2.1
    next => rfl
  have hexponent : readExponent rest = some ([], rest) := by
    rw [readExponent.eq_def]
    split
    next e _ _ => rw [if_neg (not_or.mpr (hrest e rfl).2.2)]
    next e => rw [if_neg (not_or.mpr (hrest e rfl).2.2)]
    next => rfl
  have hunsigned : readUnsigned false (Nat.toDigits 10 n ++ rest) = some (.natural n, rest) := by
    simp only [readUnsigned, readWhole_toDigits n hrest, hfraction, hexponent, bind, Option.bind,
      List.isEmpty_nil, Bool.not_true, Bool.or_self, Bool.false_eq_true, if_false,
      ofDigits_toDigits]
  rw [readNumber.eq_def]
  split
  next rest' heq =>
    have hhead : (Nat.toDigits 10 n ++ rest).head? = some '-' := by rw [heq]; rfl
    rw [List.head?_append_of_ne_nil _ Nat.toDigits_ne_nil] at hhead
    have hdigit : '-'.isDigit = true :=
      Nat.isDigit_of_mem_toDigits (by decide) (by decide) (List.mem_of_mem_head? hhead)
    exact absurd hdigit (by decide)
  next => exact hunsigned

/-- A comma separates items, and only blanks follow it. -/
def Style.Separates (style : Style) : Prop :=
  ∃ blanks, style.separator.toList = ',' :: blanks ∧ ∀ c ∈ blanks, isBlank c = true

theorem Style.Separates.length_pos {style : Style} (h : style.Separates) :
    0 < style.separator.toList.length := by
  obtain ⟨blanks, hblanks, -⟩ := h
  rw [hblanks]
  exact Nat.succ_pos _

theorem isBlank_of_mem_lineBreak (depth : Nat) : ∀ c ∈ lineBreak depth, isBlank c = true := by
  intro c hc
  rcases List.mem_cons.mp hc with rfl | hc
  · rfl
  · obtain rfl := List.eq_of_mem_replicate hc
    rfl

theorem dropWhile_lineBreak (depth : Nat) (cs : List Char) :
    (lineBreak depth ++ cs).dropWhile isBlank = cs.dropWhile isBlank :=
  List.dropWhile_append_of_pos (isBlank_of_mem_lineBreak depth)

/-- The first character of a value is no blank and closes nothing. -/
theorem exists_head_pretty (v : Value) (hv : v.isPlain = true) (depth : Nat) :
    ∃ c cs, pretty style depth v = c :: cs ∧ isBlank c = false ∧ c ≠ ']' := by
  cases v with
  | null => exact ⟨'n', ['u', 'l', 'l'], rfl, rfl, by decide⟩
  | bool b =>
      cases b with
      | true => exact ⟨'t', ['r', 'u', 'e'], rfl, rfl, by decide⟩
      | false => exact ⟨'f', ['a', 'l', 's', 'e'], rfl, rfl, by decide⟩
  | natural n =>
      obtain ⟨c, cs, hcs⟩ := List.exists_cons_of_ne_nil (Nat.toDigits_ne_nil (n := n) (b := 10))
      have hdigit : c.isDigit = true :=
        Nat.isDigit_of_mem_toDigits (by decide) (by decide) (hcs ▸ List.mem_cons_self ..)
      refine ⟨c, cs, ?_, ?_, ?_⟩
      · rw [pretty, Nat.toString_eq_repr, Nat.toList_repr, hcs]
      · cases hblank : isBlank c with
        | false => rfl
        | true =>
            simp only [isBlank, Bool.or_eq_true, beq_iff_eq] at hblank
            rcases hblank with ((rfl | rfl) | rfl) | rfl <;> exact absurd hdigit (by decide)
      · rintro rfl
        exact absurd hdigit (by decide)
  | number _ => cases hv
  | unreadable => cases hv
  | string text =>
      refine ⟨'"', text.toList.flatMap (writeChar style) ++ ['"'], ?_, rfl, by decide⟩
      rw [pretty, writeString, String.toList_ofList]
      rfl
  | array items =>
      cases items with
      | nil => exact ⟨'[', [']'], rfl, rfl, by decide⟩
      | cons v rest => exact ⟨'[', _, rfl, rfl, by decide⟩
  | object members =>
      cases members with
      | nil => exact ⟨'\x7b', ['\x7d'], rfl, rfl, by decide⟩
      | cons member rest => exact ⟨'\x7b', _, rfl, rfl, by decide⟩

def joinedItems (style : Style) (depth : Nat) : List Value → List Char
  | [] => []
  | v :: rest => pretty style depth v ++ prettyItems style depth rest

def joinedMembers (style : Style) (depth : Nat) : List (String × Value) → List Char
  | [] => []
  | (name, v) :: rest =>
      (writeString style name).toList ++ [':', ' '] ++ pretty style depth v ++
        prettyMembers style depth rest

theorem toList_writeString (text : String) :
    (writeString style text).toList = '"' :: text.toList.flatMap (writeChar style) ++ ['"'] := by
  rw [writeString, String.toList_ofList]

theorem readValue_string (fuel : Nat) (text : String) (rest : List Char) :
    readValue (fuel + 1) ((writeString style text).toList ++ rest) = some (.string text, rest) := by
  have hread := readText_flatMap style text.toList rest
  rw [toList_writeString]
  simp only [List.cons_append, List.append_assoc, List.nil_append]
  rw [readValue, hread]
  simp only [Option.map_some, Option.elim_some, String.ofList_toList]

theorem readValue_natural (fuel n : Nat) {rest : List Char} (hrest : Ends rest) :
    readValue (fuel + 1) ((toString n).toList ++ rest) = some (.natural n, rest) := by
  have hread := readNumber_toDigits n hrest
  rw [Nat.toString_eq_repr, Nat.toList_repr]
  obtain ⟨c, cs, hcs⟩ := List.exists_cons_of_ne_nil (Nat.toDigits_ne_nil (n := n) (b := 10))
  have hdigit : c.isDigit = true :=
    Nat.isDigit_of_mem_toDigits (by decide) (by decide) (hcs ▸ List.mem_cons_self ..)
  rw [hcs] at hread ⊢
  have hne (d : Char) (hd : d.isDigit = false) : c ≠ d := by
    rintro rfl
    rw [hdigit] at hd
    cases hd
  rw [readValue.eq_def]
  split
  next heq => cases heq
  next =>
    cases ‹_ + 1 = _ + 1›
    split
    next heq => exact absurd (List.cons.inj heq).1 (hne _ (by decide))
    next heq => exact absurd (List.cons.inj heq).1 (hne _ (by decide))
    next heq => exact absurd (List.cons.inj heq).1 (hne _ (by decide))
    next heq => exact absurd (List.cons.inj heq).1 (hne _ (by decide))
    next heq => exact absurd (List.cons.inj heq).1 (hne _ (by decide))
    next heq => exact absurd (List.cons.inj heq).1 (hne _ (by decide))
    next => exact hread

/-- An array with an item. -/
theorem readValue_items (fuel : Nat) {cs items : List Char} (hcs : cs.dropWhile isBlank = items)
    (hitems : items.head? ≠ some ']') :
    readValue (fuel + 1) ('[' :: cs) =
      (readItems fuel items).map fun (items, rest) => (.array items, rest) := by
  rw [readValue, hcs]
  split
  next => exact absurd rfl hitems
  next => rfl

/-- An object with a member. -/
theorem readValue_members (fuel : Nat) {cs members : List Char}
    (hcs : cs.dropWhile isBlank = members) (hmembers : members.head? ≠ some '\x7d') :
    readValue (fuel + 1) ('\x7b' :: cs) =
      (readMembers fuel members).map fun (members, rest) => (objectOf members, rest) := by
  rw [readValue, hcs]
  split
  next => exact absurd rfl hmembers
  next => rfl

theorem readItems_last {fuel : Nat} {cs more rest : List Char} {v : Value}
    (hread : readValue fuel cs = some (v, more)) (hmore : more.dropWhile isBlank = ']' :: rest) :
    readItems (fuel + 1) cs = some ([v], rest) := by
  rw [readItems, hread]
  dsimp only
  rw [hmore]
  rfl

theorem readItems_next {fuel : Nat} {cs more next : List Char} {v : Value}
    (hread : readValue fuel cs = some (v, more)) (hmore : more.dropWhile isBlank = ',' :: next) :
    readItems (fuel + 1) cs =
      (readItems fuel (next.dropWhile isBlank)).map fun (items, rest) => (v :: items, rest) := by
  rw [readItems, hread]
  dsimp only
  rw [hmore]
  rfl

theorem dropWhile_cons_of_not_blank {c : Char} (hc : isBlank c = false) (cs : List Char) :
    (c :: cs).dropWhile isBlank = c :: cs :=
  List.dropWhile_cons_of_neg (by rw [hc]; exact Bool.false_ne_true)

/-- A member whose value is the last one. -/
theorem readMembers_last {fuel : Nat} {name : String} {cs more rest : List Char} {v : Value}
    (hcs : cs.dropWhile isBlank = cs) (hread : readValue fuel cs = some (v, more))
    (hmore : more.dropWhile isBlank = '\x7d' :: rest) :
    readMembers (fuel + 1) ((writeString style name).toList ++ ':' :: ' ' :: cs) =
      some (some [(name, v)], rest) := by
  have hname := readText_flatMap style name.toList (':' :: ' ' :: cs)
  have hblank : (' ' :: cs).dropWhile isBlank = cs := hcs
  rw [toList_writeString]
  simp only [List.cons_append, List.append_assoc, List.nil_append]
  rw [readMembers, hname]
  dsimp only
  rw [dropWhile_cons_of_not_blank rfl]
  split
  next heq =>
    cases heq
    rw [hblank, hread]
    dsimp only
    rw [hmore]
    simp only [consMember, String.ofList_toList]
  next h => exact (h _ rfl).elim

/-- A member with another one behind it. -/
theorem readMembers_next {fuel : Nat} {name : String} {cs more next : List Char} {v : Value}
    (hcs : cs.dropWhile isBlank = cs) (hread : readValue fuel cs = some (v, more))
    (hmore : more.dropWhile isBlank = ',' :: next) :
    readMembers (fuel + 1) ((writeString style name).toList ++ ':' :: ' ' :: cs) =
      (readMembers fuel (next.dropWhile isBlank)).map fun (members, rest) =>
        (consMember (some name.toList) v members, rest) := by
  have hname := readText_flatMap style name.toList (':' :: ' ' :: cs)
  have hblank : (' ' :: cs).dropWhile isBlank = cs := hcs
  rw [toList_writeString]
  simp only [List.cons_append, List.append_assoc, List.nil_append]
  rw [readMembers, hname]
  dsimp only
  rw [dropWhile_cons_of_not_blank rfl]
  split
  next heq =>
    cases heq
    rw [hblank, hread]
    dsimp only
    rw [hmore]
    rfl
  next h => exact (h _ rfl).elim

/-- What stands behind an item: nothing that could belong to a number. -/
theorem ends_lineBreak (depth : Nat) (rest : List Char) : Ends (lineBreak depth ++ rest) := by
  intro c hc
  obtain rfl := Option.some.inj hc
  decide

theorem ends_separator {style : Style} (hstyle : style.Separates) (rest : List Char) :
    Ends (style.separator.toList ++ rest) := by
  obtain ⟨blanks, hblanks, -⟩ := hstyle
  intro c hc
  rw [hblanks] at hc
  obtain rfl := Option.some.inj hc
  decide

/-- Behind a separator the reader is at the next item. -/
theorem dropWhile_separator {style : Style} (hstyle : style.Separates) (depth : Nat)
    (cs : List Char) :
    ∃ rest, (style.separator.toList ++ lineBreak depth ++ cs) = ',' :: rest ∧
      rest.dropWhile isBlank = cs.dropWhile isBlank := by
  obtain ⟨blanks, hblanks, hall⟩ := hstyle
  refine ⟨blanks ++ (lineBreak depth ++ cs), ?_, ?_⟩
  · rw [hblanks, List.append_assoc]
    rfl
  · rw [List.dropWhile_append_of_pos hall, dropWhile_lineBreak]

theorem prettyItems_cons (depth : Nat) (v : Value) (rest : List Value) :
    prettyItems style depth (v :: rest) =
      style.separator.toList ++ lineBreak depth ++ joinedItems style depth (v :: rest) := by
  simp only [prettyItems, joinedItems, List.append_assoc]

theorem prettyMembers_cons (depth : Nat) (member : String × Value)
    (rest : List (String × Value)) :
    prettyMembers style depth (member :: rest) =
      style.separator.toList ++ lineBreak depth ++ joinedMembers style depth (member :: rest) := by
  obtain ⟨name, v⟩ := member
  simp only [prettyMembers, joinedMembers, List.append_assoc]

theorem dropWhile_pretty (v : Value) (hv : v.isPlain = true) (depth : Nat) (rest : List Char) :
    (pretty style depth v ++ rest).dropWhile isBlank = pretty style depth v ++ rest := by
  obtain ⟨c, cs, hcs, hblank, -⟩ := exists_head_pretty style v hv depth
  rw [hcs]
  exact dropWhile_cons_of_not_blank hblank _

/-- The reader does not skip anything in front of an item, and does not take it for the end. -/
theorem dropWhile_joinedItems (depth : Nat) (v : Value) (items : List Value)
    (h : Value.arePlain (v :: items) = true) (rest : List Char) :
    (joinedItems style depth (v :: items) ++ rest).dropWhile isBlank =
        joinedItems style depth (v :: items) ++ rest ∧
      (joinedItems style depth (v :: items) ++ rest).head? ≠ some ']' := by
  have hv : v.isPlain = true := (Bool.and_eq_true_iff.mp h).1
  obtain ⟨c, cs, hcs, -, hclose⟩ := exists_head_pretty style v hv depth
  rw [joinedItems, List.append_assoc]
  refine ⟨dropWhile_pretty style v hv depth _, ?_⟩
  intro h
  rw [hcs] at h
  exact hclose (Option.some.inj h)

theorem dropWhile_joinedMembers (depth : Nat) (member : String × Value)
    (members : List (String × Value)) (rest : List Char) :
    (joinedMembers style depth (member :: members) ++ rest).dropWhile isBlank =
        joinedMembers style depth (member :: members) ++ rest ∧
      (joinedMembers style depth (member :: members) ++ rest).head? ≠ some '\x7d' := by
  rw [joinedMembers, toList_writeString]
  refine ⟨dropWhile_cons_of_not_blank rfl _, ?_⟩
  intro h
  exact absurd (Option.some.inj h) (by decide)

variable {style} in
mutual

/-- A value is read from the front of any text that begins with what the writer writes for it. -/
theorem readValue_pretty (hstyle : style.Separates) (v : Value) (hv : v.isPlain = true)
    (depth fuel : Nat) (hfuel : (pretty style depth v).length ≤ fuel) {rest : List Char}
    (hrest : Ends rest) : readValue fuel (pretty style depth v ++ rest) = some (v, rest) := by
  obtain ⟨fuel, rfl⟩ : ∃ f, fuel = f + 1 := by
    obtain ⟨c, cs, hcs, -⟩ := exists_head_pretty style v hv depth
    rw [hcs, List.length_cons] at hfuel
    exact ⟨fuel - 1, by omega⟩
  cases v with
  | null => rfl
  | bool b => cases b <;> rfl
  | natural n => exact readValue_natural fuel n hrest
  | number _ => cases hv
  | unreadable => cases hv
  | string text => exact readValue_string style fuel text rest
  | array items =>
      cases items with
      | nil => rfl
      | cons v items =>
          have hall : Value.arePlain (v :: items) = true := hv
          have hshape : pretty style depth (.array (v :: items)) ++ rest =
              '[' :: (lineBreak (depth + 1) ++ (joinedItems style (depth + 1) (v :: items) ++
                (lineBreak depth ++ ']' :: rest))) := by
            simp only [pretty, joinedItems, List.append_assoc, List.cons_append, List.nil_append]
          have hlength : (joinedItems style (depth + 1) (v :: items)).length < fuel := by
            simp only [pretty, joinedItems, lineBreak, List.length_cons, List.length_append,
              List.length_nil] at hfuel ⊢
            omega
          have hitems := readItems_joinedItems hstyle (v :: items) hall (List.cons_ne_nil v items)
            (depth + 1) depth fuel hlength rest
          obtain ⟨hdrop, hhead⟩ := dropWhile_joinedItems style (depth + 1) v items hall
            (lineBreak depth ++ ']' :: rest)
          rw [← dropWhile_lineBreak (depth + 1)] at hdrop
          rw [hshape, readValue_items fuel hdrop hhead, hitems]
          rfl
  | object members =>
      cases members with
      | nil => rfl
      | cons member members =>
          have hall : Value.membersArePlain (member :: members) = true := hv
          have hshape : pretty style depth (.object (member :: members)) ++ rest =
              '\x7b' :: (lineBreak (depth + 1) ++
                (joinedMembers style (depth + 1) (member :: members) ++
                  (lineBreak depth ++ '\x7d' :: rest))) := by
            simp only [pretty, joinedMembers, List.append_assoc, List.cons_append, List.nil_append]
          have hlength : (joinedMembers style (depth + 1) (member :: members)).length < fuel := by
            simp only [pretty, joinedMembers, lineBreak, List.length_cons, List.length_append,
              List.length_nil] at hfuel ⊢
            omega
          have hmembers := readMembers_joinedMembers hstyle (member :: members) hall
            (List.cons_ne_nil member members) (depth + 1) depth fuel hlength rest
          obtain ⟨hdrop, hhead⟩ := dropWhile_joinedMembers style (depth + 1) member members
            (lineBreak depth ++ '\x7d' :: rest)
          rw [← dropWhile_lineBreak (depth + 1)] at hdrop
          rw [hshape, readValue_members fuel hdrop hhead, hmembers]
          rfl

theorem readItems_joinedItems (hstyle : style.Separates) (items : List Value)
    (hitems : Value.arePlain items = true) (hne : items ≠ []) (depth outer fuel : Nat)
    (hfuel : (joinedItems style depth items).length < fuel) (rest : List Char) :
    readItems fuel (joinedItems style depth items ++ (lineBreak outer ++ ']' :: rest)) =
      some (items, rest) := by
  obtain ⟨fuel, rfl⟩ : ∃ f, fuel = f + 1 := ⟨fuel - 1, by omega⟩
  cases items with
  | nil => exact absurd rfl hne
  | cons v items =>
      obtain ⟨hv, hitems'⟩ := Bool.and_eq_true_iff.mp hitems
      rw [joinedItems, List.length_append] at hfuel
      have hlength : (pretty style depth v).length ≤ fuel := by omega
      rw [joinedItems, List.append_assoc]
      cases items with
      | nil =>
          have hread := readValue_pretty hstyle v hv depth fuel hlength
            (ends_lineBreak outer (']' :: rest))
          rw [prettyItems, List.nil_append]
          refine readItems_last hread ?_
          rw [dropWhile_lineBreak]
          exact dropWhile_cons_of_not_blank rfl rest
      | cons w items =>
          rw [prettyItems_cons] at hfuel ⊢
          have hread := readValue_pretty hstyle v hv depth fuel hlength
            (ends_separator hstyle (lineBreak depth ++ (joinedItems style depth (w :: items) ++
              (lineBreak outer ++ ']' :: rest))))
          have hnext : (joinedItems style depth (w :: items)).length < fuel := by
            have hseparator := hstyle.length_pos
            simp only [List.length_append] at hfuel
            omega
          have hmore := readItems_joinedItems hstyle (w :: items) hitems' (List.cons_ne_nil w items)
            depth outer fuel hnext rest
          obtain ⟨next, hseparator, hdrop⟩ := dropWhile_separator hstyle depth
            (joinedItems style depth (w :: items) ++ (lineBreak outer ++ ']' :: rest))
          rw [List.append_assoc] at hseparator
          rw [List.append_assoc, List.append_assoc]
          rw [hseparator] at hread ⊢
          rw [readItems_next hread (dropWhile_cons_of_not_blank rfl next), hdrop,
            (dropWhile_joinedItems style depth w items hitems' _).1, hmore]
          rfl

theorem readMembers_joinedMembers (hstyle : style.Separates) (members : List (String × Value))
    (hmembers : Value.membersArePlain members = true) (hne : members ≠ []) (depth outer fuel : Nat)
    (hfuel : (joinedMembers style depth members).length < fuel) (rest : List Char) :
    readMembers fuel (joinedMembers style depth members ++ (lineBreak outer ++ '\x7d' :: rest)) =
      some (some members, rest) := by
  obtain ⟨fuel, rfl⟩ : ∃ f, fuel = f + 1 := ⟨fuel - 1, by omega⟩
  cases members with
  | nil => exact absurd rfl hne
  | cons member members =>
      obtain ⟨name, v⟩ := member
      obtain ⟨hv, hmembers'⟩ := Bool.and_eq_true_iff.mp hmembers
      simp only [joinedMembers, List.length_append, List.length_cons, List.append_assoc,
        List.cons_append, List.nil_append] at hfuel ⊢
      have hlength : (pretty style depth v).length ≤ fuel := by omega
      cases members with
      | nil =>
          have hread := readValue_pretty hstyle v hv depth fuel hlength
            (ends_lineBreak outer ('\x7d' :: rest))
          rw [prettyMembers, List.nil_append]
          refine readMembers_last style (dropWhile_pretty style v hv depth _) hread ?_
          rw [dropWhile_lineBreak]
          exact dropWhile_cons_of_not_blank rfl rest
      | cons next members =>
          rw [prettyMembers_cons] at hfuel ⊢
          have hread := readValue_pretty hstyle v hv depth fuel hlength
            (ends_separator hstyle (lineBreak depth ++
              (joinedMembers style depth (next :: members) ++
                (lineBreak outer ++ '\x7d' :: rest))))
          have hnext : (joinedMembers style depth (next :: members)).length < fuel := by
            have hseparator := hstyle.length_pos
            simp only [List.length_append] at hfuel
            omega
          have hmore := readMembers_joinedMembers hstyle (next :: members) hmembers'
            (List.cons_ne_nil next members) depth outer fuel hnext rest
          obtain ⟨behind, hseparator, hdrop⟩ := dropWhile_separator hstyle depth
            (joinedMembers style depth (next :: members) ++ (lineBreak outer ++ '\x7d' :: rest))
          rw [List.append_assoc] at hseparator
          rw [List.append_assoc, List.append_assoc]
          rw [hseparator] at hread ⊢
          rw [readMembers_next style (dropWhile_pretty style v hv depth _) hread
            (dropWhile_cons_of_not_blank rfl behind), hdrop,
            (dropWhile_joinedMembers style depth next members _).1, hmore]
          simp only [Option.map_some, consMember, String.ofList_toList]

end

/-- What the writer writes for a value is read as that value, also with blanks behind it. -/
theorem readChars_pretty_append (hstyle : style.Separates) (v : Value) (hv : v.isPlain = true)
    {blanks : List Char} (hblanks : ∀ c ∈ blanks, isBlank c = true) :
    readChars (pretty style 0 v ++ blanks) = some v := by
  have hends : Ends blanks := by
    intro c hc
    have hblank := hblanks c (List.mem_of_mem_head? hc)
    simp only [isBlank, Bool.or_eq_true, beq_iff_eq] at hblank
    rcases hblank with ((rfl | rfl) | rfl) | rfl <;> decide
  have hread := readValue_pretty hstyle v hv 0 ((pretty style 0 v ++ blanks).length + 1)
    (by simp; omega) hends
  rw [readChars, dropWhile_pretty style v hv 0 blanks, hread]
  exact if_pos (List.all_eq_true.mpr hblanks)

theorem read_write (hstyle : style.Separates) (v : Value) (hv : v.isPlain = true) :
    read (write style v) = some v := by
  have hnothing : ∀ c ∈ ([] : List Char), isBlank c = true := nofun
  have hread := readChars_pretty_append style hstyle v hv hnothing
  rw [List.append_nil] at hread
  rw [read, toList_write, hread]

variable {style} in
/-- Texts that begin with what is written for two values differ when the values do, whatever comes
behind. -/
theorem eq_of_pretty_append (hstyle : style.Separates) {v w : Value} (hv : v.isPlain = true)
    (hw : w.isPlain = true) {rest more : List Char} (hrest : Ends rest) (hmore : Ends more)
    (h : pretty style 0 v ++ rest = pretty style 0 w ++ more) : v = w := by
  have hleft := readValue_pretty hstyle v hv 0
    ((pretty style 0 v).length + (pretty style 0 w).length) (Nat.le_add_right _ _) hrest
  have hright := readValue_pretty hstyle w hw 0
    ((pretty style 0 v).length + (pretty style 0 w).length) (Nat.le_add_left _ _) hmore
  rw [h, hright] at hleft
  exact (Prod.ext_iff.mp (Option.some.inj hleft)).1.symm

theorem arePlain_map {α : Type} (encode : α → Value) (h : ∀ a, (encode a).isPlain = true)
    (as : List α) : Value.arePlain (as.map encode) = true := by
  induction as with
  | nil => rfl
  | cons a as ih =>
      rw [List.map_cons, Value.arePlain, h a, ih]
      rfl

/-- A list is decoded when each of its members is. -/
theorem mapM_map_eq_some {α : Type} {decode : Value → Option α} {encode : α → Value}
    (h : ∀ a, decode (encode a) = some a) (as : List α) :
    (as.map encode).mapM decode = some as := by
  induction as with
  | nil => rfl
  | cons a as ih =>
      rw [List.map_cons, List.mapM_cons, h a, ih]
      rfl

end Hygiene.Json
