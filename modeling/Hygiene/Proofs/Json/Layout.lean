import Mathlib.Tactic
import Hygiene.Json.Layout

/-!
What the writer of JSON text writes. It goes through a value event by event and remembers only its
depth and whether the last container received something. The text is the one that a printer lays
out by recursion on the value.
-/

namespace Hygiene.Json

def lineBreak (depth : Nat) : List Char :=
  '\n' :: List.replicate (2 * depth) ' '

mutual

/-- The text of a value that stands at some depth: each item of a container on a line of its own,
one step deeper, and the closing bracket on another. -/
def pretty (style : Style) (depth : Nat) : Value → List Char
  | .null => "null".toList
  | .bool b => (if b then "true" else "false").toList
  | .natural n => (toString n).toList
  | .number literal => literal.toList
  | .string text => (writeString style text).toList
  | .unreadable => "null".toList
  | .array [] => ['[', ']']
  | .array (v :: rest) =>
      '[' :: (lineBreak (depth + 1) ++ pretty style (depth + 1) v ++
        prettyItems style (depth + 1) rest ++ lineBreak depth ++ [']'])
  | .object [] => ['\x7b', '\x7d']
  | .object ((name, v) :: rest) =>
      '\x7b' :: (lineBreak (depth + 1) ++ (writeString style name).toList ++ [':', ' '] ++
        pretty style (depth + 1) v ++ prettyMembers style (depth + 1) rest ++ lineBreak depth ++
          ['\x7d'])

def prettyItems (style : Style) (depth : Nat) : List Value → List Char
  | [] => []
  | v :: rest =>
      style.separator.toList ++ lineBreak depth ++ pretty style depth v ++
        prettyItems style depth rest

def prettyMembers (style : Style) (depth : Nat) : List (String × Value) → List Char
  | [] => []
  | (name, v) :: rest =>
      style.separator.toList ++ lineBreak depth ++ (writeString style name).toList ++ [':', ' '] ++
        pretty style depth v ++ prettyMembers style depth rest

end

namespace Layout

/-- Over these events the writer goes from one state to another and adds this text. -/
def Writes (style : Style) (layout : Layout) (es : List Event) (next : Layout)
    (text : List Char) : Prop :=
  (layout.run style es).1 = next ∧ (layout.run style es).2.toList = text

variable (style : Style)

theorem run_append (layout : Layout) (front rest : List Event) :
    layout.run style (front ++ rest) =
      (((layout.run style front).1.run style rest).1,
        (layout.run style front).2 ++ ((layout.run style front).1.run style rest).2) := by
  induction front generalizing layout with
  | nil =>
      simp only [List.nil_append, run]
      rw [String.empty_append]
  | cons e front ih => simp only [List.cons_append, run, ih, String.append_assoc]

variable {style} in
theorem Writes.append {layout middle next : Layout} {front rest : List Event}
    {text more : List Char} (hfront : Writes style layout front middle text)
    (hrest : Writes style middle rest next more) :
    Writes style layout (front ++ rest) next (text ++ more) := by
  obtain ⟨rfl, rfl⟩ := hfront
  obtain ⟨rfl, rfl⟩ := hrest
  rw [Writes, run_append]
  exact ⟨rfl, String.toList_append⟩

theorem writes_one (layout : Layout) (e : Event) :
    Writes style layout [e] (layout.step style e).1 (layout.step style e).2.toList := by
  refine ⟨rfl, ?_⟩
  change ((layout.step style e).2 ++ "").toList = _
  rw [String.append_empty]

theorem toList_indentation (depth : Nat) :
    (indentation depth).toList = List.replicate (2 * depth) ' ' := by
  rw [indentation, String.toList_ofList]

theorem toList_breakBefore (depth : Nat) (filled first : Bool) :
    (Layout.breakBefore style ⟨depth, filled⟩ first).toList =
      (if first then [] else style.separator.toList) ++ lineBreak depth := by
  cases first <;>
    simp [breakBefore, lineBreak, String.toList_append, toList_indentation]

theorem toList_close (depth : Nat) (bracket : String) :
    (Layout.close ⟨depth + 1, true⟩ bracket).2.toList = lineBreak depth ++ bracket.toList := by
  simp [close, lineBreak, String.toList_append, toList_indentation]

theorem writes_atom (layout : Layout) (text : String) :
    Writes style layout [.atom text] layout text.toList :=
  writes_one style layout (.atom text)

theorem writes_beginItem (depth : Nat) (filled first : Bool) :
    Writes style ⟨depth, filled⟩ [.beginItem first] ⟨depth, filled⟩
      ((if first then [] else style.separator.toList) ++ lineBreak depth) := by
  rw [← toList_breakBefore style depth filled first]
  exact writes_one style _ (.beginItem first)

theorem writes_beginName (depth : Nat) (filled first : Bool) :
    Writes style ⟨depth, filled⟩ [.beginName first] ⟨depth, filled⟩
      ((if first then [] else style.separator.toList) ++ lineBreak depth) := by
  rw [← toList_breakBefore style depth filled first]
  exact writes_one style _ (.beginName first)

theorem writes_beginValue (layout : Layout) :
    Writes style layout [.beginValue] layout [':', ' '] := by
  have hcolon : ": ".toList = [':', ' '] := rfl
  rw [← hcolon]
  exact writes_one style layout .beginValue

theorem writes_closeArray (depth : Nat) :
    Writes style ⟨depth + 1, true⟩ [.closeArray] ⟨depth, true⟩ (lineBreak depth ++ [']']) := by
  have hbracket : "]".toList = [']'] := rfl
  rw [← hbracket, ← toList_close]
  exact writes_one style _ .closeArray

theorem writes_closeObject (depth : Nat) :
    Writes style ⟨depth + 1, true⟩ [.closeObject] ⟨depth, true⟩ (lineBreak depth ++ ['\x7d']) := by
  have hbracket : "\x7d".toList = ['\x7d'] := rfl
  rw [← hbracket, ← toList_close]
  exact writes_one style _ .closeObject

theorem writes_end (layout : Layout) {e : Event} (he : e = .endItem ∨ e = .endValue) :
    Writes style layout [e] ⟨layout.depth, true⟩ [] := by
  rcases he with rfl | rfl
  · exact writes_one style layout .endItem
  · exact writes_one style layout .endValue

mutual

/-- The writer adds the text of a value and returns to its depth. -/
theorem writes_events (v : Value) (depth : Nat) (filled : Bool) :
    ∃ filled', Writes style ⟨depth, filled⟩ (events style v) ⟨depth, filled'⟩
      (pretty style depth v) := by
  cases v with
  | array items =>
      cases items with
      | nil =>
          refine ⟨false, ?_⟩
          have hopen := writes_one style ⟨depth, filled⟩ .openArray
          have hclose := hopen.append (writes_one style ⟨depth + 1, false⟩ .closeArray)
          simpa [events, itemEvents, pretty, step, close] using hclose
      | cons v rest =>
          refine ⟨true, ?_⟩
          obtain ⟨filled', hv⟩ := writes_events v (depth + 1) false
          have hopen := writes_one style ⟨depth, filled⟩ .openArray
          have hitem := ((writes_beginItem style (depth + 1) false true).append hv).append
            (writes_end style ⟨depth + 1, filled'⟩ (Or.inl rfl))
          have hitems := (hopen.append hitem).append (writes_itemEvents rest (depth + 1))
          have hall := hitems.append (writes_closeArray style depth)
          simpa [events, itemEvents, pretty, step] using hall
  | object members =>
      cases members with
      | nil =>
          refine ⟨false, ?_⟩
          have hopen := writes_one style ⟨depth, filled⟩ .openObject
          have hclose := hopen.append (writes_one style ⟨depth + 1, false⟩ .closeObject)
          simpa [events, memberEvents, pretty, step, close] using hclose
      | cons member rest =>
          refine ⟨true, ?_⟩
          obtain ⟨name, v⟩ := member
          obtain ⟨filled', hv⟩ := writes_events v (depth + 1) false
          have hopen := writes_one style ⟨depth, filled⟩ .openObject
          have hname := (writes_beginName style (depth + 1) false true).append
            (writes_atom style ⟨depth + 1, false⟩ (writeString style name))
          have hmember := ((hname.append (writes_beginValue style _)).append hv).append
            (writes_end style ⟨depth + 1, filled'⟩ (Or.inr rfl))
          have hmembers := (hopen.append hmember).append (writes_memberEvents rest (depth + 1))
          have hall := hmembers.append (writes_closeObject style depth)
          simpa [events, memberEvents, pretty, step] using hall
  | _ => exact ⟨filled, by simpa only [events, pretty] using writes_atom style _ _⟩

theorem writes_itemEvents (items : List Value) (depth : Nat) :
    Writes style ⟨depth, true⟩ (itemEvents style false items) ⟨depth, true⟩
      (prettyItems style depth items) := by
  cases items with
  | nil => exact ⟨rfl, rfl⟩
  | cons v rest =>
      obtain ⟨filled', hv⟩ := writes_events v depth true
      have hitem := ((writes_beginItem style depth true false).append hv).append
        (writes_end style ⟨depth, filled'⟩ (Or.inl rfl))
      have hall := hitem.append (writes_itemEvents rest depth)
      simpa [itemEvents, prettyItems] using hall

theorem writes_memberEvents (members : List (String × Value)) (depth : Nat) :
    Writes style ⟨depth, true⟩ (memberEvents style false members) ⟨depth, true⟩
      (prettyMembers style depth members) := by
  cases members with
  | nil => exact ⟨rfl, rfl⟩
  | cons member rest =>
      obtain ⟨name, v⟩ := member
      obtain ⟨filled', hv⟩ := writes_events v depth true
      have hname := (writes_beginName style depth true false).append
        (writes_atom style ⟨depth, true⟩ (writeString style name))
      have hmember := ((hname.append (writes_beginValue style _)).append hv).append
        (writes_end style ⟨depth, filled'⟩ (Or.inr rfl))
      have hall := hmember.append (writes_memberEvents rest depth)
      simpa [memberEvents, prettyMembers] using hall

end

end Layout

/-- The text of a value is the one that recursion over it lays out. -/
theorem toList_write (style : Style) (v : Value) : (write style v).toList = pretty style 0 v := by
  obtain ⟨_, -, htext⟩ := Layout.writes_events style v 0 false
  exact htext

mutual

/-- Whether a value is made of texts, natural numbers, truth values, arrays and objects only. The
other two kinds keep what was read and are not written. -/
def Value.isPlain : Value → Bool
  | .null | .bool _ | .natural _ | .string _ => true
  | .number _ | .unreadable => false
  | .array items => Value.arePlain items
  | .object members => Value.membersArePlain members

def Value.arePlain : List Value → Bool
  | [] => true
  | v :: rest => v.isPlain && Value.arePlain rest

def Value.membersArePlain : List (String × Value) → Bool
  | [] => true
  | (_, v) :: rest => v.isPlain && Value.membersArePlain rest

end

def Ascii (cs : List Char) : Prop :=
  ∀ c ∈ cs, c.toNat < 128

@[simp] theorem ascii_nil : Ascii [] := nofun

@[simp] theorem ascii_cons {c : Char} {cs : List Char} :
    Ascii (c :: cs) ↔ c.toNat < 128 ∧ Ascii cs := by
  simp [Ascii]

@[simp] theorem ascii_append {cs ds : List Char} : Ascii (cs ++ ds) ↔ Ascii cs ∧ Ascii ds := by
  simp only [Ascii, List.mem_append, or_imp, forall_and]

theorem ascii_flatMap {cs : List Char} {f : Char → List Char} (h : ∀ c, Ascii (f c)) :
    Ascii (cs.flatMap f) := by
  intro d hd
  obtain ⟨c, -, hc⟩ := List.mem_flatMap.mp hd
  exact h c d hc

theorem ascii_lineBreak (depth : Nat) : Ascii (lineBreak depth) := by
  intro c hc
  rcases List.mem_cons.mp hc with rfl | hc
  · decide
  · obtain rfl := List.eq_of_mem_replicate hc
    decide

theorem ascii_unitEscape (u : Nat) : Ascii (unitEscape u) := by
  have hdigit (n : Nat) : (hexDigitChar (n % 16)).toNat < 128 := by
    have htable : ∀ n : Fin 16, (hexDigitChar n).toNat < 128 := by decide
    exact htable ⟨n % 16, Nat.mod_lt n (by omega)⟩
  simp only [unitEscape, ascii_cons, hdigit, ascii_nil, and_self, and_true]
  decide

theorem ascii_charEscape (c : Char) : Ascii (charEscape c) := by
  rw [charEscape]
  split
  · exact ascii_unitEscape _
  · exact ascii_append.mpr ⟨ascii_unitEscape _, ascii_unitEscape _⟩

section Ascii

variable {style : Style} (hstyle : style.asciiOnly = true ∧ Ascii style.separator.toList)
include hstyle

theorem ascii_writeChar (c : Char) : Ascii (writeChar style c) := by
  rw [writeChar]
  split
  · simp
  split
  · simp
  split
  · simp
  split
  · simp
  split
  · simp
  split
  · simp
  split
  · simp
  split
  · exact ascii_unitEscape c.toNat
  split
  · exact ascii_charEscape c
  next h =>
    rw [hstyle.1, Bool.true_and, decide_eq_true_eq, Nat.not_le] at h
    exact ascii_cons.mpr ⟨h, ascii_nil⟩

theorem ascii_writeString (text : String) : Ascii (writeString style text).toList := by
  rw [writeString, String.toList_ofList, ascii_append, ascii_cons]
  exact ⟨⟨by decide, ascii_flatMap (ascii_writeChar hstyle)⟩, by simp⟩

mutual

/-- A style that escapes all other characters writes ASCII only. -/
theorem ascii_pretty (v : Value) (hv : v.isPlain = true) (depth : Nat) :
    Ascii (pretty style depth v) := by
  cases v with
  | null => simp [pretty]
  | bool b => cases b <;> simp [pretty]
  | natural n =>
      intro c hc
      rw [pretty, Nat.toString_eq_repr, Nat.toList_repr] at hc
      have hdigit : c.isDigit = true := Nat.isDigit_of_mem_toDigits (by decide) (by decide) hc
      rw [Char.isDigit_iff_toNat] at hdigit
      exact Nat.lt_of_le_of_lt hdigit.2 (by decide)
  | number _ => cases hv
  | unreadable => cases hv
  | string text => exact ascii_writeString hstyle text
  | array items =>
      cases items with
      | nil => simp [pretty]
      | cons v rest =>
          obtain ⟨hv, hrest⟩ := Bool.and_eq_true_iff.mp hv
          have hfirst := ascii_pretty v hv (depth + 1)
          have hmore := ascii_prettyItems rest hrest (depth + 1)
          simp [pretty, hfirst, hmore, ascii_lineBreak]
  | object members =>
      cases members with
      | nil => simp [pretty]
      | cons member rest =>
          obtain ⟨name, v⟩ := member
          obtain ⟨hv, hrest⟩ := Bool.and_eq_true_iff.mp hv
          have hname := ascii_writeString hstyle name
          have hfirst := ascii_pretty v hv (depth + 1)
          have hmore := ascii_prettyMembers rest hrest (depth + 1)
          simp [pretty, hname, hfirst, hmore, ascii_lineBreak]

theorem ascii_prettyItems (items : List Value) (hitems : Value.arePlain items = true)
    (depth : Nat) : Ascii (prettyItems style depth items) := by
  cases items with
  | nil => exact ascii_nil
  | cons v rest =>
      obtain ⟨hv, hrest⟩ := Bool.and_eq_true_iff.mp hitems
      have hfirst := ascii_pretty v hv depth
      have hmore := ascii_prettyItems rest hrest depth
      simp [prettyItems, hfirst, hmore, ascii_lineBreak, hstyle.2]

theorem ascii_prettyMembers (members : List (String × Value))
    (hmembers : Value.membersArePlain members = true) (depth : Nat) :
    Ascii (prettyMembers style depth members) := by
  cases members with
  | nil => exact ascii_nil
  | cons member rest =>
      obtain ⟨name, v⟩ := member
      obtain ⟨hv, hrest⟩ := Bool.and_eq_true_iff.mp hmembers
      have hname := ascii_writeString hstyle name
      have hfirst := ascii_pretty v hv depth
      have hmore := ascii_prettyMembers rest hrest depth
      simp [prettyMembers, hname, hfirst, hmore, ascii_lineBreak, hstyle.2]

end

end Ascii

end Hygiene.Json
