import Hygiene.Json.Value

/-!
Writing JSON text, one event at a time. The writer keeps two things only: how deep it is, and
whether the container that it is about to close has received anything. Every item stands on a line
of its own, two blanks deeper than its container, and a container that received nothing is closed
at once.
-/

namespace Hygiene.Json

/-- The decisions of a layout: what stands between two items before the line breaks, and whether
characters outside ASCII are written as escapes. -/
structure Style where
  separator : String
  asciiOnly : Bool

/-- The layout for data that programs read: a comma alone separates items, and all characters stand
for themselves. -/
def Style.data : Style := ⟨",", false⟩

/-- The layout for dumps inside a message: a blank follows the comma, also at the end of a line, and
the text is ASCII throughout. -/
def Style.dump : Style := ⟨", ", true⟩

def hexDigitChar (n : Nat) : Char :=
  if n < 10 then Char.ofNat ('0'.toNat + n) else Char.ofNat ('a'.toNat + (n - 10))

/-- The escape that names a code unit. -/
def unitEscape (u : Nat) : List Char :=
  ['\\', 'u', hexDigitChar (u / 4096 % 16), hexDigitChar (u / 256 % 16),
    hexDigitChar (u / 16 % 16), hexDigitChar (u % 16)]

/-- The escapes of a character: one unit, or a surrogate pair for those beyond the first plane. -/
def charEscape (c : Char) : List Char :=
  let n := c.toNat
  if n < 0x10000 then unitEscape n
  else unitEscape (0xD800 + (n - 0x10000) / 0x400) ++ unitEscape (0xDC00 + (n - 0x10000) % 0x400)

def writeChar (style : Style) (c : Char) : List Char :=
  if c = '"' then ['\\', '"']
  else if c = '\\' then ['\\', '\\']
  else if c = '\x08' then ['\\', 'b']
  else if c = '\x0c' then ['\\', 'f']
  else if c = '\n' then ['\\', 'n']
  else if c = '\r' then ['\\', 'r']
  else if c = '\t' then ['\\', 't']
  else if c < ' ' then unitEscape c.toNat
  else if style.asciiOnly && 0x80 ≤ c.toNat then charEscape c
  else [c]

def writeString (style : Style) (text : String) : String :=
  String.ofList ('"' :: text.toList.flatMap (writeChar style) ++ ['"'])

/-- What a writer is told, in the order in which a value is gone through. The first item of an array
and the first member of an object are announced as such. -/
inductive Event where
  | openArray
  | closeArray
  | beginItem (first : Bool)
  | endItem
  | openObject
  | closeObject
  | beginName (first : Bool)
  | beginValue
  | endValue
  | atom (text : String)
  deriving DecidableEq, Repr

/-- What the writer remembers between two events: how many containers are open, and whether the one
that was closed or filled last received an item. -/
structure Layout where
  depth : Nat
  filled : Bool
  deriving DecidableEq, Repr

def Layout.start : Layout := ⟨0, false⟩

/-- Two blanks for every open container. -/
def indentation (depth : Nat) : String :=
  String.ofList (List.replicate (2 * depth) ' ')

def Layout.breakBefore (style : Style) (layout : Layout) (first : Bool) : String :=
  (if first then "\n" else style.separator ++ "\n") ++ indentation layout.depth

/-- The end of a container: on a line of its own unless the container is empty. -/
def Layout.close (layout : Layout) (bracket : String) : Layout × String :=
  let depth := layout.depth - 1
  (⟨depth, layout.filled⟩,
    if layout.filled then "\n" ++ indentation depth ++ bracket else bracket)

/-- One step of the writer: its next state and the text that it adds. -/
def Layout.step (style : Style) (layout : Layout) : Event → Layout × String
  | .openArray => (⟨layout.depth + 1, false⟩, "[")
  | .closeArray => layout.close "]"
  | .openObject => (⟨layout.depth + 1, false⟩, "\x7b")
  | .closeObject => layout.close "\x7d"
  | .beginItem first => (layout, layout.breakBefore style first)
  | .beginName first => (layout, layout.breakBefore style first)
  | .beginValue => (layout, ": ")
  | .endItem => ({ layout with filled := true }, "")
  | .endValue => ({ layout with filled := true }, "")
  | .atom text => (layout, text)

def Layout.run (style : Style) (layout : Layout) : List Event → Layout × String
  | [] => (layout, "")
  | e :: es =>
      let (next, text) := layout.step style e
      let (last, more) := next.run style es
      (last, text ++ more)

mutual

def events (style : Style) : Value → List Event
  | .null => [.atom "null"]
  | .bool b => [.atom (if b then "true" else "false")]
  | .natural n => [.atom (toString n)]
  | .number literal => [.atom literal]
  | .string text => [.atom (writeString style text)]
  | .unreadable => [.atom "null"]
  | .array items => .openArray :: (itemEvents style true items ++ [.closeArray])
  | .object members => .openObject :: (memberEvents style true members ++ [.closeObject])

def itemEvents (style : Style) (first : Bool) : List Value → List Event
  | [] => []
  | v :: rest => .beginItem first :: (events style v ++ .endItem :: itemEvents style false rest)

def memberEvents (style : Style) (first : Bool) : List (String × Value) → List Event
  | [] => []
  | (name, v) :: rest =>
      .beginName first :: .atom (writeString style name) :: .beginValue ::
        (events style v ++ .endValue :: memberEvents style false rest)

end

def write (style : Style) (v : Value) : String :=
  (Layout.start.run style (events style v)).2

end Hygiene.Json
