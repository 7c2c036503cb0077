import Hygiene.Text.Blank
import Hygiene.Text.Category
import Hygiene.Text.Fold

/-!
Sets of characters, as regular expressions describe them: ranges, properties, and what can be built
from them. A set is kept as a description; membership is a function on it.

The properties known by name are the general categories, `White_Space`, `Any`, `Assigned` and
`ASCII`. Scripts and their extensions, such as `Greek` or `Script=Latin`, ages, and all other
boolean properties, such as `Alphabetic`, `Uppercase` or `Emoji`, are left out, and so are the
breaks of graphemes, words and sentences: an expression that names one of them is refused here,
although it is a good one.
-/

namespace Hygiene.Regex

inductive Property where
  | word
  | digit
  | blank
  | letter
  | major (code : Char)
  | category (first second : Char)
  deriving DecidableEq, Repr

def Property.holds (p : Property) (c : Char) : Bool :=
  match p with
  | word => Text.isWordChar c
  | digit => Text.isDecimalDigit c
  | blank => Text.isBlank c
  | letter => Text.isLetter c
  | major code => (Text.Category.ofChar c).major == code
  | category first second => Text.Category.ofChar c == ⟨first, second⟩

inductive CharSet where
  | empty
  | range (low high : Char)
  | having (property : Property)
  | union (a b : CharSet)
  | inter (a b : CharSet)
  | minus (a b : CharSet)
  | complement (a : CharSet)
  | folded (asciiOnly : Bool) (a : CharSet)
  deriving DecidableEq, Repr

namespace CharSet

def single (c : Char) : CharSet := range c c

/-- The characters that differ from one in case only. -/
def variants (asciiOnly : Bool) (c : Char) : List Char :=
  if asciiOnly then [c, c.toLower, c.toUpper] else Text.caseVariants c

def contains : CharSet → Char → Bool
  | empty, _ => false
  | range low high, c => low ≤ c && c ≤ high
  | having property, c => property.holds c
  | union a b, c => a.contains c || b.contains c
  | inter a b, c => a.contains c && b.contains c
  | minus a b, c => a.contains c && !b.contains c
  | complement a, c => !a.contains c
  | folded asciiOnly a, c => (variants asciiOnly c).any a.contains

/-- The members of two sets that are in one of them only. -/
def symmetric (a b : CharSet) : CharSet := union (minus a b) (minus b a)

def negateIf (negated : Bool) (a : CharSet) : CharSet :=
  if negated then complement a else a

def ranges (pairs : List (Char × Char)) : CharSet :=
  pairs.foldr (fun (low, high) rest => union (range low high) rest) empty

def asciiDigit : CharSet := range '0' '9'

def asciiWord : CharSet := ranges [('0', '9'), ('A', 'Z'), ('_', '_'), ('a', 'z')]

def asciiBlank : CharSet := ranges [('\t', '\r'), (' ', ' ')]

def ofAsciiName? (name : String) : Option CharSet :=
  match name with
  | "alnum" => some (ranges [('0', '9'), ('A', 'Z'), ('a', 'z')])
  | "alpha" => some (ranges [('A', 'Z'), ('a', 'z')])
  | "ascii" => some (range '\x00' '\x7f')
  | "blank" => some (ranges [('\t', '\t'), (' ', ' ')])
  | "cntrl" => some (ranges [('\x00', '\x1f'), ('\x7f', '\x7f')])
  | "digit" => some asciiDigit
  | "graph" => some (range '!' '~')
  | "lower" => some (range 'a' 'z')
  | "print" => some (range ' ' '~')
  | "punct" => some (ranges [('!', '/'), (':', '@'), ('[', '\x60'), ('\x7b', '~')])
  | "space" => some asciiBlank
  | "upper" => some (range 'A' 'Z')
  | "word" => some asciiWord
  | "xdigit" => some (ranges [('0', '9'), ('A', 'F'), ('a', 'f')])
  | _ => none

/-- Whether the set has no member from the second half of the byte range. A set that is meant for
bytes must not, since such a byte is no character by itself. -/
def withinAscii (a : CharSet) : Bool :=
  (List.range 128).all fun n => !a.contains (Char.ofNat (n + 128))

/-- An estimate of the room that an automaton needs for a set, in bytes. The properties of all
scripts are made of many ranges. -/
def weight : CharSet → Nat
  | empty => 32
  | range _ _ => 32
  | having .word => 20000
  | having .digit => 2000
  | having .blank => 500
  | having _ => 15000
  | union a b => a.weight + b.weight
  | inter a b => max a.weight b.weight
  | minus a b => a.weight + b.weight
  | complement a => a.weight + 300
  | folded _ a => 2 * a.weight

end CharSet

/-- The names of the general categories and of a few other properties, reduced to lower case without
separators. -/
def propertyNames : List (String × CharSet) :=
  let major (code : Char) : CharSet := .having (.major code)
  let category (first second : Char) : CharSet := .having (.category first second)
  let cased : CharSet := .union (category 'L' 'u') (.union (category 'L' 'l') (category 'L' 't'))
  [("l", major 'L'), ("letter", major 'L'),
    ("lc", cased), ("casedletter", cased),
    ("lu", category 'L' 'u'), ("uppercaseletter", category 'L' 'u'),
    ("ll", category 'L' 'l'), ("lowercaseletter", category 'L' 'l'),
    ("lt", category 'L' 't'), ("titlecaseletter", category 'L' 't'),
    ("lm", category 'L' 'm'), ("modifierletter", category 'L' 'm'),
    ("lo", category 'L' 'o'), ("otherletter", category 'L' 'o'),
    ("m", major 'M'), ("mark", major 'M'), ("combiningmark", major 'M'),
    ("mn", category 'M' 'n'), ("nonspacingmark", category 'M' 'n'),
    ("mc", category 'M' 'c'), ("spacingmark", category 'M' 'c'),
    ("me", category 'M' 'e'), ("enclosingmark", category 'M' 'e'),
    ("n", major 'N'), ("number", major 'N'),
    ("nd", category 'N' 'd'), ("decimalnumber", category 'N' 'd'), ("digit", category 'N' 'd'),
    ("nl", category 'N' 'l'), ("letternumber", category 'N' 'l'),
    ("no", category 'N' 'o'), ("othernumber", category 'N' 'o'),
    ("p", major 'P'), ("punctuation", major 'P'), ("punct", major 'P'),
    ("pc", category 'P' 'c'), ("connectorpunctuation", category 'P' 'c'),
    ("pd", category 'P' 'd'), ("dashpunctuation", category 'P' 'd'),
    ("ps", category 'P' 's'), ("openpunctuation", category 'P' 's'),
    ("pe", category 'P' 'e'), ("closepunctuation", category 'P' 'e'),
    ("pi", category 'P' 'i'), ("initialpunctuation", category 'P' 'i'),
    ("pf", category 'P' 'f'), ("finalpunctuation", category 'P' 'f'),
    ("po", category 'P' 'o'), ("otherpunctuation", category 'P' 'o'),
    ("s", major 'S'), ("symbol", major 'S'),
    ("sm", category 'S' 'm'), ("mathsymbol", category 'S' 'm'),
    ("sc", category 'S' 'c'), ("currencysymbol", category 'S' 'c'),
    ("sk", category 'S' 'k'), ("modifiersymbol", category 'S' 'k'),
    ("so", category 'S' 'o'), ("othersymbol", category 'S' 'o'),
    ("z", major 'Z'), ("separator", major 'Z'),
    ("zs", category 'Z' 's'), ("spaceseparator", category 'Z' 's'),
    ("zl", category 'Z' 'l'), ("lineseparator", category 'Z' 'l'),
    ("zp", category 'Z' 'p'), ("paragraphseparator", category 'Z' 'p'),
    ("c", major 'C'), ("other", major 'C'),
    ("cc", category 'C' 'c'), ("control", category 'C' 'c'), ("cntrl", category 'C' 'c'),
    ("cf", category 'C' 'f'), ("format", category 'C' 'f'),
    ("co", category 'C' 'o'), ("privateuse", category 'C' 'o'),
    ("cn", category 'C' 'n'), ("unassigned", category 'C' 'n'),
    ("any", .range (Char.ofNat 0) (Char.ofNat 0x10FFFF)),
    ("ascii", .range '\x00' '\x7f'),
    ("assigned", .complement (category 'C' 'n')),
    ("whitespace", .having .blank), ("wspace", .having .blank), ("space", .having .blank)]

/-- The set that a property name stands for. Case, blanks, dashes and underscores in the name, and
`is` at its front, do not count. -/
def CharSet.ofPropertyName? (name : List Char) : Option CharSet :=
  let reduced := (name.filter fun c => c != ' ' && c != '-' && c != '_').map Char.toLower
  let lookup (cs : List Char) : Option CharSet :=
    propertyNames.lookup (String.ofList cs)
  match reduced with
  | 'i' :: 's' :: rest => lookup rest
  | cs => lookup cs

end Hygiene.Regex
