/-!
Tokens of GN build files, read from the bytes of a text. Only what matters for finding targets is
told apart; everything else is one kind of token.

The lexer is a machine that is fed one byte at a time. It never looks ahead: a mode says what is
being read, and a mode that turns out to be over emits its token and hands the byte on. Words and
string literals are ranges of bytes; since every byte that begins or ends one is ASCII, the ranges
lie on character boundaries.
-/

namespace Hygiene.Gn

/-- A token. Words and string literals carry a text, or a range of bytes that will be cut from one;
that of a literal stands between the quotes, with its escapes as written. -/
inductive Token (α : Type) where
  | word (text : α)
  | quoted (text : α)
  | openParen
  | closeParen
  | openBrace
  | closeBrace
  | openBracket
  | closeBracket
  | dot
  | assign
  | addAssign
  | subAssign
  | other
  deriving DecidableEq, Repr

def Token.map {α β : Type} (f : α → β) : Token α → Token β
  | .word text => .word (f text)
  | .quoted text => .quoted (f text)
  | .openParen => .openParen
  | .closeParen => .closeParen
  | .openBrace => .openBrace
  | .closeBrace => .closeBrace
  | .openBracket => .openBracket
  | .closeBracket => .closeBracket
  | .dot => .dot
  | .assign => .assign
  | .addAssign => .addAssign
  | .subAssign => .subAssign
  | .other => .other

structure Span where
  start : String.Pos.Raw
  stop : String.Pos.Raw
  deriving DecidableEq, Repr

/-- The part of a text that a range covers. -/
def Span.cut (text : String) (span : Span) : String :=
  span.start.extract text span.stop

namespace Lexer

/-- What the lexer is in the middle of, with the byte at which it began. In `escape` the next byte
is passed over whatever it is, and in `operator` it may complete the byte before. -/
inductive Mode where
  | between
  | comment
  | word (start : Nat)
  | string (start : Nat)
  | escape (start : Nat)
  | operator (first : UInt8)
  deriving DecidableEq, Repr

/-- The bytes that may begin a word. -/
def beginsWord (b : UInt8) : Bool :=
  (97 ≤ b && b ≤ 122) || (65 ≤ b && b ≤ 90) || b == 95

def continuesWord (b : UInt8) : Bool :=
  beginsWord b || (48 ≤ b && b ≤ 57)

/-- The blanks of ASCII: tab, line feed, form feed, carriage return and space. -/
def isBlank (b : UInt8) : Bool :=
  b == 9 || b == 10 || b == 12 || b == 13 || b == 32

/-- The bytes that form an operator of their own together with an equals sign: `+`, `-`, `=`, `!`,
`<` and `>`. -/
def beginsOperator (b : UInt8) : Bool :=
  b == 43 || b == 45 || b == 61 || b == 33 || b == 60 || b == 62

def single (b : UInt8) : Token Span :=
  if b = 40 then .openParen
  else if b = 41 then .closeParen
  else if b = 123 then .openBrace
  else if b = 125 then .closeBrace
  else if b = 91 then .openBracket
  else if b = 93 then .closeBracket
  else if b = 46 then .dot
  else if b = 61 then .assign
  else .other

def completed (b : UInt8) : Token Span :=
  if b = 43 then .addAssign
  else if b = 45 then .subAssign
  else .other

def span (start stop : Nat) : Span := ⟨⟨start⟩, ⟨stop⟩⟩

/-- Reads a byte when nothing is being read. -/
def begin (position : Nat) (b : UInt8) : Mode × List (Token Span) :=
  if b = 35 then (.comment, [])
  else if b = 34 then (.string (position + 1), [])
  else if beginsWord b then (.word position, [])
  else if isBlank b then (.between, [])
  else if beginsOperator b then (.operator b, [])
  else (.between, [single b])

/-- Reads a byte: the mode that follows, and the tokens that are complete. -/
def step (mode : Mode) (position : Nat) (b : UInt8) : Mode × List (Token Span) :=
  match mode with
  | .between => begin position b
  | .comment => if b = 10 then (.between, []) else (.comment, [])
  | .word start =>
      if continuesWord b then (.word start, [])
      else
        let (next, tokens) := begin position b
        (next, .word (span start position) :: tokens)
  | .string start =>
      if b = 92 then (.escape start, [])
      else if b = 34 then (.between, [.quoted (span start position)])
      else (.string start, [])
  | .escape start => (.string start, [])
  | .operator first =>
      if b = 61 then (.between, [completed first])
      else
        let (next, tokens) := begin position b
        (next, single first :: tokens)

/-- The token that the end of the text completes. A string literal that is still open is none. -/
def finish (mode : Mode) (position : Nat) : List (Token Span) :=
  match mode with
  | .word start => [.word (span start position)]
  | .operator first => [single first]
  | _ => []

def run (mode : Mode) (position : Nat) : List UInt8 → List (Token Span)
  | [] => finish mode position
  | b :: rest =>
      let (next, tokens) := step mode position b
      tokens ++ run next (position + 1) rest

end Lexer

def spans (text : String) : List (Token Span) :=
  Lexer.run .between 0 text.toUTF8.toList

/-- The tokens of a text. A string literal that never ends, and all behind it, yields nothing. -/
def tokens (text : String) : List (Token String) :=
  (spans text).map (Token.map (Span.cut text))

end Hygiene.Gn
