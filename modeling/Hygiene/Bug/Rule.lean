import Hygiene.Regex.Match
import Hygiene.Text.Blank
import Hygiene.Text.Line

/-!
The rule for entries of the field that refers to issues. Every entry names a tracker and a number,
as in `webrtc:1234`. A bare number is answered with a guess at the tracker: those above a threshold
are taken to belong to the larger one.
-/

namespace Hygiene.Bug

structure Rule where
  require : Bool
  threshold : UInt64
  pattern : Regex
  deriving DecidableEq, Repr

/-- The expression for entries of word characters, a colon and digits, between the two ends of the
entry. -/
def defaultPattern : Regex :=
  .seq (.look .textStart)
    (.seq
      (.group none
        (.seq (Regex.plus (.char (.having .word)))
          (.seq (.char (.single ':')) (Regex.plus (.char (.having .digit))))))
      (.look .textEnd))

def Rule.default : Rule := ⟨false, 100000, defaultPattern⟩

def wholeEntry (pattern : String) : String := "^(?:" ++ pattern ++ ")$"

def exampleText : String :=
  "Please specify the issue tracker prefix and the issue number, " ++
  "separated by a colon, e.g. webrtc:123 or chromium:12345."

/-- The number that decimal digits denote, if it fits a machine word. The digits are taken in one
after the other, and the first step that does not fit ends the attempt. -/
def word? (digits : List Char) : Option Nat :=
  digits.foldl
    (fun n d => n.bind fun n =>
      let next := n * 10 + (d.toNat - '0'.toNat)
      if next < UInt64.size then some next else none)
    (some 0)

namespace Rule

/-- The tracker that a bare number is guessed to belong to. A number that fits no machine word is
above every threshold. -/
def guessTracker (r : Rule) (digits : String) : String :=
  match word? digits.toList with
  | none => "chromium"
  | some n => if r.threshold.toNat < n then "chromium" else "webrtc"

def bareNumberMessage (r : Rule) (entry : String) : String :=
  s!"BUG entry requires issue tracker prefix, e.g. {r.guessTracker entry}:{entry}"

def bogusMessage (entry : String) : String := s!"Bogus BUG entry: {entry}. {exampleText}"

/-- The message about an entry, if anything is wrong with it. Empty entries and those that say
`none` are passed over. -/
def complaint? (r : Rule) (entry : String) : Option String :=
  if entry.isEmpty || entry.map Char.toLower == "none" then none
  else if !entry.toList.contains ':' && entry.toList.all Char.isDigit then
    some (r.bareNumberMessage entry)
  else if r.pattern.isMatch entry then none
  else some (bogusMessage entry)

/-- The entries of a field, without the blanks around them. -/
def entries (field : String) : List String := (Text.splitOn ',' field).map Text.trim

def validate (r : Rule) (field : String) : List String :=
  (entries field).filterMap r.complaint?

end Rule

end Hygiene.Bug
