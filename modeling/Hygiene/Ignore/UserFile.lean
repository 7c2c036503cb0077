import Hygiene.Host
import Hygiene.Ignore.Rule

/-!
The ignore file of the user, which holds for all trees. The configuration of the version control
system names it, in the home directory or in the directory of settings; otherwise it is the file
`git/ignore` in the directory of settings.
-/

namespace Hygiene.Ignore

def isAsciiBlank (b : UInt8) : Bool := b == 32 || (9 ≤ b && b ≤ 13)

/-- Whether nothing but blanks follows on the line. -/
def endsLine (bytes : List UInt8) : Bool :=
  let blanks := bytes.takeWhile isAsciiBlank
  blanks.contains 10 || blanks.length == bytes.length

/-- Whether nothing but blanks and at most one quote follows on the line. -/
def endsValue (bytes : List UInt8) : Bool :=
  endsLine bytes ||
    match bytes.dropWhile isAsciiBlank with
    | 34 :: rest => endsLine rest
    | _ => false

/-- The shortest value at the front of some bytes: at least one byte, none of them blank, behind
which the line may end. -/
def value? : List UInt8 → Option (List UInt8)
  | [] => none
  | b :: rest =>
      if isAsciiBlank b then none
      else if endsValue rest then some [b]
      else (value? rest).map (b :: ·)

def afterKey? : List Char → List UInt8 → Option (List UInt8)
  | [], bytes => some bytes
  | _ :: _, [] => none
  | c :: key, b :: bytes => if (byteChar b).toLower = c then afterKey? key bytes else none

/-- The value of the setting if it begins here, behind blanks. A quote around the value may be left
out. -/
def settingHere? (bytes : List UInt8) : Option (List UInt8) := do
  let rest ← afterKey? "excludesfile".toList (bytes.dropWhile isAsciiBlank)
  match rest.dropWhile isAsciiBlank with
  | 61 :: rest =>
      match rest.dropWhile isAsciiBlank with
      | 34 :: quoted =>
          (value? (quoted.dropWhile isAsciiBlank)).or (value? (34 :: quoted))
      | plain => value? plain
  | _ => none

/-- The value of the setting on the first line that has it. `atLineStart` tells whether a line
starts here. -/
def settingFrom? (atLineStart : Bool) (bytes : List UInt8) : Option (List UInt8) :=
  (if atLineStart then settingHere? bytes else none).or
    (match bytes with
    | [] => none
    | b :: rest => settingFrom? (b == 10) rest)

def namedFile? (bytes : List UInt8) : Option String := do
  (Text.Utf8.decode (← settingFrom? true bytes)).toOption

/-- A text with the home directory in place of every `~`. -/
def expandHome (home : Option Path) (text : String) : String :=
  match home with
  | none => text
  | some home =>
      String.ofList (text.toList.flatMap fun c => if c = '~' then home.text.toList else [c])

end Hygiene.Ignore

namespace Hygiene.Host

def settings? (h : Host) : Option Path :=
  ((h.filled? "XDG_CONFIG_HOME").map Path.mk).or (h.home?.map (·.entry ".config"))

def namedIgnoreFile? (h : Host) (configuration : Option Path) : Option Path := do
  let bytes ← (h.read (← configuration)).toOption
  let name ← Ignore.namedFile? bytes
  return ⟨Ignore.expandHome h.home? name⟩

def ignoreFile? (h : Host) : Option Path :=
  ((h.namedIgnoreFile? (h.home?.map (·.entry ".gitconfig"))).or
      (h.namedIgnoreFile? (h.settings?.map fun p => p.join ⟨"git/config"⟩))).or
    (h.settings?.map fun p => p.join ⟨"git/ignore"⟩)

/-- The rules that the user sets for all trees. -/
def ignoreRules (h : Host) : List Ignore.Rule :=
  match h.ignoreFile? with
  | none => []
  | some path => Ignore.rulesOf (Ignore.fileLines ((h.read path).toOption.getD []))

end Hygiene.Host
