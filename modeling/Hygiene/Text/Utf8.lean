/-!
UTF-8. A byte sequence is read as text, or the first fault in it is found: where it is, and how
many bytes belong to it. A sequence that breaks off at the end of the bytes is told apart from one
that no continuation could mend.
-/

namespace Hygiene.Text.Utf8

/-- The first fault in a byte sequence: the number of well formed bytes before it and, unless the
bytes merely end inside a character, the number of bytes that are at fault. -/
structure Fault where
  validUpTo : Nat
  length : Option Nat
  deriving DecidableEq, Repr

def Fault.message (fault : Fault) : String :=
  match fault.length with
  | some n => s!"invalid utf-8 sequence of {n} bytes from index {fault.validUpTo}"
  | none => s!"incomplete utf-8 byte sequence from index {fault.validUpTo}"

/-- A byte that continues a character. -/
def isTail (b : UInt8) : Bool := 0x80 ≤ b && b ≤ 0xBF

def tailBits (b : UInt8) : Nat := b.toNat % 64

/-- The second bytes allowed after the first byte of a character of three bytes. -/
def allowsSecond3 (first second : UInt8) : Bool :=
  if first = 0xE0 then 0xA0 ≤ second && second ≤ 0xBF
  else if first = 0xED then 0x80 ≤ second && second ≤ 0x9F
  else isTail second

def allowsSecond4 (first second : UInt8) : Bool :=
  if first = 0xF0 then 0x90 ≤ second && second ≤ 0xBF
  else if first = 0xF4 then 0x80 ≤ second && second ≤ 0x8F
  else isTail second

def decodeFrom (index : Nat) : List UInt8 → Except Fault (List Char)
  | [] => .ok []
  | a :: rest =>
      if a < 0x80 then
        (decodeFrom (index + 1) rest).map (Char.ofNat a.toNat :: ·)
      else if 0xC2 ≤ a && a ≤ 0xDF then
        match rest with
        | [] => .error ⟨index, none⟩
        | b :: rest =>
            if isTail b then
              (decodeFrom (index + 2) rest).map
                (Char.ofNat ((a.toNat - 0xC0) * 64 + tailBits b) :: ·)
            else .error ⟨index, some 1⟩
      else if 0xE0 ≤ a && a ≤ 0xEF then
        match rest with
        | [] => .error ⟨index, none⟩
        | b :: rest =>
            if !allowsSecond3 a b then .error ⟨index, some 1⟩
            else
              match rest with
              | [] => .error ⟨index, none⟩
              | c :: rest =>
                  if isTail c then
                    (decodeFrom (index + 3) rest).map
                      (Char.ofNat ((a.toNat - 0xE0) * 4096 + tailBits b * 64 + tailBits c) :: ·)
                  else .error ⟨index, some 2⟩
      else if 0xF0 ≤ a && a ≤ 0xF4 then
        match rest with
        | [] => .error ⟨index, none⟩
        | b :: rest =>
            if !allowsSecond4 a b then .error ⟨index, some 1⟩
            else
              match rest with
              | [] => .error ⟨index, none⟩
              | c :: rest =>
                  if !isTail c then .error ⟨index, some 2⟩
                  else
                    match rest with
                    | [] => .error ⟨index, none⟩
                    | d :: rest =>
                        if isTail d then
                          (decodeFrom (index + 4) rest).map
                            (Char.ofNat ((a.toNat - 0xF0) * 262144 + tailBits b * 4096 +
                              tailBits c * 64 + tailBits d) :: ·)
                        else .error ⟨index, some 3⟩
      else .error ⟨index, some 1⟩

/-- The text that bytes spell, or the first fault in them. -/
def decode (bytes : List UInt8) : Except Fault String :=
  (decodeFrom 0 bytes).map String.ofList

def encode (s : String) : List UInt8 :=
  s.toList.flatMap String.utf8EncodeChar

end Hygiene.Text.Utf8
