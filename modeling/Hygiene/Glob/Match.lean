import Hygiene.Glob.Basic

/-!
Matching texts against glob patterns. A wildcard tries the empty run first and then ever longer
ones. When the rest of the pattern runs out of text, longer runs would leave it even less, so the
whole attempt is given up.
-/

namespace Hygiene

def GlobToken.allows (t : GlobToken) (c : Char) : Bool :=
  match t with
  | char d => c == d
  | anyChar => true
  | within members => members.any (·.covers c)
  | except members => !members.any (·.covers c)
  | anySequence | anyDirectories => false

namespace Glob

/-- How an attempt to match ends. After a mismatch a wildcard before it may take more; when the text
is exhausted, it is too short whatever the wildcards before take. -/
inductive Attempt where
  | matched
  | mismatch
  | exhausted
  deriving DecidableEq, Repr

/-- The first attempt, unless it is a mismatch. -/
def Attempt.orElse (first second : Attempt) : Attempt :=
  match first with
  | mismatch => second
  | other => other

/-- Lets a wildcard take one character after the other. After each character that `stops` allows,
the rest of the pattern is tried by `next`; at the end of the text it is tried in any case. -/
def sweep (next : List Char → Attempt) (stops : Char → Bool) : List Char → Attempt
  | [] => next []
  | c :: rest =>
      if stops c then (next rest).orElse (sweep next stops rest) else sweep next stops rest

def attempt : List GlobToken → List Char → Attempt
  | [], [] => .matched
  | [], _ :: _ => .mismatch
  | .anySequence :: tokens, cs =>
      (attempt tokens cs).orElse (sweep (attempt tokens) (fun _ => true) cs)
  | .anyDirectories :: tokens, cs =>
      (attempt tokens cs).orElse (sweep (attempt tokens) (· == '/') cs)
  | _ :: _, [] => .exhausted
  | t :: tokens, c :: cs => if t.allows c then attempt tokens cs else .mismatch

/-- Whether a text matches a pattern. A wildcard crosses separators, and case counts. -/
def isMatch (g : Glob) (text : String) : Bool :=
  attempt g.tokens text.toList == .matched

/-- The pattern without any `**/` at its front, when it has one and what is left is a pattern. -/
def withoutLeadingDirectories? (g : Glob) : Option Glob :=
  let rec strip : List Char → List Char
    | '*' :: '*' :: '/' :: rest => strip rest
    | cs => cs
  let shorter := String.ofList (strip g.text.toList)
  if shorter = g.text then none else (read shorter).toOption

end Glob

end Hygiene
