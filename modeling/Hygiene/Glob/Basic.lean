/-!
Glob patterns: their parts and how they are read. `?` stands for a character, `*` for any run of
characters, `**` as a whole component for any number of directories, and `[...]` or `[!...]` for a
character in or outside a class. A class must have a first member before the bracket that closes it,
so that `[]]` and `[!]]` are classes of one bracket.
-/

namespace Hygiene

inductive ClassMember where
  | one (c : Char)
  | range (low high : Char)
  deriving DecidableEq, Repr

def ClassMember.covers (m : ClassMember) (c : Char) : Bool :=
  match m with
  | one d => c == d
  | range low high => low ≤ c && c ≤ high

inductive GlobToken where
  | char (c : Char)
  | anyChar
  | anySequence
  | anyDirectories
  | within (members : List ClassMember)
  | except (members : List ClassMember)
  deriving DecidableEq, Repr

structure Glob where
  text : String
  tokens : List GlobToken
  deriving DecidableEq, Repr

namespace Glob

inductive Complaint where
  | tooManyStars
  | starsInsideComponent
  | badClass
  deriving DecidableEq, Repr

structure Fault where
  position : Nat
  complaint : Complaint
  deriving DecidableEq, Repr

def Complaint.message : Complaint → String
  | tooManyStars => "wildcards are either regular `*` or recursive `**`"
  | starsInsideComponent => "recursive wildcards must form a single path component"
  | badClass => "invalid range pattern"

def Fault.message (fault : Fault) : String :=
  s!"Pattern syntax error near position {fault.position}: {fault.complaint.message}"

/-- The members of a class. Three characters with a dash in the middle are a range. -/
def membersOf : List Char → List ClassMember
  | low :: '-' :: high :: rest => .range low high :: membersOf rest
  | c :: rest => .one c :: membersOf rest
  | [] => []

/-- What stands before and behind the first closing bracket. -/
def splitAtClose? : List Char → Option (List Char × List Char)
  | [] => none
  | ']' :: rest => some ([], rest)
  | c :: rest => (splitAtClose? rest).map fun (inside, after) => (c :: inside, after)

def readClass? : List Char → Option (GlobToken × List Char)
  | '!' :: c :: rest =>
      (splitAtClose? rest).map fun (inside, after) => (.except (membersOf (c :: inside)), after)
  | c :: rest =>
      (splitAtClose? rest).map fun (inside, after) => (.within (membersOf (c :: inside)), after)
  | [] => none

theorem length_splitAtClose? {cs inside after : List Char}
    (h : splitAtClose? cs = some (inside, after)) : after.length < cs.length := by
  induction cs generalizing inside with
  | nil => simp [splitAtClose?] at h
  | cons c rest ih =>
      unfold splitAtClose? at h
      split at h
      · simp_all
      · simp_all
      · rename_i d _ _ heq
        obtain ⟨rfl, rfl⟩ := by simpa using heq
        simp only [Option.map_eq_some_iff, Prod.mk.injEq, Prod.exists] at h
        obtain ⟨_, _, hrest, _, rfl⟩ := h
        exact Nat.lt_succ_of_lt (ih hrest)

theorem length_readClass? {cs after : List Char} {t : GlobToken}
    (h : readClass? cs = some (t, after)) : after.length < cs.length := by
  unfold readClass? at h
  split at h <;>
    simp only [Option.map_eq_some_iff, Prod.mk.injEq, Prod.exists, reduceCtorEq] at h
  all_goals
    obtain ⟨_, _, hrest, _, rfl⟩ := h
    have := length_splitAtClose? hrest
    simp only [List.length_cons]
    omega

/-- The tokens read so far, in reverse, with any number of directories behind them. Behind at
least two tokens, directories that follow directories add nothing. -/
def pushDirectories (done : List GlobToken) : List GlobToken :=
  if 1 < done.length && done.head? == some .anyDirectories then done else .anyDirectories :: done

/-- Reads the tokens from a position on. `previous` is the character before it, and `done` holds the
tokens read so far in reverse. -/
def readFrom (position : Nat) (previous : Option Char) (done : List GlobToken) (cs : List Char) :
    Except Fault (List GlobToken) :=
  match cs with
  | [] => .ok done.reverse
  | '?' :: rest => readFrom (position + 1) (some '?') (.anyChar :: done) rest
  | '*' :: '*' :: '*' :: _ => .error ⟨position + 2, .tooManyStars⟩
  | '*' :: '*' :: rest =>
      if previous = none ∨ previous = some '/' then
        match rest with
        | [] => .ok (pushDirectories done).reverse
        | c :: rest =>
            if c = '/' then readFrom (position + 3) (some '/') (pushDirectories done) rest
            else .error ⟨position + 2, .starsInsideComponent⟩
      else .error ⟨position - 1, .starsInsideComponent⟩
  | '*' :: rest => readFrom (position + 1) (some '*') (.anySequence :: done) rest
  | '[' :: rest =>
      match h : readClass? rest with
      | none => .error ⟨position, .badClass⟩
      | some (t, after) =>
          have := length_readClass? h
          readFrom (position + 1 + (rest.length - after.length)) (some ']') (t :: done) after
  | c :: rest => readFrom (position + 1) (some c) (.char c :: done) rest
termination_by cs.length

/-- The pattern that a text spells, or the first fault in it. -/
def read (text : String) : Except Fault Glob :=
  (readFrom 0 none [] text.toList).map fun tokens => ⟨text, tokens⟩

end Glob

end Hygiene
