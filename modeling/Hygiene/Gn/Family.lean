/-!
Language families of source files. The family follows from the extension of the last component of
a path; C and C++ each stand alone, while Objective-C and Objective-C++ may share a target.
-/

namespace Hygiene.Gn

inductive Family where
  | c
  | cpp
  | objC
  | objCpp
  deriving DecidableEq, Repr

/-- A group of families that may be compiled with one set of flags. -/
inductive LanguageClass where
  | c
  | cpp
  | objC
  deriving DecidableEq, Repr

namespace Family

/-- The last component of a path, which is empty when the path ends with a separator. -/
def lastComponent (path : List Char) : List Char :=
  (path.reverse.takeWhile (· ≠ '/')).reverse

/-- A file name before and behind its last dot, if it has one. -/
def splitExtension? (name : List Char) : Option (List Char × List Char) :=
  match name.reverse.dropWhile (· ≠ '.') with
  | [] => none
  | _ :: stem => some (stem.reverse, (name.reverse.takeWhile (· ≠ '.')).reverse)

def ofExtension? (extension : List Char) : Option Family :=
  if extension = ['c'] then some c
  else if extension = ['c', 'c'] ∨ extension = ['c', 'p', 'p'] then some cpp
  else if extension = ['m'] then some objC
  else if extension = ['m', 'm'] then some objCpp
  else none

/-- The family of a path. Headers, unknown extensions and names without a stem have none. -/
def ofPath? (path : String) : Option Family :=
  match splitExtension? (lastComponent path.toList) with
  | none => none
  | some ([], _) => none
  | some (_ :: _, extension) => ofExtension? extension

def languageClass : Family → LanguageClass
  | c => .c
  | cpp => .cpp
  | objC => .objC
  | objCpp => .objC

def name : Family → String
  | c => "C"
  | cpp => "Cpp"
  | objC => "ObjC"
  | objCpp => "ObjCpp"

end Family

namespace LanguageClass

def ofPath? (path : String) : Option LanguageClass :=
  (Family.ofPath? path).map Family.languageClass

def name : LanguageClass → String
  | c => "C"
  | cpp => "C++"
  | objC => "Objective-C/C++"

end LanguageClass

end Hygiene.Gn
