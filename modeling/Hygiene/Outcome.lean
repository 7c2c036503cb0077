import Hygiene.Diagnostic

/-!
What comes out of a run: the findings and the number of files that were looked at.
-/

namespace Hygiene

structure Outcome where
  diagnostics : List Diagnostic
  filesChecked : UInt64
  deriving DecidableEq, Repr

namespace Outcome

def empty : Outcome := ⟨[], 0⟩

/-- Whether some finding is at least as grave as `threshold`. -/
def hasDiagnosticsAt (o : Outcome) (threshold : Severity) : Bool :=
  o.diagnostics.any fun d => decide (threshold ≤ d.severity)

def hasErrors (o : Outcome) : Bool :=
  o.diagnostics.any fun d => d.severity == .error

def byCheck (o : Outcome) (check : String) : List Diagnostic :=
  o.diagnostics.filter fun d => d.check == check || d.code == check

def count (o : Outcome) (severity : Severity) : Nat :=
  o.diagnostics.countP fun d => d.severity == severity

/-- The findings sorted by code, first file and message. Those that agree in all three keep their
order. -/
def sort (o : Outcome) : Outcome :=
  { o with diagnostics := o.diagnostics.mergeSort fun a b => (Diagnostic.compare a b).isLE }

def push (o : Outcome) (d : Diagnostic) : Outcome :=
  { o with diagnostics := o.diagnostics ++ [d] }

def append (o other : Outcome) : Outcome :=
  ⟨o.diagnostics ++ other.diagnostics, o.filesChecked + other.filesChecked⟩

end Outcome

end Hygiene
