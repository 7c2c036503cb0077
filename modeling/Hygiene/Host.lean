import Hygiene.Disk

/-!
The machine on which a command runs, as far as the command can see it: the disk and the variables of
the environment.
-/

namespace Hygiene

structure Host extends Disk where
  environment : List (String × String)

namespace Host

def valueOf? (h : Host) (name : String) : Option String := h.environment.lookup name

/-- The value of a variable that must hold something to count. -/
def filled? (h : Host) (name : String) : Option String :=
  (h.valueOf? name).filter fun value => !value.isEmpty

def home? (h : Host) : Option Path := (h.valueOf? "HOME").map Path.mk

end Host

end Hygiene
