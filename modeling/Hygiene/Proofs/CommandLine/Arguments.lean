import Mathlib.Tactic
import Hygiene.CommandLine.Arguments

/-!
What the command that checks a change takes from its arguments. It takes the options and operands
that stand behind its name, each once and in order, and what is not given has a default.
-/

namespace Hygiene.CommandLine

namespace Item

def option? : Item → Option (String × String)
  | option o value => some (o.name, value)
  | operand _ | fault => none

def operand? : Item → Option String
  | operand text => some text
  | option _ _ | fault => none

end Item

def Given.add (g : Given) (item : Item) : Given :=
  ⟨g.options ++ item.option?.toList, g.operands ++ item.operand?.toList⟩

/-- An item is taken, or something else is done instead, and that is no check. -/
theorem gather_cons (topic : Topic) (takesOperands : Bool) (g : Given) (item : Item)
    (rest : List Item) :
    (∃ command, gather topic takesOperands g (item :: rest) = .error command ∧
        ∀ a, command ≠ .check a) ∨
      gather topic takesOperands g (item :: rest) =
        gather topic takesOperands (g.add item) rest := by
  have hmisuse : ∀ a, Command.misuse ≠ .check a := by
    intro a h
    cases h
  cases item with
  | fault => exact Or.inl ⟨.misuse, rfl, hmisuse⟩
  | operand text =>
      rw [gather]
      split
      · right
        simp [Given.add, Item.option?, Item.operand?]
      · exact Or.inl ⟨.misuse, rfl, hmisuse⟩
  | option o value =>
      rw [gather]
      split
      · split
        · left
          refine ⟨.help topic, rfl, ?_⟩
          intro a h
          cases h
        · split
          · left
            refine ⟨.version, rfl, ?_⟩
            intro a h
            cases h
          · right
            simp [Given.add, Item.option?, Item.operand?]
      · exact Or.inl ⟨.misuse, rfl, hmisuse⟩

variable {topic : Topic} {takesOperands : Bool} {start : Given} {items : List Item}

theorem gather_eq_ok {g : Given} (h : gather topic takesOperands start items = .ok g) :
    g.options = start.options ++ items.filterMap Item.option? ∧
      g.operands = start.operands ++ items.filterMap Item.operand? := by
  induction items generalizing start with
  | nil =>
      obtain rfl := Except.ok.inj h
      simp
  | cons item rest ih =>
      rcases gather_cons topic takesOperands start item rest with ⟨command, herror, -⟩ | htaken
      · rw [herror] at h
        cases h
      · rw [htaken] at h
        obtain ⟨hoptions, hoperands⟩ := ih h
        rw [hoptions, hoperands]
        cases item <;> simp [Given.add, Item.option?, Item.operand?, List.filterMap_cons]

theorem ne_check_of_gather {command : Command}
    (h : gather topic takesOperands start items = .error command) (a : CheckArguments) :
    command ≠ .check a := by
  induction items generalizing start with
  | nil => cases h
  | cons item rest ih =>
      rcases gather_cons topic takesOperands start item rest with ⟨other, herror, hne⟩ | htaken
      · rw [herror] at h
        obtain rfl := Except.error.inj h
        exact hne a
      · rw [htaken] at h
        exact ih h

def checkItems (arguments : List String) : List Item :=
  match (scan programOptions true .anything arguments).2 with
  | "check" :: rest => (scan checkOptions false .anything rest).1
  | _ => []

theorem exists_given_of_check {bugVariable : Option String} {arguments : List String}
    {a : CheckArguments} (h : Command.ofArguments bugVariable arguments = .check a) :
    ∃ program g, checkCommand bugVariable program g = .check a ∧
      g.options = (checkItems arguments).filterMap Item.option? ∧
      g.operands = (checkItems arguments).filterMap Item.operand? := by
  unfold Command.ofArguments at h
  unfold checkItems
  dsimp only at h
  split at h
  next command hprogram => exact absurd h (ne_check_of_gather hprogram a)
  next program hprogram =>
    split at h
    next rest hleft =>
      rw [hleft]
      split at h
      next command hgiven => exact absurd h (ne_check_of_gather hgiven a)
      next g hgiven => exact ⟨program, g, h, gather_eq_ok hgiven⟩
    next rest hleft =>
      split at h
      next command hgiven => exact absurd h (ne_check_of_gather hgiven a)
      next => cases h
    next rest hleft =>
      split at h
      next command hgiven => exact absurd h (ne_check_of_gather hgiven a)
      next => cases h
    next rest hleft =>
      unfold helpCommand at h
      split at h <;> cases h
    next => cases h

/-! ### The root and the paths -/

def GivesRoot (arguments : List String) : Prop :=
  ∃ o value, .option o value ∈ checkItems arguments ∧ o.name = "root"

def GivesPaths (arguments : List String) : Prop :=
  ∃ text, .operand text ∈ checkItems arguments

theorem of_checkCommand {bugVariable : Option String} {program g : Given} {a : CheckArguments}
    (h : checkCommand bugVariable program g = .check a) :
    a.root = ⟨(g.value? "root").getD "."⟩ ∧ a.paths = g.operands.map Path.mk := by
  unfold checkCommand at h
  dsimp only at h
  split at h
  · cases h
  · obtain rfl := Command.check.inj h
    exact ⟨rfl, rfl⟩

variable {bugVariable : Option String} {arguments : List String} {a : CheckArguments}

theorem root_of_check (h : Command.ofArguments bugVariable arguments = .check a)
    (hroot : ¬ GivesRoot arguments) : a.root = ⟨"."⟩ := by
  obtain ⟨program, g, hcommand, hoptions, -⟩ := exists_given_of_check h
  have hvalue : g.value? "root" = none := by
    rw [Given.value?, List.lookup_eq_none_iff, hoptions]
    intro x hx
    obtain ⟨item, hitem, hx⟩ := List.mem_filterMap.mp hx
    cases item with
    | option o value =>
        obtain rfl := Option.some.inj hx
        rw [bne_iff_ne]
        intro hname
        exact hroot ⟨o, value, hitem, hname.symm⟩
    | operand text => cases hx
    | fault => cases hx
  rw [(of_checkCommand hcommand).1, hvalue]
  rfl

theorem paths_of_check (h : Command.ofArguments bugVariable arguments = .check a)
    (hpaths : ¬ GivesPaths arguments) : a.paths = [] := by
  obtain ⟨program, g, hcommand, -, hoperands⟩ := exists_given_of_check h
  rw [(of_checkCommand hcommand).2, hoperands, List.map_eq_nil_iff, List.filterMap_eq_nil_iff]
  intro item hitem
  cases item with
  | option o value => rfl
  | operand text => exact absurd ⟨text, hitem⟩ hpaths
  | fault => rfl

end Hygiene.CommandLine
