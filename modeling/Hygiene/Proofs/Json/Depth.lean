import Hygiene.Proofs.Json.Layout

/-!
The depth that the writer of JSON text keeps. It counts the containers that are open, and the
decrement of its counter stops at zero; so that it counts right has to be seen from the events. The
events of a value close as many containers as they open, and never one more than is open.
-/

namespace Hygiene.Json

def Event.change : Event → Int
  | .openArray | .openObject => 1
  | .closeArray | .closeObject => -1
  | _ => 0

/-- The number of containers that events open, less the number of those that they close. -/
def opened (es : List Event) : Int := (es.map Event.change).sum

@[simp] theorem opened_nil : opened [] = 0 := rfl

@[simp] theorem opened_cons (e : Event) (es : List Event) :
    opened (e :: es) = e.change + opened es := by
  simp [opened]

@[simp] theorem opened_append (front rest : List Event) :
    opened (front ++ rest) = opened front + opened rest := by
  simp [opened]

/-- Events close what they open, and behind none of them more is closed than was opened. -/
structure Balanced (es : List Event) : Prop where
  level : opened es = 0
  nonneg : ∀ n, 0 ≤ opened (es.take n)

theorem balanced_nil : Balanced [] where
  level := rfl
  nonneg n := by simp

theorem Balanced.append {front rest : List Event} (hfront : Balanced front)
    (hrest : Balanced rest) : Balanced (front ++ rest) where
  level := by rw [opened_append, hfront.level, hrest.level, add_zero]
  nonneg n := by
    rw [List.take_append, opened_append]
    have hbefore := hfront.nonneg n
    have hbehind := hrest.nonneg (n - front.length)
    omega

theorem balanced_singleton {e : Event} (he : e.change = 0) : Balanced [e] where
  level := by rw [opened_cons, he, opened_nil, add_zero]
  nonneg n := by
    cases n with
    | zero => simp
    | succ n => simp [he]

theorem Balanced.cons {e : Event} {es : List Event} (he : e.change = 0) (hes : Balanced es) :
    Balanced (e :: es) :=
  (balanced_singleton he).append hes

/-- A container around balanced events. -/
theorem Balanced.enclose {e e' : Event} {es : List Event} (he : e.change = 1)
    (he' : e'.change = -1) (hes : Balanced es) : Balanced (e :: (es ++ [e'])) where
  level := by simp [he, he', hes.level]
  nonneg n := by
    cases n with
    | zero => simp
    | succ n =>
        rw [List.take_succ_cons, opened_cons, he, List.take_append, opened_append]
        have hinside := hes.nonneg n
        have hlast : -1 ≤ opened ([e'].take (n - es.length)) := by
          cases n - es.length with
          | zero => simp
          | succ m => simp [he']
        omega

mutual

/-- The events of a value are balanced. -/
theorem balanced_events (style : Style) (v : Value) : Balanced (events style v) := by
  cases v with
  | array items =>
      rw [events]
      exact (balanced_itemEvents style true items).enclose rfl rfl
  | object members =>
      rw [events]
      exact (balanced_memberEvents style true members).enclose rfl rfl
  | _ => exact balanced_singleton rfl

theorem balanced_itemEvents (style : Style) (first : Bool) (items : List Value) :
    Balanced (itemEvents style first items) := by
  cases items with
  | nil => exact balanced_nil
  | cons v rest =>
      have hrest := (balanced_itemEvents style false rest).cons (e := .endItem) rfl
      rw [itemEvents]
      exact ((balanced_events style v).append hrest).cons rfl

theorem balanced_memberEvents (style : Style) (first : Bool) (members : List (String × Value)) :
    Balanced (memberEvents style first members) := by
  cases members with
  | nil => exact balanced_nil
  | cons member rest =>
      obtain ⟨name, v⟩ := member
      have hrest := (balanced_memberEvents style false rest).cons (e := .endValue) rfl
      have hvalue := ((balanced_events style v).append hrest).cons (e := .beginValue) rfl
      rw [memberEvents]
      exact (hvalue.cons (e := .atom _) rfl).cons rfl

end

namespace Layout

/-- A step keeps the count as long as it closes no container that is not open. -/
theorem depth_step (style : Style) (layout : Layout) (e : Event)
    (h : 0 ≤ layout.depth + e.change) :
    ((layout.step style e).1.depth : Int) = layout.depth + e.change := by
  cases e with
  | closeArray | closeObject =>
      simp only [Event.change] at h ⊢
      simp only [step, close]
      omega
  | _ => simp [step, Event.change]

/-- So does a run that never does so. -/
theorem depth_run (style : Style) (layout : Layout) (es : List Event)
    (h : ∀ n, 0 ≤ layout.depth + opened (es.take n)) :
    ((layout.run style es).1.depth : Int) = layout.depth + opened es := by
  induction es generalizing layout with
  | nil => simp [run]
  | cons e es ih =>
      have hstep := depth_step style layout e (by simpa using h 1)
      have hrest : ∀ n, 0 ≤ ((layout.step style e).1.depth : Int) + opened (es.take n) := by
        intro n
        have hn := h (n + 1)
        rw [List.take_succ_cons, opened_cons] at hn
        omega
      have hrun := ih _ hrest
      simp only [run, opened_cons]
      omega

/-- Over any first part of the events of a value, the writer's counter is the number of containers
that are open, with no decrement cut off. -/
theorem depth_run_take (style : Style) (v : Value) (n : Nat) :
    ((start.run style ((events style v).take n)).1.depth : Int) =
      opened ((events style v).take n) := by
  have hnonneg : ∀ m, 0 ≤ (start.depth : Int) + opened (((events style v).take n).take m) := by
    intro m
    rw [List.take_take]
    simpa [start] using (balanced_events style v).nonneg (min m n)
  simpa [start] using depth_run style start _ hnonneg

end Layout

end Hygiene.Json
