import Mathlib.Data.List.Forall2

/-!
Results that may be failures. A step is taken only behind a success, and what happens to a success
leaves a failure as it is, and the other way round. Steps along a list all succeed, or the first of
them that fails is the failure of all.
-/

namespace Except

variable {ε ζ α β : Type} {x : Except ε α}

theorem exists_ok_iff : (∃ a, x = .ok a) ↔ ¬ ∃ e, x = .error e := by
  cases x <;> simp

theorem bind_eq_ok_iff {f : α → Except ε β} {b : β} :
    x >>= f = .ok b ↔ ∃ a, x = .ok a ∧ f a = .ok b := by
  cases x <;> simp [bind, Except.bind]

theorem bind_eq_error_iff {f : α → Except ε β} {e : ε} :
    x >>= f = .error e ↔ x = .error e ∨ ∃ a, x = .ok a ∧ f a = .error e := by
  cases x <;> simp [bind, Except.bind]

theorem map_eq_ok_iff {f : α → β} {b : β} : x.map f = .ok b ↔ ∃ a, x = .ok a ∧ f a = b := by
  cases x <;> simp [Except.map]

theorem map_eq_error_iff {f : α → β} {e : ε} : x.map f = .error e ↔ x = .error e := by
  cases x <;> simp [Except.map]

theorem mapError_eq_ok_iff {f : ε → ζ} {a : α} : x.mapError f = .ok a ↔ x = .ok a := by
  cases x with
  | error d =>
      constructor
      · intro h
        cases h
      · intro h
        cases h
  | ok b =>
      constructor
      · intro h
        cases h
        rfl
      · intro h
        cases h
        rfl

theorem mapError_eq_error_iff {f : ε → ζ} {e : ζ} :
    x.mapError f = .error e ↔ ∃ d, x = .error d ∧ f d = e := by
  cases x with
  | error d =>
      constructor
      · intro h
        exact ⟨d, rfl, Except.error.inj h⟩
      · rintro ⟨d', hd, rfl⟩
        cases hd
        rfl
  | ok b =>
      constructor
      · intro h
        cases h
      · rintro ⟨d, hd, -⟩
        cases hd

theorem toOption_eq_some_iff {a : α} : x.toOption = some a ↔ x = .ok a := by
  cases x <;> simp [Except.toOption]

/-! ### Steps along a list -/

variable {f : α → Except ε β} {members : List α}

theorem mapM_eq_ok_iff {results : List β} :
    members.mapM f = .ok results ↔ List.Forall₂ (fun a b => f a = .ok b) members results := by
  induction members generalizing results with
  | nil =>
      rw [List.mapM_nil, List.forall₂_nil_left_iff]
      exact ⟨fun h => (Except.ok.inj h).symm, fun h => congrArg Except.ok h.symm⟩
  | cons a rest ih =>
      rw [List.mapM_cons, List.forall₂_cons_left_iff, bind_eq_ok_iff]
      constructor
      · rintro ⟨b, hb, h⟩
        obtain ⟨others, hothers, h⟩ := bind_eq_ok_iff.mp h
        exact ⟨b, others, hb, ih.mp hothers, (Except.ok.inj h).symm⟩
      · rintro ⟨b, others, hb, hothers, rfl⟩
        exact ⟨b, hb, bind_eq_ok_iff.mpr ⟨others, ih.mpr hothers, rfl⟩⟩

theorem mapM_eq_error_iff {e : ε} :
    members.mapM f = .error e ↔
      ∃ before a after, members = before ++ a :: after ∧ (∀ b ∈ before, ∃ c, f b = .ok c) ∧
        f a = .error e := by
  induction members with
  | nil => simp [pure, Except.pure]
  | cons a rest ih =>
      rw [List.mapM_cons, bind_eq_error_iff]
      constructor
      · rintro (ha | ⟨c, hc, h⟩)
        · exact ⟨[], a, rest, rfl, List.forall_mem_nil _, ha⟩
        · rcases bind_eq_error_iff.mp h with hrest | ⟨others, -, h⟩
          · obtain ⟨before, b, after, rfl, hbefore, hb⟩ := ih.mp hrest
            exact ⟨a :: before, b, after, rfl, List.forall_mem_cons.mpr ⟨⟨c, hc⟩, hbefore⟩, hb⟩
          · cases h
      · rintro ⟨before, b, after, hmembers, hbefore, hb⟩
        cases before with
        | nil =>
            obtain ⟨rfl, rfl⟩ := List.cons.inj hmembers
            exact Or.inl hb
        | cons _ before =>
            obtain ⟨rfl, rfl⟩ := List.cons.inj hmembers
            obtain ⟨⟨c, hc⟩, hbefore⟩ := List.forall_mem_cons.mp hbefore
            have hrest := ih.mpr ⟨before, b, after, rfl, hbefore, hb⟩
            exact Or.inr ⟨c, hc, bind_eq_error_iff.mpr (Or.inl hrest)⟩

theorem exists_mapM_eq_ok_iff :
    (∃ results, members.mapM f = .ok results) ↔ ∀ a ∈ members, ∃ b, f a = .ok b := by
  constructor
  · rintro ⟨results, h⟩
    have hall := mapM_eq_ok_iff.mp h
    clear h
    induction hall with
    | nil => exact List.forall_mem_nil _
    | cons hfirst _ ih => exact List.forall_mem_cons.mpr ⟨⟨_, hfirst⟩, ih⟩
  · intro hall
    rw [exists_ok_iff]
    rintro ⟨e, he⟩
    obtain ⟨before, a, after, rfl, -, ha⟩ := mapM_eq_error_iff.mp he
    obtain ⟨b, hb⟩ := hall a (by simp)
    cases hb.symm.trans ha

end Except
