import Mathlib.Tactic
import Hygiene.Check.BuiltIn
import Hygiene.Proofs.Except
import Hygiene.Proofs.Gn.Report
import Hygiene.Run

/-!
Findings are collected in one way throughout: over the files of a change, and over the checks of a
run, a step that may fail finds a list, and the lists are put one behind the other until a step
fails. Whether a step fails does not depend on the order of the members, and neither does what is
found in the end, apart from its order.
-/

namespace Hygiene

/-- Two results agree when both are failures or both are successes in a relation. Which failures
they are does not matter. -/
inductive Agree {α β : Type} (related : α → β → Prop) :
    Except CheckError α → Except CheckError β → Prop
  | ok {a : α} {b : β} (h : related a b) : Agree related (.ok a) (.ok b)
  | error (e e' : CheckError) : Agree related (.error e) (.error e')

theorem Agree.exists_of_ok {α β : Type} {related : α → β → Prop} {x : Except CheckError α}
    {y : Except CheckError β} (h : Agree related x y) {a : α} (hx : x = .ok a) :
    ∃ b, y = .ok b ∧ related a b := by
  subst hx
  cases h with
  | ok h => exact ⟨_, rfl, h⟩

/-- What a step finds for the members of a list, one after the other. -/
def collect {α β : Type} (step : α → Except CheckError (List β)) :
    List α → Except CheckError (List β)
  | [] => .ok []
  | a :: rest => do
      let found ← step a
      return found ++ (← collect step rest)

variable {α β : Type} {step other : α → Except CheckError (List β)}

theorem Agree.trans {x y z : Except CheckError (List β)} (hxy : Agree List.Perm x y)
    (hyz : Agree List.Perm y z) : Agree List.Perm x z := by
  cases hxy with
  | error e e' =>
      cases hyz with
      | error _ e'' => exact .error e e''
  | ok h =>
      cases hyz with
      | ok h' => exact .ok (h.trans h')

theorem Agree.refl (x : Except CheckError (List β)) : Agree List.Perm x x := by
  cases x with
  | error e => exact .error e e
  | ok found => exact .ok (List.Perm.refl found)

/-- Results that agree still do when both values are mapped, as long as that keeps them related. -/
theorem Agree.map {γ δ ζ η : Type} {related : γ → δ → Prop} {related' : ζ → η → Prop}
    {f : γ → ζ} {g : δ → η} {x : Except CheckError γ} {y : Except CheckError δ}
    (h : Agree related x y) (hfg : ∀ a b, related a b → related' (f a) (g b)) :
    Agree related' (x.map f) (y.map g) := by
  cases h with
  | error e e' => exact .error e e'
  | ok h => exact .ok (hfg _ _ h)

/-- One step at the front, on either side. -/
theorem agree_cons {a : α} {rest rest' : List α} (hstep : Agree List.Perm (step a) (other a))
    (hrest : Agree List.Perm (collect step rest) (collect other rest')) :
    Agree List.Perm (collect step (a :: rest)) (collect other (a :: rest')) := by
  rw [collect, collect]
  revert hstep hrest
  generalize collect step rest = x
  generalize collect other rest' = x'
  generalize step a = y
  generalize other a = y'
  intro hstep hrest
  cases hstep with
  | error e e' => exact .error e e'
  | ok hfound =>
      cases hrest with
      | error e e' => exact .error e e'
      | ok hmore => exact .ok (hfound.append hmore)

/-- The order of the members shows neither in whether a step fails nor in what is found. -/
theorem collect_perm {members members' : List α} (h : members.Perm members') :
    Agree List.Perm (collect step members) (collect step members') := by
  induction h with
  | nil => exact .refl _
  | cons a _ ih => exact agree_cons (.refl _) ih
  | swap a b rest =>
      simp only [collect]
      cases step a with
      | error e =>
          cases step b with
          | error e' => exact .error e' e
          | ok found => exact .error e e
      | ok found =>
          cases step b with
          | error e => exact .error e e
          | ok found' =>
              cases collect step rest with
              | error e => exact .error e e
              | ok more => exact .ok (List.perm_append_comm_assoc found' found more)
  | trans _ _ ih ih' => exact ih.trans ih'

/-- Steps that agree for every member find the same in the end. -/
theorem collect_congr (members : List α)
    (h : ∀ a ∈ members, Agree List.Perm (step a) (other a)) :
    Agree List.Perm (collect step members) (collect other members) := by
  induction members with
  | nil => exact .refl _
  | cons a rest ih =>
      exact agree_cons (h a List.mem_cons_self) (ih fun b hb => h b (List.mem_cons_of_mem _ hb))

/-- Steps that are equal for every member find the same in the same order, or fail alike. -/
theorem collect_ext {members : List α} (h : ∀ a ∈ members, step a = other a) :
    collect step members = collect other members := by
  induction members with
  | nil => rfl
  | cons a rest ih =>
      rw [collect, collect, h a List.mem_cons_self, ih fun b hb => h b (List.mem_cons_of_mem _ hb)]

/-- When no step fails, what the steps find is put together in the order of the members. -/
theorem collect_of_ok {members : List α} {found : α → List β}
    (h : ∀ a ∈ members, step a = .ok (found a)) :
    collect step members = .ok (members.flatMap found) := by
  induction members with
  | nil => rfl
  | cons a rest ih =>
      rw [collect, h a List.mem_cons_self, ih fun b hb => h b (List.mem_cons_of_mem _ hb)]
      rfl

/-- Collecting succeeds exactly when every step does, and puts what they find one behind the
other. -/
theorem collect_eq_ok_iff {members : List α} {found : List β} :
    collect step members = .ok found ↔
      ∃ each : α → List β, (∀ a ∈ members, step a = .ok (each a)) ∧
        members.flatMap each = found := by
  constructor
  · intro h
    let each (a : α) : List β := (step a).toOption.getD []
    have heach : ∀ a ∈ members, step a = .ok (each a) := by
      induction members generalizing found with
      | nil => simp
      | cons a rest ih =>
          obtain ⟨here, hhere, h⟩ := Except.bind_eq_ok_iff.mp h
          obtain ⟨more, hmore, -⟩ := Except.bind_eq_ok_iff.mp h
          refine List.forall_mem_cons.mpr ⟨?_, ih hmore⟩
          simp only [each, hhere, Except.toOption, Option.getD_some]
    exact ⟨each, heach, Except.ok.inj ((collect_of_ok heach).symm.trans h)⟩
  · rintro ⟨each, heach, rfl⟩
    exact collect_of_ok heach

/-- What is found in the end was found by some step. -/
theorem exists_of_mem_collect {members : List α} {found : List β}
    (h : collect step members = .ok found) {b : β} (hb : b ∈ found) :
    ∃ a ∈ members, ∃ here, step a = .ok here ∧ b ∈ here := by
  obtain ⟨each, heach, rfl⟩ := collect_eq_ok_iff.mp h
  obtain ⟨a, ha, hb⟩ := List.mem_flatMap.mp hb
  exact ⟨a, ha, each a, heach a ha, hb⟩

/-- Members can be left out before collecting, or what they find behind it. -/
theorem collect_filter {members : List α} {found : List β} (h : collect step members = .ok found)
    {keep : α → Bool} {p : β → Bool}
    (hkeep : ∀ a ∈ members, ∀ here, step a = .ok here →
      here.filter p = if keep a then here else []) :
    collect step (members.filter keep) = .ok (found.filter p) := by
  induction members generalizing found with
  | nil =>
      obtain rfl := Except.ok.inj h
      rfl
  | cons a rest ih =>
      obtain ⟨here, hhere, h⟩ := Except.bind_eq_ok_iff.mp h
      obtain ⟨more, hmore, h⟩ := Except.bind_eq_ok_iff.mp h
      obtain rfl := Except.ok.inj h
      have hrest := ih hmore fun b hb => hkeep b (List.mem_cons_of_mem _ hb)
      rw [List.filter_append, hkeep a List.mem_cons_self here hhere]
      by_cases ha : keep a = true
      · rw [List.filter_cons_of_pos ha, if_pos ha, collect, hhere, hrest]
        rfl
      · rw [List.filter_cons_of_neg ha, if_neg ha, hrest, List.nil_append]

/-- A step fails for some member and for none before it, and this is its failure. -/
def FirstFailure {γ : Type} (attempt : α → Except CheckError γ) (members : List α)
    (e : CheckError) : Prop :=
  ∃ before a after, members = before ++ a :: after ∧
    (∀ b ∈ before, ∃ c, attempt b = .ok c) ∧ attempt a = .error e

theorem firstFailure_cons {γ : Type} {attempt : α → Except CheckError γ} {a : α} {rest : List α}
    {e : CheckError} :
    FirstFailure attempt (a :: rest) e ↔
      attempt a = .error e ∨ (∃ c, attempt a = .ok c) ∧ FirstFailure attempt rest e := by
  constructor
  · rintro ⟨before, b, after, hmembers, hbefore, hb⟩
    cases before with
    | nil =>
        obtain ⟨rfl, rfl⟩ := List.cons.inj hmembers
        exact Or.inl hb
    | cons c before =>
        obtain ⟨rfl, rfl⟩ := List.cons.inj hmembers
        obtain ⟨hc, hbefore⟩ := List.forall_mem_cons.mp hbefore
        exact Or.inr ⟨hc, before, b, after, rfl, hbefore, hb⟩
  · rintro (ha | ⟨ha, before, b, after, rfl, hbefore, hb⟩)
    · exact ⟨[], a, rest, rfl, by simp, ha⟩
    · exact ⟨a :: before, b, after, rfl, List.forall_mem_cons.mpr ⟨ha, hbefore⟩, hb⟩

/-- There is a first failure as soon as there is any. -/
theorem exists_firstFailure_iff {γ : Type} {attempt : α → Except CheckError γ}
    {members : List α} :
    (∃ e, FirstFailure attempt members e) ↔ ∃ a ∈ members, ∃ e, attempt a = .error e := by
  induction members with
  | nil => simp [FirstFailure]
  | cons a rest ih =>
      simp only [firstFailure_cons, exists_or, exists_and_left, ih, List.exists_mem_cons_iff]
      cases attempt a <;> simp

theorem firstFailure_members_map {γ δ : Type} {attempt : γ → Except CheckError δ} {g : α → γ}
    {members : List α} {e : CheckError} :
    FirstFailure attempt (members.map g) e ↔ FirstFailure (fun a => attempt (g a)) members e := by
  induction members with
  | nil => simp [FirstFailure]
  | cons a rest ih => rw [List.map_cons, firstFailure_cons, firstFailure_cons, ih]

/-- Failing first among the members that a test lets through. -/
theorem firstFailure_filter {γ : Type} {attempt : α → Except CheckError γ} {p : α → Bool}
    {members : List α} {e : CheckError} :
    FirstFailure attempt (members.filter p) e ↔
      ∃ before a after, members = before ++ a :: after ∧ p a = true ∧
        (∀ b ∈ before, p b = true → ∃ c, attempt b = .ok c) ∧ attempt a = .error e := by
  constructor
  · rintro ⟨before, a, after, hmembers, hbefore, ha⟩
    obtain ⟨first, rest, rfl, rfl, hrest⟩ := List.filter_eq_append_iff.mp hmembers
    obtain ⟨skipped, last, rfl, hskipped, hpa, rfl⟩ := List.filter_eq_cons_iff.mp hrest
    refine ⟨first ++ skipped, a, last, by simp, hpa, ?_, ha⟩
    intro b hb hpb
    rcases List.mem_append.mp hb with hb | hb
    · exact hbefore b (List.mem_filter.mpr ⟨hb, hpb⟩)
    · exact absurd hpb (hskipped b hb)
  · rintro ⟨before, a, after, rfl, hpa, hbefore, ha⟩
    refine ⟨before.filter p, a, after.filter p, ?_, ?_, ha⟩
    · rw [List.filter_append, List.filter_cons_of_pos hpa]
    · intro b hb
      obtain ⟨hb, hpb⟩ := List.mem_filter.mp hb
      exact hbefore b hb hpb

/-- What is made of successes does not matter for failures. -/
theorem firstFailure_map {γ δ : Type} {attempt : α → Except CheckError γ} {f : α → γ → δ}
    {members : List α} {e : CheckError} :
    FirstFailure (fun a => (attempt a).map (f a)) members e ↔ FirstFailure attempt members e := by
  have hok (a : α) : (∃ d, (attempt a).map (f a) = .ok d) ↔ ∃ c, attempt a = .ok c := by
    simp only [Except.map_eq_ok_iff]
    exact ⟨fun ⟨_, c, hc, _⟩ => ⟨c, hc⟩, fun ⟨c, hc⟩ => ⟨_, c, hc, rfl⟩⟩
  simp only [FirstFailure, hok, Except.map_eq_error_iff]

/-- Collecting fails exactly with the first failure of a step. -/
theorem collect_eq_error_iff {members : List α} {e : CheckError} :
    collect step members = .error e ↔ FirstFailure step members e := by
  induction members with
  | nil => simp [collect, FirstFailure]
  | cons a rest ih =>
      rw [firstFailure_cons, ← ih, collect]
      cases step a with
      | error e' => simp [bind, Except.bind]
      | ok here => cases collect step rest <;> simp [bind, Except.bind, pure, Except.pure]

namespace BuiltIn

/-- What the check on line breaks finds in one file. -/
def endFindings (file : ChangedFile) : Except CheckError (List Diagnostic) :=
  (file.textFor CheckKind.singleNewline.name).map fun text =>
    if Newline.endsWithSingle text then [] else [newlineDiagnostic file]

theorem newlineDiagnostics_eq (files : List ChangedFile) :
    newlineDiagnostics files = collect endFindings files := by
  induction files with
  | nil => rfl
  | cons file rest ih =>
      rw [newlineDiagnostics, collect, endFindings, ih]
      cases file.textFor CheckKind.singleNewline.name with
      | error e => rfl
      | ok text =>
          cases collect endFindings rest with
          | error e => rfl
          | ok more =>
              change Except.ok (if Newline.endsWithSingle text then _ else _) =
                Except.ok ((if Newline.endsWithSingle text then [] else [_]) ++ more)
              split <;> rfl

def violationsOf (file : ChangedFile) : Except CheckError (List Gn.Violation) :=
  (file.textFor CheckKind.noMixing.name).map (Gn.violations file.localPath)

theorem mixingReport_eq (patterns : List Glob) (report : Gn.Report) (files : List ChangedFile) :
    mixingReport patterns report files =
      (collect violationsOf (files.filter (·.matchesAny patterns))).map report.extend := by
  induction files generalizing report with
  | nil => rfl
  | cons file rest ih =>
      by_cases hselected : file.matchesAny patterns
      · rw [List.filter_cons_of_pos (by exact hselected), mixingReport, if_pos hselected, collect,
          violationsOf]
        cases file.textFor CheckKind.noMixing.name with
        | error e => rfl
        | ok text =>
            change mixingReport patterns (report.extend _) rest = _
            rw [ih]
            cases collect violationsOf (rest.filter (·.matchesAny patterns)) with
            | error e => rfl
            | ok more =>
                refine congrArg Except.ok ?_
                rw [Gn.Report.extend, Gn.Report.extend, ← List.foldl_append]
                rfl
      · rw [List.filter_cons_of_neg (by exact hselected), mixingReport, if_neg hselected]
        exact ih report

theorem run_noMixing_eq (patterns : List Glob) (change : Changeset) :
    (noMixing patterns).run change =
      (collect violationsOf (change.filesMatching patterns)).map fun violations =>
        if (Gn.Report.empty.extend violations).isEmpty then []
        else [mixingDiagnostic (Gn.Report.empty.extend violations)] := by
  rw [run, mixingReport_eq, Changeset.filesMatching]
  cases collect violationsOf (change.files.filter (·.matchesAny patterns)) <;> rfl

/-- What a built-in check finds does not depend on the order of the files. -/
theorem run_perm (b : BuiltIn) (change : Changeset) {files : List ChangedFile}
    (h : change.files.Perm files) :
    Agree List.Perm (b.run change) (b.run { change with files }) := by
  cases b with
  | bugEntry rule => exact .refl _
  | singleNewline patterns =>
      rw [run, run, newlineDiagnostics_eq, newlineDiagnostics_eq]
      exact collect_perm (h.filter _)
  | noMixing patterns =>
      rw [run_noMixing_eq, run_noMixing_eq]
      refine (collect_perm (h.filter _)).map ?_
      intro violations violations' hviolations
      rw [Gn.Report.extend_eq_of_perm hviolations]

end BuiltIn

end Hygiene
