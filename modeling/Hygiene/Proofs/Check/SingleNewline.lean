import Mathlib.Data.List.DropRight
import Hygiene.Proofs.Check.Reading

/-!
What the check on the end of files finds in a change: one finding for every selected file whose
text ends in anything but one line break, unless the text is empty.
-/

namespace Hygiene

namespace Newline

/-- The line feeds and carriage returns that a text ends in, all of them. -/
def breaksAtEnd (text : String) : List Char := text.toList.rtakeWhile isBreak

/-- A text ends in one line feed, which may have one carriage return before it. -/
def EndsInOneBreak (text : String) : Prop :=
  breaksAtEnd text = ['\n'] ∨ breaksAtEnd text = ['\r', '\n']

instance (text : String) : Decidable (EndsInOneBreak text) :=
  inferInstanceAs (Decidable (_ ∨ _))

/-- The two ends that are accepted, read from the last character on. -/
theorem endsInOneBreak_iff {text : String} :
    EndsInOneBreak text ↔
      text.toList.reverse.takeWhile isBreak = ['\n'] ∨
        text.toList.reverse.takeWhile isBreak = ['\n', '\r'] := by
  simp only [EndsInOneBreak, breaksAtEnd, List.rtakeWhile, List.reverse_eq_iff,
    List.reverse_cons, List.reverse_nil, List.nil_append, List.singleton_append]

theorem beforeBreak?_lineFeed {rest : List Char} (h : rest.head? ≠ some '\r') :
    beforeBreak? ('\n' :: rest) = some rest := by
  cases rest with
  | nil => rfl
  | cons d rest =>
      have hd : d ≠ '\r' := by simpa using h
      unfold beforeBreak?
      split <;> simp_all

theorem beforeBreak?_of_ne {c : Char} (h : c ≠ '\n') (rest : List Char) :
    beforeBreak? (c :: rest) = none := by
  unfold beforeBreak?
  split <;> simp_all

theorem takeWhile_ne_of_ne {p : Char → Bool} {c d : Char} (h : c ≠ d) (rest tail : List Char) :
    (c :: rest).takeWhile p ≠ d :: tail := by
  intro heq
  have hprefix : d :: tail <+: c :: rest := heq ▸ List.takeWhile_prefix p
  exact h (List.cons_prefix_cons.mp hprefix).1.symm

/-- Looking one character past a line break is enough: where that one is no break the run of breaks
ends, and where it is one the run is too long. -/
theorem endsWithSingle_iff {text : String} :
    endsWithSingle text = true ↔ text = "" ∨ EndsInOneBreak text := by
  rw [endsInOneBreak_iff, endsWithSingle, ← String.toList_eq_nil_iff, ← List.reverse_eq_nil_iff]
  generalize text.toList.reverse = reversed
  cases reversed with
  | nil => simp
  | cons c rest =>
      by_cases hc : c = '\n'
      · subst hc
        cases rest with
        | nil => simp [beforeBreak?, isBreak]
        | cons d rest =>
            by_cases hd : d = '\r'
            · subst hd
              cases rest with
              | nil => simp [beforeBreak?, isBreak]
              | cons e rest => simp [beforeBreak?, isBreak]
            · have hbefore : beforeBreak? ('\n' :: d :: rest) = some (d :: rest) :=
                beforeBreak?_lineFeed (by simpa using hd)
              have hrun : (d :: rest).takeWhile isBreak ≠ ['\r'] := takeWhile_ne_of_ne hd rest []
              simp [hbefore, hrun, isBreak, hd]
      · have hbefore : beforeBreak? (c :: rest) = none := beforeBreak?_of_ne hc rest
        have hrun (tail : List Char) : (c :: rest).takeWhile isBreak ≠ '\n' :: tail :=
          takeWhile_ne_of_ne hc rest tail
        simp [hbefore, hrun]

end Newline

namespace BuiltIn

/-- Findings for some members of a list and none for the others. -/
theorem flatMap_ite_singleton {α β : Type} (members : List α) (p : α → Prop) [DecidablePred p]
    (f : α → β) :
    (members.flatMap fun a => if p a then [] else [f a]) =
      (members.filter fun a => ¬ p a).map f := by
  induction members with
  | nil => rfl
  | cons a rest ih =>
      by_cases ha : p a
      · simp [ha, ih]
      · simp [ha, ih]

/-- The check on the end of files over a change whose selected files are texts. It makes one
finding for each of these files whose text is neither empty nor ends in one line break, in their
order, and each is about its own file. -/
theorem singleNewline_run (patterns : List Glob) (change : Changeset) (text : ChangedFile → String)
    (htext : ∀ f ∈ change.filesMatching patterns, f.bytes = Text.Utf8.encode (text f)) :
    let faulty := (change.filesMatching patterns).filter fun f =>
      text f ≠ "" ∧ Newline.breaksAtEnd (text f) ≠ ['\n'] ∧
        Newline.breaksAtEnd (text f) ≠ ['\r', '\n']
    ∃ findings, (singleNewline patterns).run change = .ok findings ∧
      findings = faulty.map newlineDiagnostic ∧
      findings.map (·.files) = faulty.map fun f => [f.relativePath] := by
  intro faulty
  have hstep : ∀ f ∈ change.filesMatching patterns, endFindings f =
      .ok (if text f = "" ∨ Newline.EndsInOneBreak (text f) then [] else [newlineDiagnostic f]) := by
    intro f hf
    simp only [endFindings, ChangedFile.textFor_of_encode (htext f hf), Except.map,
      Newline.endsWithSingle_iff]
  have hfaulty : faulty = (change.filesMatching patterns).filter fun f =>
      ¬ (text f = "" ∨ Newline.EndsInOneBreak (text f)) := by
    simp only [faulty, Newline.EndsInOneBreak, not_or, ne_eq]
  refine ⟨faulty.map newlineDiagnostic, ?_, rfl, ?_⟩
  · rw [run, newlineDiagnostics_eq, collect_of_ok hstep, flatMap_ite_singleton, hfaulty]
  · rw [List.map_map]
    rfl

def endedText (f : ChangedFile) : String :=
  if f.relativePath = ⟨"a.proto"⟩ then "x\r\n" else "y\n\r\n"

/-- A change of two schema files and of a picture, whose bytes are no text. -/
def endedChange : Changeset :=
  ⟨⟨"/r"⟩,
    [⟨⟨"/r/logo.png"⟩, ⟨"logo.png"⟩, [0xFF]⟩,
      ⟨⟨"/r/a.proto"⟩, ⟨"a.proto"⟩, Text.Utf8.encode "x\r\n"⟩,
      ⟨⟨"/r/b.proto"⟩, ⟨"b.proto"⟩, Text.Utf8.encode "y\n\r\n"⟩],
    none⟩

theorem singleNewline_run_endedChange :
    (∀ f ∈ endedChange.filesMatching schemaFiles, f.bytes = Text.Utf8.encode (endedText f)) ∧
      ∃ findings, (singleNewline schemaFiles).run endedChange = .ok findings ∧
        findings.map (·.files) = [[⟨"b.proto"⟩]] := by
  have htext : ∀ f ∈ endedChange.filesMatching schemaFiles,
      f.bytes = Text.Utf8.encode (endedText f) := by decide +kernel
  obtain ⟨findings, hrun, -, hfiles⟩ :=
    singleNewline_run schemaFiles endedChange endedText htext
  refine ⟨htext, findings, hrun, hfiles.trans ?_⟩
  decide +kernel

end BuiltIn

end Hygiene
