import Mathlib.Tactic
import Hygiene.Proofs.Gn.Report
import Hygiene.Proofs.Json.Depth
import Hygiene.Proofs.Json.RoundTrip

/-!
The JSON dump inside the message of a report. It is ASCII and holds the whole report, so a program
that reads it has lost nothing, and no two reports have the same message. Its lines are those that
recursion over the report lays out, whichever of its lists are empty.
-/

namespace Hygiene.Gn

open Hygiene.Json (Style Value)

def Entry.ofJson? : Value → Option Entry
  | .array [.string target, .array sources] =>
      (sources.mapM Value.asString?).map fun sources => ⟨target, sources⟩
  | _ => none

namespace Report

def filesOfJson? : List (String × Value) → Option (List (String × List Entry))
  | [] => some []
  | (file, .array entries) :: rest =>
      match entries.mapM Entry.ofJson?, filesOfJson? rest with
      | some entries, some files => some ((file, entries) :: files)
      | _, _ => none
  | _ => none

def ofJson? : Value → Option Report
  | .object members => (filesOfJson? members).map Report.mk
  | _ => none

end Report

theorem Entry.ofJson?_entryJson (e : Entry) : Entry.ofJson? (Report.entryJson e) = some e := by
  have htext (text : String) : Value.asString? (.string text) = some text := rfl
  have hsources := Json.mapM_map_eq_some htext e.sources
  rw [Report.entryJson, Entry.ofJson?, hsources]
  rfl

namespace Report

theorem toJson_eq (r : Report) :
    r.toJson = .object (r.files.map fun f => (f.1, .array (f.2.map entryJson))) :=
  rfl

theorem ofJson?_toJson (r : Report) : ofJson? r.toJson = some r := by
  have hfiles (files : List (String × List Entry)) :
      filesOfJson? (files.map fun f => (f.1, .array (f.2.map entryJson))) = some files := by
    induction files with
    | nil => rfl
    | cons f files ih =>
        have hentries : (f.2.map entryJson).mapM Entry.ofJson? = some f.2 :=
          Json.mapM_map_eq_some Entry.ofJson?_entryJson f.2
        simp only [List.map_cons, filesOfJson?, hentries, ih]
  rw [toJson_eq, ofJson?, hfiles]
  rfl

theorem isPlain_entryJson (e : Entry) : (entryJson e).isPlain = true := by
  have htext (text : String) : (Value.string text).isPlain = true := rfl
  have hsources := Json.arePlain_map Value.string htext e.sources
  simp only [entryJson, Value.isPlain, Value.arePlain, hsources, Bool.and_self]

theorem isPlain_toJson (r : Report) : r.toJson.isPlain = true := by
  have hfiles (files : List (String × List Entry)) :
      Value.membersArePlain (files.map fun f => (f.1, .array (f.2.map entryJson))) = true := by
    induction files with
    | nil => rfl
    | cons f files ih =>
        have hentries := Json.arePlain_map entryJson isPlain_entryJson f.2
        simp only [List.map_cons, Value.membersArePlain, Value.isPlain, hentries, ih, Bool.and_self]
  exact hfiles r.files

theorem separates_dump : Style.dump.Separates := by
  refine ⟨[' '], rfl, ?_⟩
  intro c hc
  obtain rfl := List.mem_singleton.mp hc
  rfl

theorem ascii_dump (r : Report) : Json.Ascii r.dump.toList := by
  have hstyle : Style.dump.asciiOnly = true ∧ Json.Ascii Style.dump.separator.toList :=
    ⟨rfl, by simp [Style.dump]⟩
  rw [dump, Json.toList_write]
  exact Json.ascii_pretty hstyle r.toJson r.isPlain_toJson 0

theorem read_dump (r : Report) : Json.read r.dump = some r.toJson :=
  Json.read_write Style.dump separates_dump r.toJson r.isPlain_toJson

/-- The dump ends where the message says that it does, so the message determines the report. -/
theorem eq_of_render_eq {r other : Report} (h : r.render = other.render) : r = other := by
  have htext := congrArg String.toList h
  simp only [render, dump, String.toList_append, Json.toList_write, List.append_assoc] at htext
  have hbehind := List.append_cancel_left (List.append_cancel_left htext)
  have hends (more : List Char) : Json.Ends ("\nViolating GN files:\n".toList ++ more) := by
    intro c hc
    obtain rfl := Option.some.inj hc
    decide
  have hjson := Json.eq_of_pretty_append separates_dump r.isPlain_toJson other.isPlain_toJson
    (hends _) (hends _) hbehind
  have hreport := congrArg ofJson? hjson
  rw [ofJson?_toJson, ofJson?_toJson] at hreport
  exact Option.some.inj hreport

/-- The dump of a report is ASCII and stands for the report, whose files are told apart by their
names; and the message around it is that of no other report. -/
theorem dump_faithful (calls : List Call) :
    (∀ c ∈ (built calls).dump.toList, c.toNat < 128) ∧
      (Json.read (built calls).dump).bind ofJson? = some (built calls) ∧
      ((built calls).files.map Prod.fst).Pairwise (· < ·) ∧
      ∀ others, (built calls).render = (built others).render ↔ built calls = built others := by
  refine ⟨ascii_dump _, ?_, (canonical_built calls).increasing, fun others => ⟨eq_of_render_eq, ?_⟩⟩
  · rw [read_dump, Option.bind_some, ofJson?_toJson]
  · intro h
    rw [h]

/-- The writer goes through a report with a counter that is at each event the number of containers
that are open, and what it has written in the end is laid out by the depth of each item. -/
theorem dump_layout (r : Report) :
    let es := Json.events Style.dump r.toJson
    let depthBehind (n : Nat) := (Json.Layout.start.run Style.dump (es.take n)).1.depth
    r.dump.toList = Json.pretty Style.dump 0 r.toJson ∧
      (∀ n, (depthBehind n : Int) = Json.opened (es.take n)) ∧
      depthBehind es.length = 0 := by
  intro es depthBehind
  have hdepth (n : Nat) : (depthBehind n : Int) = Json.opened (es.take n) :=
    Json.Layout.depth_run_take Style.dump r.toJson n
  refine ⟨Json.toList_write Style.dump r.toJson, hdepth, ?_⟩
  have hend := hdepth es.length
  rw [List.take_length, (Json.balanced_events Style.dump r.toJson).level] at hend
  exact Int.natCast_eq_zero.mp hend

/-- The layout of a report with a target that has no sources. -/
example :
    (Report.mk [("a", [⟨"t", []⟩]), ("b", [⟨"u", ["x.c", "y.m"]⟩])]).dump =
      "\x7b\n  \"a\": [\n    [\n      \"t\", \n      []\n    ]\n  ], \n  \"b\": [\n" ++
        "    [\n      \"u\", \n      [\n        \"x.c\", \n        \"y.m\"\n      ]\n" ++
        "    ]\n  ]\n\x7d" := by
  decide +kernel

end Report

end Hygiene.Gn
