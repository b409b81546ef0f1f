import Remap.CommandLine.Run
import Remap.Proofs.Doctor.Constants
import Remap.Proofs.Fragment.Constants
import Remap.Proofs.Rule.Serialization

/-!
# Documents survive serialization

A document that was read from a text can be bundled and fixed, any number of times. What comes of it
is written as a JSON value from which it is read back, numbers compared as doubles
(`reads_back`). The findings that are written next to a bundle do not get in the way.
-/

namespace Remap.Rule.Document

open Value (AllFinite)

/-- The documents that come of a document by bundling and fixing. -/
inductive Derived (d : Document) : Document → Prop where
  | self : Derived d d
  | bundled {e : Document} (source : Fragment.Source) :
      Derived d e → Derived d (Fragment.bundle source e).document
  | fixed {e : Document} (source : Fragment.Source) (sample : Option Value) :
      Derived d e → Derived d (Doctor.fix source e sample).value

variable {d e : Document}

theorem Derived.declared (h : Derived d e) (hd : d.Declared) : e.Declared := by
  induction h with
  | self => exact hd
  | bundled source _ ih => exact ⟨ih.version, nofun⟩
  | fixed source sample _ ih => exact Doctor.declared_fix ih source sample

theorem Derived.allFinite (h : Derived d e) (hd : AllFinite d.values) : AllFinite e.values := by
  induction h with
  | self => exact hd
  | bundled source _ ih => exact Fragment.allFinite_bundle source ih
  | fixed source sample _ ih =>
    rw [Doctor.values_fix]
    exact ih

theorem readDocument_json (h : d.Declared) :
    readDocument d.tree.json = pure (d.mapValues Value.json) := by
  rw [json_tree]
  exact readDocument_tree ⟨h.version, h.includes⟩

theorem get?_jsonFields_put {fields : Entries Value} {key name : String} (v : Value)
    (h : name ≠ key) : Entries.get? name (Value.jsonFields (Entries.put key v fields)) =
      Entries.get? name (Value.jsonFields fields) := by
  have hput : Value.jsonFields (Entries.put key v fields) =
      Entries.put key v.json (Value.jsonFields fields) := by
    induction fields with
    | nil => rfl
    | cons e rest ih =>
      obtain ⟨k, w⟩ := e
      simp only [Entries.put, Value.jsonFields]
      split <;> simp only [Value.jsonFields, ih]
  rw [hput, Entries.get?_put_of_ne h]

/-- What is found about a bundle is no part of it. -/
theorem readDocument_bundledTree (d : Document) (found : List Diagnostic) :
    readDocument (CommandLine.bundledTree d found).json = readDocument d.tree.json := by
  obtain ⟨fields, htree, -⟩ := exists_fields_tree d
  rw [CommandLine.bundledTree, htree]
  refine readDocument_congr fun name hname => get?_jsonFields_put _ ?_
  rintro rfl
  revert hname
  decide

/-- A document that was read, and all that comes of it by bundling and fixing, is read back from
what is written for it, also with findings next to it. -/
theorem reads_back {text : String} (hparse : Document.parse text = .ok d) (h : d.Derived e)
    (found : List Diagnostic) : ∃ e', e'.agrees e = true ∧
      (readDocument e.tree.json).result = .ok e' ∧
      (readDocument (CommandLine.bundledTree e found).json).result = .ok e' := by
  have hfinite := h.allFinite (allFinite_of_parse hparse)
  have hread := readDocument_json (h.declared (declared_of_parse hparse))
  refine ⟨e.mapValues Value.json, ?_, ?_, ?_⟩
  · exact agrees_mapValues fun v hv => Value.agrees_json v (hfinite v hv)
  · rw [hread, Reading.result_pure]
  · rw [readDocument_bundledTree, hread, Reading.result_pure]

/-! ## A negative zero -/

/-- Rules that write a negative zero. -/
def zeroRules : Document :=
  ⟨"1.0", .json, .json, [], [], .field ⟨.constant (.number (-0)), [], "a", false⟩⟩

/-- The text of these rules. -/
def zeroText : String :=
  "\x7b\"schemaVersion\":\"1.0\",\"inputFormat\":\"json\",\"outputFormat\":\"json\","
    ++ "\"root\":\x7b\"kind\":\"field\",\"value\":-0,\"target\":\"a\"\x7d\x7d"

set_option maxRecDepth 8000 in
theorem read_zeroText : Json.read zeroText = .ok zeroRules.tree := by rfl

/-- The bundle of the rule is read back, with a finding next to it. -/
theorem reads_back_zeroRules : Document.parse zeroText = .ok zeroRules ∧
    zeroRules.Derived (Fragment.bundle .empty zeroRules).document ∧
    ∃ e', e'.agrees (Fragment.bundle .empty zeroRules).document = true ∧
      (readDocument (Fragment.bundle .empty zeroRules).document.tree.json).result = .ok e' ∧
      (readDocument (CommandLine.bundledTree (Fragment.bundle .empty zeroRules).document
        [(Fragment.Problem.unknown "b").diagnostic "root"]).json).result = .ok e' := by
  have hdeclared : zeroRules.Declared := ⟨⟨⟨1, 0⟩, by decide, by decide⟩, List.forall_mem_nil _⟩
  have hparse : Document.parse zeroText = .ok zeroRules := by
    simp only [Document.parse, read_zeroText, readDocument_tree hdeclared, Reading.result_pure]
  have hderived := Derived.bundled .empty (.self (d := zeroRules))
  exact ⟨hparse, hderived, reads_back hparse hderived _⟩

end Remap.Rule.Document
