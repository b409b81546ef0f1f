import Mathlib
import Remap.Proofs.Plan.Compile
import Remap.Proofs.Rule.Visits
import Remap.Proofs.Run.Failures

/-!
# Failures lead back to rules

A failure tells its place as a text, with the indices of the items that the run was in. In a
document without references this text leads back to the field that failed, be it that the indices
are dropped first or passed over (`exists_field_of_mem_failures`).
-/

namespace Remap.Run

open Plan (Lowers)

namespace Execution

variable {source : Fragment.Source} {document : Rule.Document} {plan : Plan} {input : Value}
  {e : Execution}

/-- Every execution of a run follows the tree of a document that refers to no fragments. -/
theorem follows_of_references_eq_nil (hplan : Plan.compile source document = .ok plan)
    (hreferences : document.root.references = []) (he : e ∈ (top plan input).executions) :
    Follows document.root e := by
  have hroot : (Fragment.bundle source document).document.root = document.root :=
    Rule.Node.inline_of_references_eq_nil hreferences _
  exact hroot ▸ follows_of_mem_executions (Plan.compile_eq_ok_iff.mp hplan).2 he

/-- The visit at which a failing execution stands is one of the field that came down to it. -/
theorem exists_visit_of_failure {root : Rule.Node} (hfollows : Follows root e) {f : Failure}
    (hfailure : e.failure? = some f) :
    ∃ visit ∈ root.visits .root, visit.place = f.place.static ∧ ∃ field,
      visit.node = .field field ∧ ∃ call, field.transforms[f.index]? = some call ∧
        Transform.ofName? call.name = some f.transform := by
  obtain ⟨visit, hvisit, hplace, -, hlowers⟩ := hfollows.exists_visit
  obtain ⟨g, _, _, _, hnode, -⟩ := failure?_eq_some_iff.mp hfailure
  refine ⟨visit, hvisit, by rw [hplace, place_of_failure? hfailure], ?_⟩
  rw [hnode] at hlowers
  cases hvisited : visit.node with
  | field field =>
    rw [hvisited] at hlowers
    cases hlowers with
    | field hfield => exact ⟨field, rfl, exists_call_of_lowers hfailure hnode hfield⟩
  | condition test yes no => cases no <;> (rw [hvisited] at hlowers; nomatch hlowers)
  | merge | split | fragment | sequence => rw [hvisited] at hlowers; nomatch hlowers

end Execution

/-- Where a document refers to no fragments, the place that a failure tells, and the place that is
left when the indices of items are dropped from it, are texts that lead to one and the same field of
the document, which a walk meets there, and the call of that field with the failure's number is one
of the transform that failed. And in any tree, no two nodes that a walk meets have places of one
text, and the text leads back to the node. Indices are taken to fit 64 bits. -/
theorem exists_field_of_mem_failures (source : Fragment.Source) (document : Rule.Document)
    (plan : Plan) (hplan : Plan.compile source document = .ok plan)
    (hreferences : document.root.references = []) (input : Value) :
    (∀ f ∈ (start plan input).log.failures, f.place.Fits →
      ∃ visit ∈ document.root.visits .root, ∃ field,
        visit.place.text = Rule.Place.staticText f.place.text ∧ visit.node = .field field ∧
        document.root.at? f.place.text = some (.field field) ∧
        document.root.at? (Rule.Place.staticText f.place.text) = some (.field field) ∧
        ∃ call, field.transforms[f.index]? = some call ∧
          Transform.ofName? call.name = some f.transform) ∧
    ∀ root : Rule.Node, ((root.visits .root).map (·.place.text)).Nodup ∧
      ∀ visit ∈ root.visits .root, visit.place.Fits →
        root.at? visit.place.text = some visit.node := by
  refine ⟨fun f hf hfits => ?_, fun root => ⟨root.nodup_texts, fun visit hvisit hfits =>
    Rule.Node.at?_visit hvisit hfits⟩⟩
  rw [Execution.failures_start] at hf
  obtain ⟨e, he, hfailure⟩ := List.mem_filterMap.mp hf
  obtain ⟨visit, hvisit, hplace, field, hfield, hcall⟩ := Execution.exists_visit_of_failure
    (Execution.follows_of_references_eq_nil hplan hreferences he) hfailure
  have htree : f.place.tree = Rule.Place.root.tree := by
    rw [Execution.place_of_failure? hfailure]
    exact Execution.tree_of_mem_executions_top he
  have htext : Rule.Place.staticText f.place.text = visit.place.text := by
    rw [Rule.Place.staticText_text htree, hplace]
  have hat : document.root.at? visit.place.text = some (.field field) :=
    hfield ▸ Rule.Node.at?_visit hvisit (hplace ▸ hfits.static)
  refine ⟨visit, hvisit, field, htext.symm, hfield, ?_, htext ▸ hat, hcall⟩
  -- both texts denote the place of the visit
  rwa [Rule.Node.at?, Rule.Place.parse?_text htree hfits, ← hplace,
    ← (Rule.Node.place_of_mem_visits hvisit).2.1,
    ← Rule.Place.parse?_text (hplace ▸ htree) (hplace ▸ hfits.static)]

/-- Rules that read the flags of rows. -/
def rowFlags : Rule.Document :=
  ⟨"1.2", .json, .json, [], [], .sequence
    [.field ⟨.path "name", [], "name", false⟩,
      .split "rows" (.field ⟨.path "flag", [⟨"trim", []⟩, ⟨"toBool", []⟩], "flag", false⟩) "flags"]⟩

def rowFlagsPlan : Plan :=
  ⟨"1.2", .json, .json, .sequence
    [.field ⟨.path ⟨false, [.key "name"]⟩, [], ⟨[.key "name"]⟩, false⟩,
      .split ⟨false, [.key "rows"]⟩
        (.field ⟨.path ⟨false, [.key "flag"]⟩, [.trim, .toBool], ⟨[.key "flag"]⟩, false⟩)
        ⟨[.key "flags"]⟩]⟩

/-- An input of which the second row has no flag that can be read. -/
def twoRows : Value :=
  .object [("rows",
    .array [.object [("flag", .string " true")], .object [("flag", .string " maybe")]])]

/-- The second row's failure leads back to the rule for the rows. -/
theorem exists_field_of_mem_failures_rowFlags :
    Plan.compile .empty rowFlags = .ok rowFlagsPlan ∧ rowFlags.root.references = [] ∧
      ∃ f ∈ (start rowFlagsPlan twoRows).log.failures, f.place.Fits ∧
        f.place.text = "root.steps[1].item[1]" ∧ ∃ visit ∈ rowFlags.root.visits .root, ∃ field,
          visit.place.text = "root.steps[1].item" ∧ visit.node = .field field ∧
          rowFlags.root.at? "root.steps[1].item[1]" = some (.field field) ∧
          rowFlags.root.at? "root.steps[1].item" = some (.field field) ∧
          ∃ call, field.transforms[1]? = some call ∧
            Transform.ofName? call.name = some .toBool := by
  have hplan : Plan.compile .empty rowFlags = .ok rowFlagsPlan := by cbv
  have hreferences : rowFlags.root.references = [] := by rfl
  have hmem : (⟨⟨"root", [.step 1, .itemAt 1]⟩, 1, .toBool, .string "maybe"⟩ : Failure) ∈
      (start rowFlagsPlan twoRows).log.failures := by
    rw [Execution.failures_start]
    exact List.mem_of_getElem? (i := 0) (by cbv)
  have hfits : (⟨"root", [.step 1, .itemAt 1]⟩ : Rule.Place).Fits := by
    simp [Rule.Place.Fits, Rule.Step.Fits, UInt64.size]
  have hplace := (exists_field_of_mem_failures .empty rowFlags rowFlagsPlan hplan hreferences
    twoRows).1 _ hmem hfits
  exact ⟨hplan, hreferences, _, hmem, hfits, by decide, hplace⟩

end Remap.Run
