import Remap.Proofs.Xml.RoundTrip

/-!
# What the layout changes

A value can be written in both layouts or in none, and both texts can be read. They are read as the
same value unless an element without text has child entries that hold no elements: then the line
break before its end tag is all that stands in the element, and is read as its text.
-/

namespace Remap

namespace Xml

variable {pretty : Bool} {depth depth' : Nat} {v : Value}

/-- Whether the element of a value has child entries and no text, but no elements inside it. -/
def swellsOwn (v : Value) : Bool :=
  (textIn (entriesOf v)).isEmpty && hasChildren (entriesOf v) && (elements (entriesOf v)).isEmpty

/-- Whether there is such an element in a value, not counting what stands beside text. -/
def swells (v : Value) : Bool :=
  swellsOwn v || (textIn (entriesOf v)).isEmpty &&
    (elements (entriesOf v)).attach.any fun ⟨e, _⟩ => swells e.2
termination_by sizeOf v
decreasing_by exact sizeOf_lt_of_mem_elements ‹_›

theorem swells_eq (v : Value) : swells v =
    (swellsOwn v || (textIn (entriesOf v)).isEmpty &&
      (elements (entriesOf v)).any fun e => swells e.2) := by
  rw [swells]
  simp only [List.any_subtype, List.unattach_attach]

theorem spread_false (v : Value) : spread false v = false := Bool.false_and _

theorem spread_true (v : Value) : spread true v = (textIn (entriesOf v)).isEmpty :=
  Bool.true_and _

theorem ending_false : ending false depth v = [] := by
  simp [ending, spread_false, newline]

theorem textBack_false (depth depth' : Nat) (v : Value) :
    textBack false depth v = textBack false depth' v := by
  rw [textBack, textBack, ending_false, ending_false]

theorem childEntries_congr {f g : Value → Value} {fields : List (String × Value)}
    (h : ∀ e ∈ elements fields, f e.2 = g e.2) : childEntries f fields = childEntries g fields := by
  refine List.flatMap_congr fun e he => ?_
  split
  · next hrole =>
    have hmembers : (members e.2).map f = (members e.2).map g :=
      List.map_congr_left fun m hm => h (e.1, m) (mem_elements_iff.mpr ⟨e.2, he, hrole, hm⟩)
    rw [hmembers]
  · rfl

/-- Without line breaks, the depth of an element does not show. -/
theorem echo_false (hdistinct : v.Distinct) : echo false depth v = echo false depth' v := by
  induction v using elements_induction generalizing depth depth' with
  | step v ih =>
    have hkeys := entriesOf_keys_nodup hdistinct
    have hinner := childEntries_congr (f := echo false (depth + 1)) (g := echo false (depth' + 1))
      fun e he => ih e he (elements_distinct hdistinct he)
    rw [echo_eq_elementValue hkeys, echo_eq_elementValue hkeys, spread_false, hinner,
      textBack_false depth depth']

theorem textBack_true (depth depth' : Nat) (h : swellsOwn v = false) :
    textBack true depth v = textBack false depth' v := by
  rw [textBack, textBack, ending_false]
  split
  · next helements =>
    suffices hending : ending true depth v = [] by rw [hending]
    rw [swellsOwn, helements, Bool.and_true, Bool.and_eq_false_iff] at h
    rw [ending, spread_true]
    rcases h with htext | hchildren
    · rw [htext, newline]
      simp
    · simp [hchildren]
  · rfl

/-- Where no element swells, the line breaks leave no trace. -/
theorem echo_true (hdistinct : v.Distinct) (h : swells v = false) :
    echo true depth v = echo false depth' v := by
  induction v using elements_induction generalizing depth depth' with
  | step v ih =>
    have hkeys := entriesOf_keys_nodup hdistinct
    rw [swells_eq, Bool.or_eq_false_iff] at h
    obtain ⟨hown, hinner⟩ := h
    rw [echo_eq_elementValue hkeys, echo_eq_elementValue hkeys, spread_false, spread_true,
      textBack_true depth depth' hown]
    congr 1
    refine childEntries_congr fun e he => ?_
    cases htext : (textIn (entriesOf v)).isEmpty with
    | false => exact echo_false (elements_distinct hdistinct he)
    | true =>
      rw [htext, Bool.true_and, List.any_eq_false] at hinner
      exact ih e he (elements_distinct hdistinct he) (Bool.eq_false_iff.mpr (hinner e he))

section Swelling

theorem newline_true_ne_nil : newline true depth ≠ [] := List.cons_ne_nil _ _

theorem infer_ne_null (text : List Char) : (infer text).same .null = false := by
  simp only [infer]
  split
  · rfl
  · rfl
  · split <;> rfl

theorem childEntries_of_elements_eq_nil {f : Value → Value} {fields : List (String × Value)}
    (h : elements fields = []) : childEntries f fields = [] := by
  rw [elements, List.flatMap_eq_nil_iff] at h
  rw [childEntries, List.flatMap_eq_nil_iff]
  intro e he
  have hnone := h e he
  unfold entryElements at hnone
  split
  · next hrole =>
    rw [if_pos hrole, List.map_eq_nil_iff] at hnone
    rw [hnone]
    rfl
  · rfl

/-- The line break before its end tag is read as the text of an element that swells. -/
theorem echo_swellsOwn (hdistinct : v.Distinct) (h : swellsOwn v = true) :
    (echo true depth v).same (echo false depth' v) = false := by
  have hkeys := entriesOf_keys_nodup hdistinct
  rw [swellsOwn, Bool.and_eq_true, Bool.and_eq_true] at h
  obtain ⟨⟨htext, hchildren⟩, helements⟩ := h
  have hnone := List.isEmpty_iff.mp helements
  have hbreak : textBack true depth v = newline true depth := by
    rw [textBack, if_pos helements, List.isEmpty_iff.mp htext, ending, if_pos hchildren,
      spread_true, htext, List.nil_append]
  have hempty : textBack false depth' v = [] := by
    rw [textBack, if_pos helements, List.isEmpty_iff.mp htext, ending_false, List.nil_append]
  rw [echo_eq_elementValue hkeys, echo_eq_elementValue hkeys, hbreak, hempty,
    childEntries_of_elements_eq_nil hnone, childEntries_of_elements_eq_nil hnone]
  cases readEntries (attributesIn (entriesOf v)) with
  | nil => simp [elementValue, newline_true_ne_nil, infer_ne_null]
  | cons a attributes => simp [elementValue, newline_true_ne_nil, Value.same]

/-- Siblings of one name differ if one of them does. -/
theorem siblings_differ {f g : Value → Value} {ms : List Value} {m : Value} (hm : m ∈ ms)
    (h : (f m).same (g m) = false) :
    ∃ x y, siblings (ms.map f) = some x ∧ siblings (ms.map g) = some y ∧ x.same y = false := by
  match ms, hm with
  | [first], hm =>
    rw [List.mem_singleton.mp hm] at h
    exact ⟨f first, g first, rfl, rfl, h⟩
  | first :: second :: rest, hm =>
    refine ⟨_, _, rfl, rfl, ?_⟩
    have hitems := Value.sameItems_map f g (first :: second :: rest)
    rw [Value.same]
    exact hitems.trans (List.all_eq_false.mpr ⟨m, hm, by simp [h]⟩)

theorem childEntries_differ {f g : Value → Value} {fields : List (String × Value)}
    {e : String × Value} (he : e ∈ elements fields) (h : (f e.2).same (g e.2) = false) :
    ∃ x y, (e.1, x) ∈ childEntries f fields ∧ (e.1, y) ∈ childEntries g fields ∧
      x.same y = false := by
  obtain ⟨item, hmem, hrole, hm⟩ := mem_elements_iff.mp he
  obtain ⟨x, y, hx, hy, hxy⟩ := siblings_differ hm h
  have hmem (f : Value → Value) {x : Value} (hx : siblings ((members item).map f) = some x) :
      (e.1, x) ∈ childEntries f fields := by
    refine List.mem_flatMap.mpr ⟨(e.1, item), hmem, ?_⟩
    rw [if_pos hrole, siblingEntries, hx]
    exact List.mem_singleton_self _
  exact ⟨x, y, hmem f hx, hmem g hy, hxy⟩

theorem echo_keys_nodup {fields : List (String × Value)} (hkeys : (Entries.keys fields).Nodup) :
    (Entries.keys (readEntries (attributesIn fields) ++
      childEntries (echo pretty depth) fields)).Nodup := by
  have hsorted : (Frame.ofParts "" (attributesIn fields) [] []
      ((elements fields).map fun e => (e.1, echo pretty depth e.2)) []).Sorted :=
    Frame.sorted_elements hkeys _
  have hgather : gather ((elements fields).map fun e => (e.1, echo pretty depth e.2)) =
      childEntries (echo pretty depth) fields := gather_elements (fun _ => echo_items?) hkeys
  have hnodup := hsorted.keys_nodup [] nofun List.nodup_nil
  rwa [Frame.ofParts_eq, hgather, List.append_nil] at hnodup

/-- Elements without text differ if the elements inside them do. -/
theorem elementValue_differ {attributes children others : Entries Value} {key : String}
    {x y : Value} (hkeys : (Entries.keys (attributes ++ others)).Nodup)
    (hx : (key, x) ∈ children) (hy : (key, y) ∈ others) (h : x.same y = false) :
    (elementValue attributes [] children).same (elementValue attributes [] others) = false := by
  have hget : Entries.get? key (attributes ++ others) = some y :=
    Entries.get?_of_mem hkeys (List.mem_append_right _ hy)
  have hfields : Value.sameFields (attributes ++ children) (attributes ++ others) = false :=
    Value.sameFields_eq_false (List.mem_append_right _ hx) hget h
  have hchildren : children.isEmpty = false := List.isEmpty_eq_false_iff_exists_mem.mpr ⟨_, hx⟩
  have hothers : others.isEmpty = false := List.isEmpty_eq_false_iff_exists_mem.mpr ⟨_, hy⟩
  simp [elementValue, hchildren, hothers, Value.same, hfields]

theorem echo_swells (hdistinct : v.Distinct) (h : swells v = true) :
    (echo true depth v).same (echo false depth' v) = false := by
  induction v using elements_induction generalizing depth depth' with
  | step v ih =>
    have hkeys := entriesOf_keys_nodup hdistinct
    rw [swells_eq, Bool.or_eq_true, Bool.and_eq_true, List.any_eq_true] at h
    rcases h with hown | ⟨htext, e, he, hswells⟩
    · exact echo_swellsOwn hdistinct hown
    · have hsome : (elements (entriesOf v)).isEmpty = false :=
        List.isEmpty_eq_false_iff_exists_mem.mpr ⟨e, he⟩
      have hback (pretty : Bool) (depth : Nat) : textBack pretty depth v = [] := by
        simp [textBack, hsome, List.isEmpty_iff.mp htext]
      have hinner : (echo true (depth + 1) e.2).same (echo false (depth' + 1) e.2) = false :=
        ih e he (elements_distinct hdistinct he) hswells
      obtain ⟨x, y, hx, hy, hxy⟩ := childEntries_differ he hinner
      rw [echo_eq_elementValue hkeys, echo_eq_elementValue hkeys, spread_false, spread_true, htext,
        hback, hback]
      exact elementValue_differ (echo_keys_nodup hkeys) hx hy hxy

end Swelling

end Xml

namespace Payload

open Xml

variable {v : Value}

/-- The text of a value in a layout, if the content of its document element has an XML form. -/
theorem write_xml_eq_ok_iff_written (pretty : Bool) (h : v.Distinct) {text : String} :
    write .xml pretty v = .ok text ↔ Written (documentElement v).2 ∧
      text = documentText pretty (render pretty 0 (documentElement v).1 (documentElement v).2) := by
  rw [write_xml_eq_ok_iff, write_eq_ok_iff pretty h]

/-- **The layout does not change what can be written**, and what is written can be read. It changes
what is read exactly if an element swells. -/
theorem read_write_xml_layouts (h : v.Distinct) (limits : Limits) :
    ((∃ text, write .xml true v = .ok text) ↔ ∃ text, write .xml false v = .ok text) ∧
      ∀ spacious compact, write .xml true v = .ok spacious → write .xml false v = .ok compact →
        tagDepth (documentElement v).2 ≤ limits.maxDepth →
          spacious.utf8ByteSize ≤ limits.maxBytes → compact.utf8ByteSize ≤ limits.maxBytes →
            ∃ first second, read .xml limits spacious = .ok first ∧
              read .xml limits compact = .ok second ∧
                (swells (documentElement v).2 = false → first = second) ∧
                  (swells (documentElement v).2 = true → first.same second = false) := by
  have helement := documentElement_distinct h
  constructor
  · simp only [write_xml_eq_ok_iff_written _ h, exists_and_left, exists_eq, and_true]
  · intro spacious compact hspacious hcompact hdepth hsize hsize'
    have hfirst := read_write limits.maxDepth h (write_xml_eq_ok_iff.mp hspacious) hdepth
    have hsecond := read_write limits.maxDepth h (write_xml_eq_ok_iff.mp hcompact) hdepth
    refine ⟨_, _, read_xml_eq_ok_iff.mpr ⟨hsize, hfirst⟩, read_xml_eq_ok_iff.mpr ⟨hsize', hsecond⟩,
      ?_, ?_⟩
    · intro hswells
      rw [echo_true helement hswells]
    · intro hswells
      simp [Value.same, Value.sameFields, Entries.get?, echo_swells helement hswells]

/-- An attribute that loses its `null`, an empty element, and an array that loses its brackets. -/
def entry : Value :=
  .object [("entry", .object [("@id", .null), ("note", .object []), ("tag", .array [.bool true])])]

theorem entry_distinct : entry.Distinct :=
  .object (by decide) (by simpa using .object (by decide) (by simpa using
    ⟨.scalar rfl, .object (by decide) nofun, .array (by simpa using .scalar rfl)⟩))

theorem read_write_xml_layouts_entry : ∃ spacious compact first second,
    write .xml true entry = .ok spacious ∧ write .xml false entry = .ok compact ∧
      read .xml .standard spacious = .ok first ∧ read .xml .standard compact = .ok second ∧
        first = second := by
  have hspacious : write .xml true entry = .ok ("<?xml version=\"1.0\" encoding=\"UTF-8\"?>\n" ++
      "<entry id=\"\">\n  <note/>\n  <tag>true</tag>\n</entry>\n") := rfl
  have hcompact : write .xml false entry = .ok ("<?xml version=\"1.0\" encoding=\"UTF-8\"?>" ++
      "<entry id=\"\"><note/><tag>true</tag></entry>") := rfl
  have hswells : swells (documentElement entry).2 = false := by decide +kernel
  obtain ⟨first, second, hfirst, hsecond, hsame, -⟩ :=
    (read_write_xml_layouts entry_distinct .standard).2 _ _ hspacious hcompact
      (by decide +kernel) (by decide +kernel) (by decide +kernel)
  exact ⟨_, _, first, second, hspacious, hcompact, hfirst, hsecond, hsame hswells⟩

/-- The line break before the end tag of an element becomes its text. -/
theorem read_write_xml_hollow :
    write .xml true (.object [("a", .object [("b", .array [])])]) =
      .ok "<?xml version=\"1.0\" encoding=\"UTF-8\"?>\n<a>\n</a>\n" ∧
    read .xml .standard "<?xml version=\"1.0\" encoding=\"UTF-8\"?>\n<a>\n</a>\n" =
      .ok (.object [("a", .string "\n")]) ∧
    write .xml false (.object [("a", .object [("b", .array [])])]) =
      .ok "<?xml version=\"1.0\" encoding=\"UTF-8\"?><a></a>" ∧
    read .xml .standard "<?xml version=\"1.0\" encoding=\"UTF-8\"?><a></a>" =
      .ok (.object [("a", .null)]) ∧
    (Value.object [("a", .string "\n")]).same (.object [("a", .null)]) = false :=
  ⟨rfl, rfl, rfl, rfl, rfl⟩

end Payload

end Remap
