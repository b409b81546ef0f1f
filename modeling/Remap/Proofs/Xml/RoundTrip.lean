import Remap.Payload
import Remap.Proofs.Xml.Content

/-!
# Reading undoes writing

On the values that XML represents, what is written is read as the same value, with its keys in the
same order, in either layout.
-/

namespace Remap

/-- Whether a value is content of elements without blank text beside other elements. -/
structure Xml.Representable (v : Value) : Prop where
  content : Xml.Content v
  visible : Xml.hidesText v = false

namespace Payload

open Xml

variable {pretty : Bool} {limits : Limits} {v : Value} {text name : String}

theorem write_xml_eq_ok_iff : write .xml pretty v = .ok text ↔ Xml.write pretty v = .ok text :=
  mapError_eq_ok_iff

theorem read_xml_eq_ok_iff : read .xml limits text = .ok v ↔
    text.utf8ByteSize ≤ limits.maxBytes ∧ Xml.read limits.maxDepth text = .ok v := by
  rw [read]
  by_cases hsize : limits.maxBytes < text.utf8ByteSize
  · simp [hsize, Nat.not_le.mpr hsize]
  · rw [if_neg hsize]
    exact mapError_eq_ok_iff.trans (and_iff_right (Nat.not_lt.mp hsize)).symm

theorem documentElement_of_isName (hname : isName name.toList = true) (hv : v.items? = none) :
    documentElement (.object [(name, v)]) = (name, v) := by
  cases v with
  | array items => cases hv
  | _ => simp [documentElement, hname]

/-- Content of an element can be written, and comes back unless it has blank text beside other
elements. -/
theorem read_write_xml_of_content (hname : isName name.toList = true) (hv : Content v)
    (pretty : Bool) : ∃ text, write .xml pretty (.object [(name, v)]) = .ok text ∧
      ∀ limits : Limits, tagDepth v ≤ limits.maxDepth → text.utf8ByteSize ≤ limits.maxBytes →
        ∃ w, read .xml limits text = .ok w ∧ w.agrees (.object [(name, v)]) = !hidesText v := by
  have hdistinct : (Value.object [(name, v)]).Distinct :=
    .object (by simp [Entries.keys]) (by simpa using hv.distinct)
  have helement := documentElement_of_isName hname hv.items?
  have hwrite : Xml.write pretty (.object [(name, v)]) =
      .ok (documentText pretty (render pretty 0 name v)) := by
    rw [write_eq_ok_iff pretty hdistinct, helement]
    exact ⟨hv.written, rfl⟩
  refine ⟨_, write_xml_eq_ok_iff.mpr hwrite, fun limits hdepth hsize => ?_⟩
  have hread := read_write limits.maxDepth hdistinct hwrite (by rwa [helement])
  rw [helement] at hread
  refine ⟨_, read_xml_eq_ok_iff.mpr ⟨hsize, hread⟩, ?_⟩
  rw [Value.agrees, Value.agreeFields, Value.agreeFields, echo_agrees hv, beq_self_eq_true,
    Bool.true_and, Bool.and_true]

/-- **Decoding undoes encoding** on an object that names the document element and holds a value
that XML represents. -/
theorem read_write_xml (hname : isName name.toList = true) (hv : Representable v) (pretty : Bool)
    (limits : Limits) (hdepth : tagDepth v ≤ limits.maxDepth) :
    ∃ text, write .xml pretty (.object [(name, v)]) = .ok text ∧
      (text.utf8ByteSize ≤ limits.maxBytes →
        ∃ w, read .xml limits text = .ok w ∧ w.agrees (.object [(name, v)]) = true) := by
  obtain ⟨text, hwrite, hread⟩ := read_write_xml_of_content hname hv.content pretty
  refine ⟨text, hwrite, fun hsize => ?_⟩
  obtain ⟨w, hw, hagrees⟩ := hread limits hdepth hsize
  exact ⟨w, hw, hagrees.trans (by rw [hv.visible, Bool.not_false])⟩

/-- An element with an attribute, text, an empty element and two elements of one name. -/
def orderContent : Value :=
  .object (fieldsOf [("@id", .number 7)] (some (.string " x "))
    [("note", .null), ("tag", .array [.string "a", .bool true])])

theorem orderContent_representable : Representable orderContent := by
  constructor
  · refine .object ⟨by decide, .inl (by simp), ?_, ?_, ?_⟩ ?_
    · simp only [List.forall_mem_cons]
      exact ⟨⟨['i', 'd'], by decide, by decide, by decide +kernel⟩, nofun⟩
    · rintro t ⟨⟩
      exact ⟨by decide, by decide⟩
    · simp only [List.forall_mem_cons]
      refine ⟨⟨by decide, nofun⟩, ⟨by decide, ?_⟩, nofun⟩
      rintro items ⟨⟩
      decide
    · simp only [List.forall_mem_cons, members, List.not_mem_nil, false_imp_iff, implies_true,
        and_true]
      exact ⟨.null, .scalar (by decide) (by decide), .scalar (by decide) (by decide)⟩
  · decide +kernel

theorem read_write_xml_order : ∃ text,
    write .xml true (.object [("order", orderContent)]) = .ok text ∧
      text.utf8ByteSize ≤ Limits.standard.maxBytes ∧
        ∃ w, read .xml .standard text = .ok w ∧
          w.agrees (.object [("order", orderContent)]) = true := by
  have hdepth : tagDepth orderContent ≤ Limits.standard.maxDepth := by decide +kernel
  obtain ⟨text, hwrite, hread⟩ := read_write_xml (by decide : isName "order".toList = true)
    orderContent_representable true .standard hdepth
  have hsize : text.utf8ByteSize ≤ Limits.standard.maxBytes := by
    have hshort : ((write .xml true (.object [("order", orderContent)])).toOption.all
        fun text => decide (text.utf8ByteSize ≤ Limits.standard.maxBytes)) = true := by
      decide +kernel
    simpa using of_toOption_all hshort hwrite
  exact ⟨text, hwrite, hsize, hread hsize⟩

end Payload

end Remap
