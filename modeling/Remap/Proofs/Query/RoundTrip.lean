import Mathlib
import Remap.Payload
import Remap.Proofs.Query.Parsed

/-!
# Reading and writing query strings

What is read can be written and is read again. Conversely an object of strings without empty
containers is written as long as brackets do not stand in its keys, but is read again only if
brackets tell all its keys from indices.
-/

namespace Remap

namespace Query

/-- Whether all leaves of a value are strings, and no container in it is empty. -/
inductive Filled : Value → Prop
  | string (s : String) : Filled (.string s)
  | array {items : List Value} (hne : items ≠ []) (h : ∀ v ∈ items, Filled v) :
      Filled (.array items)
  | object {fields : List (String × Value)} (hne : fields ≠ []) (h : ∀ e ∈ fields, Filled e.2) :
      Filled (.object fields)

section Filled

variable {v : Value} {items : List Value} {fields : List (String × Value)} {index : Nat}

theorem length_leaves_le_items (hv : v ∈ items) :
    (leaves v).length ≤ (itemLeaves index items).length := by
  induction items generalizing index with
  | nil => nomatch hv
  | cons w rest ih =>
    rw [itemLeaves, List.length_append, List.length_map]
    rcases List.mem_cons.mp hv with rfl | hv
    · exact Nat.le_add_right _ _
    · exact (ih hv).trans (Nat.le_add_left _ _)

theorem length_leaves_le_fields {e : String × Value} (he : e ∈ fields) :
    (leaves e.2).length ≤ (fieldLeaves fields).length := by
  induction fields with
  | nil => nomatch he
  | cons f rest ih =>
    obtain ⟨key, w⟩ := f
    rw [fieldLeaves, List.length_append, List.length_map]
    rcases List.mem_cons.mp he with rfl | he
    · exact Nat.le_add_right _ _
    · exact (ih he).trans (Nat.le_add_left _ _)

theorem length_le_itemLeaves (h : ∀ v ∈ items, leaves v ≠ []) :
    items.length ≤ (itemLeaves index items).length := by
  induction items generalizing index with
  | nil => exact Nat.zero_le _
  | cons v rest ih =>
    obtain ⟨hv, hrest⟩ := List.forall_mem_cons.mp h
    have hone := List.length_pos_iff.mpr hv
    have hmore : rest.length ≤ (itemLeaves (index + 1) rest).length := ih hrest
    rw [itemLeaves, List.length_append, List.length_map, List.length_cons]
    omega

theorem Filled.leaves_ne_nil (h : Filled v) : leaves v ≠ [] := by
  induction h with
  | string s => exact List.cons_ne_nil _ _
  | @array items hne _ ih =>
    have hpos := List.length_pos_iff.mpr hne
    exact List.length_pos_iff.mp (hpos.trans_le (length_le_itemLeaves ih))
  | @object fields hne _ ih =>
    obtain ⟨e, he⟩ := List.exists_mem_of_ne_nil fields hne
    have hpos := List.length_pos_iff.mpr (ih e he)
    exact List.length_pos_iff.mp (hpos.trans_le (length_leaves_le_fields he))

/-- Where all keys are read from their brackets, a filled value is expressed by its leaves, unless
there are more of these than indices. -/
theorem Filled.expressible (h : Filled v) (hdistinct : v.Distinct)
    (hkeys : ∀ key ∈ keysWithin v, isNestedKey key = true)
    (hcount : (leaves v).length ≤ indexCount) : Expressible v := by
  induction h with
  | string s => exact .string s
  | @array items hne hitems ih =>
    have hlength : items.length ≤ (itemLeaves 0 items).length :=
      length_le_itemLeaves fun v hv => (hitems v hv).leaves_ne_nil
    refine .array hne (hlength.trans hcount) fun v hv => ?_
    exact ih v hv (hdistinct.of_mem_items hv)
      (fun key hkey => hkeys key (mem_itemKeys.mpr ⟨v, hv, hkey⟩))
      ((length_leaves_le_items hv).trans hcount)
  | object hne hfields ih =>
    refine .object hne hdistinct.keys_nodup
      (fun key hkey => hkeys key (mem_fieldKeys.mpr (.inl hkey))) fun e he => ?_
    exact ih e he (hdistinct.of_mem_fields he)
      (fun key hkey => hkeys key (mem_fieldKeys.mpr (.inr ⟨e, he, hkey⟩)))
      ((length_leaves_le_fields he).trans hcount)

/-- An object whose keys can be written is that of a query string if no key below the root consists
of digits. -/
theorem areFields_of_filled (hdistinct : (Value.object fields).Distinct)
    (hfilled : ∀ e ∈ fields, Filled e.2) (hcount : (fieldLeaves fields).length ≤ indexCount)
    (hkeys : ∀ key ∈ keysWithin (.object fields), isWritableKey key = true)
    (hdigits : ∀ e ∈ fields, ∀ key ∈ keysWithin e.2, key.toList.all Decimal.isDigit = false) :
    AreFields fields where
  keys_nodup := hdistinct.keys_nodup
  writable key hkey := hkeys key (mem_fieldKeys.mpr (.inl hkey))
  expressible e he := by
    refine (hfilled e he).expressible (hdistinct.of_mem_fields he) (fun key hkey => ?_)
      ((length_leaves_le_fields he).trans hcount)
    have hwritable := hkeys key (mem_fieldKeys.mpr (.inr ⟨e, he, hkey⟩))
    rw [isNestedKey, hwritable, hdigits e he key hkey]
    rfl

/-- Each leaf has a pair, and each pair has a byte. -/
theorem length_fieldLeaves_le (fields : List (String × Value)) :
    (fieldLeaves fields).length ≤ (textOf fields).utf8ByteSize := by
  have hpairs := length_le_joinPairs ((fieldLeaves fields).map (Leaf.pair none))
  rwa [List.length_map] at hpairs

end Filled

end Query

namespace Payload

open Query

variable {text : String} {limits : Limits} {v : Value} {fields : List (String × Value)}

theorem write_query_eq_ok_iff {pretty : Bool} :
    write .query pretty v = .ok text ↔ Query.write v = .ok text :=
  mapError_eq_ok_iff

theorem read_query_eq_ok_iff : read .query limits text = .ok v ↔
    text.utf8ByteSize ≤ limits.maxBytes ∧ Query.read limits.maxDepth text = .ok v := by
  rw [read]
  by_cases hsize : limits.maxBytes < text.utf8ByteSize
  · simp [hsize, Nat.not_le.mpr hsize]
  · rw [if_neg hsize]
    exact mapError_eq_ok_iff.trans (and_iff_right (Nat.not_lt.mp hsize)).symm

/-- **What is read can be written**, and what is written is read as the same value. -/
theorem read_write_query_of_read (hread : read .query limits text = .ok v) (pretty : Bool) :
    ∃ again, write .query pretty v = .ok again ∧
      ∀ others : Limits, again.utf8ByteSize ≤ others.maxBytes → v.nesting ≤ others.maxDepth →
        read .query others again = .ok v := by
  obtain ⟨fields, rfl, hfields⟩ := areFields_of_read (read_query_eq_ok_iff.mp hread).2
  refine ⟨textOf fields, write_query_eq_ok_iff.mpr hfields.write_eq, fun others hsize hdepth => ?_⟩
  exact read_query_eq_ok_iff.mpr ⟨hsize, hfields.read_textOf hdepth⟩

/-- A text with a repeated key, items behind the last one, and indices out of order. -/
def orders : Value :=
  .object [("page", .array [.string "1", .string "2"]),
    ("q", .object [("sort by", .array [.string "", .string "a&b"]),
      ("at", .array [.string "x", .string "é"])])]

def ordersText : String :=
  "?page=1&q[sort+by][]&q[at][7]=%C3%A9&q[at][2]=x&page=2&q[sort+by][]=a%26b"

theorem read_ordersText : read .query .standard ordersText = .ok orders := by cbv

theorem read_write_query_of_read_orders : ∃ again,
    write .query true orders = .ok again ∧ read .query .standard again = .ok orders := by
  obtain ⟨again, hwrite, hread⟩ := read_write_query_of_read read_ordersText true
  have hshort : ((write .query true orders).toOption.all
      fun text => decide (text.utf8ByteSize ≤ Limits.standard.maxBytes)) = true := by
    decide +kernel
  have hsize : again.utf8ByteSize ≤ Limits.standard.maxBytes := by
    simpa using of_toOption_all hshort hwrite
  exact ⟨again, hwrite, hread .standard hsize (by decide)⟩

/-- What is read has keys below the root that are no indices. -/
theorem nested_of_read (h : Query.read limits.maxDepth text = .ok (.object fields)) :
    ∀ e ∈ fields, ∀ key ∈ keysWithin e.2, isNestedKey key = true := by
  obtain ⟨others, heq, hfields⟩ := areFields_of_read h
  cases heq
  exact fun e he => (hfields.expressible e he).nested_of_mem

/-- **An object of strings is written unless a key is empty or has brackets in it**, where a key is
reported. What is written is read as the same object if and only if no key below the root consists
of digits. (A text has no more bytes than fit 64 bits.) -/
theorem read_write_query (hdistinct : (Value.object fields).Distinct)
    (hfilled : ∀ e ∈ fields, Filled e.2) (pretty : Bool) :
    ((∀ key ∈ keysWithin (.object fields), isWritableKey key = true) ∧
      ∃ text, write .query pretty (.object fields) = .ok text ∧
        (text.utf8ByteSize < UInt64.size → ∀ limits : Limits,
          text.utf8ByteSize ≤ limits.maxBytes → (Value.object fields).nesting ≤ limits.maxDepth →
            (read .query limits text = .ok (.object fields) ↔
              ∀ e ∈ fields, ∀ key ∈ keysWithin e.2, key.toList.all Decimal.isDigit = false))) ∨
    ∃ key ∈ keysWithin (.object fields), isWritableKey key = false ∧
      write .query pretty (.object fields) = .error (.query (.badKey key)) := by
  rcases write_cases fields with ⟨hkeys, hwrite⟩ | ⟨key, hkey, hbad, hwrite⟩
  · refine .inl ⟨hkeys, textOf fields, write_query_eq_ok_iff.mpr hwrite,
      fun hwords limits hsize hdepth => ⟨fun hread e he key hkey => ?_, fun hdigits => ?_⟩⟩
    · have hnested := nested_of_read (read_query_eq_ok_iff.mp hread).2 e he key hkey
      simpa using (Bool.and_eq_true_iff.mp hnested).2
    · -- no array has more items than there are indices
      have hcount := (length_fieldLeaves_le fields).trans (Nat.le_of_lt hwords)
      have hfields := areFields_of_filled hdistinct hfilled hcount hkeys hdigits
      exact read_query_eq_ok_iff.mpr ⟨hsize, hfields.read_textOf hdepth⟩
  · exact .inr ⟨key, hkey, hbad, by rw [write, hwrite]; rfl⟩

/-- Entries with arrays in arrays, and keys with digits and with the marks between pairs. -/
def basket : List (String × Value) :=
  [("7", .array [.object [("sku", .string "A&B"), ("2nd", .string "")], .string "b c"]),
    ("a=b", .array [.array [.string "?", .string "é"]])]

theorem basket_distinct : (Value.object basket).Distinct := by
  refine .object (by decide) ?_
  simp only [basket, List.forall_mem_cons]
  refine ⟨.array ?_, .array ?_, nofun⟩
  · simp only [List.forall_mem_cons]
    refine ⟨.object (by decide) ?_, .scalar rfl, nofun⟩
    simp only [List.forall_mem_cons]
    exact ⟨.scalar rfl, .scalar rfl, nofun⟩
  · simp only [List.forall_mem_cons]
    refine ⟨.array ?_, nofun⟩
    simp only [List.forall_mem_cons]
    exact ⟨.scalar rfl, .scalar rfl, nofun⟩

theorem basket_filled : ∀ e ∈ basket, Filled e.2 := by
  simp only [basket, List.forall_mem_cons]
  refine ⟨.array (List.cons_ne_nil _ _) ?_, .array (List.cons_ne_nil _ _) ?_, nofun⟩
  · simp only [List.forall_mem_cons]
    refine ⟨.object (List.cons_ne_nil _ _) ?_, .string _, nofun⟩
    simp only [List.forall_mem_cons]
    exact ⟨.string _, .string _, nofun⟩
  · simp only [List.forall_mem_cons]
    refine ⟨.array (List.cons_ne_nil _ _) ?_, nofun⟩
    simp only [List.forall_mem_cons]
    exact ⟨.string _, .string _, nofun⟩

theorem read_write_query_basket : ∃ text,
    write .query false (.object basket) = .ok text ∧
      text.utf8ByteSize ≤ Limits.standard.maxBytes ∧
        read .query .standard text = .ok (.object basket) := by
  have hwritable : ∀ key ∈ keysWithin (.object basket), isWritableKey key = true := by decide
  rcases read_write_query basket_distinct basket_filled false with
    ⟨-, text, hwrite, hread⟩ | ⟨key, hkey, hbad, -⟩
  · have hshort : ((write .query false (.object basket)).toOption.all
        fun text => decide (text.utf8ByteSize ≤ Limits.standard.maxBytes)) = true := by
      decide +kernel
    have hsize : text.utf8ByteSize ≤ Limits.standard.maxBytes := by
      simpa using of_toOption_all hshort hwrite
    have hwords : text.utf8ByteSize < UInt64.size := hsize.trans_lt (by decide)
    exact ⟨text, hwrite, hsize, (hread hwords .standard hsize (by decide)).mpr (by decide)⟩
  · rw [hwritable key hkey] at hbad
    cases hbad

/-- A key of digits is written in brackets and read as an index. -/
theorem read_write_query_digits :
    write .query false (.object [("a", .object [("0", .string "x")])]) = .ok "a%5B0%5D=x" ∧
      read .query .standard "a%5B0%5D=x" = .ok (.object [("a", .array [.string "x"])]) ∧
        (Value.object [("a", .array [.string "x"])]).same
          (.object [("a", .object [("0", .string "x")])]) = false :=
  ⟨by cbv, by cbv, rfl⟩

end Payload

end Remap
