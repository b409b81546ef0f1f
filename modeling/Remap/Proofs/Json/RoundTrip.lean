import Mathlib.Tactic.SplitIfs
import Remap.Json.Reader
import Remap.Json.Writer
import Remap.Payload
import Remap.Proofs.Json.Number
import Remap.Proofs.Lists
import Remap.Proofs.Nesting
import Remap.Proofs.Value

/-!
# Reading undoes writing

What is written for a value is read as the value, with its keys in the same order, in either layout.
The induction is on the value. A value is read up to its end whatever comes behind it, as long as
this does not go on with a number.
-/

namespace Remap

namespace Json

/-! ## Strings

Each character of a string is written as itself or as an escape, and is read back in one step. -/

theorem hexValue?_hexDigit : ∀ n < 16, hexValue? (hexDigit n) = some n := by decide

theorem utf8Size_hexDigit : ∀ n < 16, (hexDigit n).utf8Size = 1 := by decide

/-- A code unit below a byte is read from the four digits that it is written with. -/
theorem readHex_hexDigits {n : Nat} (hn : n < 256) (rest : List Char) :
    readHex ('0' :: '0' :: hexDigit (n / 16) :: hexDigit (n % 16) :: rest) = .ok (n, rest) := by
  have hhigh : n / 16 < 16 := by omega
  have hlow : n % 16 < 16 := by omega
  have hbytes : Text.byteLength ['0', '0', hexDigit (n / 16), hexDigit (n % 16)] = 4 := by
    simp [Text.byteLength, utf8Size_hexDigit _ hhigh, utf8Size_hexDigit _ hlow]
    decide
  have hfour : hexFour? '0' '0' (hexDigit (n / 16)) (hexDigit (n % 16)) = some n := by
    simp only [hexFour?, hexValue?_hexDigit _ hhigh, hexValue?_hexDigit _ hlow]
    show some ((0 * 16 + n / 16) * 16 + n % 16) = some n
    congr 1
    omega
  unfold readHex
  rw [if_neg (by simp [hbytes])]
  simp only [hfour]

/-- A control character is read from its code unit. -/
theorem readUnicode_hexDigits {n : Nat} (hn : n < 256) (rest : List Char) :
    readUnicode ('0' :: '0' :: hexDigit (n / 16) :: hexDigit (n % 16) :: rest) =
      .ok (Char.ofNat n, rest) := by
  have htrailing : ¬ (0xDC00 ≤ n ∧ n ≤ 0xDFFF) := by omega
  have hplain : n < 0xD800 ∨ 0xDBFF < n := .inl (by omega)
  simp only [readUnicode, readHex_hexDigits hn, bind, Except.bind, if_neg htrailing, if_pos hplain]

/-- What is written for a character is read as the character. -/
theorem readChar_escape (c : Char) (rest : List Char) :
    readChar (escape c ++ rest) = .ok (some c, rest) := by
  unfold escape
  split_ifs with hquote hslash hline hreturn htab hback hfeed hcontrol
  · rw [hquote]; rfl
  · rw [hslash]; rfl
  · rw [hline]; rfl
  · rw [hreturn]; rfl
  · rw [htab]; rfl
  · rw [hback]; rfl
  · rw [hfeed]; rfl
  · have hread := readUnicode_hexDigits (n := c.toNat) (by omega) rest
    simp only [List.cons_append, List.nil_append, readChar, hread, Char.ofNat_toNat]
    rfl
  · show readChar (c :: rest) = _
    unfold readChar
    split
    case h_2 heq => exact absurd (List.cons.inj heq).1 hquote
    case h_3 heq | h_4 heq | h_5 heq => exact absurd (List.cons.inj heq).1 hslash
    case h_1 heq => cases heq
    case h_6 heq =>
      cases heq
      rw [if_neg hcontrol]

theorem readChars_escape {steps read text rest : List Char} (hsteps : text.length < steps.length) :
    readChars steps read (text.flatMap escape ++ '"' :: rest) =
      .ok (String.ofList (read.reverse ++ text), rest) := by
  induction text generalizing steps read with
  | nil =>
    cases steps with
    | nil => nomatch hsteps
    | cons step steps => rw [List.append_nil]; rfl
  | cons c text ih =>
    cases steps with
    | nil => nomatch hsteps
    | cons step steps =>
      rw [List.flatMap_cons, List.append_assoc, readChars, readChar_escape]
      dsimp only
      rw [ih (Nat.lt_of_succ_lt_succ hsteps), List.reverse_cons, List.append_assoc]
      rfl

theorem escape_ne_nil (c : Char) : escape c ≠ [] := by
  unfold escape
  split_ifs <;> exact List.cons_ne_nil _ _

/-- A string in quotes is read after its opening quote. -/
theorem readString_quoted (s : String) (rest : List Char) :
    readString (s.toList.flatMap escape ++ '"' :: rest) = .ok (s, rest) := by
  have hsteps : s.toList.length < (s.toList.flatMap escape ++ '"' :: rest).length := by
    have : s.toList.length ≤ (s.toList.flatMap escape).length :=
      length_le_length_flatMap fun c _ => escape_ne_nil c
    rw [List.length_append, List.length_cons]
    omega
  rw [readString, readChars_escape hsteps, List.reverse_nil, List.nil_append, String.ofList_toList]

/-! ## Blanks -/

section Blanks

variable {blank text rest : List Char} {c : Char} {style : Style} {depth : Nat}

theorem skipSpace_append (hblank : ∀ c ∈ blank, isSpace c = true) :
    skipSpace (blank ++ text) = skipSpace text :=
  List.dropWhile_append_of_pos hblank

theorem skipSpace_cons (hc : isSpace c = false) : skipSpace (c :: text) = c :: text :=
  List.dropWhile_cons_of_neg (by simp [hc])

theorem isSpace_newline (style : Style) (depth : Nat) :
    ∀ c ∈ style.newline depth, isSpace c = true := by
  rw [Style.newline]
  split
  · refine List.forall_mem_cons.mpr ⟨rfl, fun c hc => ?_⟩
    rw [List.eq_of_mem_replicate hc]
    rfl
  · nofun

theorem endsNumber_cons (hc : isSpace c = true ∨ c ∈ [',', ']', '\x7d']) : EndsNumber (c :: rest) := by
  rintro d ⟨⟩
  rw [isSpace_iff] at hc
  simp only [List.mem_cons, List.not_mem_nil, or_false] at hc
  rcases hc with (rfl | rfl | rfl | rfl) | rfl | rfl | rfl <;> decide

theorem endsNumber_blank (hblank : ∀ c ∈ blank, isSpace c = true) (hc : c ∈ [',', ']', '\x7d']) :
    EndsNumber (blank ++ c :: rest) := by
  cases blank with
  | nil => exact endsNumber_cons (.inr hc)
  | cons d blank => exact endsNumber_cons (.inl (hblank d List.mem_cons_self))

end Blanks

/-! ## Texts of values -/

/-- Whether a text is read as a value up to its end. Its first character shows that an array goes
on. -/
structure ReadsAs (room : Nat) (text : List Char) (w : Value) : Prop where
  head : ∃ c tail, text = c :: tail ∧ isSpace c = false ∧ c ≠ ']'
  read_succ : ∀ {fuel rest}, text.length ≤ fuel + 1 → EndsNumber rest →
    readValue (fuel + 1) room (text ++ rest) = .ok (w, rest)

section Values

variable {room : Nat} {text items entries blank : List Char} {w : Value} {ws : List Value}
  {fields : List (String × Value)}

theorem ReadsAs.one_le (h : ReadsAs room text w) : 1 ≤ text.length := by
  obtain ⟨c, tail, rfl, -, -⟩ := h.head
  exact Nat.le_add_left 1 tail.length

theorem ReadsAs.read (h : ReadsAs room text w) {fuel : Nat} {rest : List Char}
    (hfuel : text.length ≤ fuel) (hrest : EndsNumber rest) :
    readValue fuel room (text ++ rest) = .ok (w, rest) := by
  cases fuel with
  | zero => exact absurd (h.one_le.trans hfuel) (by decide)
  | succ fuel => exact h.read_succ hfuel hrest

/-- Blanks before a value are passed over. -/
theorem ReadsAs.read_blank (h : ReadsAs room text w) (hblank : ∀ c ∈ blank, isSpace c = true)
    {fuel : Nat} {rest : List Char} (hfuel : text.length ≤ fuel) (hrest : EndsNumber rest) :
    readValue fuel room (blank ++ (text ++ rest)) = .ok (w, rest) := by
  have hread := h.read hfuel hrest
  cases fuel with
  | zero => exact absurd (h.one_le.trans hfuel) (by decide)
  | succ fuel =>
    rw [readValue] at hread ⊢
    rw [skipSpace_append hblank]
    exact hread

theorem ReadsAs.skipSpace (h : ReadsAs room text w) (hblank : ∀ c ∈ blank, isSpace c = true)
    (rest : List Char) : skipSpace (blank ++ (text ++ rest)) = text ++ rest := by
  obtain ⟨c, tail, rfl, hc, -⟩ := h.head
  rw [skipSpace_append hblank, List.cons_append, skipSpace_cons hc]

theorem readsAs_null : ReadsAs room "null".toList .null where
  head := ⟨'n', _, rfl, by decide, by decide⟩
  read_succ _ _ := rfl

theorem readsAs_bool (b : Bool) : ReadsAs room (if b then "true" else "false").toList (.bool b) := by
  cases b with
  | true => exact ⟨⟨'t', _, rfl, by decide, by decide⟩, fun _ _ => rfl⟩
  | false => exact ⟨⟨'f', _, rfl, by decide, by decide⟩, fun _ _ => rfl⟩

theorem readsAs_number {n : Float} (h : readsBack n = true) :
    ∃ m, (m == n) = true ∧ ReadsAs room (Decimal.payloadText n).toList (.number m) := by
  obtain ⟨m, c, tail, hm, htext, hc, hread⟩ := readValue_payloadText h
  refine ⟨m, hm, ⟨⟨c, tail, htext, ?_, ?_⟩, fun {fuel rest} _ hrest => ?_⟩⟩
  · rw [← Bool.not_eq_true, isSpace_iff]
    rintro (rfl | rfl | rfl | rfl) <;> revert hc <;> decide
  · rintro rfl
    revert hc
    decide
  · rw [htext]
    exact hread fuel room rest hrest

theorem quote_append (s : String) (rest : List Char) :
    quote s ++ rest = '"' :: (s.toList.flatMap escape ++ '"' :: rest) := by
  simp [quote]

theorem readsAs_string (s : String) : ReadsAs room (quote s) (.string s) where
  head := ⟨'"', _, rfl, by decide, by decide⟩
  read_succ {fuel rest} _ _ := by
    rw [quote_append, readValue, skipSpace_cons (by decide)]
    show (readString _).map _ = _
    rw [readString_quoted]
    rfl

/-! ## Arrays -/

theorem readsAs_empty_array : ReadsAs (room + 1) ['[', ']'] (.array []) where
  head := ⟨'[', _, rfl, by decide, by decide⟩
  read_succ _ _ := rfl

/-- Whether a text is read as items of an array, up to the bracket that closes it. -/
structure ReadsItems (room : Nat) (text : List Char) (ws : List Value) : Prop where
  head : text = [] ∨ ∃ tail, text = ',' :: tail
  read_succ : ∀ {fuel read blank rest}, text.length ≤ fuel → (∀ c ∈ blank, isSpace c = true) →
    readItems (fuel + 1) room read (text ++ (blank ++ ']' :: rest)) =
      .ok (read.reverse ++ ws, rest)

theorem ReadsItems.read (h : ReadsItems room text ws) {fuel : Nat} {read : List Value}
    {rest : List Char} (hfuel : text.length < fuel) (hblank : ∀ c ∈ blank, isSpace c = true) :
    readItems fuel room read (text ++ (blank ++ ']' :: rest)) = .ok (read.reverse ++ ws, rest) := by
  cases fuel with
  | zero => cases hfuel
  | succ fuel => exact h.read_succ (Nat.le_of_lt_succ hfuel) hblank

theorem endsNumber_items (h : text = [] ∨ ∃ tail, text = ',' :: tail) {close : Char}
    (hclose : close ∈ [']', '\x7d']) (hblank : ∀ c ∈ blank, isSpace c = true) (rest : List Char) :
    EndsNumber (text ++ (blank ++ close :: rest)) := by
  rcases h with rfl | ⟨tail, rfl⟩
  · exact endsNumber_blank hblank (List.mem_cons_of_mem _ hclose)
  · exact endsNumber_cons (.inr (by decide))

theorem readsItems_nil : ReadsItems room [] [] where
  head := .inl rfl
  read_succ _ hblank := by
    rw [List.nil_append, readItems, skipSpace_append hblank, skipSpace_cons (by decide),
      List.append_nil]
    rfl

/-- Behind a comma the next item is read. -/
theorem readItems_comma (h : ReadsAs room text w) (hblank : ∀ c ∈ blank, isSpace c = true)
    {fuel : Nat} {read : List Value} {rest : List Char} :
    readItems (fuel + 1) room read (',' :: (blank ++ (text ++ rest))) =
      readValue fuel room (text ++ rest) >>= fun (item, rest) =>
        readItems fuel room (item :: read) rest := by
  have hnext := h.skipSpace hblank rest
  obtain ⟨c, tail, htext, -, hc⟩ := h.head
  rw [readItems, skipSpace_cons (by decide)]
  split
  case h_3 heq =>
    cases heq
    rw [hnext, htext]
    split
    case h_1 heq => cases heq
    case h_2 heq => exact absurd (List.cons.inj heq).1 hc
    case h_3 => rfl
  case h_4 hother => exact absurd rfl (hother _)
  all_goals next heq => cases heq

/-- Behind an opening bracket the first item is read. -/
theorem readValue_bracket (h : ReadsAs room text w) (hblank : ∀ c ∈ blank, isSpace c = true)
    {fuel : Nat} {rest : List Char} :
    readValue (fuel + 1) (room + 1) ('[' :: (blank ++ (text ++ rest))) =
      readValue fuel room (text ++ rest) >>= fun (first, rest) =>
        readItems fuel room [first] rest >>= fun (items, rest) => .ok (.array items, rest) := by
  have hnext := h.skipSpace hblank rest
  obtain ⟨c, tail, htext, -, hc⟩ := h.head
  rw [readValue, skipSpace_cons (by decide)]
  split
  case h_7 heq =>
    cases heq
    rw [hnext, htext]
    dsimp only
    split
    case h_1 heq => cases heq
    case h_2 heq => exact absurd (List.cons.inj heq).1 hc
    case h_3 => rfl
  case h_9 hbracket _ heq =>
    cases heq
    exact (hbracket rfl).elim
  all_goals next heq => cases heq

theorem readsItems_cons (hblank : ∀ c ∈ blank, isSpace c = true) (h : ReadsAs room text w)
    (hitems : ReadsItems room items ws) :
    ReadsItems room (',' :: (blank ++ text ++ items)) (w :: ws) where
  head := .inr ⟨_, rfl⟩
  read_succ {fuel read blank' rest} hfuel hblank' := by
    simp only [List.length_cons, List.length_append] at hfuel
    have hends := endsNumber_items hitems.head (by decide : ']' ∈ _) hblank' rest
    simp only [List.cons_append, List.append_assoc]
    rw [readItems_comma h hblank, h.read (by omega) hends]
    show readItems fuel room (w :: read) _ = _
    rw [hitems.read (by omega) hblank', List.reverse_cons, List.append_assoc,
      List.singleton_append]

theorem readsAs_array {blank' : List Char} (hblank : ∀ c ∈ blank, isSpace c = true)
    (hblank' : ∀ c ∈ blank', isSpace c = true) (h : ReadsAs room text w)
    (hitems : ReadsItems room items ws) :
    ReadsAs (room + 1) ('[' :: (blank ++ text ++ items ++ blank' ++ [']'])) (.array (w :: ws)) where
  head := ⟨'[', _, rfl, by decide, by decide⟩
  read_succ {fuel rest} hfuel _ := by
    simp only [List.length_cons, List.length_append] at hfuel
    have hends := endsNumber_items hitems.head (by decide : ']' ∈ _) hblank' rest
    simp only [List.cons_append, List.append_assoc, List.nil_append]
    rw [readValue_bracket h hblank, h.read (by omega) hends]
    show (readItems fuel room [w] _ >>= _) = _
    rw [hitems.read (by omega) hblank']
    rfl

/-! ## Objects -/

theorem readsAs_empty_object : ReadsAs (room + 1) ['\x7b', '\x7d'] (.object []) where
  head := ⟨'\x7b', _, rfl, by decide, by decide⟩
  read_succ _ _ := rfl

/-- Whether a text is read as entries of an object behind entries of other keys, up to the brace
that closes it. -/
structure ReadsFields (room : Nat) (text : List Char) (fields : List (String × Value)) : Prop where
  head : text = [] ∨ ∃ tail, text = ',' :: tail
  read_succ : ∀ {fuel read blank rest}, text.length ≤ fuel → (∀ c ∈ blank, isSpace c = true) →
    (Entries.keys (read ++ fields)).Nodup →
      readFields (fuel + 1) room read (text ++ (blank ++ '\x7d' :: rest)) =
        .ok (read ++ fields, rest)

theorem ReadsFields.read (h : ReadsFields room text fields) {fuel : Nat}
    {read : List (String × Value)} {rest : List Char} (hfuel : text.length < fuel)
    (hblank : ∀ c ∈ blank, isSpace c = true) (hkeys : (Entries.keys (read ++ fields)).Nodup) :
    readFields fuel room read (text ++ (blank ++ '\x7d' :: rest)) = .ok (read ++ fields, rest) := by
  cases fuel with
  | zero => cases hfuel
  | succ fuel => exact h.read_succ (Nat.le_of_lt_succ hfuel) hblank hkeys

theorem readsFields_nil : ReadsFields room [] [] where
  head := .inl rfl
  read_succ _ hblank _ := by
    rw [List.nil_append, readFields, skipSpace_append hblank, skipSpace_cons (by decide),
      List.append_nil]
    rfl

theorem isSpace_colon (style : Style) : ∀ c ∈ style.colon.tail, isSpace c = true := by
  rw [Style.colon]
  split
  · exact List.forall_mem_singleton.mpr rfl
  · exact nofun

theorem colon_eq (style : Style) : style.colon = ':' :: style.colon.tail := by
  rw [Style.colon]
  split <;> rfl

/-- A key is read up to its colon. -/
theorem readKey_quote (style : Style) (key : String) (rest : List Char) :
    readKey (quote key ++ (style.colon ++ rest)) = .ok (key, style.colon.tail ++ rest) := by
  have hcolon : readColon (style.colon ++ rest) = .ok (style.colon.tail ++ rest) := by
    rw [colon_eq, readColon, List.cons_append, skipSpace_cons (by decide)]
    rfl
  rw [quote_append]
  show (readString _ >>= _) = _
  rw [readString_quoted]
  show (readColon (style.colon ++ rest) >>= _) = _
  rw [hcolon]
  rfl

/-- Blanks before a key are passed over. -/
theorem skipSpace_quote (hblank : ∀ c ∈ blank, isSpace c = true) (key : String)
    (rest : List Char) : skipSpace (blank ++ (quote key ++ rest)) = quote key ++ rest := by
  rw [skipSpace_append hblank, quote_append, skipSpace_cons (by decide)]

/-- Behind a comma the next entry is read. -/
theorem readFields_comma (h : ReadsAs room text w) (hblank : ∀ c ∈ blank, isSpace c = true)
    (style : Style) (key : String) {fuel : Nat} {read : List (String × Value)} {rest : List Char}
    (hfuel : text.length ≤ fuel) (hrest : EndsNumber rest) :
    readFields (fuel + 1) room read
        (',' :: (blank ++ (quote key ++ (style.colon ++ (text ++ rest))))) =
      readFields fuel room (Entries.put key w read) rest := by
  have hnext := skipSpace_quote hblank key (style.colon ++ (text ++ rest))
  have hvalue := h.read_blank (isSpace_colon style) hfuel hrest
  rw [readFields, skipSpace_cons (by decide)]
  split
  case h_3 heq =>
    cases heq
    rw [hnext]
    split
    case h_1 heq => cases heq
    case h_2 =>
      rw [readKey_quote]
      show (readValue fuel room _ >>= _) = _
      rw [hvalue]
      rfl
  case h_4 hother => exact absurd rfl (hother _)
  all_goals next heq => cases heq

/-- Behind an opening brace the first entry is read. -/
theorem readValue_brace (h : ReadsAs room text w) (hblank : ∀ c ∈ blank, isSpace c = true)
    (style : Style) (key : String) {fuel : Nat} {rest : List Char}
    (hfuel : text.length ≤ fuel) (hrest : EndsNumber rest) :
    readValue (fuel + 1) (room + 1)
        ('\x7b' :: (blank ++ (quote key ++ (style.colon ++ (text ++ rest))))) =
      readFields fuel room [(key, w)] rest >>= fun (fields, rest) => .ok (.object fields, rest) := by
  have hnext := skipSpace_quote hblank key (style.colon ++ (text ++ rest))
  have hvalue := h.read_blank (isSpace_colon style) hfuel hrest
  rw [readValue, skipSpace_cons (by decide)]
  split
  case h_8 heq =>
    cases heq
    rw [hnext]
    dsimp only
    split
    case h_1 heq => cases heq
    case h_2 heq => cases heq
    case h_3 =>
      rw [readKey_quote]
      show (readValue fuel room _ >>= _) = _
      rw [hvalue]
      rfl
  case h_9 hbrace heq =>
    cases heq
    exact (hbrace rfl).elim
  all_goals next heq => cases heq

theorem readsFields_cons (hblank : ∀ c ∈ blank, isSpace c = true) (style : Style) (key : String)
    (h : ReadsAs room text w) (hfields : ReadsFields room entries fields) :
    ReadsFields room (',' :: (blank ++ quote key ++ style.colon ++ text ++ entries))
      ((key, w) :: fields) where
  head := .inr ⟨_, rfl⟩
  read_succ {fuel read blank' rest} hfuel hblank' hkeys := by
    simp only [List.length_cons, List.length_append] at hfuel
    have hends := endsNumber_items hfields.head (by decide : '\x7d' ∈ _) hblank' rest
    -- a key that has been read before would keep its place and not go to the end
    have hnew : key ∉ Entries.keys read := by
      rw [Entries.keys_append, List.nodup_append] at hkeys
      exact fun hmem => hkeys.2.2 key hmem key List.mem_cons_self rfl
    have hkeys' : (Entries.keys (read ++ [(key, w)] ++ fields)).Nodup := by
      rwa [List.append_assoc, List.singleton_append]
    simp only [List.cons_append, List.append_assoc]
    rw [readFields_comma h hblank style key (by omega) hends, Entries.put_of_notMem hnew,
      hfields.read (by omega) hblank' hkeys', List.append_assoc, List.singleton_append]

theorem readsAs_object {blank' : List Char} (hblank : ∀ c ∈ blank, isSpace c = true)
    (hblank' : ∀ c ∈ blank', isSpace c = true) (style : Style) (key : String)
    (h : ReadsAs room text w) (hfields : ReadsFields room entries fields)
    (hkeys : (Entries.keys ((key, w) :: fields)).Nodup) :
    ReadsAs (room + 1)
      ('\x7b' :: (blank ++ quote key ++ style.colon ++ text ++ entries ++ blank' ++ ['\x7d']))
      (.object ((key, w) :: fields)) where
  head := ⟨'\x7b', _, rfl, by decide, by decide⟩
  read_succ {fuel rest} hfuel _ := by
    simp only [List.length_cons, List.length_append] at hfuel
    have hends := endsNumber_items hfields.head (by decide : '\x7d' ∈ _) hblank' rest
    have hkeys' : (Entries.keys ([(key, w)] ++ fields)).Nodup := hkeys
    simp only [List.cons_append, List.append_assoc, List.nil_append]
    rw [readValue_brace h hblank style key (by omega) hends,
      hfields.read (by omega) hblank' hkeys']
    rfl

end Values

/-! ## Written values -/

section Written

/-- How payloads are written. -/
def payloadStyle (pretty : Bool) : Style := ⟨pretty, Decimal.payloadText⟩

variable (pretty : Bool)

mutual

/-- A value is read back from its text, with its keys in the same order. -/
theorem exists_readsAs (depth room : Nat) : ∀ v : Value, v.Distinct →
    (∀ n ∈ v.numbers, readsBack n = true) → v.nesting ≤ room →
      ∃ w, w.agrees v = true ∧ ReadsAs room (writeAt (payloadStyle pretty) depth v) w
  | .null, _, _, _ => ⟨.null, rfl, readsAs_null⟩
  | .bool b, _, _, _ => ⟨.bool b, by simp [Value.agrees], readsAs_bool b⟩
  | .number n, _, hnumbers, _ => by
    obtain ⟨m, hm, hread⟩ := readsAs_number (hnumbers n (List.mem_singleton_self n))
    exact ⟨.number m, hm, hread⟩
  | .string s, _, _, _ => ⟨.string s, by simp [Value.agrees], readsAs_string s⟩
  | .array [], _, _, hroom => by
    obtain ⟨room, rfl⟩ := Nat.exists_eq_add_of_le' hroom
    exact ⟨.array [], rfl, readsAs_empty_array⟩
  | .array (v :: vs), hdistinct, hnumbers, hroom => by
    rw [Value.nesting, Value.itemsNesting] at hroom
    obtain ⟨room, rfl⟩ := Nat.exists_eq_add_of_le' (Nat.one_le_of_lt hroom)
    obtain ⟨hfirst, hrest⟩ := List.forall_mem_append.mp hnumbers
    obtain ⟨w, hw, hread⟩ := exists_readsAs (depth + 1) room v
      (hdistinct.of_mem_items List.mem_cons_self) hfirst (by omega)
    obtain ⟨ws, hws, hreads⟩ := exists_readsItems (depth + 1) room vs
      (fun v hv => hdistinct.of_mem_items (List.mem_cons_of_mem _ hv)) hrest (by omega)
    refine ⟨.array (w :: ws), by rw [Value.agrees, Value.agreeItems, hw, hws]; rfl, ?_⟩
    -- the items stand one deeper than the bracket that closes the array
    have htext := readsAs_array (isSpace_newline (payloadStyle pretty) (depth + 1))
      (isSpace_newline (payloadStyle pretty) depth) hread hreads
    rw [writeAt]
    simpa only [List.append_assoc, List.cons_append] using htext
  | .object [], _, _, hroom => by
    obtain ⟨room, rfl⟩ := Nat.exists_eq_add_of_le' hroom
    exact ⟨.object [], rfl, readsAs_empty_object⟩
  | .object ((key, v) :: fields), hdistinct, hnumbers, hroom => by
    rw [Value.nesting, Value.fieldsNesting] at hroom
    obtain ⟨room, rfl⟩ := Nat.exists_eq_add_of_le' (Nat.one_le_of_lt hroom)
    obtain ⟨hfirst, hrest⟩ := List.forall_mem_append.mp hnumbers
    obtain ⟨w, hw, hread⟩ := exists_readsAs (depth + 1) room v
      (hdistinct.of_mem_fields List.mem_cons_self) hfirst (by omega)
    obtain ⟨others, hothers, hreads⟩ := exists_readsFields (depth + 1) room fields
      (fun e he => hdistinct.of_mem_fields (List.mem_cons_of_mem _ he)) hrest (by omega)
    have hkeys : (Entries.keys ((key, w) :: others)).Nodup := by
      have hkeys := hdistinct.keys_nodup
      rwa [Entries.keys, List.map_cons, ← Entries.keys, ← Value.keys_of_agreeFields hothers] at hkeys
    refine ⟨.object ((key, w) :: others), ?_, ?_⟩
    · rw [Value.agrees, Value.agreeFields, hw, hothers, beq_self_eq_true]
      rfl
    have htext := readsAs_object (isSpace_newline (payloadStyle pretty) (depth + 1))
      (isSpace_newline (payloadStyle pretty) depth) (payloadStyle pretty) key hread hreads hkeys
    rw [writeAt]
    simpa only [List.append_assoc, List.cons_append] using htext

theorem exists_readsItems (depth room : Nat) : ∀ vs : List Value, (∀ v ∈ vs, v.Distinct) →
    (∀ n ∈ Value.itemNumbers vs, readsBack n = true) → Value.itemsNesting vs ≤ room →
      ∃ ws, Value.agreeItems ws vs = true ∧
        ReadsItems room (writeItems (payloadStyle pretty) depth vs) ws
  | [], _, _, _ => ⟨[], rfl, readsItems_nil⟩
  | v :: vs, hdistinct, hnumbers, hroom => by
    rw [Value.itemsNesting] at hroom
    obtain ⟨hfirst, hrest⟩ := List.forall_mem_append.mp hnumbers
    obtain ⟨w, hw, hread⟩ := exists_readsAs depth room v (hdistinct v List.mem_cons_self) hfirst
      (by omega)
    obtain ⟨ws, hws, hreads⟩ := exists_readsItems depth room vs
      (fun v hv => hdistinct v (List.mem_cons_of_mem _ hv)) hrest (by omega)
    refine ⟨w :: ws, by rw [Value.agreeItems, hw, hws]; rfl, ?_⟩
    have htext := readsItems_cons (isSpace_newline (payloadStyle pretty) depth) hread hreads
    rw [writeItems]
    simpa only [List.append_assoc, List.cons_append] using htext

theorem exists_readsFields (depth room : Nat) : ∀ fields : List (String × Value),
    (∀ e ∈ fields, e.2.Distinct) → (∀ n ∈ Value.fieldNumbers fields, readsBack n = true) →
      Value.fieldsNesting fields ≤ room →
        ∃ others, Value.agreeFields others fields = true ∧
          ReadsFields room (writeFields (payloadStyle pretty) depth fields) others
  | [], _, _, _ => ⟨[], rfl, readsFields_nil⟩
  | (key, v) :: fields, hdistinct, hnumbers, hroom => by
    rw [Value.fieldsNesting] at hroom
    obtain ⟨hfirst, hrest⟩ := List.forall_mem_append.mp hnumbers
    obtain ⟨w, hw, hread⟩ := exists_readsAs depth room v (hdistinct (key, v) List.mem_cons_self)
      hfirst (by omega)
    obtain ⟨others, hothers, hreads⟩ := exists_readsFields depth room fields
      (fun e he => hdistinct e (List.mem_cons_of_mem _ he)) hrest (by omega)
    refine ⟨(key, w) :: others, ?_, ?_⟩
    · rw [Value.agreeFields, hw, hothers, beq_self_eq_true]
      rfl
    have htext := readsFields_cons (isSpace_newline (payloadStyle pretty) depth)
      (payloadStyle pretty) key hread hreads
    rw [writeFields]
    simpa only [List.append_assoc, List.cons_append] using htext

end

/-- The text of a value is read as the value. -/
theorem read_write {v : Value} (hdistinct : v.Distinct)
    (hnumbers : ∀ n ∈ v.numbers, readsBack n = true) (hnesting : v.nesting ≤ maxNesting) :
    ∃ w, read (write pretty v) = .ok w ∧ w.agrees v = true := by
  obtain ⟨w, hw, hreads⟩ := exists_readsAs pretty 0 maxNesting v hdistinct hnumbers hnesting
  refine ⟨w, ?_, hw⟩
  have hnothing : EndsNumber [] := nofun
  have htext : readText maxNesting (writeAt (payloadStyle pretty) 0 v ++ []) = .ok w := by
    rw [readText, hreads.read (by rw [List.append_nil]; omega) hnothing]
    rfl
  rw [List.append_nil] at htext
  rwa [read_eq_ok_iff, write, String.toList_ofList]

end Written

end Json

namespace Payload

variable {limits : Limits} {text : String} {v : Value}

theorem read_json_eq_ok_iff : read .json limits text = .ok v ↔
    text.utf8ByteSize ≤ limits.maxBytes ∧ Json.read text = .ok v ∧ v.nesting ≤ limits.maxDepth := by
  rw [read]
  split
  · next hlarge =>
    exact iff_of_false nofun fun h => absurd h.1 (Nat.not_le.mpr hlarge)
  · next hsize =>
    rw [readJson]
    split
    · next fault heq => rw [heq]; exact iff_of_false nofun fun h => nomatch h.2.1
    · next w heq =>
      rw [heq, Except.ok.injEq]
      split
      · next hdepth =>
        rw [Except.ok.injEq]
        refine ⟨?_, fun h => h.2.1⟩
        rintro rfl
        exact ⟨Nat.not_lt.mp hsize, rfl, Json.withinDepth_iff.mp hdepth⟩
      · next hdeep =>
        refine iff_of_false nofun ?_
        rintro ⟨-, rfl, hdepth⟩
        exact hdeep (Json.withinDepth_iff.mpr hdepth)

/-- **Decoding undoes encoding** on every value whose numbers can be told from their texts (of
which all are finite), within the nesting that the reader allows and that the limits admit. -/
theorem read_write_json (hdistinct : v.Distinct)
    (hnumbers : ∀ n ∈ v.numbers, Json.readsBack n = true) (hnesting : v.nesting ≤ Json.maxNesting)
    (pretty : Bool) (limits : Limits) (hdepth : v.nesting ≤ limits.maxDepth) :
    ∃ text, write .json pretty v = .ok text ∧
      (text.utf8ByteSize ≤ limits.maxBytes →
        ∃ w, read .json limits text = .ok w ∧ w.agrees v = true) := by
  obtain ⟨w, hread, hw⟩ := Json.read_write pretty hdistinct hnumbers hnesting
  refine ⟨Json.write pretty v, rfl, fun hsize => ⟨w, ?_, hw⟩⟩
  rw [← Value.nesting_of_agrees w v hw] at hdepth
  exact read_json_eq_ok_iff.mpr ⟨hsize, hread, hdepth⟩

/-- Values of every kind, with keys out of order, empty containers, and characters that are
escaped. -/
def reading : Value :=
  .object [("values", .array [.number 0.25, .number (-7), .number 1e21, .null, .array []]),
    ("a \"b\"\n\x01é",
      .object [("on", .bool false), ("by", .string "\\ud800 \x7d]"), ("", .object [])])]

theorem reading_distinct : reading.Distinct := by
  have hvalues :
      (Value.array [.number 0.25, .number (-7), .number 1e21, .null, .array []]).Distinct := by
    refine .array ?_
    simp only [List.forall_mem_cons]
    exact ⟨.scalar rfl, .scalar rfl, .scalar rfl, .scalar rfl, .array nofun, nofun⟩
  refine .object (by decide) ?_
  simp only [List.forall_mem_cons]
  refine ⟨hvalues, .object (by decide) ?_, nofun⟩
  simp only [List.forall_mem_cons]
  exact ⟨.scalar rfl, .scalar rfl, .object (by decide) nofun, nofun⟩

theorem read_write_json_reading : ∃ text, write .json true reading = .ok text ∧
    text.utf8ByteSize ≤ Limits.standard.maxBytes ∧
      ∃ w, read .json .standard text = .ok w ∧ w.agrees reading = true := by
  have hnumbers : ∀ n ∈ reading.numbers, Json.readsBack n = true := by
    rw [← List.all_eq_true]
    decide +kernel
  obtain ⟨text, hwrite, hread⟩ := read_write_json reading_distinct hnumbers (by decide) true
    .standard (by decide)
  have hshort : ((write .json true reading).toOption.all
      fun text => decide (text.utf8ByteSize ≤ Limits.standard.maxBytes)) = true := by
    decide +kernel
  have hsize : text.utf8ByteSize ≤ Limits.standard.maxBytes := by
    simpa using of_toOption_all hshort hwrite
  exact ⟨text, hwrite, hsize, hread hsize⟩

end Payload

end Remap
