import Remap.Proofs.Lists
import Remap.Proofs.Results
import Remap.Proofs.Text.Utf8
import Remap.Query.Reader
import Remap.Query.Writer

/-!
# Form encoding is undone by decoding

What is encoded has no ampersand and no equals sign in it, so a text of pairs is cut where it was
joined. The text of some pairs is then read by putting the pairs into the tree one by one.
-/

namespace Remap.Query

section Bytes

variable {b : Nat} {rest : List Nat}

/-- A byte that stands for itself is in ASCII and is none of the marks. -/
theorem isPlain_safe (h : isPlain b = true) :
    b < 128 ∧ b ≠ 0x25 ∧ b ≠ 0x2B ∧ b ∉ [0x26, 0x3D, 0x3F] := by
  simp only [isPlain, Bool.or_eq_true, Bool.and_eq_true, decide_eq_true_eq, beq_iff_eq] at h
  simp only [List.mem_cons, List.not_mem_nil, or_false]
  omega

theorem toNat_ofNat_of_lt (hb : b < 128) : (Char.ofNat b).toNat = b := by
  have hvalid : b.isValidChar := .inl (by omega)
  rw [Char.ofNat, dif_pos hvalid]
  rfl

theorem hexValue?_hexDigit : ∀ n < 16, hexValue? (hexDigit n).toNat = some n := by decide

theorem decodeBytes_cons (hb : b ≠ 0x25) :
    decodeBytes (b :: rest) = (if b = 0x2B then 0x20 else b) :: decodeBytes rest := by
  rw [decodeBytes]
  -- the first case takes a percent sign only
  exact fun _ _ _ heq => absurd heq hb

theorem decodeBytes_percent {high low h l : Nat} (hh : hexValue? high = some h)
    (hl : hexValue? low = some l) :
    decodeBytes (0x25 :: high :: low :: rest) = (16 * h + l) :: decodeBytes rest := by
  rw [decodeBytes, hh, hl]

theorem encodeUtf8_ascii {text : List Char} (h : ∀ c ∈ text, c.toNat < 128) :
    Text.encodeUtf8 text = text.map Char.toNat := by
  induction text with
  | nil => rfl
  | cons c text ih =>
    obtain ⟨hc, htext⟩ := List.forall_mem_cons.mp h
    have hone : Text.encodeChar c = [c.toNat] := if_pos hc
    rw [Text.encodeUtf8, List.flatMap_cons, hone, ← Text.encodeUtf8, ih htext]
    rfl

/-- Whether a character is in ASCII and is no ampersand, equals sign or question mark. -/
def IsSafe (c : Char) : Prop := c.toNat < 128 ∧ c.toNat ∉ [0x26, 0x3D, 0x3F]

theorem isSafe_hexDigit : ∀ n < 16, IsSafe (hexDigit n) := by
  unfold IsSafe
  decide

theorem isSafe_encodeByte (hb : b < 256) : ∀ c ∈ encodeByte b, IsSafe c := by
  unfold encodeByte
  split
  · next hplain =>
    obtain ⟨hlt, -, -, hmark⟩ := isPlain_safe hplain
    refine List.forall_mem_singleton.mpr ?_
    rw [IsSafe, toNat_ofNat_of_lt hlt]
    exact ⟨hlt, hmark⟩
  · split
    · exact List.forall_mem_singleton.mpr (by unfold IsSafe; decide)
    · refine List.forall_mem_cons.mpr ⟨by unfold IsSafe; decide, ?_⟩
      refine List.forall_mem_cons.mpr ⟨isSafe_hexDigit _ (by omega), ?_⟩
      exact List.forall_mem_singleton.mpr (isSafe_hexDigit _ (by omega))

/-- An encoded byte is decoded to the byte. -/
theorem decodeBytes_encodeByte (hb : b < 256) :
    decodeBytes ((encodeByte b).map Char.toNat ++ rest) = b :: decodeBytes rest := by
  have hhigh : b / 16 < 16 := by omega
  have hlow : b % 16 < 16 := by omega
  unfold encodeByte
  split
  · next hplain =>
    obtain ⟨hlt, hpercent, hplus, -⟩ := isPlain_safe hplain
    rw [List.map_singleton, List.singleton_append, toNat_ofNat_of_lt hlt,
      decodeBytes_cons hpercent, if_neg hplus]
  · split
    · next hspace => subst hspace; rfl
    · have hbyte : 16 * (b / 16) + b % 16 = b := Nat.div_add_mod b 16
      show decodeBytes (0x25 :: (hexDigit (b / 16)).toNat :: (hexDigit (b % 16)).toNat :: rest) = _
      rw [decodeBytes_percent (hexValue?_hexDigit _ hhigh) (hexValue?_hexDigit _ hlow), hbyte]

theorem decodeBytes_flatMap {bytes : List Nat} (h : ∀ b ∈ bytes, b < 256) :
    decodeBytes ((bytes.flatMap encodeByte).map Char.toNat) = bytes := by
  induction bytes with
  | nil => rfl
  | cons b bytes ih =>
    obtain ⟨hb, hbytes⟩ := List.forall_mem_cons.mp h
    rw [List.flatMap_cons, List.map_append, decodeBytes_encodeByte hb, ih hbytes]

end Bytes

section Texts

variable {text : List Char} {c : Char}

theorem isSafe_encode (hc : c ∈ encode text) : IsSafe c := by
  obtain ⟨b, hb, hc⟩ := List.mem_flatMap.mp hc
  exact isSafe_encodeByte (Text.lt_of_mem_encodeUtf8 hb) c hc

/-- An encoded text is decoded to the text. -/
theorem decode_encode (text : List Char) : decode (encode text) = text := by
  rw [decode, encodeUtf8_ascii fun c hc => (isSafe_encode hc).1, encode,
    decodeBytes_flatMap fun b hb => Text.lt_of_mem_encodeUtf8 hb, Text.decodeUtf8_encodeUtf8]

theorem decodePair_encodePair (pair : String × String) : decodePair (encodePair pair) = pair := by
  have hname : ∀ c ∈ encode pair.1.toList, (c != '=') = true := by
    intro c hc
    refine bne_iff_ne.mpr ?_
    rintro rfl
    exact (isSafe_encode hc).2 (by decide)
  rw [decodePair, encodePair, span_append_cons hname (by decide)]
  simp only [List.drop_succ_cons, List.drop_zero, decode_encode, String.ofList_toList]

theorem notMem_encodePair {pair : String × String} (hc : c.toNat = 0x26 ∨ c.toNat = 0x3F) :
    c ∉ encodePair pair := by
  have hmark : c.toNat ∈ [0x26, 0x3D, 0x3F] := by
    rcases hc with hc | hc <;> rw [hc] <;> decide
  intro hmem
  rcases List.mem_append.mp hmem with hmem | hmem
  · exact (isSafe_encode hmem).2 hmark
  · rcases List.mem_cons.mp hmem with rfl | hmem
    · revert hc
      decide
    · exact (isSafe_encode hmem).2 hmark

theorem encodePair_ne_nil (pair : String × String) : encodePair pair ≠ [] :=
  List.append_ne_nil_of_right_ne_nil _ (List.cons_ne_nil _ _)

end Texts

/-! ## Joined pairs -/

section Joined

variable {mark : Char} {piece rest : List Char} {pieces : List (List Char)}

theorem splitAt_piece (h : mark ∉ piece) : splitAt mark piece = [piece] := by
  induction piece with
  | nil => rfl
  | cons c piece ih =>
    obtain ⟨hc, hpiece⟩ := not_or.mp (mt List.mem_cons.mpr h)
    rw [splitAt, if_neg (Ne.symm hc), ih hpiece]

theorem splitAt_append (h : mark ∉ piece) :
    splitAt mark (piece ++ mark :: rest) = piece :: splitAt mark rest := by
  induction piece with
  | nil => rw [List.nil_append, splitAt, if_pos rfl]
  | cons c piece ih =>
    obtain ⟨hc, hpiece⟩ := not_or.mp (mt List.mem_cons.mpr h)
    rw [List.cons_append, splitAt, if_neg (Ne.symm hc), ih hpiece]

/-- Joined pieces are cut where they were joined. -/
theorem splitAt_intercalate (h : ∀ p ∈ piece :: pieces, mark ∉ p) :
    splitAt mark (List.intercalate [mark] (piece :: pieces)) = piece :: pieces := by
  induction pieces generalizing piece with
  | nil => simpa using splitAt_piece (h piece List.mem_cons_self)
  | cons next pieces ih =>
    obtain ⟨hpiece, hpieces⟩ := List.forall_mem_cons.mp h
    rw [List.intercalate_cons_cons, List.append_assoc, List.singleton_append, splitAt_append hpiece,
      ih hpieces]

end Joined

section Pairs

variable {limit : Nat} {tree grown : Tree} {ps : List (String × String)}

/-- Puts pairs into the tree in their order. -/
def addPairs (limit : Nat) (tree : Tree) (ps : List (String × String)) : Except Fault Tree :=
  ps.foldlM (fun tree pair => addPair limit tree pair.1 pair.2) tree

theorem addPair_eq_ok_iff {name text : String} {segments : List Segment}
    (hkey : readKey name = .ok segments) : addPair limit tree name text = .ok grown ↔
      segments.length ≤ limit ∧ tree.insert text segments = .ok grown := by
  rw [addPair, hkey]
  show (if limit < segments.length then _ else _) = _ ↔ _
  split
  · next hdeep =>
    apply iff_of_false
    · intro h
      cases h
    · exact fun h => absurd h.1 (Nat.not_le.mpr hdeep)
  · next hdeep => rw [mapError_eq_ok_iff, and_iff_right (Nat.not_lt.mp hdeep)]

theorem addPairs_cons {pair : String × String} {next : Tree}
    (h : addPair limit tree pair.1 pair.2 = .ok next) :
    addPairs limit tree (pair :: ps) = addPairs limit next ps := by
  rw [addPairs, List.foldlM_cons, h]
  rfl

/-- The pairs of pieces between ampersands. -/
def pairsIn (pieces : List (List Char)) : List (String × String) :=
  (pieces.filter fun piece => !piece.isEmpty).map decodePair

/-- The pairs of a query string, in their order. -/
def pairsOf (text : String) : List (String × String) :=
  pairsIn (splitAt '&' (match text.toList with
    | '?' :: rest => rest
    | chars => chars))

theorem addPieces_eq_ok_iff {offset : Nat} {pieces : List (List Char)} :
    addPieces limit offset tree pieces = .ok grown ↔
      addPairs limit tree (pairsIn pieces) = .ok grown := by
  induction pieces generalizing offset tree with
  | nil => exact ⟨fun h => by cases h; rfl, fun h => by cases h; rfl⟩
  | cons piece rest ih =>
    rw [addPieces, pairsIn]
    cases hempty : piece.isEmpty with
    | true =>
      rw [List.filter_cons_of_neg (by simp [hempty])]
      exact ih
    | false =>
      rw [List.filter_cons_of_pos (by simp [hempty]), List.map_cons, addPairs, List.foldlM_cons,
        bind_eq_ok_iff]
      cases hnext : addPair limit tree (decodePair piece).1 (decodePair piece).2 with
      | error fault => simp [hnext]
      | ok next => simpa [hnext, addPairs, pairsIn] using ih

/-- A text is read by putting its pairs into an empty tree. -/
theorem read_eq_ok_iff {text : String} {v : Value} :
    read limit text = .ok v ↔
      ∃ grown, addPairs limit (.object []) (pairsOf text) = .ok grown ∧ grown.value = v := by
  rw [read, pairsOf]
  cases text.toList with
  | nil => simp only [bind_eq_ok_iff, addPieces_eq_ok_iff, Except.ok.injEq]
  | cons c rest =>
    by_cases hc : c = '?'
    · subst hc
      simp only [bind_eq_ok_iff, addPieces_eq_ok_iff, Except.ok.injEq]
    · simp only [List.cons.injEq, hc, false_and, imp_self, implies_true, bind_eq_ok_iff,
        addPieces_eq_ok_iff, Except.ok.injEq]

/-- The text of pairs has no question mark in front. -/
theorem toList_joinPairs_ne (pair : String × String) (ps : List (String × String))
    (rest : List Char) : (joinPairs (pair :: ps)).toList ≠ '?' :: rest := by
  intro heq
  rw [joinPairs, String.toList_ofList, List.map_cons] at heq
  have hhead : (encodePair pair).head? = some '?' := by
    cases ps with
    | nil => simpa using congrArg List.head? heq
    | cons next ps =>
      rw [List.map_cons, List.intercalate_cons_cons, List.append_assoc] at heq
      have hhead := congrArg List.head? heq
      rwa [List.head?_append_of_ne_nil _ (encodePair_ne_nil pair)] at hhead
  exact notMem_encodePair (.inr rfl) (List.mem_of_head? hhead)

theorem pairsIn_encodePair (ps : List (String × String)) : pairsIn (ps.map encodePair) = ps := by
  have hne : ∀ piece ∈ ps.map encodePair, (!piece.isEmpty) = true := by
    refine List.forall_mem_map.mpr fun pair _ => ?_
    rw [List.isEmpty_eq_false_iff.mpr (encodePair_ne_nil pair)]
    rfl
  rw [pairsIn, List.filter_eq_self.mpr hne, List.map_map]
  exact (List.map_congr_left fun pair _ => decodePair_encodePair pair).trans (List.map_id ps)

/-- The pairs of a text are those it was made of. -/
theorem pairsOf_joinPairs (ps : List (String × String)) : pairsOf (joinPairs ps) = ps := by
  cases ps with
  | nil => rfl
  | cons pair ps =>
    have hpieces : splitAt '&' (joinPairs (pair :: ps)).toList = (pair :: ps).map encodePair := by
      rw [joinPairs, String.toList_ofList, List.map_cons]
      refine splitAt_intercalate ?_
      rw [← List.map_cons, List.forall_mem_map]
      exact fun pair _ => notMem_encodePair (.inl rfl)
    rw [pairsOf]
    split
    · next hmark => exact absurd hmark (toList_joinPairs_ne pair ps _)
    · rw [hpieces, pairsIn_encodePair]

/-- The text of pairs is read by putting the pairs into an empty tree. -/
theorem read_joinPairs (h : addPairs limit (.object []) ps = .ok grown) :
    read limit (joinPairs ps) = .ok grown.value :=
  read_eq_ok_iff.mpr ⟨grown, by rwa [pairsOf_joinPairs], rfl⟩

/-- A text of pairs has no fewer bytes than pairs. -/
theorem length_le_joinPairs (ps : List (String × String)) :
    ps.length ≤ (joinPairs ps).utf8ByteSize := by
  refine Nat.le_trans ?_ (Text.length_le_utf8ByteSize _)
  induction ps with
  | nil => exact Nat.zero_le _
  | cons pair ps ih =>
    have hpair := List.length_pos_iff.mpr (encodePair_ne_nil pair)
    cases ps with
    | nil =>
      rw [List.map_singleton, List.intercalate_singleton]
      exact hpair
    | cons next ps =>
      rw [List.map_cons, List.map_cons, List.intercalate_cons_cons, ← List.map_cons,
        List.length_append, List.length_append, List.length_cons]
      omega

end Pairs

end Remap.Query
