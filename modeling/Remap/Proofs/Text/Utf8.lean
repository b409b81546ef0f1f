import Mathlib.Tactic.IntervalCases
import Mathlib.Tactic.SplitIfs
import Remap.Text.Basic
import Remap.Text.Utf8

/-!
# UTF-8 is read as it was written

The bytes of a character lead back to the character, whatever bytes follow. The first byte holds the
leading bits and bounds the second, each later one adds six bits.
-/

namespace Remap.Text

variable {bits owed low high k : Nat} {rest : List Nat}

theorem decodeFrom_owing (hk : k < 64) (hlow : low ≤ 0x80 + k) (hhigh : 0x80 + k ≤ high) :
    decodeFrom (some ⟨bits, owed + 2, low, high⟩) ((0x80 + k) :: rest) =
      decodeFrom (some ⟨64 * bits + k, owed + 1, 0x80, 0xBF⟩) rest := by
  have hbits : bits * 64 + (0x80 + k - 0x80) = 64 * bits + k := by omega
  simp only [decodeFrom, hlow, hhigh, hbits, and_self, if_true]
  rfl

theorem decodeFrom_last (hk : k < 64) (hlow : low ≤ 0x80 + k) (hhigh : 0x80 + k ≤ high) :
    decodeFrom (some ⟨bits, 1, low, high⟩) ((0x80 + k) :: rest) =
      Char.ofNat (64 * bits + k) :: decodeFrom none rest := by
  have hbits : bits * 64 + (0x80 + k - 0x80) = 64 * bits + k := by omega
  simp only [decodeFrom, hlow, hhigh, hbits, and_self, if_true]

/-- The first of two bytes. -/
theorem startByte_two : ∀ h < 32, 2 ≤ h → startByte (0xC0 + h) = .inr ⟨h, 1, 0x80, 0xBF⟩ := by
  intro h hlt hle
  interval_cases h <;> rfl

/-- The first of three bytes. The second is bounded so that no shorter form and no surrogate is
written. -/
theorem startByte_three : ∀ h < 16, startByte (0xE0 + h) =
    .inr ⟨h, 2, if h = 0 then 0xA0 else 0x80, if h = 13 then 0x9F else 0xBF⟩ := by
  intro h hlt
  interval_cases h <;> rfl

/-- The first of four bytes. The second is bounded so that no shorter form and nothing behind the
last character is written. -/
theorem startByte_four : ∀ h ≤ 4, startByte (0xF0 + h) =
    .inr ⟨h, 3, if h = 0 then 0x90 else 0x80, if h = 4 then 0x8F else 0xBF⟩ := by
  intro h hle
  interval_cases h <;> rfl

theorem decodeFrom_start {b : Nat} {pending : Pending} (h : startByte b = .inr pending) :
    decodeFrom none (b :: rest) = decodeFrom (some pending) rest := by
  rw [decodeFrom, h]

theorem decodeFrom_encodeChar (c : Char) (rest : List Nat) :
    decodeFrom none (encodeChar c ++ rest) = c :: decodeFrom none rest := by
  have hvalid : c.toNat < 0xD800 ∨ 0xDFFF < c.toNat ∧ c.toNat < 0x110000 := c.valid
  have hchar := Char.ofNat_toNat c
  unfold encodeChar
  dsimp only
  generalize c.toNat = n at hvalid hchar ⊢
  have hlast : n % 64 < 64 := Nat.mod_lt n (by decide)
  -- in each form the quotients by 64 bring the number back, and `hvalid` keeps the second byte
  -- within the bounds that the first one sets
  split_ifs with hone htwo hthree <;> simp only [List.cons_append, List.nil_append]
  · simp only [decodeFrom, startByte, hone, if_true, hchar]
  · have hbits : 64 * (n / 64) + n % 64 = n := Nat.div_add_mod n 64
    rw [decodeFrom_start (startByte_two (n / 64) (by omega) (by omega)),
      decodeFrom_last hlast (by omega) (by omega), hbits, hchar]
  · have hlow : (if n / 4096 = 0 then 0xA0 else 0x80) ≤ 0x80 + n / 64 % 64 := by split <;> omega
    have hhigh : 0x80 + n / 64 % 64 ≤ if n / 4096 = 13 then 0x9F else 0xBF := by split <;> omega
    have hbits : 64 * (64 * (n / 4096) + n / 64 % 64) + n % 64 = n := by omega
    rw [decodeFrom_start (startByte_three (n / 4096) (by omega)),
      decodeFrom_owing (by omega) hlow hhigh, decodeFrom_last hlast (by omega) (by omega), hbits,
      hchar]
  · have hlow : (if n / 262144 = 0 then 0x90 else 0x80) ≤ 0x80 + n / 4096 % 64 := by
      split <;> omega
    have hhigh : 0x80 + n / 4096 % 64 ≤ if n / 262144 = 4 then 0x8F else 0xBF := by
      split <;> omega
    have hbits :
        64 * (64 * (64 * (n / 262144) + n / 4096 % 64) + n / 64 % 64) + n % 64 = n := by omega
    rw [decodeFrom_start (startByte_four (n / 262144) (by omega)),
      decodeFrom_owing (by omega) hlow hhigh, decodeFrom_owing (by omega) (by omega) (by omega),
      decodeFrom_last hlast (by omega) (by omega), hbits, hchar]

/-- The bytes of a text are read as the text. -/
theorem decodeUtf8_encodeUtf8 (text : List Char) : decodeUtf8 (encodeUtf8 text) = text := by
  unfold decodeUtf8 encodeUtf8
  induction text with
  | nil => rfl
  | cons c text ih => rw [List.flatMap_cons, decodeFrom_encodeChar, ih]

theorem lt_of_mem_encodeUtf8 {text : List Char} {b : Nat} (h : b ∈ encodeUtf8 text) : b < 256 := by
  obtain ⟨c, -, hb⟩ := List.mem_flatMap.mp h
  have hvalid : c.toNat < 0xD800 ∨ 0xDFFF < c.toNat ∧ c.toNat < 0x110000 := c.valid
  unfold encodeChar at hb
  dsimp only at hb
  split_ifs at hb <;> simp only [List.mem_cons, List.not_mem_nil, or_false] at hb <;> omega

/-- The bytes of a list of characters are those of the text. -/
theorem byteLength_eq (text : List Char) : byteLength text = (String.ofList text).utf8ByteSize := by
  have hfold (n : Nat) : text.foldl (fun n c => n + c.utf8Size) n =
      n + (String.ofList text).utf8ByteSize := by
    induction text generalizing n with
    | nil => rfl
    | cons c text ih =>
      rw [List.foldl_cons, ih, String.ofList_cons, String.utf8ByteSize_append,
        String.utf8ByteSize_singleton, Nat.add_assoc]
  rw [byteLength, hfold, Nat.zero_add]

/-- Each character takes at least one byte. -/
theorem length_le_utf8ByteSize (text : List Char) :
    text.length ≤ (String.ofList text).utf8ByteSize := by
  induction text with
  | nil => exact Nat.zero_le _
  | cons c text ih =>
    have hc := c.utf8Size_pos
    rw [String.ofList_cons, String.utf8ByteSize_append, String.utf8ByteSize_singleton,
      List.length_cons]
    omega

end Remap.Text
