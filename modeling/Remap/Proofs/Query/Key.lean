import Mathlib.Tactic.SplitIfs
import Remap.Proofs.Decimal.Digits
import Remap.Proofs.Lists
import Remap.Proofs.Results
import Remap.Query.Key
import Remap.Query.Writer

/-!
# Keys are read as they were written

A key in brackets is read as a key unless it is empty, has brackets in it or consists of digits,
and what is read are such keys only. An index is read from its digits if it fits 64 bits.
-/

namespace Remap.Query

/-- Whether a key that stands in brackets is read as a key. -/
def isNestedKey (key : String) : Bool := isWritableKey key && !key.toList.all Decimal.isDigit

theorem isWritableKey_iff {key : String} :
    isWritableKey key = true ↔ key.toList ≠ [] ∧ '[' ∉ key.toList ∧ ']' ∉ key.toList := by
  simp [isWritableKey, and_assoc]

namespace Segment

/-- What stands between the brackets of a segment. -/
def inner : Segment → String
  | key name => name
  | index n => toString n
  | append => ""

/-- Whether a segment is read from its brackets. -/
def Sound : Segment → Prop
  | key name => isNestedKey name = true
  | index n => n < indexCount
  | append => True

/-- A segment in its brackets. -/
def bracket (s : Segment) : List Char := '[' :: (s.inner.toList ++ [']'])

end Segment

/-- The name that segments lead to from a name. -/
def nameOf (base : String) (segments : List Segment) : String :=
  segments.foldl (fun name s => nested name s.inner) base

section Segments

variable {key base : String} {s : Segment} {segments : List Segment} {inner rest : List Char}

theorem toList_nameOf :
    (nameOf base segments).toList = base.toList ++ segments.flatMap Segment.bracket := by
  induction segments generalizing base with
  | nil => rw [nameOf, List.foldl_nil, List.flatMap_nil, List.append_nil]
  | cons s segments ih =>
    have hnested : (nested base s.inner).toList = base.toList ++ s.bracket := by
      simp [nested, Segment.bracket]
    rw [nameOf, List.foldl_cons, ← nameOf, ih, hnested, List.flatMap_cons, List.append_assoc]

theorem all_isDigit_toString (n : Nat) : (toString n).toList.all Decimal.isDigit = true := by
  rw [Nat.toString_eq_repr, Nat.toList_repr, List.all_eq_true]
  exact fun c hc => Decimal.isDigit_of_mem_toDigits hc

theorem notMem_of_all_isDigit {c : Char} (hinner : inner.all Decimal.isDigit = true)
    (hc : Decimal.isDigit c = false) : c ∉ inner := fun hmem => by
  rw [List.all_eq_true.mp hinner c hmem] at hc
  cases hc

theorem Segment.Sound.notMem_inner (h : s.Sound) {c : Char} (hc : c = '[' ∨ c = ']') :
    c ∉ s.inner.toList := by
  cases s with
  | key name =>
    have hname := isWritableKey_iff.mp (Bool.and_eq_true_iff.mp h).1
    rcases hc with rfl | rfl
    · exact hname.2.1
    · exact hname.2.2
  | index n =>
    refine notMem_of_all_isDigit (all_isDigit_toString n) ?_
    rcases hc with rfl | rfl <;> decide
  | append => exact List.not_mem_nil

theorem segmentOf_inner (h : s.Sound) : segmentOf key s.inner.toList = .ok s := by
  have hopen := h.notMem_inner (.inl rfl)
  rw [segmentOf, if_neg (by simpa using hopen)]
  cases s with
  | key name =>
    obtain ⟨hwritable, hdigits⟩ := Bool.and_eq_true_iff.mp h
    have hne := (isWritableKey_iff.mp hwritable).1
    rw [Bool.not_eq_true'] at hdigits
    rw [Segment.inner, if_neg (by simpa using hne), hdigits, if_neg Bool.false_ne_true,
      String.ofList_toList]
  | index n =>
    have hvalue : Decimal.ofDigits (toString n).toList = n := by
      rw [Nat.toString_eq_repr, Nat.toList_repr, Decimal.ofDigits_toDigits]
    have hlt : n < indexCount := h
    rw [Segment.inner, if_neg (by simp), if_pos (all_isDigit_toString n)]
    dsimp only
    rw [hvalue, if_pos hlt]
  | append => rfl

/-- What is read between brackets is read there again. -/
theorem sound_of_segmentOf (hclose : ']' ∉ inner) (h : segmentOf key inner = .ok s) : s.Sound := by
  rw [segmentOf] at h
  split_ifs at h with hopen hempty hdigits
  · cases h
    trivial
  · dsimp only at h
    split_ifs at h with hlt
    cases h
    exact hlt
  · cases h
    refine Bool.and_eq_true_iff.mpr ⟨isWritableKey_iff.mpr ?_, ?_⟩
    · rw [String.toList_ofList]
      exact ⟨by simpa using hempty, by simpa using hopen, hclose⟩
    · rw [String.toList_ofList, Bool.not_eq_true', ← Bool.not_eq_true]
      exact hdigits

/-! ## Keys -/

theorem notMem_of_span {c : Char} {text found tail : List Char}
    (h : text.span (· != c) = (found, tail)) : c ∉ found := by
  have hfound : found = (text.span (· != c)).1 := by rw [h]
  rw [hfound]
  exact fun hmem => by simpa using of_mem_span hmem

/-- Segments are read from their brackets. -/
theorem readSegments_bracket (h : ∀ s ∈ segments, s.Sound) {fuel : Nat}
    (hfuel : segments.length ≤ fuel) :
    readSegments key fuel (segments.flatMap Segment.bracket) = .ok segments := by
  induction segments generalizing fuel with
  | nil => cases fuel <;> rfl
  | cons s segments ih =>
    obtain ⟨hs, hsegments⟩ := List.forall_mem_cons.mp h
    cases fuel with
    | zero => cases hfuel
    | succ fuel =>
      have hinner : ∀ c ∈ s.inner.toList, (c != ']') = true := fun c hc =>
        bne_iff_ne.mpr fun heq => hs.notMem_inner (.inr heq) hc
      rw [List.flatMap_cons, Segment.bracket, List.cons_append, List.append_assoc,
        List.singleton_append, readSegments, if_pos rfl, span_append_cons hinner (by decide)]
      show (segmentOf key s.inner.toList >>= _) = _
      rw [segmentOf_inner hs]
      show (readSegments key fuel _ >>= _) = _
      rw [ih hsegments (Nat.le_of_succ_le_succ hfuel)]
      rfl

/-- What is read of brackets is read from brackets again. -/
theorem sound_of_readSegments {fuel : Nat} (h : readSegments key fuel rest = .ok segments) :
    ∀ s ∈ segments, s.Sound := by
  induction fuel generalizing rest segments with
  | zero => cases h; exact nofun
  | succ fuel ih =>
    cases rest with
    | nil => cases h; exact nofun
    | cons c rest =>
      rw [readSegments] at h
      split at h
      · cases hspan : rest.span (· != ']') with
        | mk found tail =>
          have hclose : ']' ∉ found := notMem_of_span hspan
          rw [hspan] at h
          dsimp only at h
          split at h
          · cases h
          · obtain ⟨s, hs, h⟩ := bind_eq_ok_iff.mp h
            obtain ⟨others, hothers, h⟩ := bind_eq_ok_iff.mp h
            cases h
            exact List.forall_mem_cons.mpr ⟨sound_of_segmentOf hclose hs, ih hothers⟩
      · cases h

/-- A name is read as its segments. -/
theorem readKey_nameOf (hbase : isWritableKey base = true) (h : ∀ s ∈ segments, s.Sound) :
    readKey (nameOf base segments) = .ok (.key base :: segments) := by
  obtain ⟨hne, hopen, hclose⟩ := isWritableKey_iff.mp hbase
  have hplain : ∀ c ∈ base.toList, (c != '[') = true := fun c hc =>
    bne_iff_ne.mpr fun heq => hopen (heq ▸ hc)
  have hspan : (nameOf base segments).toList.span (· != '[') =
      (base.toList, segments.flatMap Segment.bracket) := by
    rw [toList_nameOf]
    cases segments with
    | nil => rw [List.flatMap_nil, List.append_nil, span_eq_self hplain]
    | cons s segments =>
      rw [List.flatMap_cons, Segment.bracket, List.cons_append]
      exact span_append_cons hplain (by decide)
  have hlength : segments.length ≤ (segments.flatMap Segment.bracket).length :=
    length_le_length_flatMap fun s _ => List.cons_ne_nil _ _
  rw [readKey, hspan]
  dsimp only
  rw [if_neg (by simpa using hne), if_neg (by simpa using hclose),
    readSegments_bracket h (Nat.le_succ_of_le hlength), String.ofList_toList]
  rfl

/-- What is read of a name is a key that can be written, with segments that are read again. -/
theorem readKey_sound (h : readKey key = .ok segments) :
    ∃ base inner, segments = .key base :: inner ∧ isWritableKey base = true ∧
      ∀ s ∈ inner, s.Sound := by
  rw [readKey] at h
  cases hspan : key.toList.span (· != '[') with
  | mk base rest =>
    have hopen := notMem_of_span hspan
    rw [hspan] at h
    dsimp only at h
    split_ifs at h with hempty hclose
    obtain ⟨inner, hinner, h⟩ := bind_eq_ok_iff.mp h
    cases h
    refine ⟨_, inner, rfl, isWritableKey_iff.mpr ?_, sound_of_readSegments hinner⟩
    rw [String.toList_ofList]
    exact ⟨by simpa using hempty, hopen, by simpa using hclose⟩

end Segments

end Remap.Query
