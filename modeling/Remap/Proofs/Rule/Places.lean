import Mathlib.Data.List.TakeWhile
import Remap.Proofs.Decimal.Digits
import Remap.Proofs.Lists
import Remap.Rule.Place

/-!
# Lemmas on places

Places one or more steps below a place, and the place of the tree that a place of a run stands for.
Places in one tree are told apart by their texts (`text_inj`).

The text of a place in a document's own tree denotes the place that it has in the tree itself: the
indices of items are passed over when it is read (`parse?_text`), and can be dropped from the text
before that (`staticText_text`).
-/

namespace Remap.Rule

@[simp] theorem Step.static_static (s : Step) : s.static.static = s.static := by
  cases s <;> rfl

/-- The text of a step starts with its only dot. -/
theorem Step.exists_label (s : Step) : ∃ label, s.text.toList = '.' :: label ∧ '.' ∉ label := by
  have hdigits (i : Nat) : '.' ∉ Nat.toDigits 10 i := by
    intro hdot
    have hdigit := Nat.isDigit_of_mem_toDigits (by decide) (by decide) hdot
    cases hdigit
  refine ⟨s.text.toList.tail, ?_⟩
  cases s with
  | step i | input i | itemAt i => simp [text, indexText, hdigits]
  | yes | no | item => decide

theorem Step.text_inj {a b : Step} (h : a.text = b.text) : a = b := by
  have hindex {i j : Nat} (h : Nat.toDigits 10 i = Nat.toDigits 10 j) : i = j := by
    rw [← @Nat.ofDigitChars_ten_toDigits i, h, Nat.ofDigitChars_ten_toDigits]
  cases a <;> cases b <;> simp [text, indexText, ← String.toList_inj] at h ⊢
  all_goals exact hindex h

namespace Place

/-- The place at the end of some steps below. -/
def below (p : Place) (steps : List Step) : Place := ⟨p.tree, p.steps ++ steps⟩

variable {p : Place}

theorem eq_of_steps {a b : Place} (htree : a.tree = b.tree) (hsteps : a.steps = b.steps) :
    a = b := by
  cases a
  cases b
  cases htree
  cases hsteps
  rfl

@[simp] theorem below_nil : p.below [] = p := by
  rw [below, List.append_nil]

@[simp] theorem below_down (s : Step) (steps : List Step) :
    (p.down s).below steps = p.below (s :: steps) := by
  rw [below, below, down, List.append_assoc, List.singleton_append]

theorem down_eq_below (s : Step) : p.down s = p.below [s] := rfl

@[simp] theorem below_inj {a b : List Step} : p.below a = p.below b ↔ a = b := by
  rw [below, below, mk.injEq, List.append_cancel_left_eq, eq_self, true_and]

theorem down_inj {q : Place} {s t : Step} : p.down s = q.down t ↔ p = q ∧ s = t := by
  refine ⟨fun h => ?_, fun ⟨hp, hs⟩ => by rw [hp, hs]⟩
  obtain ⟨htree, hsteps⟩ := Place.mk.inj h
  obtain ⟨hsteps, hs⟩ := List.append_singleton_inj.mp hsteps
  exact ⟨eq_of_steps htree hsteps, hs⟩

theorem below_below (a b : List Step) : (p.below a).below b = p.below (a ++ b) := by
  rw [below, below, below, List.append_assoc]

@[simp] theorem static_down (s : Step) : (p.down s).static = p.static.down s.static := by
  rw [static, down, static, down, List.map_append, List.map_singleton]

@[simp] theorem static_static (p : Place) : p.static.static = p.static := by
  simp only [static, List.map_map]
  exact eq_of_steps rfl (List.map_congr_left fun s _ => s.static_static)

theorem static_of_mem_steps (hp : p.static = p) : ∀ s ∈ p.steps, s.static = s := by
  intro s hs
  rw [← hp] at hs
  obtain ⟨s, -, rfl⟩ := List.mem_map.mp hs
  exact s.static_static

/-! ## Texts -/

theorem toList_text (p : Place) :
    p.text.toList = p.tree.toList ++ p.steps.flatMap (·.text.toList) := by
  rw [text]
  generalize p.tree = before
  induction p.steps generalizing before with
  | nil => exact (List.append_nil _).symm
  | cons s steps ih => rw [List.foldl_cons, ih, String.toList_append, List.append_assoc]; rfl

theorem text_below (p : Place) (steps : List Step) :
    (p.below steps).text = (Place.mk p.text steps).text := List.foldl_append

theorem steps_inj {a b : List Step}
    (h : a.flatMap (·.text.toList) = b.flatMap (·.text.toList)) : a = b := by
  have nonempty (s : Step) (steps : List Step) :
      (s :: steps).flatMap (·.text.toList) ≠ [] := by
    obtain ⟨label, hlabel, -⟩ := s.exists_label
    rw [List.flatMap_cons, hlabel]
    exact List.cons_ne_nil _ _
  -- What stands in front of the second dot is the first step.
  have first (s : Step) (steps : List Step) :
      ((s :: steps).flatMap (·.text.toList)).tail.takeWhile (· ≠ '.') = s.text.toList.tail := by
    obtain ⟨label, hlabel, hdot⟩ := s.exists_label
    have hrest : (steps.flatMap (·.text.toList)).takeWhile (· ≠ '.') = [] := by
      cases steps with
      | nil => rfl
      | cons next steps =>
        obtain ⟨other, hother, -⟩ := next.exists_label
        rw [List.flatMap_cons, hother]
        rfl
    have hkeep : ∀ c ∈ label, decide (c ≠ '.') = true := by
      intro c hc
      exact decide_eq_true fun heq => hdot (heq ▸ hc)
    rw [List.flatMap_cons, hlabel, List.cons_append, List.tail_cons,
      List.takeWhile_append_of_pos hkeep, hrest, List.append_nil, List.tail_cons]
  induction a generalizing b with
  | nil =>
    cases b with
    | nil => rfl
    | cons s steps => exact absurd h.symm (nonempty s steps)
  | cons s steps ih =>
    cases b with
    | nil => exact absurd h (nonempty s steps)
    | cons t others =>
      have htail : s.text.toList.tail = t.text.toList.tail := by rw [← first s steps, h, first]
      have htext : s.text = t.text := by
        obtain ⟨_, hs, -⟩ := s.exists_label
        obtain ⟨_, ht, -⟩ := t.exists_label
        rw [hs, ht, List.tail_cons, List.tail_cons] at htail
        rw [← String.toList_inj, hs, ht, htail]
      cases Step.text_inj htext
      rw [List.flatMap_cons, List.flatMap_cons, List.append_cancel_left_eq] at h
      rw [ih h]

/-- Places in one tree are told apart by their texts. -/
theorem text_inj {a b : Place} (htree : a.tree = b.tree) (h : a.text = b.text) : a = b := by
  refine eq_of_steps htree (steps_inj ?_)
  have hlist := congrArg String.toList h
  rwa [toList_text, toList_text, htree, List.append_cancel_left_eq] at hlist

end Place

/-! ## Steps and their names -/

namespace Step

/-- The index of a step fits 64 bits, as one of anything that is in memory does. -/
def Fits : Step → Prop
  | step i | input i | itemAt i => i < UInt64.size
  | yes | no | item => True

theorem Fits.static {s : Step} (h : s.Fits) : s.static.Fits := by
  cases s with
  | itemAt => trivial
  | step | input | yes | no | item => exact h

theorem toList_indexText (i : Nat) :
    (indexText i).toList = '[' :: (Nat.toDigits 10 i ++ [']']) := by
  simp [indexText]

/-- The name of a step, which is what stands between its dot and its index. -/
def name : Step → List Char
  | step _ => ['s', 't', 'e', 'p', 's']
  | input _ => ['i', 'n', 'p', 'u', 't', 's']
  | yes => ['t', 'h', 'e', 'n']
  | no => ['e', 'l', 's', 'e']
  | item | itemAt _ => ['i', 't', 'e', 'm']

def index? : Step → Option Nat
  | step i | input i | itemAt i => some i
  | yes | no | item => none

theorem toList_text (s : Step) : s.text.toList =
    '.' :: (s.name ++ (s.index?.map fun i => (indexText i).toList).getD []) := by
  cases s <;> simp [text, name, index?]

/-- A name ends where an index or the next step begins. -/
theorem name_passes (s : Step) : ∀ c ∈ s.name, (c != '.' && c != '[') = true := by
  cases s <;> simp [name]

theorem readStep?_name (s : Step) : Place.readStep? s.name s.index? = some s.static := by
  cases s <;> rfl

end Step

namespace Place

/-- The indices of a place fit 64 bits. -/
def Fits (p : Place) : Prop := ∀ s ∈ p.steps, s.Fits

theorem Fits.static {p : Place} (h : p.Fits) : p.static.Fits := by
  intro _ hmem
  obtain ⟨s, hs, rfl⟩ := List.mem_map.mp hmem
  exact (h s hs).static

variable {rest : List Char}

/-! ## Reading steps -/

theorem span_toDigits (i : Nat) (rest : List Char) :
    (Nat.toDigits 10 i ++ ']' :: rest).span (· != ']') = (Nat.toDigits 10 i, ']' :: rest) := by
  refine span_append_cons (fun c hc => bne_iff_ne.mpr ?_) rfl
  rintro rfl
  exact absurd (Decimal.isDigit_of_mem_toDigits hc) (by decide)

theorem readIndex?_toDigits {i : Nat} (h : i < UInt64.size) :
    readIndex? (Nat.toDigits 10 i) = some i := by
  have hdigits : (Nat.toDigits 10 i).all Decimal.isDigit = true :=
    List.all_eq_true.mpr fun _ => Decimal.isDigit_of_mem_toDigits
  have hfilled : (Nat.toDigits 10 i).isEmpty = false :=
    List.isEmpty_eq_false_iff.mpr Nat.toDigits_ne_nil
  unfold readIndex?
  -- a digit is told from the plus sign that may stand in front
  split
  case h_1 heq =>
    rw [heq] at hdigits
    cases hdigits
  case h_2 =>
    simp only [hdigits, hfilled, Decimal.ofDigits_toDigits, Bool.not_true, Bool.or_self,
      Bool.false_eq_true, if_false, if_pos h]

/-- Behind a step stands another one or nothing. -/
def EndsStep (rest : List Char) : Prop := ∀ c ∈ rest.head?, c = '.'

theorem endsStep_flatMap (steps : List Step) : EndsStep (steps.flatMap (·.text.toList)) := by
  cases steps with
  | nil => exact fun _ h => nomatch h
  | cons s steps =>
    rw [List.flatMap_cons, s.toList_text]
    rintro c ⟨⟩
    rfl

theorem readSteps?_text {s : Step} (hs : s.Fits) (hrest : EndsStep rest) (fuel : Nat) :
    readSteps? (fuel + 1) (s.text.toList ++ rest) =
      (readSteps? fuel rest).map (s.static :: ·) := by
  rw [s.toList_text, List.cons_append, List.append_assoc]
  cases hindex : s.index? with
  | some i =>
    have hi : i < UInt64.size := by
      cases s <;> cases hindex <;> exact hs
    have hname : (s.name ++ '[' :: (Nat.toDigits 10 i ++ ']' :: rest)).span
        (fun c => c != '.' && c != '[') = (s.name, '[' :: (Nat.toDigits 10 i ++ ']' :: rest)) :=
      span_append_cons s.name_passes rfl
    have hstep := hindex ▸ s.readStep?_name
    simp only [Option.map_some, Option.getD_some, Step.toList_indexText, List.cons_append,
      List.append_assoc, List.nil_append]
    rw [readSteps?]
    simp only [hname, span_toDigits, readIndex?_toDigits hi, Option.bind_eq_bind, Option.bind_some,
      hstep]
    exact Option.map_eq_bind.symm
  | none =>
    have hname : (s.name ++ rest).span (fun c => c != '.' && c != '[') = (s.name, rest) := by
      cases rest with
      | nil => rw [List.append_nil, span_eq_self s.name_passes]
      | cons c rest => exact span_append_cons s.name_passes (by rw [hrest c rfl]; rfl)
    have hstep := hindex ▸ s.readStep?_name
    simp only [Option.map_none, Option.getD_none, List.nil_append]
    rw [readSteps?]
    simp only [hname, hstep]
    split
    next inner => cases hrest '[' rfl
    next => exact Option.map_eq_bind.symm

theorem readSteps?_flatMap {steps : List Step} (hsteps : ∀ s ∈ steps, s.Fits) {fuel : Nat}
    (hfuel : steps.length ≤ fuel) :
    readSteps? fuel (steps.flatMap (·.text.toList)) = some (steps.map Step.static) := by
  induction steps generalizing fuel with
  | nil => cases fuel <;> rfl
  | cons s steps ih =>
    obtain ⟨hs, hsteps⟩ := List.forall_mem_cons.mp hsteps
    cases fuel with
    | zero => exact absurd hfuel (Nat.not_succ_le_zero _)
    | succ fuel =>
      rw [List.flatMap_cons, readSteps?_text hs (endsStep_flatMap steps),
        ih hsteps (Nat.le_of_succ_le_succ hfuel)]
      rfl

/-- The text of a place of a run denotes the place in the tree. -/
theorem parse?_text {p : Place} (htree : p.tree = root.tree) (hp : p.Fits) :
    parse? p.text = some p.static := by
  have hlength : p.steps.length ≤ (p.steps.flatMap (·.text.toList)).length :=
    length_le_length_flatMap fun s _ => by
      rw [s.toList_text]
      exact List.cons_ne_nil _ _
  have htext : p.text.toList =
      'r' :: 'o' :: 'o' :: 't' :: p.steps.flatMap (·.text.toList) := by
    rw [toList_text, htree]
    rfl
  simp only [parse?, htext, readSteps?_flatMap hp hlength, Option.map_some]
  exact congrArg some (eq_of_steps htree.symm rfl)

/-! ## Dropping the indices of items -/

/-- The text of a step to an item, up to its index. -/
def itemMark : List Char := ['.', 'i', 't', 'e', 'm', '[']

theorem dropItemIndices_cons {c : Char} (hc : ¬itemMark <+: c :: rest) (fuel : Nat) :
    dropItemIndices (fuel + 1) (c :: rest) = c :: dropItemIndices fuel rest := by
  rw [dropItemIndices]
  rintro after rfl rfl
  exact hc (List.prefix_append itemMark after)

/-- What has no dot in it is left alone. -/
theorem dropItemIndices_append {label : List Char} (hlabel : '.' ∉ label) {fuel : Nat}
    (hfuel : (label ++ rest).length ≤ fuel) : ∃ fuel', rest.length ≤ fuel' ∧
      dropItemIndices fuel (label ++ rest) = label ++ dropItemIndices fuel' rest := by
  induction label generalizing fuel with
  | nil => exact ⟨fuel, hfuel, rfl⟩
  | cons c label ih =>
    cases fuel with
    | zero => exact absurd hfuel (Nat.not_succ_le_zero _)
    | succ fuel =>
      have hc : ¬itemMark <+: c :: (label ++ rest) := fun h =>
        hlabel ((List.cons_prefix_cons.mp h).1 ▸ List.mem_cons_self)
      obtain ⟨fuel', hrest, heq⟩ :=
        ih (mt (List.mem_cons_of_mem c) hlabel) (Nat.le_of_succ_le_succ hfuel)
      exact ⟨fuel', hrest, by rw [List.cons_append, dropItemIndices_cons hc, heq]; rfl⟩

theorem dropItemIndices_text (s : Step) (hrest : EndsStep rest) {fuel : Nat}
    (hfuel : (s.text.toList ++ rest).length ≤ fuel) : ∃ fuel', rest.length ≤ fuel' ∧
      dropItemIndices fuel (s.text.toList ++ rest) =
        s.static.text.toList ++ dropItemIndices fuel' rest := by
  obtain ⟨label, hlabel, hdot⟩ := s.exists_label
  -- a step that is not marked by an index of an item is left alone
  have plain (hs : s.static = s) (hmark : ¬itemMark <+: s.text.toList ++ rest) :
      ∃ fuel', rest.length ≤ fuel' ∧ dropItemIndices fuel (s.text.toList ++ rest) =
        s.static.text.toList ++ dropItemIndices fuel' rest := by
    rw [hs]
    rw [hlabel, List.cons_append] at hmark hfuel ⊢
    cases fuel with
    | zero => exact absurd hfuel (Nat.not_succ_le_zero _)
    | succ fuel =>
      obtain ⟨fuel', hfuel', heq⟩ := dropItemIndices_append hdot (Nat.le_of_succ_le_succ hfuel)
      exact ⟨fuel', hfuel', by rw [dropItemIndices_cons hmark, heq]; rfl⟩
  cases s with
  | step i | input i | yes | no => exact plain rfl (by simp [itemMark, Step.toList_text, Step.name])
  | item =>
    refine plain rfl fun ⟨after, h⟩ => ?_
    have hnext : '[' :: after = rest := congrArg (List.drop 5) h
    cases hrest '[' (hnext ▸ rfl)
  | itemAt i =>
    have htext : (Step.itemAt i).text.toList ++ rest =
        '.' :: 'i' :: 't' :: 'e' :: 'm' :: '[' :: (Nat.toDigits 10 i ++ ']' :: rest) := by
      simp [Step.toList_text, Step.name, Step.index?, Step.toList_indexText]
    rw [htext] at hfuel ⊢
    cases fuel with
    | zero => exact absurd hfuel (Nat.not_succ_le_zero _)
    | succ fuel =>
      refine ⟨fuel, ?_, ?_⟩
      · simp only [List.length_cons, List.length_append] at hfuel
        omega
      · simp only [dropItemIndices, span_toDigits]
        rfl

/-- Dropping the indices of items from the text of a place of a run leaves the text of the place in
the tree. -/
theorem staticText_text {p : Place} (htree : p.tree = root.tree) :
    staticText p.text = p.static.text := by
  have hsteps {steps : List Step} {fuel : Nat}
      (hfuel : (steps.flatMap (·.text.toList)).length ≤ fuel) :
      dropItemIndices fuel (steps.flatMap (·.text.toList)) =
        (steps.map Step.static).flatMap (·.text.toList) := by
    induction steps generalizing fuel with
    | nil => cases fuel <;> rfl
    | cons s steps ih =>
      obtain ⟨fuel', hfuel', heq⟩ := dropItemIndices_text s (endsStep_flatMap steps) hfuel
      rw [List.flatMap_cons, heq, ih hfuel']
      rfl
  have hroot : '.' ∉ p.tree.toList := by
    rw [htree]
    decide
  obtain ⟨fuel, hfuel, heq⟩ := dropItemIndices_append hroot
    (Nat.le_refl (p.tree.toList ++ p.steps.flatMap (·.text.toList)).length)
  rw [← String.toList_inj, toList_text p.static]
  simp only [staticText, String.toList_ofList, toList_text p]
  rw [heq, hsteps hfuel]
  rfl

end Place

end Remap.Rule
