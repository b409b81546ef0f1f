import Remap.Proofs.Doctor.Conversion

/-!
# Insertions

Insertions are made from the last transform of a field to the first (`descending_insertions`), so
that each is made in front of the very transform that failed. The main statement is what comes of
all of them: every field has the conversions that were meant for it, each in front of its own call
(`value_insertAll`).
-/

namespace Remap.Doctor

open Rule (Call Node)

/-! ## First failures -/

/-- What tells the failures of different transforms apart: where the transform stands. -/
def failureKey (f : Run.Failure) : Rule.Place × Nat := (f.place.static, f.index)

/-- The first failures are those that no failure of the same transform comes before. -/
theorem mem_firstFailures {seen : List (Rule.Place × Nat)} {failures : List Run.Failure}
    {f : Run.Failure} : f ∈ firstFailures seen failures ↔ failureKey f ∉ seen ∧
      failures.find? (fun g => failureKey g = failureKey f) = some f := by
  induction failures generalizing seen with
  | nil => exact iff_of_false List.not_mem_nil fun h => nomatch h.2
  | cons g rest ih =>
    have hskip (h : failureKey g ∈ seen) :
        firstFailures seen (g :: rest) = firstFailures seen rest :=
      if_pos (List.contains_iff_mem.mpr h)
    have hkeep (h : failureKey g ∉ seen) :
        firstFailures seen (g :: rest) = g :: firstFailures (failureKey g :: seen) rest :=
      if_neg fun hcontains => h (List.contains_iff_mem.mp hcontains)
    rw [List.find?_cons]
    by_cases hkey : failureKey g = failureKey f
    · rw [decide_eq_true hkey]
      by_cases hseen : failureKey g ∈ seen
      · rw [hskip hseen, ih, ← hkey]
        exact iff_of_false (fun h => h.1 hseen) fun h => h.1 hseen
      · rw [hkeep hseen, List.mem_cons, ih, ← hkey]
        constructor
        · rintro (rfl | h)
          · exact ⟨hseen, rfl⟩
          · exact absurd List.mem_cons_self h.1
        · exact fun h => .inl (Option.some.inj h.2).symm
    · have hne : f ≠ g := fun heq => hkey (heq ▸ rfl)
      rw [decide_eq_false hkey]
      by_cases hseen : failureKey g ∈ seen
      · rw [hskip hseen]
        exact ih
      · rw [hkeep hseen, List.mem_cons, or_iff_right hne, ih, List.mem_cons,
          or_iff_right (Ne.symm hkey)]

theorem pairwise_firstFailures (seen : List (Rule.Place × Nat)) (failures : List Run.Failure) :
    (firstFailures seen failures).Pairwise fun f g => failureKey f ≠ failureKey g := by
  induction failures generalizing seen with
  | nil => exact .nil
  | cons f rest ih =>
    simp only [firstFailures]
    split
    · exact ih seen
    · refine .cons (fun g hg heq => ?_) (ih _)
      exact (mem_firstFailures.mp hg).1 (heq ▸ List.mem_cons_self)

/-! ## The order of insertions -/

theorem insertion?_eq_some {sample : Value} {f : Run.Failure} {i : Insertion}
    (h : insertion? sample f = some i) :
    ∃ op v, conversionOf f.transform f.input.kind = some op ∧
      op.apply (Run.Scope.ofInput .json sample).resolve? f.input = .ok v ∧
      i = ⟨f.place.static, f.index, op.transform, f.input.kind⟩ := by
  unfold insertion? at h
  obtain ⟨op, hop, h⟩ := Option.bind_eq_some_iff.mp h
  split at h
  · next v hv =>
    cases h
    exact ⟨op, v, hop, hv, rfl⟩
  · cases h

theorem comesBefore_iff {a b : Insertion} : a.comesBefore b ↔
    compare a.place.text b.place.text = .lt ∨ a.place.text = b.place.text ∧ b.index ≤ a.index := by
  unfold Insertion.comesBefore
  cases h : compare a.place.text b.place.text with
  | lt => simp
  | eq => simp [Std.LawfulEqOrd.eq_of_compare h]
  | gt =>
    have hne : a.place.text ≠ b.place.text := by
      intro heq
      rw [heq, Std.ReflOrd.compare_self] at h
      cases h
    simp [hne]

theorem comesBefore_trans {a b c : Insertion} (hab : a.comesBefore b) (hbc : b.comesBefore c) :
    a.comesBefore c := by
  rw [comesBefore_iff] at hab hbc ⊢
  rcases hab with hab | ⟨hab, hindex⟩
  · rcases hbc with hbc | ⟨hbc, -⟩
    · exact .inl (Std.TransCmp.lt_trans hab hbc)
    · exact .inl (hbc ▸ hab)
  · rcases hbc with hbc | ⟨hbc, hindex'⟩
    · exact .inl (hab ▸ hbc)
    · exact .inr ⟨hab.trans hbc, Nat.le_trans hindex' hindex⟩

theorem comesBefore_total (a b : Insertion) : a.comesBefore b || b.comesBefore a := by
  rw [Bool.or_eq_true, comesBefore_iff, comesBefore_iff]
  have hswap : compare b.place.text a.place.text = (compare a.place.text b.place.text).swap :=
    Std.OrientedCmp.eq_swap
  cases h : compare a.place.text b.place.text with
  | lt => exact .inl (.inl rfl)
  | gt => exact .inr (.inl (by rw [hswap, h]; rfl))
  | eq =>
    have heq : a.place.text = b.place.text := Std.LawfulEqOrd.eq_of_compare h
    rcases Nat.le_total b.index a.index with hle | hle
    · exact .inl (.inr ⟨heq, hle⟩)
    · exact .inr (.inr ⟨heq.symm, hle⟩)

/-- Insertions at one place are made from the last transform to the first. -/
def Descending (is : List Insertion) : Prop :=
  is.Pairwise fun a b => a.place = b.place → b.index < a.index

theorem mem_insertions {sample : Value} {failures : List Run.Failure} {i : Insertion} :
    i ∈ insertions sample failures ↔
      ∃ f ∈ firstFailures [] failures, insertion? sample f = some i := by
  rw [insertions, (List.mergeSort_perm _ _).mem_iff, List.mem_filterMap]

theorem descending_insertions (sample : Value) (failures : List Run.Failure) :
    Descending (insertions sample failures) := by
  have hdifferent : (insertions sample failures).Pairwise fun a b =>
      (a.place, a.index) ≠ (b.place, b.index) := by
    have hperm := List.mergeSort_perm
      ((firstFailures [] failures).filterMap (insertion? sample)) Insertion.comesBefore
    refine (hperm.pairwise_iff Ne.symm).mpr ?_
    refine (pairwise_firstFailures [] failures).filterMap _ fun f g hne a ha b hb heq => ?_
    obtain ⟨_, _, -, -, rfl⟩ := insertion?_eq_some ha
    obtain ⟨_, _, -, -, rfl⟩ := insertion?_eq_some hb
    exact hne heq
  have hsorted : (insertions sample failures).Pairwise fun a b => a.comesBefore b := by
    refine List.pairwise_mergeSort (fun a b c => ?_) comesBefore_total _
    exact comesBefore_trans
  refine (hsorted.and hdifferent).imp fun {a b} ⟨hbefore, hne⟩ hplace => ?_
  rcases comesBefore_iff.mp hbefore with hlt | ⟨-, hle⟩
  · rw [hplace, Std.ReflOrd.compare_self] at hlt
    cases hlt
  · exact Nat.lt_of_le_of_ne hle fun heq => hne (by rw [hplace, heq])

/-! ## Making insertions -/

/-- A field with an insertion made, if it has the transform. -/
def insertInto (i : Insertion) (f : Rule.Field) : Rule.Field :=
  if i.index < f.transforms.length then
    { f with transforms := f.transforms.insertIdx i.index ⟨i.conversion.name, []⟩ }
  else f

/-- A field at the end of some steps with all insertions made that are meant for it. -/
def insertAllInto (is : List Insertion) (steps : List Rule.Step) (f : Rule.Field) : Rule.Field :=
  is.foldl (fun f i => if steps = i.place.steps then insertInto i f else f) f

theorem value_insert {i : Insertion} (hi : i.place.static = i.place) (root : Node) :
    (insert root i).value =
      root.mapFields fun steps f => if steps = i.place.steps then insertInto i f else f := by
  have hsteps := Rule.Place.static_of_mem_steps hi
  have hself (h : ∀ f, root.find? i.place.steps = some (.field f) → insertInto i f = f) :
      root.mapFields (fun steps f => if steps = i.place.steps then insertInto i f else f) =
        root := by
    refine Node.mapFields_eq_self fun steps f _ hf => ?_
    split
    · next heq => exact h f (heq ▸ hf)
    · rfl
  unfold insert
  split
  · next f hf =>
    split
    · next next hnext =>
      have hlength : i.index < f.transforms.length := (List.getElem?_eq_some_iff.mp hnext).1
      have hinto : insertInto i f =
          { f with transforms := f.transforms.insertIdx i.index ⟨i.conversion.name, []⟩ } :=
        if_pos hlength
      rw [← Node.mapAt_eq_mapFields hsteps hf (insertInto i), hinto]
    · next hnone =>
      refine (hself fun f' hf' => ?_).symm
      rw [hf] at hf'
      cases hf'
      exact if_neg (Nat.not_lt.mpr (List.getElem?_eq_none_iff.mp hnone))
  · next hnone => exact (hself fun f hf => absurd hf (hnone f)).symm

theorem value_insertAll_eq {is : List Insertion} (his : ∀ i ∈ is, i.place.static = i.place)
    (root : Node) : (insertAll root is).value = root.mapFields (insertAllInto is) := by
  induction is generalizing root with
  | nil => exact (Node.mapFields_eq_self fun _ _ _ _ => rfl).symm
  | cons i rest ih =>
    obtain ⟨hi, hrest⟩ := List.forall_mem_cons.mp his
    have hvalue : (insertAll root (i :: rest)).value =
        (insertAll (insert root i).value rest).value := rfl
    rw [hvalue, ih hrest, value_insert hi, Node.mapFields_mapFields]
    rfl

/-! ## Where insertions land -/

/-- A tree has the transform in front of which an insertion goes. -/
def Lands (root : Node) (i : Insertion) : Prop :=
  ∃ f, root.find? i.place.steps = some (.field f) ∧ i.index < f.transforms.length

section

variable {root : Node} {i : Insertion} {is : List Insertion}

theorem insert_of_not_lands (h : ¬ Lands root i) : insert root i = pure root := by
  unfold insert
  split
  · next f hf =>
    split
    · next next hnext => exact absurd ⟨f, hf, (List.getElem?_eq_some_iff.mp hnext).1⟩ h
    · rfl
  · rfl

theorem insertAll_of_not_lands (h : ∀ i ∈ is, ¬ Lands root i) : insertAll root is = pure root := by
  induction is with
  | nil => rfl
  | cons i rest ih =>
    obtain ⟨hi, hrest⟩ := List.forall_mem_cons.mp h
    rw [insertAll, insert_of_not_lands hi, Fixed.value_pure, ih hrest]
    rfl

theorem Lands.fixes_insert (h : Lands root i) : ∃ next, (insert root i).fixes =
    [⟨.conversion i.conversion next i.given,
      i.place.text ++ ".transforms" ++ Rule.Step.indexText i.index⟩] := by
  obtain ⟨f, hf, hlength⟩ := h
  refine ⟨f.transforms[i.index].name, ?_⟩
  simp only [insert, hf, List.getElem?_eq_getElem hlength]

/-- An insertion still lands after others are made. -/
theorem Lands.insert (h : Lands root i) (hi : i.place.static = i.place) {before : Insertion}
    (hbefore : before.place.static = before.place) : Lands (Doctor.insert root before).value i := by
  obtain ⟨f, hf, hlength⟩ := h
  rw [value_insert hbefore]
  refine ⟨_, Node.find?_mapFields_field _ (Rule.Place.static_of_mem_steps hi) hf, ?_⟩
  split
  · unfold insertInto
    split
    · next hlands =>
      rw [List.length_insertIdx_of_le_length (Nat.le_of_lt hlands)]
      exact Nat.lt_succ_of_lt hlength
    · exact hlength
  · exact hlength

/-- An insertion that lands is reported. -/
theorem Lands.exists_mem_fixes (h : Lands root i) (his : ∀ i ∈ is, i.place.static = i.place)
    (hi : i ∈ is) : ∃ next, ⟨.conversion i.conversion next i.given,
      i.place.text ++ ".transforms" ++ Rule.Step.indexText i.index⟩ ∈
        (insertAll root is).fixes := by
  induction is generalizing root with
  | nil => cases hi
  | cons first rest ih =>
    obtain ⟨hfirst, hrest⟩ := List.forall_mem_cons.mp his
    rw [insertAll]
    rcases List.mem_cons.mp hi with rfl | hmem
    · obtain ⟨next, hfixes⟩ := h.fixes_insert
      refine ⟨next, List.mem_append_left _ ?_⟩
      rw [hfixes]
      exact List.mem_singleton_self _
    · obtain ⟨next, hfix⟩ := ih (h.insert (hrest i hmem) hfirst) hrest hmem
      exact ⟨next, List.mem_append_right _ hfix⟩

end

/-! ## What comes of them -/

/-- Calls with the conversion in front of each that is meant for its number. -/
def interleave (meant : Nat → Option Transform) : List Call → List Call
  | [] => []
  | call :: calls =>
    ((meant 0).map fun t => (⟨t.name, []⟩ : Call)).toList ++
      call :: interleave (fun j => meant (j + 1)) calls

section

variable {meant meant' : Nat → Option Transform} {n : Nat} {calls : List Call}

theorem interleave_congr (h : ∀ j < calls.length, meant j = meant' j) :
    interleave meant calls = interleave meant' calls := by
  induction calls generalizing meant meant' with
  | nil => rfl
  | cons call calls ih =>
    have hfirst : meant 0 = meant' 0 := h 0 (Nat.zero_lt_succ _)
    have hrest := ih fun j hj => h (j + 1) (Nat.succ_lt_succ hj)
    rw [interleave, interleave, hfirst, hrest]

theorem interleave_eq_self (h : ∀ j < calls.length, meant j = none) :
    interleave meant calls = calls := by
  induction calls generalizing meant with
  | nil => rfl
  | cons call calls ih =>
    have hfirst : meant 0 = none := h 0 (Nat.zero_lt_succ _)
    have hrest := ih fun j hj => h (j + 1) (Nat.succ_lt_succ hj)
    rw [interleave, hfirst, hrest]
    rfl

/-- A conversion that is put in front of a call, when those in front of later calls are there
already. -/
theorem interleave_insertIdx {t : Transform} (hn : n < calls.length)
    (hnone : ∀ j, n ≤ j → meant j = none) :
    interleave meant (calls.insertIdx n ⟨t.name, []⟩) =
      interleave (fun j => if j = n then some t else meant j) calls := by
  induction n generalizing meant calls with
  | zero =>
    have hself (calls : List Call) : interleave meant calls = calls :=
      interleave_eq_self fun j _ => hnone j (Nat.zero_le j)
    cases calls with
    | nil => cases hn
    | cons call calls =>
      have hrest : interleave (fun j => if j + 1 = 0 then some t else meant (j + 1)) calls = calls :=
        interleave_eq_self fun j _ => hnone (j + 1) (Nat.zero_le _)
      rw [List.insertIdx_zero, hself, interleave, hrest]
      rfl
  | succ n ih =>
    cases calls with
    | nil => cases hn
    | cons call calls =>
      have hrest : interleave (fun j => meant (j + 1)) (calls.insertIdx n ⟨t.name, []⟩) =
          interleave (fun j => if j = n then some t else meant (j + 1)) calls :=
        ih (Nat.lt_of_succ_lt_succ hn) fun j hj => hnone (j + 1) (Nat.succ_le_succ hj)
      have hfirst : (if 0 = n + 1 then some t else meant 0) = meant 0 := rfl
      rw [List.insertIdx_succ_cons, interleave, interleave, hrest, hfirst]
      simp only [Nat.add_right_cancel_iff]

theorem converted_interleave
    (h : ∀ j call t, calls[j]? = some call → meant j = some t → Suits t call) :
    Converted calls (interleave meant calls) := by
  induction calls generalizing meant with
  | nil => exact .nil
  | cons call calls ih =>
    have hrest := ih fun j => h (j + 1)
    rw [interleave]
    cases hfirst : meant 0 with
    | none => exact .keep hrest
    | some t => exact .convert (h 0 call t rfl hfirst) hrest

theorem take_interleave (h : ∀ j < n, meant j = none) :
    (interleave meant calls).take n = calls.take n := by
  induction n generalizing meant calls with
  | zero => rfl
  | succ n ih =>
    cases calls with
    | nil => rfl
    | cons call calls =>
      have hfirst : meant 0 = none := h 0 (Nat.zero_lt_succ n)
      rw [interleave, hfirst]
      exact congrArg (call :: ·) (ih fun j hj => h (j + 1) (Nat.succ_lt_succ hj))

theorem getElem?_interleave (h : ∀ j < n, meant j = none) {t : Transform} {call : Call}
    (ht : meant n = some t) (hcall : calls[n]? = some call) :
    (interleave meant calls)[n]? = some ⟨t.name, []⟩ ∧
      (interleave meant calls)[n + 1]? = some call := by
  induction n generalizing meant calls with
  | zero =>
    cases calls with
    | nil => cases hcall
    | cons call calls =>
      cases hcall
      rw [interleave, ht]
      exact ⟨rfl, rfl⟩
  | succ n ih =>
    cases calls with
    | nil => cases hcall
    | cons call' calls =>
      have hfirst : meant 0 = none := h 0 (Nat.zero_lt_succ n)
      rw [interleave, hfirst]
      exact ih (fun j hj => h (j + 1) (Nat.succ_lt_succ hj)) ht hcall

end

/-- The conversion that is meant for the call of a number of the field at the end of some steps. -/
def conversionAt (is : List Insertion) (steps : List Rule.Step) (k : Nat) : Option Transform :=
  (is.find? fun i => i.place.steps = steps ∧ i.index = k).map (·.conversion)

/-- A field with the conversions that are meant for its calls. -/
def withConversions (is : List Insertion) (steps : List Rule.Step) (f : Rule.Field) : Rule.Field :=
  { f with transforms := interleave (conversionAt is steps) f.transforms }

/-- Insertions at places in a document's own tree, in the order in which they are to be made. -/
structure Orderly (is : List Insertion) : Prop where
  tree : ∀ i ∈ is, i.place.tree = Rule.Place.root.tree
  static : ∀ i ∈ is, i.place.static = i.place
  descending : Descending is

section

variable {is : List Insertion} {i : Insertion} {steps : List Rule.Step} {f : Rule.Field} {n : Nat}

theorem exists_insertion_of_conversionAt {t : Transform} (h : conversionAt is steps n = some t) :
    ∃ i ∈ is, i.place.steps = steps ∧ i.index = n ∧ i.conversion = t := by
  obtain ⟨i, hi, rfl⟩ := Option.map_eq_some_iff.mp h
  have hmatches := List.find?_some hi
  obtain ⟨hsteps, hindex⟩ := of_decide_eq_true hmatches
  exact ⟨i, List.mem_of_find?_eq_some hi, hsteps, hindex, rfl⟩

theorem conversionAt_ne_none (hi : i ∈ is) : conversionAt is i.place.steps i.index ≠ none := by
  rw [conversionAt, Ne, Option.map_eq_none_iff, List.find?_eq_none]
  exact fun hnone => hnone i hi (decide_eq_true ⟨rfl, rfl⟩)

theorem conversionAt_cons : conversionAt (i :: is) steps n =
    if i.place.steps = steps ∧ i.index = n then some i.conversion
    else conversionAt is steps n := by
  rw [conversionAt, List.find?_cons]
  by_cases h : i.place.steps = steps ∧ i.index = n
  · rw [if_pos h, decide_eq_true h]
    rfl
  · rw [if_neg h, decide_eq_false h]
    rfl

/-- When an insertion is to be made, none is left for its call or a later one. -/
theorem Orderly.conversionAt_eq_none (h : Orderly (i :: is)) (hn : i.index ≤ n) :
    conversionAt is i.place.steps n = none := by
  obtain ⟨htree, htrees⟩ := List.forall_mem_cons.mp h.tree
  obtain ⟨hbefore, -⟩ := List.pairwise_cons.mp h.descending
  refine Option.eq_none_iff_forall_ne_some.mpr fun t ht => ?_
  obtain ⟨b, hb, hsteps, rfl, -⟩ := exists_insertion_of_conversionAt ht
  have hplace : i.place = b.place :=
    Rule.Place.eq_of_steps (htree.trans (htrees b hb).symm) hsteps.symm
  exact absurd (hbefore b hb hplace) (Nat.not_lt.mpr hn)

theorem Orderly.tail (h : Orderly (i :: is)) : Orderly is :=
  ⟨(List.forall_mem_cons.mp h.tree).2, (List.forall_mem_cons.mp h.static).2, h.descending.of_cons⟩

/-- A field with the first insertion made has the other conversions put in as before. -/
theorem Orderly.withConversions_insertInto (h : Orderly (i :: is)) :
    withConversions is i.place.steps (insertInto i f) =
      withConversions (i :: is) i.place.steps f := by
  have hmeant : conversionAt (i :: is) i.place.steps = fun j =>
      if j = i.index then some i.conversion else conversionAt is i.place.steps j := by
    funext j
    simp only [conversionAt_cons, true_and, eq_comm]
  rw [withConversions, withConversions, hmeant]
  by_cases hlength : i.index < f.transforms.length
  · have hinto : insertInto i f =
        { f with transforms := f.transforms.insertIdx i.index ⟨i.conversion.name, []⟩ } :=
      if_pos hlength
    rw [hinto, interleave_insertIdx hlength fun j => h.conversionAt_eq_none]
  · have hinto : insertInto i f = f := if_neg hlength
    rw [hinto, interleave_congr fun j hj => ?_]
    rw [if_neg fun heq => hlength (by omega)]

theorem converted_withConversions
    (h : ∀ j call t, f.transforms[j]? = some call → conversionAt is steps j = some t →
      Suits t call) : FieldConverted f (withConversions is steps f) :=
  ⟨rfl, converted_interleave h, rfl, rfl⟩

/-- Before the first conversion, nothing is changed. -/
theorem take_withConversions (h : ∀ j < n, conversionAt is steps j = none) :
    (withConversions is steps f).transforms.take n = f.transforms.take n := take_interleave h

/-- The first conversion stands where its call stood, and its call behind it. -/
theorem getElem?_withConversions (h : ∀ j < n, conversionAt is steps j = none) {t : Transform}
    (ht : conversionAt is steps n = some t) {call : Call} (hcall : f.transforms[n]? = some call) :
    (withConversions is steps f).transforms[n]? = some ⟨t.name, []⟩ ∧
      (withConversions is steps f).transforms[n + 1]? = some call := getElem?_interleave h ht hcall

end

theorem insertAllInto_eq {is : List Insertion} (h : Orderly is) (steps : List Rule.Step)
    (f : Rule.Field) : insertAllInto is steps f = withConversions is steps f := by
  induction is generalizing f with
  | nil =>
    have hself : interleave (conversionAt [] steps) f.transforms = f.transforms :=
      interleave_eq_self fun _ _ => rfl
    rw [withConversions, hself]
    rfl
  | cons i rest ih =>
    have hcons : insertAllInto (i :: rest) steps f =
        insertAllInto rest steps (if steps = i.place.steps then insertInto i f else f) := rfl
    rw [hcons, ih h.tail]
    by_cases hsteps : steps = i.place.steps
    · rw [if_pos hsteps, hsteps]
      exact h.withConversions_insertInto
    · have hmeant : conversionAt (i :: rest) steps = conversionAt rest steps := by
        funext j
        rw [conversionAt_cons, if_neg fun heq => hsteps heq.1.symm]
      rw [if_neg hsteps, withConversions, withConversions, hmeant]

/-- Every field has the conversions that were meant for it, each in front of its own call. -/
theorem value_insertAll {is : List Insertion} (h : Orderly is) (root : Node) :
    (insertAll root is).value = root.mapFields (withConversions is) := by
  have hinto : insertAllInto is = withConversions is := by
    funext steps f
    exact insertAllInto_eq h steps f
  rw [value_insertAll_eq h.static, hinto]

end Remap.Doctor
