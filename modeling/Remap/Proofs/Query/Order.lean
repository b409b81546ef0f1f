import Remap.Proofs.Query.Find
import Remap.Proofs.Query.RoundTrip

/-!
# The order of pairs

Texts at places of their own can be put into a tree if and only if no two of them are in each
other's way, whatever their order, and the order makes no difference to what is found. There is one
exception: a text may be put behind the texts that are in the array at its place, but not before
them (`read_query_perm`).
-/

namespace Remap

namespace Query

namespace Tree

section Lists

variable {t u : Tree} {l : Leaf} {ls ms done todo : List Leaf}

/-- Whether leaves have places of their own, without appending, and none is an item of what is at
the place of another. -/
structure Orderly (ls : List Leaf) : Prop where
  no_append : ∀ l ∈ ls, .append ∉ l.place
  places : ls.Pairwise fun a b => a.place ≠ b.place
  no_item : ∀ a ∈ ls, ∀ b ∈ ls, ∀ n rest, b.place ≠ a.place ++ .index n :: rest

theorem Orderly.perm (h : Orderly ls) (hperm : ls.Perm ms) : Orderly ms where
  no_append l hl := h.no_append l (hperm.mem_iff.mpr hl)
  places := (hperm.pairwise_iff Ne.symm).mp h.places
  no_item a ha b hb := h.no_item a (hperm.mem_iff.mpr ha) b (hperm.mem_iff.mpr hb)

/-- Whether the texts that are found in a tree are some leaves. -/
structure Holds (ls : List Leaf) (t : Tree) : Prop where
  grown : t = vacant ∨ t.Full
  find : ∀ place text, find? place t = some text ↔ ⟨place, text⟩ ∈ ls

theorem holds_vacant : Holds [] vacant where
  grown := .inl rfl
  find place text := by rw [find?_vacant]; exact ⟨nofun, nofun⟩

theorem Holds.exists_of_find? (h : Holds ls t) {place : List Segment}
    (hfind : find? place t ≠ none) : ∃ l ∈ ls, l.place = place := by
  obtain ⟨text, htext⟩ := Option.ne_none_iff_exists'.mp hfind
  exact ⟨_, (h.find place text).mp htext, rfl⟩

theorem Holds.find?_ne_none (h : Holds ls t) (hl : l ∈ ls) : find? l.place t ≠ none := by
  rw [(h.find l.place l.text).mpr hl]
  exact Option.some_ne_none _

/-- A leaf with none in its way is put beside the others. -/
theorem Holds.insert (h : Holds ls t) (hl : .append ∉ l.place)
    (hapart : ∀ m ∈ ls, Apart l.place m.place) :
    ∃ u, t.insert l.text l.place = .ok u ∧ Holds (ls ++ [l]) u := by
  obtain ⟨u, hinsert, hfull, hfind⟩ := insert_of_apart hl t h.grown fun q hq => by
    obtain ⟨m, hm, rfl⟩ := h.exists_of_find? hq
    exact hapart m hm
  refine ⟨u, hinsert, .inr hfull, fun place text => ?_⟩
  rw [hfind, List.mem_append, List.mem_singleton]
  split
  · next heq =>
    subst heq
    have hnew : (⟨l.place, text⟩ : Leaf) ∉ ls := fun hmem =>
      not_apart_self l.place (hapart ⟨l.place, text⟩ hmem)
    rw [or_iff_right hnew, Option.some.injEq]
    exact ⟨fun heq => by rw [← heq], fun heq => by rw [← heq]⟩
  · next hne =>
    have hother : (⟨place, text⟩ : Leaf) ≠ l := fun heq => hne (heq ▸ rfl)
    rw [or_iff_left hother, h.find]

/-- Leaves with none in the way of another are put into a tree one by one. -/
theorem Holds.insertAll (h : Holds done t) (happend : ∀ l ∈ todo, .append ∉ l.place)
    (hapart : (done ++ todo).Pairwise fun a b => Apart a.place b.place) :
    ∃ u, Tree.insertAll todo t = .ok u ∧ Holds (done ++ todo) u := by
  induction todo generalizing done t with
  | nil => exact ⟨t, rfl, by rwa [List.append_nil]⟩
  | cons l todo ih =>
    obtain ⟨hl, htodo⟩ := List.forall_mem_cons.mp happend
    have hbefore : ∀ m ∈ done, Apart l.place m.place := fun m hm =>
      ((List.pairwise_append.mp hapart).2.2 m hm l List.mem_cons_self).symm
    obtain ⟨u, hinsert, hu⟩ := h.insert hl hbefore
    rw [List.append_cons] at hapart
    obtain ⟨w, hw, hholds⟩ := ih hu htodo hapart
    exact ⟨w, by rwa [insertAll_cons hinsert], by rwa [List.append_cons]⟩

/-- Orderly leaves that are put into a tree are not in each other's way. -/
theorem Holds.apart_of_insertAll (h : Holds done t) (horderly : Orderly (done ++ todo))
    (hdone : done.Pairwise fun a b => Apart a.place b.place)
    (hinsert : Tree.insertAll todo t = .ok u) :
    (done ++ todo).Pairwise fun a b => Apart a.place b.place := by
  induction todo generalizing done t with
  | nil => rwa [List.append_nil]
  | cons l todo ih =>
    have hmem : l ∈ done ++ l :: todo := List.mem_append_right _ List.mem_cons_self
    have hl := horderly.no_append l hmem
    obtain ⟨next, hnext, hinsert⟩ := bind_eq_ok_iff.mp hinsert
    have hbefore : ∀ m ∈ done, Apart l.place m.place := fun m hm => by
      refine apart_of_insert hl hnext (h.find?_ne_none hm) ?_ ?_
      · exact (List.pairwise_append.mp horderly.places).2.2 m hm l List.mem_cons_self
      · exact horderly.no_item l hmem m (List.mem_append_left _ hm)
    obtain ⟨u, hu, hholds⟩ := h.insert hl hbefore
    obtain rfl : u = next := Except.ok.inj (hu.symm.trans hnext)
    rw [List.append_cons] at horderly ⊢
    refine ih hholds horderly ?_ hinsert
    refine List.pairwise_append.mpr ⟨hdone, List.pairwise_singleton _ _, fun m hm => ?_⟩
    exact List.forall_mem_singleton.mpr (hbefore m hm).symm

/-- Trees with the same leaves have the same value up to the order of keys. -/
theorem Holds.reordered (ht : Holds ls t) (hu : Holds ms u) (hperm : ls.Perm ms) :
    t.value.Reordered u.value := by
  have hfind (place : List Segment) : find? place t = find? place u := by
    ext text
    rw [ht.find, hu.find, hperm.mem_iff]
  have vacant_of {t u : Tree} (ht : t = vacant) (hu : u = vacant ∨ u.Full)
      (hfind : ∀ place, find? place t = find? place u) : u = vacant := by
    refine hu.resolve_right fun hfull => ?_
    obtain ⟨place, hplace⟩ := hfull.exists_find?
    rw [← hfind, ht, find?_vacant] at hplace
    exact hplace rfl
  rcases ht.grown with rfl | hfull
  · rw [vacant_of rfl hu.grown hfind]
    exact .scalar rfl
  · rcases hu.grown with rfl | hfull'
    · rw [vacant_of rfl ht.grown fun place => (hfind place).symm]
      exact .scalar rfl
    · exact hfull.reordered hfull' hfind

/-- Orderly leaves can be put into a tree if and only if none is in the way of another. -/
theorem Orderly.insertAll_vacant (h : Orderly ls) :
    (ls.Pairwise fun a b => Apart a.place b.place) ∧
        (∃ t, Tree.insertAll ls vacant = .ok t ∧ Holds ls t) ∨
      (¬ ls.Pairwise fun a b => Apart a.place b.place) ∧
        (Tree.insertAll ls vacant).toOption = none := by
  by_cases hapart : ls.Pairwise fun a b => Apart a.place b.place
  · exact .inl ⟨hapart, holds_vacant.insertAll h.no_append hapart⟩
  · refine .inr ⟨hapart, Option.eq_none_iff_forall_ne_some.mpr fun t ht => hapart ?_⟩
    exact holds_vacant.apart_of_insertAll h .nil (toOption_eq_some_iff.mp ht)

/-- Orderly leaves may be put in any order. -/
theorem Orderly.rel_insertAll (h : Orderly ls) (hperm : ls.Perm ms) :
    Option.Rel (fun t u => t.value.Reordered u.value) (Tree.insertAll ls vacant).toOption
      (Tree.insertAll ms vacant).toOption := by
  have hiff := hperm.pairwise_iff (R := fun a b => Apart a.place b.place) fun h => h.symm
  rcases h.insertAll_vacant with ⟨hapart, t, ht, hls⟩ | ⟨hapart, hnone⟩
  · rcases (h.perm hperm).insertAll_vacant with ⟨-, u, hu, hms⟩ | ⟨hapart', -⟩
    · rw [ht, hu]
      exact .some (hls.reordered hms hperm)
    · exact absurd (hiff.mp hapart) hapart'
  · rcases (h.perm hperm).insertAll_vacant with ⟨hapart', -⟩ | ⟨-, hnone'⟩
    · exact absurd (hiff.mpr hapart') hapart
    · rw [hnone, hnone']
      exact .none

/-- Of two leaves one of which is an item of what is at the place of the other, the item can not be
put behind the other. -/
theorem insertAll_item {first item : Leaf} {n : Nat} {rest : List Segment}
    (hfirst : .append ∉ first.place) (hitem : .append ∉ item.place)
    (hplace : item.place = first.place ++ .index n :: rest) :
    (Tree.insertAll (first :: item :: ls) vacant).toOption = none := by
  refine Option.eq_none_iff_forall_ne_some.mpr fun u hu => ?_
  obtain ⟨t, ht, hu⟩ := bind_eq_ok_iff.mp (toOption_eq_some_iff.mp hu)
  obtain ⟨next, hnext, -⟩ := bind_eq_ok_iff.mp hu
  obtain ⟨w, hw, hholds⟩ := holds_vacant.insert hfirst nofun
  obtain rfl : w = t := Except.ok.inj (hw.symm.trans ht)
  have hfound := hholds.find?_ne_none (List.mem_append_right [] (List.mem_singleton_self first))
  have hlength : first.place.length < item.place.length := by
    rw [hplace, List.length_append, List.length_cons]
    omega
  have hapart : Apart item.place first.place := by
    refine apart_of_insert hitem hnext hfound (fun heq => ?_) fun m more heq => ?_
    · rw [heq] at hlength
      omega
    · rw [heq, List.length_append] at hlength
      omega
  exact not_apart_append first.place (.index n :: rest) (hplace ▸ hapart)

end Lists

end Tree

/-! ## Pairs -/

section Pairs

variable {ps qs : List (String × String)} {limit : Nat} {tree grown : Tree} {name : String}
  {place : List Segment}

/-- The place that a key leads to, if it is one. -/
def placeOf (name : String) : List Segment := (readKey name).toOption.getD []

/-- The leaf that a pair stands for. -/
def leafOf (pair : String × String) : Leaf := ⟨placeOf pair.1, pair.2⟩

theorem placeOf_eq (h : readKey name = .ok place) : placeOf name = place := by
  rw [placeOf, h]
  rfl

/-- Whether the keys of all pairs are read, as places of their own, without appending. -/
structure Placed (ps : List (String × String)) : Prop where
  readable : ∀ pair ∈ ps, ∃ place, readKey pair.1 = .ok place ∧ .append ∉ place
  distinct : ps.Pairwise fun a b => readKey a.1 ≠ readKey b.1

/-- Whether the place of some pair is that of another followed by an index, and maybe more. -/
def HasItem (ps : List (String × String)) : Prop :=
  ∃ a ∈ ps, ∃ b ∈ ps, ∃ place n rest,
    readKey a.1 = .ok place ∧ readKey b.1 = .ok (place ++ .index n :: rest)

theorem Placed.readKey_eq (h : Placed ps) {pair : String × String} (hpair : pair ∈ ps) :
    readKey pair.1 = .ok (placeOf pair.1) := by
  obtain ⟨place, hplace, -⟩ := h.readable pair hpair
  rw [placeOf_eq hplace, hplace]

theorem Placed.perm (h : Placed ps) (hperm : ps.Perm qs) : Placed qs where
  readable pair hpair := h.readable pair (hperm.mem_iff.mpr hpair)
  distinct := (hperm.pairwise_iff Ne.symm).mp h.distinct

theorem Placed.no_append (h : Placed ps) : ∀ l ∈ ps.map leafOf, .append ∉ l.place := by
  refine List.forall_mem_map.mpr fun pair hpair => ?_
  obtain ⟨place, hplace, happend⟩ := h.readable pair hpair
  rwa [leafOf, placeOf_eq hplace]

theorem Placed.orderly (h : Placed ps) (hitem : ¬ HasItem ps) : Tree.Orderly (ps.map leafOf) where
  no_append := h.no_append
  places := by
    refine List.pairwise_map.mpr (h.distinct.imp_of_mem fun ha hb hne heq => hne ?_)
    rw [h.readKey_eq ha, h.readKey_eq hb]
    exact congrArg Except.ok heq
  no_item := by
    refine List.forall_mem_map.mpr fun a ha => List.forall_mem_map.mpr fun b hb n rest heq => ?_
    exact hitem ⟨a, ha, b, hb, placeOf a.1, n, rest, h.readKey_eq ha, heq ▸ h.readKey_eq hb⟩

theorem addPairs_eq_ok_iff (h : ∀ pair ∈ ps, readKey pair.1 = .ok (placeOf pair.1)) :
    addPairs limit tree ps = .ok grown ↔ (∀ pair ∈ ps, (placeOf pair.1).length ≤ limit) ∧
      Tree.insertAll (ps.map leafOf) tree = .ok grown := by
  induction ps generalizing tree with
  | nil => exact ⟨fun h => ⟨List.forall_mem_nil _, by cases h; rfl⟩, fun h => by cases h.2; rfl⟩
  | cons pair ps ih =>
    obtain ⟨hpair, hps⟩ := List.forall_mem_cons.mp h
    have hadd (next : Tree) : addPair limit tree pair.1 pair.2 = .ok next ↔
        (placeOf pair.1).length ≤ limit ∧ tree.insert pair.2 (placeOf pair.1) = .ok next :=
      addPair_eq_ok_iff hpair
    rw [addPairs, List.foldlM_cons, bind_eq_ok_iff, List.map_cons, Tree.insertAll, List.foldlM_cons,
      bind_eq_ok_iff, List.forall_mem_cons]
    constructor
    · rintro ⟨next, hnext, hgrown⟩
      obtain ⟨hlength, hinsert⟩ := (hadd next).mp hnext
      obtain ⟨hlengths, hgrown⟩ := (ih hps).mp hgrown
      exact ⟨⟨hlength, hlengths⟩, next, hinsert, hgrown⟩
    · rintro ⟨⟨hlength, hlengths⟩, next, hinsert, hgrown⟩
      exact ⟨next, (hadd next).mpr ⟨hlength, hinsert⟩, (ih hps).mpr ⟨hlengths, hgrown⟩⟩

/-- The first pair makes an object out of nothing. -/
theorem Placed.insertAll_object_nil (h : Placed ps) (hne : ps ≠ []) :
    Tree.insertAll (ps.map leafOf) (.object []) = Tree.insertAll (ps.map leafOf) .vacant := by
  cases ps with
  | nil => exact absurd rfl hne
  | cons pair ps =>
    have hkey := h.readKey_eq List.mem_cons_self
    obtain ⟨base, inner, hplace, -⟩ := readKey_sound hkey
    rw [List.map_cons, leafOf, hplace]
    rfl

theorem Placed.toOption_addPairs (h : Placed ps) (hne : ps ≠ []) :
    (addPairs limit (.object []) ps).toOption =
      if ∀ pair ∈ ps, (placeOf pair.1).length ≤ limit then
        (Tree.insertAll (ps.map leafOf) .vacant).toOption
      else none := by
  ext grown
  rw [toOption_eq_some_iff, addPairs_eq_ok_iff fun pair hpair => h.readKey_eq hpair,
    h.insertAll_object_nil hne, ← toOption_eq_some_iff]
  split
  · next hlengths => exact and_iff_right hlengths
  · next hlengths => exact iff_of_false (fun h => hlengths h.1) nofun

end Pairs

/-! ## Texts -/

section Texts

variable {ps : List (String × String)} {limit : Nat} {text other : String}

theorem toOption_read (limit : Nat) (text : String) : (read limit text).toOption =
    (addPairs limit (.object []) (pairsOf text)).toOption.map Tree.value := by
  ext v
  rw [toOption_eq_some_iff, read_eq_ok_iff, Option.map_eq_some_iff]
  simp only [toOption_eq_some_iff]

/-- Where no pair is an item, texts of the same pairs are read alike. -/
theorem Placed.rel_read (h : Placed ps) (hitem : ¬ HasItem ps) (htext : (pairsOf text).Perm ps)
    (hother : (pairsOf other).Perm ps) :
    Option.Rel Value.Reordered (read limit text).toOption (read limit other).toOption := by
  rw [toOption_read, toOption_read]
  refine rel_map (R := fun t u => t.value.Reordered u.value) ?_ fun _ _ => id
  by_cases hne : ps = []
  · subst hne
    rw [htext.eq_nil, hother.eq_nil]
    exact .some (.object .nil (.refl _) nofun)
  · have hne' {qs : List (String × String)} (hqs : qs.Perm ps) : qs ≠ [] := fun heq =>
      hne (List.nil_perm.mp (heq ▸ hqs))
    have horderly := (h.orderly hitem).perm (htext.symm.map leafOf)
    have hrel := horderly.rel_insertAll ((htext.trans hother.symm).map leafOf)
    rw [(h.perm htext.symm).toOption_addPairs (hne' htext),
      (h.perm hother.symm).toOption_addPairs (hne' hother)]
    simp only [htext.mem_iff, hother.mem_iff]
    split
    · exact hrel
    · exact .none

/-- Where some pair is an item, an order of the pairs is rejected. -/
theorem Placed.exists_rejected (h : Placed ps) (hitem : HasItem ps) :
    ∃ text, (pairsOf text).Perm ps ∧ ∀ limit, (read limit text).toOption = none := by
  obtain ⟨a, ha, b, hb, place, n, rest, hplace, hbelow⟩ := hitem
  have hne : b ≠ a := by
    rintro rfl
    simpa using Except.ok.inj (hplace.symm.trans hbelow)
  have hperm : (a :: b :: (ps.erase a).erase b).Perm ps :=
    ((List.perm_cons_erase ((List.mem_erase_of_ne hne).mpr hb)).symm.cons a).trans
      (List.perm_cons_erase ha).symm
  have hplaced := h.perm hperm.symm
  have hleaves := hplaced.no_append
  have hplaces : (leafOf b).place = (leafOf a).place ++ .index n :: rest := by
    rw [leafOf, leafOf, placeOf_eq hplace, placeOf_eq hbelow]
  refine ⟨joinPairs (a :: b :: (ps.erase a).erase b), by rwa [pairsOf_joinPairs], fun limit => ?_⟩
  rw [toOption_read, pairsOf_joinPairs, hplaced.toOption_addPairs (List.cons_ne_nil _ _),
    List.map_cons, List.map_cons, Tree.insertAll_item (hleaves _ List.mem_cons_self)
      (hleaves _ (List.mem_cons_of_mem _ List.mem_cons_self)) hplaces, ite_self, Option.map_none]

end Texts

end Query

namespace Payload

open Query

variable {ps : List (String × String)} {limits : Limits} {text : String}

theorem toOption_read_query (limits : Limits) (text : String) :
    (read .query limits text).toOption =
      if text.utf8ByteSize ≤ limits.maxBytes then (Query.read limits.maxDepth text).toOption
      else none := by
  ext v
  rw [toOption_eq_some_iff, read_query_eq_ok_iff, ← toOption_eq_some_iff]
  split
  · next hsize => exact and_iff_right hsize
  · next hsize => exact iff_of_false (fun h => hsize h.1) nofun

/-- **Pairs are read alike in any order**, as values that are equal up to the order of keys or not
at all, if no pair is an item of what is at the place of another. If one is, this holds only of
pairs that are rejected in every order. -/
theorem read_query_perm (h : Placed ps) (depth : Nat) :
    (∀ (limits : Limits) (text other : String), limits.maxDepth = depth →
      (pairsOf text).Perm ps → (pairsOf other).Perm ps → text.utf8ByteSize ≤ limits.maxBytes →
      other.utf8ByteSize ≤ limits.maxBytes →
        Option.Rel Value.Reordered (read .query limits text).toOption
          (read .query limits other).toOption) ↔
      ¬ HasItem ps ∨ ∀ (limits : Limits) (text : String), limits.maxDepth = depth →
        (pairsOf text).Perm ps → (read .query limits text).toOption = none := by
  constructor
  · intro halike
    by_contra hneither
    obtain ⟨hitem, haccepted⟩ := not_or.mp hneither
    obtain ⟨other, hother, hrejected⟩ := h.exists_rejected (not_not.mp hitem)
    refine haccepted fun limits text hdepth htext => ?_
    rw [toOption_read_query]
    split
    · next hsize =>
      have hrel := halike ⟨max text.utf8ByteSize other.utf8ByteSize, depth⟩ text other rfl htext
        hother (Nat.le_max_left _ _) (Nat.le_max_right _ _)
      rw [toOption_read_query, toOption_read_query, if_pos (Nat.le_max_left _ _), hrejected,
        ite_self] at hrel
      rw [hdepth]
      cases hread : (Query.read depth text).toOption with
      | none => rfl
      | some v =>
        rw [hread] at hrel
        cases hrel
    · rfl
  · rintro (hitem | hrejected) limits text other hdepth htext hother hsize hsize'
    · rw [toOption_read_query, toOption_read_query, if_pos hsize, if_pos hsize']
      exact h.rel_read hitem htext hother
    · rw [hrejected limits text hdepth htext, hrejected limits other hdepth hother]
      exact .none

/-- Items out of order, an object in an array, and a key at the root that is also below. -/
def shelf : List (String × String) :=
  [("a[1]", "x"), ("b", "z"), ("a[0][b]", "y"), ("a[0][c]", "")]

theorem shelf_placed : Placed shelf where
  readable := by
    simp only [shelf, List.forall_mem_cons]
    exact ⟨⟨[.key "a", .index 1], by cbv, by decide⟩, ⟨[.key "b"], by cbv, by decide⟩,
      ⟨[.key "a", .index 0, .key "b"], by cbv, by decide⟩,
      ⟨[.key "a", .index 0, .key "c"], by cbv, by decide⟩, nofun⟩
  distinct := by decide +kernel

theorem shelf_hasItem : ¬ HasItem shelf := by
  rintro ⟨a, ha, b, hb, place, n, rest, hplace, hbelow⟩
  have hprefix : ∀ a ∈ shelf, ∀ b ∈ shelf, placeOf a.1 <+: placeOf b.1 →
      placeOf a.1 = placeOf b.1 := by decide +kernel
  have heq := hprefix a ha b hb
  rw [placeOf_eq hplace, placeOf_eq hbelow] at heq
  simpa using heq (List.prefix_append _ _)

theorem read_query_perm_shelf :
    let text := "a[1]=x&b=z&a[0][b]=y&a[0][c]"
    let other := "?a%5B0%5D[c]&&a[0][b]=y&b=z&a[1]=x"
    (∃ v, (read .query .standard text).toOption = some v) ∧
      Option.Rel Value.Reordered (read .query .standard text).toOption
        (read .query .standard other).toOption := by
  refine ⟨⟨.object [("a", .array [.object [("b", .string "y"), ("c", .string "")], .string "x"]),
    ("b", .string "z")], by cbv⟩, ?_⟩
  refine (read_query_perm shelf_placed Limits.standard.maxDepth).mpr (.inl shelf_hasItem) _ _ _ rfl
    ?_ ?_ (by decide) (by decide)
  · decide +kernel
  · decide +kernel

/-- A text may go behind the texts that are in the array at its place, but not before them. -/
theorem read_query_perm_item :
    Placed [("a[0]", "x"), ("a", "y")] ∧
      pairsOf "a[0]=x&a=y" = [("a[0]", "x"), ("a", "y")] ∧
      pairsOf "a=y&a[0]=x" = [("a", "y"), ("a[0]", "x")] ∧
      read .query .standard "a[0]=x&a=y" =
        .ok (.object [("a", .array [.string "x", .string "y"])]) ∧
      read .query .standard "a=y&a[0]=x" =
        .error ⟨.query, .query (.conflict "a[0]" (.index 0 .value)), some 4⟩ := by
  refine ⟨⟨?_, by decide +kernel⟩, by decide +kernel, by decide +kernel, by cbv, by cbv⟩
  simp only [List.forall_mem_cons]
  exact ⟨⟨[.key "a", .index 0], by cbv, by decide⟩, ⟨[.key "a"], by cbv, by decide⟩,
    List.forall_mem_nil _⟩

end Payload

end Remap
