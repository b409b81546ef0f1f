import Remap.Proofs.Fragment.Bundle
import Remap.Proofs.Fragment.History

/-!
# Fragments that are left out

The main statement tells which fragments have no place in the order, so that references to them stay
in a bundle, and when two of the cycles that are reported read the same (`order_omits`).
-/

namespace Remap.Fragment

open Relation

variable {table : Table} {name : String}

/-- What happens while all fragments of a table are followed. -/
def Table.history (table : Table) : List Event := Fragment.history table [] table.keys .start

/-- The references of a table that lead back, each as a trail and a fragment on it. -/
def Table.closed (table : Table) : List (List String × String) := Event.closed table.history

/-! ## Names and arrows -/

theorem arrows_singleton (name : String) : Problem.arrows [name] = name :=
  String.intercalate_singleton

theorem arrows_cons (name other : String) (names : List String) :
    (Problem.arrows (name :: other :: names)).toList =
      (name.toList ++ [' ']) ++ '→' :: ' ' :: (Problem.arrows (other :: names)).toList := by
  rw [Problem.arrows, String.intercalate_cons_cons, String.toList_append, String.toList_append,
    Problem.arrows]
  simp

/-- A text without arrows is not that of two names or more. -/
theorem arrows_ne {text : String} (h : '→' ∉ text.toList) (name other : String)
    (names : List String) : Problem.arrows (name :: other :: names) ≠ text := by
  rintro rfl
  rw [arrows_cons] at h
  exact h (List.mem_append_right _ List.mem_cons_self)

/-- Names without arrows can be told from their text. -/
theorem arrows_inj {names names' : List String} (hnames : names ≠ []) (hnames' : names' ≠ [])
    (h : ∀ name ∈ names, '→' ∉ name.toList) (h' : ∀ name ∈ names', '→' ∉ name.toList)
    (heq : Problem.arrows names = Problem.arrows names') : names = names' := by
  have plain {name : String} (h : '→' ∉ name.toList) :
      ∀ c ∈ name.toList ++ [' '], (c != '→') = true := by
    intro c hc
    rw [bne_iff_ne]
    rintro rfl
    rcases List.mem_append.mp hc with hc | hc
    · exact h hc
    · exact absurd (List.mem_singleton.mp hc) (by decide)
  induction names generalizing names' with
  | nil => exact absurd rfl hnames
  | cons name names ih =>
    obtain ⟨hname, hrest⟩ := List.forall_mem_cons.mp h
    cases names' with
    | nil => exact absurd rfl hnames'
    | cons name' names' =>
      obtain ⟨hname', hrest'⟩ := List.forall_mem_cons.mp h'
      cases names with
      | nil =>
        cases names' with
        | nil => rwa [arrows_singleton, arrows_singleton, ← List.singleton_inj] at heq
        | cons other' names' =>
          rw [arrows_singleton] at heq
          exact (arrows_ne hname _ _ _ heq.symm).elim
      | cons other names =>
        cases names' with
        | nil =>
          rw [arrows_singleton] at heq
          exact (arrows_ne hname' _ _ _ heq).elim
        | cons other' names' =>
          have hspan := congrArg (fun text => text.toList.span (· != '→')) heq
          simp only [arrows_cons] at hspan
          rw [span_append_cons (plain hname) rfl, span_append_cons (plain hname') rfl,
            Prod.mk.injEq] at hspan
          obtain ⟨hfront, hback⟩ := hspan
          rw [String.toList_inj.mp (List.append_cancel_right hfront), ih (List.cons_ne_nil _ _)
            (List.cons_ne_nil _ _) hrest hrest' (String.toList_inj.mp (by simpa using hback))]

/-! ## Cycles that read the same -/

/-- A fragment is come to on one trail only. -/
theorem trail_unique {trail trail' done done' : List String}
    (h : .enter name trail done ∈ table.history)
    (h' : .enter name trail' done' ∈ table.history) : trail = trail' := by
  have hpairs := List.pairwise_filterMap.mp (nodup_entered table [] table.keys .start)
  by_contra hne
  have : Std.Symm fun a b : Event => ∀ name ∈ a.entered?, ∀ other ∈ b.entered?, name ≠ other :=
    ⟨fun _ _ hab name hname other hother => (hab other hother name hname).symm⟩
  exact hpairs.forall h h' (fun heq => hne (by cases heq; rfl)) name rfl name rfl rfl

/-- A reference that leads back belongs to a fragment that was come to, and leads to it or to one
on its trail. -/
theorem exists_of_mem_closed {trail : List String} {target : String}
    (h : (trail, target) ∈ table.closed) :
    ∃ owner outer done, .enter owner outer done ∈ table.history ∧ trail = owner :: outer ∧
      target ∈ trail := by
  rcases (mem_closed_iff (onTable_nil table)).mp h with
    ⟨rfl, hmem, -⟩ | ⟨owner, outer, done, hevent, heq, hmem, -⟩
  · cases hmem
  · exact ⟨owner, outer, done, hevent, heq, hmem⟩

/-- Where names have no arrows, cycles that read the same are the same. -/
theorem cycleProblem_inj (h : ∀ name ∈ table.keys, '→' ∉ name.toList)
    {a b : List String × String} (ha : a ∈ table.closed) (hb : b ∈ table.closed)
    (heq : cycleProblem table a = cycleProblem table b) : a = b := by
  obtain ⟨trail, target⟩ := a
  obtain ⟨trail', target'⟩ := b
  obtain ⟨owner, outer, done, hevent, rfl, hmem⟩ := exists_of_mem_closed ha
  obtain ⟨owner', outer', done', hevent', rfl, hmem'⟩ := exists_of_mem_closed hb
  have plain {owner target : String} {outer done : List String}
      (hevent : .enter owner outer done ∈ table.history) (hmem : target ∈ owner :: outer) :
      ∀ name ∈ (loopTo (owner :: outer) target).reverse ++ [target], '→' ∉ name.toList := by
    intro name hname
    refine h name (Entries.has_iff.mp ((onTable_nil table).of_enter hevent name ?_))
    rcases List.mem_append.mp hname with hname | hname
    · exact loopTo_subset hmem (List.mem_reverse.mp hname)
    · rwa [List.mem_singleton.mp hname]
  have hmessage := congrArg Diagnostic.message heq
  have harrows := String.append_right_inj _ |>.mp hmessage
  have hnames := arrows_inj (List.append_ne_nil_of_right_ne_nil _ (List.cons_ne_nil _ _))
    (List.append_ne_nil_of_right_ne_nil _ (List.cons_ne_nil _ _)) (plain hevent hmem)
    (plain hevent' hmem') harrows
  obtain ⟨hloops, htargets⟩ := List.append_inj' hnames rfl
  obtain rfl := List.singleton_inj.mp htargets
  have hhead := congrArg List.head? (List.reverse_injective hloops)
  rw [head?_loopTo_cons, head?_loopTo_cons, Option.some_inj] at hhead
  subst hhead
  rw [trail_unique hevent hevent']

/-! ## What is left out -/

/-- What is in an order is resolved, as far as the table has it. -/
theorem has_resolve {names : List String} :
    (resolve table names).has name = true ↔ name ∈ names ∧ table.has name = true := by
  induction names using List.reverseRecOn with
  | nil => simp [resolve, Entries.has, Entries.get?]
  | append_singleton names last ih =>
    rw [List.mem_append, List.mem_singleton]
    cases hlast : table.get? last with
    | none =>
      have hsame : resolve table (names ++ [last]) = resolve table names := by
        simp only [resolve, List.foldl_append, List.foldl_cons, List.foldl_nil, hlast]
      have hnew : ¬(name = last ∧ table.has name = true) := by
        rintro ⟨rfl, hhas⟩
        rw [Entries.has, hlast] at hhas
        cases hhas
      rw [hsame, ih, or_and_right, or_iff_left hnew]
    | some definition =>
      rw [resolve_append_singleton hlast, Entries.has_iff, Entries.mem_keys_put_iff,
        ← Entries.has_iff, ih, or_and_right]
      refine or_congr_right (iff_self_and.mpr ?_)
      rintro rfl
      exact Table.has_iff_defines.mpr ⟨_, _, hlast⟩

/-- All fragments are come to. -/
theorem mem_entered_history : name ∈ Event.entered table.history ↔ name ∈ table.keys := by
  constructor
  · intro hname
    obtain ⟨trail, done, hevent⟩ := Event.mem_entered_iff.mp hname
    obtain ⟨definition, hfound⟩ := (of_enter_mem_history hevent).1
    exact Entries.mem_keys_of_get? hfound
  · intro hname
    obtain ⟨-, -, hcome⟩ := along_follow (.start table) (nofun : Leads table [] table.keys)
    have hdone := (hcome name hname (Entries.has_iff.mpr hname)).resolve_right List.not_mem_nil
    exact (mem_done_follow_iff.mp hdone).resolve_left List.not_mem_nil

/-- A fragment has no place in the order just if it lies on a cycle of fragments of which none had
been followed to the end when it was come to. -/
theorem mem_order_iff : name ∈ table.keys ∧ name ∉ (order table).order ↔
    ∃ trail done, .enter name trail done ∈ table.history ∧
      TransGen (RefersPast table done) name name := by
  have hleads : Leads table [] table.keys := nofun
  constructor
  · rintro ⟨hname, hout⟩
    obtain ⟨trail, done, hevent⟩ := Event.mem_entered_iff.mp (mem_entered_history.mpr hname)
    refine ⟨trail, done, hevent, ?_⟩
    by_contra hnot
    exact hout ((mem_order_iff_of_enter (.start table) hleads hevent).mpr hnot)
  · rintro ⟨trail, done, hevent, hcycle⟩
    refine ⟨mem_entered_history.mp (Event.mem_entered_iff.mpr ⟨_, _, hevent⟩), fun hmem => ?_⟩
    exact (mem_order_iff_of_enter (.start table) hleads hevent).mp hmem hcycle

theorem order_problems_eq (table : Table) :
    (order table).problems = table.closed.map (cycleProblem table) := problems_follow

/-- No fragment is come to twice. A fragment is missing from the order just if it lies on a cycle of
fragments of which none had been followed to the end when it was come to; all that is in the order
is resolved, and nothing else. No two of the cycles that are reported read the same just if no
fragment that was come to refers twice to itself or to one on its trail, and different cycles read
differently, as they do where names have no arrows. -/
theorem order_omits (table : Table) :
    (Event.entered table.history).Nodup ∧
    (∀ name, (name ∈ table.keys ∧ name ∉ (order table).order) ↔
      ∃ trail done, .enter name trail done ∈ table.history ∧
        TransGen (RefersPast table done) name name) ∧
    (∀ name, (resolve table (order table).order).has name = true ↔ name ∈ (order table).order) ∧
    ((order table).problems.Nodup ↔
      (∀ name trail done, .enter name trail done ∈ table.history →
        ∀ target ∈ name :: trail, (table.references name).count target ≤ 1) ∧
      ∀ a ∈ table.closed, ∀ b ∈ table.closed,
        cycleProblem table a = cycleProblem table b → a = b) ∧
    ((∀ name ∈ table.keys, '→' ∉ name.toList) → ∀ a ∈ table.closed, ∀ b ∈ table.closed,
      cycleProblem table a = cycleProblem table b → a = b) := by
  refine ⟨nodup_entered .., fun name => mem_order_iff, fun name => ?_, ?_,
    fun h a ha b hb => cycleProblem_inj h ha hb⟩
  · rw [has_resolve, and_iff_left_iff_imp]
    intro hname
    have halong := (along_follow (.start table) (nofun : Leads table [] table.keys)).1
    have hdone := mem_done_follow_iff.mp (halong.order_subset hname)
    exact Entries.has_iff.mpr (mem_entered_history.mp (hdone.resolve_left List.not_mem_nil))
  · have hcounts : table.closed.Nodup ↔
        ∀ name trail done, .enter name trail done ∈ table.history →
          ∀ target ∈ name :: trail, (table.references name).count target ≤ 1 :=
      (nodup_closed_iff (onTable_nil table)).trans (and_iff_right (List.forall_mem_nil _))
    rw [order_problems_eq, ← hcounts]
    constructor
    · intro h
      exact ⟨h.of_map _, fun a ha b hb => (List.nodup_map_iff_inj_on (h.of_map _)).mp h a ha b hb⟩
    · rintro ⟨hclosed, hinj⟩
      exact (List.nodup_map_iff_inj_on hclosed).mpr hinj

/-! ## An example -/

/-- Fragments on two cycles, of which the second is closed by a fragment that has been followed to
the end, and the first is referred back to twice. -/
def crossed : Rule.Document :=
  ⟨"1.2", .json, .json, [],
    [("a", .sequence [.fragment "b", .fragment "c"]),
      ("b", .sequence [.fragment "a", .fragment "a"]), ("c", .fragment "b")], .fragment "c"⟩

def crossedTable : Table :=
  [("a", ⟨.sequence [.fragment "b", .fragment "c"], Rule.fragmentPlace "" "a"⟩),
    ("b", ⟨.sequence [.fragment "a", .fragment "a"], Rule.fragmentPlace "" "b"⟩),
    ("c", ⟨.fragment "b", Rule.fragmentPlace "" "c"⟩)]

theorem order_crossedTable : order crossedTable =
    ((((Followed.start.close crossedTable ["b", "a"] "a").close crossedTable ["b", "a"] "a").finish
      "b").finish "c").finish "a" := by
  let twice := (Followed.start.close crossedTable ["b", "a"] "a").close crossedTable ["b", "a"] "a"
  have follow_nil {trail : List String} {f : Followed} : follow crossedTable trail [] f = f := by
    rw [follow]
  have hb : follow crossedTable ["b", "a"] ["a", "a"] .start = twice :=
    (follow_close rfl (by decide)).trans ((follow_close rfl (by decide)).trans follow_nil)
  have hc : follow crossedTable ["c", "a"] ["b"] (twice.finish "b") = twice.finish "b" :=
    (follow_done rfl (by decide) (by decide)).trans follow_nil
  have ha : follow crossedTable ["a"] ["b", "c"] .start = (twice.finish "b").finish "c" := by
    refine (follow_enter rfl (by decide) (by decide)).trans ?_
    refine (congrArg (fun f => follow crossedTable ["a"] ["c"] (f.finish "b")) hb).trans ?_
    refine (follow_enter rfl (by decide) (by decide)).trans ?_
    exact (congrArg (fun f => follow crossedTable ["a"] [] (f.finish "c")) hc).trans follow_nil
  refine (follow_enter rfl (by decide) (by decide)).trans ?_
  refine (congrArg (fun f => follow crossedTable [] ["b", "c"] (f.finish "a")) ha).trans ?_
  refine (follow_done rfl (by decide) (by decide)).trans ?_
  exact (follow_done rfl (by decide) (by decide)).trans follow_nil

/-- A member of a cycle is in the order and replaced in the bundle, and a cycle is reported
twice. -/
theorem order_omits_crossed :
    (collect .empty crossed).table = crossedTable ∧
      TransGen (Refers crossedTable.Defines) "c" "c" ∧ "c" ∈ (order crossedTable).order ∧
      (bundle .empty crossed).document.root = .fragment "b" ∧
      ¬(order crossedTable).problems.Nodup := by
  have htable : (collect .empty crossed).table = crossedTable := by cbv
  have hcb : Refers crossedTable.Defines "c" "b" := (refers_iff rfl).mpr (by decide)
  have hba : Refers crossedTable.Defines "b" "a" := (refers_iff rfl).mpr (by decide)
  have hac : Refers crossedTable.Defines "a" "c" := (refers_iff rfl).mpr (by decide)
  have horder : (order crossedTable).order = ["c"] := by
    rw [order_crossedTable]
    rfl
  refine ⟨htable, ((TransGen.single hcb).tail hba).tail hac, ?_, ?_, ?_⟩
  · rw [horder]
    exact List.mem_singleton_self _
  · rw [bundle, htable, horder]
    rfl
  · rw [order_crossedTable]
    exact List.not_nodup_pair _

end Remap.Fragment
