import Remap.Proofs.Entries
import Remap.Proofs.Fragment.Graph

/-!
# The order of fragments

References are followed depth first. Where this reports no cycle, the fragments come out in an order
in which each has all that it refers to before it (`Topological`), and so there is no cycle; where
there is no cycle, none is reported.
-/

namespace Remap.Fragment

open Relation

/-- Each name of a list comes after the names that its fragment refers to. -/
inductive Topological (table : Table) : List String → Prop where
  | nil : Topological table []
  | snoc {names : List String} {name : String} : Topological table names →
      (∀ other, Refers table.Defines name other → other ∈ names) → Topological table (names ++ [name])

theorem Topological.acc {table : Table} {names : List String} (h : Topological table names)
    {name : String} (hname : name ∈ names) : Acc (fun b a => Refers table.Defines a b) name := by
  induction h generalizing name with
  | nil => nomatch hname
  | snoc _ hbefore ih =>
    rcases List.mem_append.mp hname with hname | hname
    · exact ih hname
    · rw [List.mem_singleton.mp hname]
      exact .intro _ fun other hother => ih (hbefore other hother)

namespace Followed

/-- No cycle has been seen, and what has been followed to the end is in order. -/
structure Ordered (table : Table) (f : Followed) : Prop where
  cyclic_eq : f.cyclic = []
  done_eq : f.done = f.order
  topological : Topological table f.order

theorem Ordered.start (table : Table) : Followed.start.Ordered table := ⟨rfl, rfl, .nil⟩

theorem Ordered.finish {table : Table} {f : Followed} {name : String} (h : f.Ordered table)
    (hbefore : ∀ other, Refers table.Defines name other → other ∈ f.order) :
    (f.finish name).Ordered table := by
  have horder : (f.finish name).order = f.order ++ [name] := by
    simp [Followed.finish, h.cyclic_eq]
  refine ⟨h.cyclic_eq, ?_, ?_⟩
  · rw [horder, Followed.finish, h.done_eq]
  · rw [horder]
    exact .snoc h.topological hbefore

end Followed

/-! ## What following keeps -/

variable {table : Table}

theorem problems_isPrefix_follow (table : Table) (trail targets : List String) (f : Followed) :
    f.problems <+: (follow table trail targets f).problems := by
  fun_induction follow table trail targets f with
  | case1 => exact List.prefix_rfl
  | case2 _ _ _ _ _ ih => exact ih
  | case3 _ _ _ _ _ _ _ ih => exact (List.prefix_append ..).trans ih
  | case4 _ _ _ _ _ _ _ _ ih => exact ih
  | case5 _ _ _ _ _ _ _ _ _ ihinner ihrest => exact ihinner.trans ihrest

theorem mem_done_follow {trail targets : List String} {f : Followed} {name : String}
    (h : name ∈ f.done) : name ∈ (follow table trail targets f).done := by
  fun_induction follow table trail targets f with
  | case1 => exact h
  | case2 _ _ _ _ _ ih => exact ih h
  | case3 _ _ _ _ _ _ _ ih => exact ih h
  | case4 _ _ _ _ _ _ _ _ ih => exact ih h
  | case5 _ _ _ _ _ _ _ _ _ ihinner ihrest =>
    exact ihrest (List.mem_append_left _ (ihinner h))

/-- Every problem that following reports is an error. -/
theorem isError_of_mem_problems_follow {trail targets : List String} {f : Followed}
    (hf : ∀ d ∈ f.problems, d.isError) :
    ∀ d ∈ (follow table trail targets f).problems, d.isError := by
  fun_induction follow table trail targets f with
  | case1 => exact hf
  | case2 _ _ _ _ _ ih => exact ih hf
  | case3 _ _ _ _ _ _ _ ih =>
    refine ih fun d hd => ?_
    rcases List.mem_append.mp hd with hd | hd
    · exact hf d hd
    · rw [List.mem_singleton.mp hd]
      rfl
  | case4 _ _ _ _ _ _ _ _ ih => exact ih hf
  | case5 _ _ _ _ _ _ _ _ _ ihinner ihrest => exact ihrest (ihinner hf)

/-! ## Without problems -/

/-- Where no problem is reported, targets are followed to the end and put in order. -/
theorem ordered_follow {trail targets : List String} {f : Followed}
    (hproblems : (follow table trail targets f).problems = []) (hf : f.Ordered table) :
    (follow table trail targets f).Ordered table ∧
      ∀ name ∈ targets, table.has name → name ∈ (follow table trail targets f).order := by
  fun_induction follow table trail targets f with
  | case1 =>
    refine ⟨hf, fun name h => ?_⟩
    cases h
  | case2 trail f target rest hfound ih =>
    obtain ⟨hordered, hrest⟩ := ih hproblems hf
    refine ⟨hordered, fun name hname hhas => ?_⟩
    rcases List.mem_cons.mp hname with rfl | hname
    · rw [Entries.has, hfound] at hhas
      cases hhas
    · exact hrest name hname hhas
  | case3 trail f target rest definition hfound htrail ih =>
    have hclose := problems_isPrefix_follow table trail rest (f.close table trail target)
    rw [hproblems] at hclose
    exact absurd (List.prefix_nil.mp hclose)
      (List.append_ne_nil_of_right_ne_nil _ (List.cons_ne_nil _ _))
  | case4 trail f target rest definition hfound hnew hdone ih =>
    obtain ⟨hordered, hrest⟩ := ih hproblems hf
    refine ⟨hordered, fun name hname hhas => ?_⟩
    rcases List.mem_cons.mp hname with rfl | hname
    · rw [← hordered.done_eq]
      exact mem_done_follow (by simpa using hdone)
    · exact hrest name hname hhas
  | case5 trail f target rest definition hfound hnew hdone inner ihinner ihrest =>
    have hprefix := problems_isPrefix_follow table trail rest (inner.finish target)
    rw [hproblems] at hprefix
    obtain ⟨hinner, hbelow⟩ := ihinner (List.prefix_nil.mp hprefix) hf
    -- What the target refers to is in the order by now, so the target may end it.
    have hfinish : (inner.finish target).Ordered table := by
      refine hinner.finish fun other hrefers => ?_
      obtain ⟨node, ⟨origin, howner⟩, hother, hdefined⟩ := hrefers
      rw [hfound] at howner
      cases howner
      exact hbelow other hother (Table.has_iff_defines.mpr hdefined)
    obtain ⟨hordered, hrest⟩ := ihrest hproblems hfinish
    refine ⟨hordered, fun name hname hhas => ?_⟩
    rcases List.mem_cons.mp hname with rfl | hname
    · rw [← hordered.done_eq]
      exact mem_done_follow (List.mem_append_right _ (List.mem_singleton_self _))
    · exact hrest name hname hhas

/-! ## Without cycles -/

/-- Where fragments refer to each other in no cycle, none is reported. Every fragment of the trail
leads to every target. -/
theorem problems_follow_of_acyclic (hacyclic : ∀ name, ¬ TransGen (Refers table.Defines) name name)
    {trail targets : List String} {f : Followed}
    (htrail : ∀ name ∈ trail, ∀ target ∈ targets, table.has target →
      TransGen (Refers table.Defines) name target) :
    (follow table trail targets f).problems = f.problems := by
  fun_induction follow table trail targets f with
  | case1 => rfl
  | case2 trail f target rest hfound ih =>
    exact ih fun name hname other hother => htrail name hname other (List.mem_cons_of_mem _ hother)
  | case3 trail f target rest definition hfound hmem ih =>
    have hhas : table.has target := Table.has_iff_defines.mpr ⟨_, _, hfound⟩
    have hcycle := htrail target (by simpa using hmem) target List.mem_cons_self hhas
    exact absurd hcycle (hacyclic target)
  | case4 trail f target rest definition hfound hnew hdone ih =>
    exact ih fun name hname other hother => htrail name hname other (List.mem_cons_of_mem _ hother)
  | case5 trail f target rest definition hfound hnew hdone inner ihinner ihrest =>
    have hhas : table.has target := Table.has_iff_defines.mpr ⟨_, _, hfound⟩
    have hbelow : inner.problems = f.problems := by
      refine ihinner fun name hname other hother hknown => ?_
      have hstep : Refers table.Defines target other :=
        ⟨_, ⟨_, hfound⟩, hother, Table.has_iff_defines.mp hknown⟩
      rcases List.mem_cons.mp hname with rfl | hname
      · exact .single hstep
      · exact (htrail name hname target List.mem_cons_self hhas).tail hstep
    rw [← hbelow]
    exact ihrest fun name hname other hother =>
      htrail name hname other (List.mem_cons_of_mem _ hother)

/-! ## The order of a table -/

theorem order_ordered (h : (order table).problems = []) :
    (order table).Ordered table ∧ ∀ name, table.has name → name ∈ (order table).order := by
  obtain ⟨hordered, hall⟩ := ordered_follow h (.start table)
  exact ⟨hordered, fun name hhas => hall name (Entries.has_iff.mp hhas) hhas⟩

/-- The fragments of a table are put in order without a problem just if they refer to each other in
no cycle. -/
theorem order_problems_eq_nil_iff :
    (order table).problems = [] ↔ ∀ name, ¬ TransGen (Refers table.Defines) name name := by
  constructor
  · intro h name hself
    obtain ⟨hordered, hall⟩ := order_ordered h
    obtain ⟨other, ⟨node, hdefined, -⟩, -⟩ := TransGen.head'_iff.mp hself
    have hhas : table.has name := Table.has_iff_defines.mpr ⟨node, hdefined⟩
    exact not_transGen_self_of_acc (hordered.topological.acc (hall name hhas)) hself
  · exact fun hacyclic => problems_follow_of_acyclic hacyclic fun name hname => nomatch hname

end Remap.Fragment
