import Mathlib.Data.List.Chain
import Remap.Proofs.Fragment.Following

/-!
# The cycles that are seen

While references are followed depth first, a fragment is taken for a member of a cycle when a
reference leads back to it, or past it to a fragment further out. The main statement is that this
comes to pass just if the fragment lies on a cycle of which no member had been followed to the end
when the fragment was come to (`mem_cyclic_iff`).
-/

namespace Remap.Fragment

open Relation

variable {table : Table} {trail targets : List String} {f : Followed} {name target other : String}

theorem refers_iff {definition : Definition} (h : table.get? name = some definition) :
    Refers table.Defines name other ↔
      other ∈ definition.node.references ∧ table.has other = true := by
  constructor
  · rintro ⟨node, ⟨origin, hnode⟩, hother, hdefined⟩
    rw [h] at hnode
    cases hnode
    exact ⟨hother, Table.has_iff_defines.mpr hdefined⟩
  · rintro ⟨hother, hhas⟩
    exact ⟨_, ⟨_, h⟩, hother, Table.has_iff_defines.mp hhas⟩

/-- One fragment refers to another that is not among some others. -/
def RefersPast (table : Table) (done : List String) (owner name : String) : Prop :=
  Refers table.Defines owner name ∧ name ∉ done

/-! ## Trails -/

/-- The part of a trail from its inner end to a fragment on it. -/
def loopTo (trail : List String) (target : String) : List String :=
  trail.takeWhile (· != target) ++ [target]

theorem loopTo_subset (h : target ∈ trail) : loopTo trail target ⊆ trail := by
  intro name hname
  rcases List.mem_append.mp hname with hname | hname
  · exact (List.takeWhile_prefix _).subset hname
  · rwa [List.mem_singleton.mp hname]

theorem head?_loopTo_cons : (loopTo (name :: trail) target).head? = some name := by
  by_cases h : name = target
  · rw [loopTo, List.takeWhile_cons_of_neg (by simpa using h), List.nil_append, h]
    rfl
  · rw [loopTo, List.takeWhile_cons_of_pos (by simpa using h)]
    rfl

theorem mem_loopTo_cons : name ∈ loopTo (name :: trail) target :=
  List.mem_of_mem_head? head?_loopTo_cons

theorem loopTo_subset_cons (h : other ≠ target) :
    loopTo trail target ⊆ loopTo (other :: trail) target := by
  rw [loopTo, loopTo, List.takeWhile_cons_of_pos (by simpa using h)]
  exact List.subset_cons_self _ _

theorem mem_cyclic_close : name ∈ (f.close table trail target).cyclic ↔
    name ∈ f.cyclic ∨ name ∈ loopTo trail target := by
  simp [Followed.close, loopTo, or_comm]

/-- Each fragment on a trail leads to those further in. -/
theorem pairwise_trail {r : String → String → Prop} (h : trail.IsChain fun a b => r b a) :
    trail.Pairwise fun a b => TransGen r b a := by
  have htrans : trail.IsChain fun a b => TransGen r b a := h.imp fun _ _ hab => .single hab
  have : Trans (fun a b => TransGen r b a) (fun a b => TransGen r b a)
      (fun a b => TransGen r b a) := ⟨fun hab hbc => hbc.trans hab⟩
  exact List.isChain_iff_pairwise.mp htrans

/-- Where the inner end of a trail refers back to a fragment on it, all fragments from there on lie
on a cycle. -/
theorem transGen_of_mem_loopTo {r : String → String → Prop}
    (htrail : trail.IsChain fun a b => r b a) (hback : ∀ top ∈ trail.head?, r top target)
    (hmem : target ∈ trail) (h : name ∈ loopTo trail target) : TransGen r name name := by
  have hpairs := pairwise_trail htrail
  have hto : TransGen r name target := by
    have hname := loopTo_subset hmem h
    cases trail with
    | nil => cases hname
    | cons top rest =>
      have hback := hback top rfl
      rcases List.mem_cons.mp hname with rfl | hname
      · exact .single hback
      · exact ((List.pairwise_cons.mp hpairs).1 name hname).tail hback
  rcases List.mem_append.mp h with hfront | heq
  · obtain ⟨back, hback⟩ := List.takeWhile_prefix (l := trail) (· != target)
    have htarget : target ∈ back := by
      rw [← hback] at hmem
      refine (List.mem_append.mp hmem).resolve_left fun hin => ?_
      simpa using List.mem_takeWhile_imp hin
    rw [← hback] at hpairs
    exact hto.trans ((List.pairwise_append.mp hpairs).2.2 name hfront target htarget)
  · rwa [← List.mem_singleton.mp heq] at hto

namespace Followed

/-- What holds of the fragments that have been followed along a trail. Each fragment on the trail
refers to the one further in. -/
structure Along (table : Table) (trail : List String) (f : Followed) : Prop where
  chain : trail.IsChain fun a b => Refers table.Defines b a
  apart : ∀ name ∈ trail, name ∉ f.done
  /-- What has been followed to the end refers to nothing that has not been come to. -/
  closed : ∀ owner ∈ f.done, ∀ name, Refers table.Defines owner name →
    name ∈ f.done ∨ name ∈ trail
  met : ∀ name ∈ f.cyclic, name ∈ f.done ∨ name ∈ trail
  order_subset : f.order ⊆ f.done

/-- What following leaves of what there was. -/
structure Since (f f' : Followed) : Prop where
  done_subset : f.done ⊆ f'.done
  cyclic_subset : f.cyclic ⊆ f'.cyclic
  /-- Whether a fragment is in the order is settled once it has been followed to the end. -/
  mem_order_iff : ∀ name ∈ f.done, name ∈ f'.order ↔ name ∈ f.order

theorem Since.refl (f : Followed) : f.Since f :=
  ⟨List.Subset.refl _, List.Subset.refl _, fun _ _ => .rfl⟩

theorem Since.trans {f f' f'' : Followed} (h : f.Since f') (h' : f'.Since f'') : f.Since f'' :=
  ⟨List.Subset.trans h.done_subset h'.done_subset,
    List.Subset.trans h.cyclic_subset h'.cyclic_subset, fun name hname =>
      (h'.mem_order_iff name (h.done_subset hname)).trans (h.mem_order_iff name hname)⟩

theorem since_close (f : Followed) (table : Table) (trail : List String) (target : String) :
    f.Since (f.close table trail target) :=
  ⟨List.Subset.refl _, List.subset_append_left .., fun _ _ => .rfl⟩

theorem mem_order_finish : other ∈ (f.finish name).order ↔
    other ∈ f.order ∨ other = name ∧ name ∉ f.cyclic := by
  rw [Followed.finish]
  by_cases h : name ∈ f.cyclic <;> simp [h]

theorem mem_done_finish : other ∈ (f.finish name).done ↔ other ∈ f.done ∨ other = name := by
  simp [Followed.finish]

theorem since_finish (hnew : name ∉ f.done) : f.Since (f.finish name) := by
  refine ⟨List.subset_append_left .., List.Subset.refl _, fun other hother => ?_⟩
  rw [mem_order_finish]
  refine or_iff_left ?_
  rintro ⟨rfl, -⟩
  exact hnew hother

namespace Along

theorem start (table : Table) : Followed.start.Along table [] :=
  ⟨.nil, nofun, nofun, nofun, List.nil_subset _⟩

theorem close (h : f.Along table trail) (hmem : target ∈ trail) :
    (f.close table trail target).Along table trail := by
  refine ⟨h.chain, h.apart, h.closed, fun name hname => ?_, h.order_subset⟩
  rcases mem_cyclic_close.mp hname with hname | hname
  · exact h.met name hname
  · exact .inr (loopTo_subset hmem hname)

theorem enter (h : f.Along table trail) (hnew : target ∉ f.done)
    (hrefers : ∀ top ∈ trail.head?, Refers table.Defines top target) :
    f.Along table (target :: trail) := by
  refine ⟨List.isChain_cons.mpr ⟨hrefers, h.chain⟩, ?_, fun owner howner name hname => ?_,
    fun name hname => ?_, h.order_subset⟩
  · exact List.forall_mem_cons.mpr ⟨hnew, h.apart⟩
  · exact (h.closed owner howner name hname).imp_right (List.mem_cons_of_mem _)
  · exact (h.met name hname).imp_right (List.mem_cons_of_mem _)

/-- A fragment is followed to the end as soon as all that it refers to has been come to. -/
theorem finish (h : f.Along table (target :: trail)) (hnew : target ∉ trail)
    (hbelow : ∀ name, Refers table.Defines target name → name ∈ f.done ∨ name ∈ target :: trail) :
    (f.finish target).Along table trail := by
  have settle {name : String} (hname : name ∈ f.done ∨ name ∈ target :: trail) :
      name ∈ (f.finish target).done ∨ name ∈ trail := by
    rw [mem_done_finish, or_assoc]
    exact hname.imp_right List.mem_cons.mp
  refine ⟨h.chain.tail, fun name hname hdone => ?_, fun owner howner name hname => ?_,
    fun name hname => settle (h.met name hname), fun name hname => ?_⟩
  · rcases mem_done_finish.mp hdone with hdone | rfl
    · exact h.apart name (List.mem_cons_of_mem _ hname) hdone
    · exact hnew hname
  · rcases mem_done_finish.mp howner with howner | rfl
    · exact settle (h.closed owner howner name hname)
    · exact settle (hbelow name hname)
  · rw [mem_done_finish]
    exact (mem_order_finish.mp hname).imp (fun hname => h.order_subset hname) And.left

end Along

end Followed

/-- The fragment at the inner end of a trail refers to all targets that there are. -/
def Leads (table : Table) (trail targets : List String) : Prop :=
  ∀ top ∈ trail.head?, ∀ target ∈ targets, table.has target → Refers table.Defines top target

theorem Leads.tail (h : Leads table trail (target :: targets)) : Leads table trail targets :=
  fun top htop name hname => h top htop name (List.mem_cons_of_mem _ hname)

theorem leads_references {definition : Definition} (h : table.get? target = some definition) :
    Leads table (target :: trail) definition.node.references := by
  rintro top htop name hname hhas
  cases htop
  exact (refers_iff h).mpr ⟨hname, hhas⟩

/-- Following comes to all targets. -/
theorem along_follow (h : f.Along table trail) (hleads : Leads table trail targets) :
    (follow table trail targets f).Along table trail ∧ f.Since (follow table trail targets f) ∧
      ∀ target ∈ targets, table.has target →
        target ∈ (follow table trail targets f).done ∨ target ∈ trail := by
  fun_induction follow table trail targets f with
  | case1 => exact ⟨h, .refl _, List.forall_mem_nil _⟩
  | case2 trail f target rest hfound ih =>
    obtain ⟨halong, hsince, hrest⟩ := ih h hleads.tail
    refine ⟨halong, hsince, List.forall_mem_cons.mpr ⟨fun hhas => ?_, hrest⟩⟩
    rw [Entries.has, hfound] at hhas
    cases hhas
  | case3 trail f target rest definition hfound htrail ih =>
    have hmem : target ∈ trail := by simpa using htrail
    obtain ⟨halong, hsince, hrest⟩ := ih (h.close hmem) hleads.tail
    exact ⟨halong, (f.since_close ..).trans hsince,
      List.forall_mem_cons.mpr ⟨fun _ => .inr hmem, hrest⟩⟩
  | case4 trail f target rest definition hfound hnew hdone ih =>
    obtain ⟨halong, hsince, hrest⟩ := ih h hleads.tail
    refine ⟨halong, hsince, List.forall_mem_cons.mpr ⟨fun _ => .inl ?_, hrest⟩⟩
    exact hsince.done_subset (by simpa using hdone)
  | case5 trail f target rest definition hfound hnew hdone inner ihinner ihrest =>
    have hhas : table.has target := Table.has_iff_defines.mpr ⟨_, _, hfound⟩
    have henter : f.Along table (target :: trail) := h.enter (by simpa using hdone)
      fun top htop => hleads top htop target List.mem_cons_self hhas
    obtain ⟨hinner, hsinner, hbelow⟩ := ihinner henter (leads_references hfound)
    have hfinish : (inner.finish target).Along table trail := by
      refine hinner.finish (by simpa using hnew) fun name hname => ?_
      obtain ⟨hmem, hhas⟩ := (refers_iff hfound).mp hname
      exact hbelow name hmem hhas
    obtain ⟨halong, hsince, hrest⟩ := ihrest hfinish hleads.tail
    have hfinished := Followed.since_finish (hinner.apart target List.mem_cons_self)
    refine ⟨halong, hsinner.trans (hfinished.trans hsince), ?_⟩
    refine List.forall_mem_cons.mpr ⟨fun _ => .inl ?_, hrest⟩
    exact hsince.done_subset (Followed.mem_done_finish.mpr (.inr rfl))

/-- What holds once a fragment is come to that is new, while what it refers to is followed, and once
it has been followed to the end. -/
theorem Followed.Along.step {definition : Definition} (h : f.Along table trail)
    (hleads : Leads table trail (target :: targets)) (hfound : table.get? target = some definition)
    (hnew : target ∉ trail) (hdone : target ∉ f.done) :
    let inner := follow table (target :: trail) definition.node.references f
    f.Along table (target :: trail) ∧ inner.Along table (target :: trail) ∧
      f.Since (inner.finish target) ∧ (inner.finish target).Along table trail ∧
      ∀ name, Refers table.Defines target name → name ∈ inner.done ∨ name ∈ target :: trail := by
  intro inner
  have hhas : table.has target := Table.has_iff_defines.mpr ⟨_, _, hfound⟩
  have henter := h.enter hdone fun top htop => hleads top htop target List.mem_cons_self hhas
  obtain ⟨hinner, hsince, hbelow⟩ := along_follow henter (leads_references hfound)
  have hcome : ∀ name, Refers table.Defines target name →
      name ∈ inner.done ∨ name ∈ target :: trail := by
    intro name hname
    obtain ⟨hmem, hhas⟩ := (refers_iff hfound).mp hname
    exact hbelow name hmem hhas
  exact ⟨henter, hinner, hsince.trans (since_finish (hinner.apart target List.mem_cons_self)),
    hinner.finish hnew hcome, hcome⟩

/-! ## Cycles -/

/-- A fragment that following takes for a member of a cycle lies on one, of which no member had been
followed to the end before. -/
theorem transGen_of_mem_cyclic (h : f.Along table trail) (hleads : Leads table trail targets)
    (hname : name ∈ (follow table trail targets f).cyclic) :
    name ∈ f.cyclic ∨ TransGen (RefersPast table f.done) name name := by
  fun_induction follow table trail targets f with
  | case1 => exact .inl hname
  | case2 trail f target rest hfound ih => exact ih h hleads.tail hname
  | case3 trail f target rest definition hfound htrail ih =>
    have hmem : target ∈ trail := by simpa using htrail
    have hhas : table.has target := Table.has_iff_defines.mpr ⟨_, _, hfound⟩
    rcases ih (h.close hmem) hleads.tail hname with hname | hname
    · refine (mem_cyclic_close.mp hname).imp_right fun hname => ?_
      refine transGen_of_mem_loopTo ?_ (fun top htop => ?_) hmem hname
      · exact h.chain.imp_of_mem_imp fun _ _ ha _ hab => ⟨hab, h.apart _ ha⟩
      · exact ⟨hleads top htop target List.mem_cons_self hhas, h.apart target hmem⟩
    · exact .inr hname
  | case4 trail f target rest definition hfound hnew hdone ih => exact ih h hleads.tail hname
  | case5 trail f target rest definition hfound hnew hdone inner ihinner ihrest =>
    obtain ⟨henter, -, hsince, hfinish, -⟩ :=
      h.step hleads hfound (by simpa using hnew) (by simpa using hdone)
    rcases ihrest hfinish hleads.tail hname with hname | hname
    · exact ihinner henter (leads_references hfound) hname
    · have hpast {a b : String} (hab : RefersPast table (inner.finish target).done a b) :
          RefersPast table f.done a b := ⟨hab.1, fun hmem => hab.2 (hsince.done_subset hmem)⟩
      exact .inr (TransGen.mono (fun _ _ => hpast) _ _ hname)

/-- Following takes for members of a cycle all fragments of a trail from one on that is referred to,
be it as a target or by a fragment that is come to on the way. -/
theorem loopTo_subset_cyclic (h : f.Along table trail) (hleads : Leads table trail targets) :
    (∀ target ∈ targets, table.has target → target ∈ trail →
      loopTo trail target ⊆ (follow table trail targets f).cyclic) ∧
    ∀ owner ∈ (follow table trail targets f).done, owner ∉ f.done → ∀ target ∈ trail,
      Refers table.Defines owner target →
        loopTo trail target ⊆ (follow table trail targets f).cyclic := by
  fun_induction follow table trail targets f with
  | case1 => exact ⟨List.forall_mem_nil _, fun owner howner hnew => absurd howner hnew⟩
  | case2 trail f target rest hfound ih =>
    obtain ⟨htargets, howners⟩ := ih h hleads.tail
    refine ⟨List.forall_mem_cons.mpr ⟨fun hhas => ?_, htargets⟩, howners⟩
    rw [Entries.has, hfound] at hhas
    cases hhas
  | case3 trail f target rest definition hfound htrail ih =>
    have hclose := h.close (by simpa using htrail : target ∈ trail)
    obtain ⟨htargets, howners⟩ := ih hclose hleads.tail
    refine ⟨List.forall_mem_cons.mpr ⟨fun _ _ => ?_, htargets⟩, howners⟩
    obtain ⟨-, hsince, -⟩ := along_follow hclose hleads.tail
    exact fun name hname => hsince.cyclic_subset (mem_cyclic_close.mpr (.inr hname))
  | case4 trail f target rest definition hfound hnew hdone ih =>
    obtain ⟨htargets, howners⟩ := ih h hleads.tail
    exact ⟨List.forall_mem_cons.mpr ⟨fun _ hmem => absurd hmem (by simpa using hnew), htargets⟩,
      howners⟩
  | case5 trail f target rest definition hfound hnew hdone inner ihinner ihrest =>
    have hnew : target ∉ trail := by simpa using hnew
    obtain ⟨henter, -, -, hfinish, -⟩ := h.step hleads hfound hnew (by simpa using hdone)
    obtain ⟨htargets, howners⟩ := ihrest hfinish hleads.tail
    refine ⟨List.forall_mem_cons.mpr ⟨fun _ hmem => absurd hmem hnew, htargets⟩, ?_⟩
    intro owner howner howner' back hback hrefers
    by_cases hbefore : owner ∈ (inner.finish target).done
    · obtain ⟨hbelow, hbelow'⟩ := ihinner henter (leads_references hfound)
      obtain ⟨-, hsince, -⟩ := along_follow hfinish hleads.tail
      have hne : target ≠ back := fun heq => hnew (heq ▸ hback)
      have hloop : loopTo (target :: trail) back ⊆ inner.cyclic := by
        rcases Followed.mem_done_finish.mp hbefore with hbefore | rfl
        · exact hbelow' owner hbefore howner' back (List.mem_cons_of_mem _ hback) hrefers
        · obtain ⟨hmem, hhas⟩ := (refers_iff hfound).mp hrefers
          exact hbelow back hmem hhas (List.mem_cons_of_mem _ hback)
      exact fun name hname => hsince.cyclic_subset (hloop (loopTo_subset_cons hne hname))
    · exact howners owner howner hbefore back hback hrefers

/-- A fragment is taken for a member of a cycle just if it lies on a cycle of which no member had
been followed to the end when it was come to. -/
theorem mem_cyclic_iff {definition : Definition} (h : f.Along table (name :: trail))
    (hname : name ∉ f.cyclic) (hfound : table.get? name = some definition) :
    name ∈ (follow table (name :: trail) definition.node.references f).cyclic ↔
      TransGen (RefersPast table f.done) name name := by
  have hleads : Leads table (name :: trail) definition.node.references := leads_references hfound
  refine ⟨fun hmem => (transGen_of_mem_cyclic h hleads hmem).resolve_left hname, fun hcycle => ?_⟩
  obtain ⟨hinner, -, hcome⟩ := along_follow h hleads
  obtain ⟨htargets, howners⟩ := loopTo_subset_cyclic h hleads
  by_contra hnot
  -- As long as a path does not lead back to the trail, all on it is followed to the end.
  have hpath {other : String} (hother : TransGen (RefersPast table f.done) name other) :
      other ∈ (follow table (name :: trail) definition.node.references f).done ∧
        other ∉ f.done := by
    induction hother with
    | single hstep =>
      obtain ⟨hrefers, hpast⟩ := hstep
      obtain ⟨hmem, hhas⟩ := (refers_iff hfound).mp hrefers
      refine ⟨(hcome _ hmem hhas).resolve_right fun hback => hnot ?_, hpast⟩
      exact htargets _ hmem hhas hback mem_loopTo_cons
    | tail _ hstep ih =>
      obtain ⟨hrefers, hpast⟩ := hstep
      refine ⟨(hinner.closed _ ih.1 _ hrefers).resolve_right fun hback => hnot ?_, hpast⟩
      exact howners _ ih.1 ih.2 _ hback hrefers mem_loopTo_cons
  exact hinner.apart name List.mem_cons_self (hpath hcycle).1

end Remap.Fragment
