import Mathlib.Data.List.Nodup
import Remap.Proofs.Fragment.Cycles

/-!
# The history of following

What happens while references are followed, in order: fragments are come to, and references lead
back to fragments that are being followed. The main statements are that no fragment is come to twice
(`nodup_entered`), that the history tells of each fragment whether it gets a place in the order
(`mem_order_iff_of_enter`), and that references lead back alike only from fragments that refer to
the same fragment twice (`nodup_closed_iff`).
-/

namespace Remap.Fragment

open Relation

variable {table : Table} {trail targets : List String} {f : Followed} {name target other : String}

/-! ## Steps -/

section Steps

variable {rest : List String} {definition : Definition}

theorem follow_unknown (h : table.get? target = none) :
    follow table trail (target :: rest) f = follow table trail rest f := by
  rw [follow]
  split
  · rfl
  · next hfound => cases h.symm.trans hfound

theorem follow_close (h : table.get? target = some definition) (hmem : target ∈ trail) :
    follow table trail (target :: rest) f =
      follow table trail rest (f.close table trail target) := by
  rw [follow]
  split
  · next hfound => cases h.symm.trans hfound
  · rw [dif_pos (by simpa using hmem)]

theorem follow_done (h : table.get? target = some definition) (hnew : target ∉ trail)
    (hdone : target ∈ f.done) :
    follow table trail (target :: rest) f = follow table trail rest f := by
  rw [follow]
  split
  · next hfound => cases h.symm.trans hfound
  · rw [dif_neg (by simpa using hnew), if_pos (by simpa using hdone)]

theorem follow_enter (h : table.get? target = some definition) (hnew : target ∉ trail)
    (hdone : target ∉ f.done) :
    follow table trail (target :: rest) f = follow table trail rest
      ((follow table (target :: trail) definition.node.references f).finish target) := by
  rw [follow]
  split
  · next hfound => cases h.symm.trans hfound
  · next found hfound =>
    cases h.symm.trans hfound
    rw [dif_neg (by simpa using hnew), if_neg (by simpa using hdone)]

end Steps

/-! ## Events -/

/-- What happens while references are followed. -/
inductive Event where
  /-- A fragment is come to for the first time, at the end of a trail of fragments that are being
  followed, innermost first, and after others that have been followed to the end. -/
  | enter (name : String) (trail done : List String)
  /-- A reference of the fragment at the inner end of a trail leads back to one on it. -/
  | close (trail : List String) (target : String)

namespace Event

def entered? : Event → Option String
  | enter name _ _ => some name
  | close .. => none

def closed? : Event → Option (List String × String)
  | enter .. => none
  | close trail target => some (trail, target)

/-- The fragments that are come to, in order. -/
def entered (events : List Event) : List String := events.filterMap entered?

/-- The references that lead back, each as a trail and a fragment on it, in order. -/
def closed (events : List Event) : List (List String × String) := events.filterMap closed?

variable {events events' : List Event} {done : List String}

theorem entered_enter : entered (.enter name trail done :: events) = name :: entered events := rfl

theorem entered_close : entered (.close trail target :: events) = entered events := rfl

theorem entered_append : entered (events ++ events') = entered events ++ entered events' :=
  List.filterMap_append

theorem closed_enter : closed (.enter name trail done :: events) = closed events := rfl

theorem closed_close :
    closed (.close trail target :: events) = (trail, target) :: closed events := rfl

theorem closed_append : closed (events ++ events') = closed events ++ closed events' :=
  List.filterMap_append

theorem mem_entered_iff :
    name ∈ entered events ↔ ∃ around done, .enter name around done ∈ events := by
  rw [entered, List.mem_filterMap]
  constructor
  · rintro ⟨event, hevent, hname⟩
    cases event with
    | enter other around done => cases hname; exact ⟨around, done, hevent⟩
    | close => cases hname
  · rintro ⟨around, done, hevent⟩
    exact ⟨_, hevent, rfl⟩

end Event

/-- What happens while targets are followed, in order. -/
def history (table : Table) (trail targets : List String) (f : Followed) : List Event :=
  match targets with
  | [] => []
  | target :: rest =>
    match _hfound : table.get? target with
    | none => history table trail rest f
    | some definition =>
      if _hnew : trail.contains target then
        .close trail target :: history table trail rest (f.close table trail target)
      else if f.done.contains target then history table trail rest f
      else
        let inner := follow table (target :: trail) definition.node.references f
        .enter target trail f.done ::
          (history table (target :: trail) definition.node.references f ++
            history table trail rest (inner.finish target))
termination_by (offTrail table trail, targets.length)
decreasing_by
  · exact .right _ (by simp)
  · exact .right _ (by simp)
  · exact .right _ (by simp)
  · exact .left _ _ (offTrail_lt (Entries.mem_keys_of_get? _hfound) (by simpa using _hnew))
  · exact .right _ (by simp)

/-- What is reported where a reference leads back to a fragment on a trail. -/
def cycleProblem (table : Table) (closed : List String × String) : Diagnostic :=
  (Problem.cycle ((loopTo closed.1 closed.2).reverse ++ [closed.2])).diagnostic
    (((table.get? closed.2).map (·.origin.text)).getD "")

/-- What is reported is what comes of the references that lead back. -/
theorem problems_follow : (follow table trail targets f).problems =
    f.problems ++ (Event.closed (history table trail targets f)).map (cycleProblem table) := by
  fun_induction history table trail targets f with
  | case1 => simp [follow, Event.closed]
  | case2 trail f target rest hfound ih => rw [follow_unknown hfound, ih]
  | case3 trail f target rest definition hfound htrail ih =>
    rw [follow_close hfound (by simpa using htrail), ih]
    simp [Event.closed_close, Followed.close, cycleProblem, loopTo]
  | case4 trail f target rest definition hfound hnew hdone ih =>
    rw [follow_done hfound (by simpa using hnew) (by simpa using hdone), ih]
  | case5 trail f target rest definition hfound hnew hdone inner ihinner ihrest =>
    rw [follow_enter hfound (by simpa using hnew) (by simpa using hdone), ihrest]
    have hproblems : (inner.finish target).problems = inner.problems := rfl
    rw [hproblems, ihinner, Event.closed_enter, Event.closed_append, List.map_append,
      List.append_assoc]

/-- A fragment is come to on a trail that goes on from the one that there was. -/
theorem of_enter_mem_history {around done : List String}
    (h : .enter name around done ∈ history table trail targets f) :
    (∃ definition, table.get? name = some definition) ∧ name ∉ trail ∧ trail <:+ around ∧
      name ∉ f.done := by
  fun_induction history table trail targets f with
  | case1 => cases h
  | case2 trail f target rest hfound ih => exact ih h
  | case3 trail f target rest definition hfound htrail ih =>
    exact ih ((List.mem_cons.mp h).resolve_left nofun)
  | case4 trail f target rest definition hfound hnew hdone ih => exact ih h
  | case5 trail f target rest definition hfound hnew hdone inner ihinner ihrest =>
    rcases List.mem_cons.mp h with heq | h
    · cases heq
      exact ⟨⟨_, hfound⟩, by simpa using hnew, List.suffix_rfl, by simpa using hdone⟩
    · rcases List.mem_append.mp h with h | h
      · obtain ⟨hdefined, hout, hsuffix, hbefore⟩ := ihinner h
        exact ⟨hdefined, fun hmem => hout (List.mem_cons_of_mem _ hmem),
          (List.suffix_cons ..).trans hsuffix, hbefore⟩
      · obtain ⟨hdefined, hout, hsuffix, hbefore⟩ := ihrest h
        refine ⟨hdefined, hout, hsuffix, fun hmem => hbefore ?_⟩
        exact List.mem_append_left _ (mem_done_follow hmem)

/-- What has been followed to the end by now was so before, or has been come to in between. -/
theorem mem_done_follow_iff : name ∈ (follow table trail targets f).done ↔
    name ∈ f.done ∨ name ∈ Event.entered (history table trail targets f) := by
  fun_induction history table trail targets f with
  | case1 => simp [follow, Event.entered]
  | case2 trail f target rest hfound ih => rw [follow_unknown hfound, ih]
  | case3 trail f target rest definition hfound htrail ih =>
    rw [follow_close hfound (by simpa using htrail), ih, Event.entered_close]
    rfl
  | case4 trail f target rest definition hfound hnew hdone ih =>
    rw [follow_done hfound (by simpa using hnew) (by simpa using hdone), ih]
  | case5 trail f target rest definition hfound hnew hdone inner ihinner ihrest =>
    rw [follow_enter hfound (by simpa using hnew) (by simpa using hdone), ihrest,
      Followed.mem_done_finish, ihinner, Event.entered_enter, Event.entered_append, List.mem_cons,
      List.mem_append]
    tauto

/-- No fragment is come to twice. -/
theorem nodup_entered (table : Table) (trail targets : List String) (f : Followed) :
    (Event.entered (history table trail targets f)).Nodup := by
  fun_induction history table trail targets f with
  | case1 => exact .nil
  | case2 trail f target rest hfound ih => exact ih
  | case3 trail f target rest definition hfound htrail ih => exact ih
  | case4 trail f target rest definition hfound hnew hdone ih => exact ih
  | case5 trail f target rest definition hfound hnew hdone inner ihinner ihrest =>
    rw [Event.entered_enter, Event.entered_append]
    have hafter {name : String} (hname : name ∈ (inner.finish target).done) :
        name ∉ Event.entered (history table trail rest (inner.finish target)) := by
      intro hmem
      obtain ⟨around, done, hevent⟩ := Event.mem_entered_iff.mp hmem
      exact (of_enter_mem_history hevent).2.2.2 hname
    refine List.nodup_cons.mpr
      ⟨fun hmem => ?_, List.Nodup.append ihinner ihrest fun name hname => ?_⟩
    · rcases List.mem_append.mp hmem with hmem | hmem
      · obtain ⟨around, done, hevent⟩ := Event.mem_entered_iff.mp hmem
        exact (of_enter_mem_history hevent).2.1 List.mem_cons_self
      · exact hafter (Followed.mem_done_finish.mpr (.inr rfl)) hmem
    · exact hafter (Followed.mem_done_finish.mpr (.inl (mem_done_follow_iff.mpr (.inr hname))))

/-! ## The order -/

/-- A fragment comes to be in the order just if it lies on no cycle of fragments of which none had
been followed to the end when it was come to. -/
theorem mem_order_iff_of_enter {around done : List String} (h : f.Along table trail)
    (hleads : Leads table trail targets)
    (hevent : .enter name around done ∈ history table trail targets f) :
    name ∈ (follow table trail targets f).order ↔
      ¬TransGen (RefersPast table done) name name := by
  fun_induction history table trail targets f with
  | case1 => cases hevent
  | case2 trail f target rest hfound ih =>
    rw [follow_unknown hfound]
    exact ih h hleads.tail hevent
  | case3 trail f target rest definition hfound htrail ih =>
    have hmem : target ∈ trail := by simpa using htrail
    rw [follow_close hfound hmem]
    exact ih (h.close hmem) hleads.tail ((List.mem_cons.mp hevent).resolve_left nofun)
  | case4 trail f target rest definition hfound hnew hdone ih =>
    rw [follow_done hfound (by simpa using hnew) (by simpa using hdone)]
    exact ih h hleads.tail hevent
  | case5 trail f target rest definition hfound hnew hdone inner ihinner ihrest =>
    have hnew : target ∉ trail := by simpa using hnew
    have hdone : target ∉ f.done := by simpa using hdone
    rw [follow_enter hfound hnew hdone]
    obtain ⟨henter, hinner, -, hfinish, -⟩ := h.step hleads hfound hnew hdone
    obtain ⟨-, hsince, -⟩ := along_follow hfinish hleads.tail
    -- Once a fragment has been followed to the end, it is settled whether it is in the order.
    have hsettled {name : String} (hname : name ∈ (inner.finish target).done) :
        name ∈ (follow table trail rest (inner.finish target)).order ↔
          name ∈ inner.order ∨ name = target ∧ target ∉ inner.cyclic :=
      (hsince.mem_order_iff name hname).trans Followed.mem_order_finish
    rcases List.mem_cons.mp hevent with heq | hevent
    · cases heq
      rw [hsettled (Followed.mem_done_finish.mpr (.inr rfl))]
      have hout : name ∉ inner.order := fun hmem =>
        hinner.apart name List.mem_cons_self (hinner.order_subset hmem)
      have hcyclic : name ∉ f.cyclic := fun hmem => (h.met name hmem).elim hdone hnew
      rw [or_iff_right hout, and_iff_right rfl, mem_cyclic_iff henter hcyclic hfound]
    · rcases List.mem_append.mp hevent with hevent | hevent
      · have hname : name ∈ inner.done :=
          mem_done_follow_iff.mpr (.inr (Event.mem_entered_iff.mpr ⟨_, _, hevent⟩))
        rw [hsettled (Followed.mem_done_finish.mpr (.inl hname)), or_iff_left]
        · exact ihinner henter (leads_references hfound) hevent
        · rintro ⟨rfl, -⟩
          exact hinner.apart name List.mem_cons_self hname
      · exact ihrest hfinish hleads.tail hevent

/-! ## References that lead back -/

/-- The names that the fragment of a name refers to. -/
def Table.references (table : Table) (name : String) : List String :=
  ((table.get? name).map (·.node.references)).getD []

theorem Table.references_eq {definition : Definition} (h : table.get? name = some definition) :
    table.references name = definition.node.references := by
  rw [Table.references, h]
  rfl

/-- A trail of fragments that the table has. -/
def OnTable (table : Table) (trail : List String) : Prop := ∀ name ∈ trail, table.has name = true

theorem onTable_nil (table : Table) : OnTable table [] := List.forall_mem_nil _

theorem OnTable.enter {definition : Definition} (h : OnTable table trail)
    (hfound : table.get? target = some definition) : OnTable table (target :: trail) :=
  List.forall_mem_cons.mpr ⟨Table.has_iff_defines.mpr ⟨_, _, hfound⟩, h⟩

theorem OnTable.notMem (h : OnTable table trail) (hfound : table.get? target = none) :
    target ∉ trail := by
  intro hmem
  have hhas := h target hmem
  rw [Entries.has, hfound] at hhas
  cases hhas

theorem OnTable.of_enter {around done : List String} (htrail : OnTable table trail)
    (h : .enter name around done ∈ history table trail targets f) :
    OnTable table (name :: around) := by
  fun_induction history table trail targets f with
  | case1 => cases h
  | case2 trail f target rest hfound ih => exact ih htrail h
  | case3 trail f target rest definition hfound hmem ih =>
    exact ih htrail ((List.mem_cons.mp h).resolve_left nofun)
  | case4 trail f target rest definition hfound hnew hdone ih => exact ih htrail h
  | case5 trail f target rest definition hfound hnew hdone inner ihinner ihrest =>
    rcases List.mem_cons.mp h with heq | h
    · cases heq
      exact htrail.enter hfound
    · exact (List.mem_append.mp h).elim (ihinner (htrail.enter hfound)) (ihrest htrail)

/-- What leads back is a target or a reference of a fragment that is come to, and leads to the trail
that there is. -/
theorem mem_closed_iff {around : List String} (htrail : OnTable table trail) :
    (around, name) ∈ Event.closed (history table trail targets f) ↔
      (around = trail ∧ name ∈ trail ∧ name ∈ targets) ∨
      ∃ owner outer done, .enter owner outer done ∈ history table trail targets f ∧
        around = owner :: outer ∧ name ∈ around ∧ name ∈ table.references owner := by
  fun_induction history table trail targets f with
  | case1 => simp [Event.closed]
  | case2 trail f target rest hfound ih =>
    rw [ih htrail]
    refine or_congr_left (and_congr_right fun _ => and_congr_right fun hname => ?_)
    rw [List.mem_cons, or_iff_right (ne_of_mem_of_not_mem hname (htrail.notMem hfound))]
  | case3 trail f target rest definition hfound hmem ih =>
    have hmem : target ∈ trail := by simpa using hmem
    rw [Event.closed_close, List.mem_cons, ih htrail, Prod.mk.injEq, List.mem_cons, ← or_assoc]
    refine or_congr ?_ ?_
    · constructor
      · rintro (⟨rfl, rfl⟩ | ⟨rfl, hname, hrest⟩)
        · exact ⟨rfl, hmem, .inl rfl⟩
        · exact ⟨rfl, hname, .inr hrest⟩
      · rintro ⟨rfl, hname, rfl | hrest⟩
        · exact .inl ⟨rfl, rfl⟩
        · exact .inr ⟨rfl, hname, hrest⟩
    · simp only [List.mem_cons, reduceCtorEq, false_or]
  | case4 trail f target rest definition hfound hnew hdone ih =>
    have hnew : target ∉ trail := by simpa using hnew
    rw [ih htrail]
    refine or_congr_left (and_congr_right fun _ => and_congr_right fun hname => ?_)
    rw [List.mem_cons, or_iff_right (ne_of_mem_of_not_mem hname hnew)]
  | case5 trail f target rest definition hfound hnew hdone inner ihinner ihrest =>
    have hne (h : name ∈ trail) : name ≠ target := fun heq => hnew (by simpa [heq] using h)
    rw [Event.closed_enter, Event.closed_append, List.mem_append, ihinner (htrail.enter hfound),
      ihrest htrail, ← Table.references_eq hfound]
    constructor
    · rintro ((⟨rfl, hname, hrefers⟩ | ⟨owner, outer, done, hevent, hback⟩) |
        ⟨rfl, hname, htarget⟩ | ⟨owner, outer, done, hevent, hback⟩)
      · exact .inr ⟨target, trail, f.done, List.mem_cons_self, rfl, hname, hrefers⟩
      · exact .inr ⟨owner, outer, done,
          List.mem_cons_of_mem _ (List.mem_append_left _ hevent), hback⟩
      · exact .inl ⟨rfl, hname, List.mem_cons_of_mem _ htarget⟩
      · exact .inr ⟨owner, outer, done,
          List.mem_cons_of_mem _ (List.mem_append_right _ hevent), hback⟩
    · rintro (⟨rfl, hname, htarget⟩ | ⟨owner, outer, done, hevent, heq, hname, hrefers⟩)
      · exact .inr (.inl ⟨rfl, hname, (List.mem_cons.mp htarget).resolve_left (hne hname)⟩)
      · rcases List.mem_cons.mp hevent with hhere | hevent
        · cases hhere
          exact .inl (.inl ⟨heq, heq ▸ hname, hrefers⟩)
        · rcases List.mem_append.mp hevent with hevent | hevent
          · exact .inl (.inr ⟨owner, outer, done, hevent, heq, hname, hrefers⟩)
          · exact .inr (.inr ⟨owner, outer, done, hevent, heq, hname, hrefers⟩)

theorem length_lt_of_enter {outer done : List String}
    (h : .enter name outer done ∈ history table trail targets f) :
    trail.length < (name :: outer).length :=
  Nat.lt_succ_of_le (of_enter_mem_history h).2.2.1.length_le

/-- What leads back inside a fragment that is come to does not lead back behind it too. -/
theorem disjoint_closed {rest : List String} {definition : Definition}
    (htrail : OnTable table trail) (hfound : table.get? target = some definition) :
    let inner := follow table (target :: trail) definition.node.references f
    (Event.closed (history table (target :: trail) definition.node.references f)).Disjoint
      (Event.closed (history table trail rest (inner.finish target))) := by
  rintro inner ⟨around, name⟩ hin hout
  have hlong : trail.length < around.length ∧
      ∀ top ∈ around.head?, top ∈ (inner.finish target).done := by
    rcases (mem_closed_iff (htrail.enter hfound)).mp hin with
      ⟨rfl, -⟩ | ⟨owner, outer, done, hevent, rfl, -⟩
    · refine ⟨Nat.lt_succ_self _, fun top htop => ?_⟩
      cases htop
      exact Followed.mem_done_finish.mpr (.inr rfl)
    · refine ⟨Nat.lt_of_succ_lt (length_lt_of_enter hevent), fun top htop => ?_⟩
      cases htop
      exact Followed.mem_done_finish.mpr (.inl (mem_done_follow_iff.mpr
        (.inr (Event.mem_entered_iff.mpr ⟨_, _, hevent⟩))))
  rcases (mem_closed_iff htrail).mp hout with ⟨rfl, -⟩ | ⟨owner, outer, done, hevent, rfl, -⟩
  · exact absurd hlong.1 (Nat.lt_irrefl _)
  · exact (of_enter_mem_history hevent).2.2.2 (hlong.2 owner rfl)

theorem forall_count_cons_iff_of_notMem {rest : List String} (h : target ∉ trail) :
    (∀ name ∈ trail, (target :: rest).count name ≤ 1) ↔ ∀ name ∈ trail, rest.count name ≤ 1 := by
  refine forall₂_congr fun name hname => ?_
  rw [List.count_cons_of_ne (ne_of_mem_of_not_mem hname h).symm]

theorem forall_count_cons_iff_of_mem {rest : List String} (h : target ∈ trail) :
    (∀ name ∈ trail, (target :: rest).count name ≤ 1) ↔
      target ∉ rest ∧ ∀ name ∈ trail, rest.count name ≤ 1 := by
  constructor
  · intro hcount
    refine ⟨fun hrest => ?_, fun name hname => List.count_le_count_cons.trans (hcount name hname)⟩
    have htwice := hcount target h
    rw [List.count_cons_self] at htwice
    have := List.count_pos_iff.mpr hrest
    omega
  · rintro ⟨hrest, hcount⟩ name hname
    by_cases heq : target = name
    · rw [← heq, List.count_cons_self, List.count_eq_zero.mpr hrest]
    · rw [List.count_cons_of_ne heq]
      exact hcount name hname

/-- A target leads back to the trail again just if it is among the targets that are left. -/
theorem notMem_closed_iff {rest : List String} (htrail : OnTable table trail)
    (hmem : target ∈ trail) :
    (trail, target) ∉ Event.closed (history table trail rest f) ↔ target ∉ rest := by
  rw [mem_closed_iff htrail, not_iff_not, or_iff_left]
  · exact ⟨fun h => h.2.2, fun h => ⟨rfl, hmem, h⟩⟩
  · rintro ⟨owner, outer, done, hevent, rfl, -⟩
    exact absurd (length_lt_of_enter hevent) (Nat.lt_irrefl _)

/-- No two references lead back alike just if no target and no fragment that is come to leads back
to the same fragment twice. -/
theorem nodup_closed_iff (htrail : OnTable table trail) :
    (Event.closed (history table trail targets f)).Nodup ↔
      (∀ name ∈ trail, targets.count name ≤ 1) ∧
      ∀ owner outer done, .enter owner outer done ∈ history table trail targets f →
        ∀ name ∈ owner :: outer, (table.references owner).count name ≤ 1 := by
  fun_induction history table trail targets f with
  | case1 => simp [Event.closed]
  | case2 trail f target rest hfound ih =>
    rw [ih htrail, forall_count_cons_iff_of_notMem (htrail.notMem hfound)]
  | case3 trail f target rest definition hfound hmem ih =>
    have hmem : target ∈ trail := by simpa using hmem
    rw [Event.closed_close, List.nodup_cons, notMem_closed_iff htrail hmem, ih htrail, ← and_assoc,
      forall_count_cons_iff_of_mem hmem]
    simp only [List.mem_cons, reduceCtorEq, false_or]
  | case4 trail f target rest definition hfound hnew hdone ih =>
    rw [ih htrail, forall_count_cons_iff_of_notMem (by simpa using hnew)]
  | case5 trail f target rest definition hfound hnew hdone inner ihinner ihrest =>
    rw [Event.closed_enter, Event.closed_append, List.nodup_append', ihinner (htrail.enter hfound),
      ihrest htrail, ← Table.references_eq hfound,
      forall_count_cons_iff_of_notMem (by simpa using hnew)]
    constructor
    · rintro ⟨⟨htarget, hinner⟩, ⟨htargets, hrest⟩, -⟩
      refine ⟨htargets, fun owner outer done hevent => ?_⟩
      rcases List.mem_cons.mp hevent with heq | hevent
      · cases heq
        exact htarget
      · exact (List.mem_append.mp hevent).elim (hinner owner outer done) (hrest owner outer done)
    · rintro ⟨htargets, hall⟩
      refine ⟨⟨hall target trail f.done List.mem_cons_self, fun owner outer done hevent =>
        hall owner outer done (List.mem_cons_of_mem _ (List.mem_append_left _ hevent))⟩,
        ⟨htargets, fun owner outer done hevent =>
          hall owner outer done (List.mem_cons_of_mem _ (List.mem_append_right _ hevent))⟩, ?_⟩
      rw [Table.references_eq hfound]
      exact disjoint_closed htrail hfound

end Remap.Fragment
