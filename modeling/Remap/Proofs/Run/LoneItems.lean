import Remap.Proofs.Run.Paths
import Remap.Proofs.Run.Reports
import Remap.Run.Convert

/-!
# Elements that stand alone

Formats without arrays show an array of one item as that item. Whether a run takes a value that
stands alone for such an array depends on the format that the rules declare, not on the one that the
payload was read as. The main statement (`convert_lone`) is that this makes no difference where all
executions find the same either way, and does where one is stuck that would not be.
-/

namespace Remap

/-- Whether a code is that of something that is absent, or of a split that finds no array. -/
def Code.isMissing : Code → Bool
  | requiredSourceMissing | optionalSourceMissing | splitSourceNotArray => true
  | _ => false

namespace Run

/-! ## Scopes -/

namespace Scope

variable {s : Scope}

/-- A scope with a value that stands alone counted as an array of one item. -/
def lone (s : Scope) : Scope := { s with loneItems := true }

theorem lone_of_loneItems (h : s.loneItems = true) : s.lone = s := by
  cases s
  cases h
  rfl

theorem item?_lone {i : Nat} {v w : Value} (h : s.item? i v = some w) :
    s.lone.item? i v = some w := by
  unfold item? at h ⊢
  split at h
  · exact h
  · cases h
  · split at h
    · next hlone =>
      rw [if_pos (by simpa [lone] using (Bool.and_eq_true_iff.mp hlone).2)]
      exact h
    · cases h

/-- What is found is found too where values that stand alone count as arrays. -/
theorem follow?_lone {bound : List Nat} {segments : List Segment} {v w : Value}
    (h : s.follow? bound segments v = some w) : s.lone.follow? bound segments v = some w := by
  induction segments generalizing bound v with
  | nil =>
    rw [follow?] at h ⊢
    exact h
  | cons segment rest ih =>
    cases segment with
    | key name =>
      rw [follow?] at h ⊢
      obtain ⟨u, hu, hrest⟩ := Option.bind_eq_some_iff.mp h
      exact Option.bind_eq_some_iff.mpr ⟨u, hu, ih hrest⟩
    | index i =>
      rw [follow?] at h ⊢
      obtain ⟨u, hu, hrest⟩ := Option.bind_eq_some_iff.mp h
      exact Option.bind_eq_some_iff.mpr ⟨u, item?_lone hu, ih hrest⟩
    | wildcard =>
      cases bound with
      | nil => cases h
      | cons i bound =>
        rw [follow?] at h ⊢
        obtain ⟨u, hu, hrest⟩ := Option.bind_eq_some_iff.mp h
        exact Option.bind_eq_some_iff.mpr ⟨u, item?_lone hu, ih hrest⟩

theorem resolve?_lone {p : SourcePath} {v : Value} (h : s.resolve? p = some v) :
    s.lone.resolve? p = some v := by
  unfold resolve? at h ⊢
  split at h
  · cases h
  · next hdepth =>
    rw [if_neg (by exact hdepth)]
    exact follow?_lone h

theorem splitItems_lone {source : SourcePath} {items : List Value}
    (h : splitItems s.loneItems source (s.resolve? source) = .ok items) :
    splitItems true source (s.lone.resolve? source) = .ok items := by
  cases hlone : s.loneItems with
  | true => rwa [lone_of_loneItems hlone, ← hlone]
  | false =>
    rw [hlone] at h
    unfold splitItems at h
    split at h
    · next found hfound =>
      rw [resolve?_lone hfound]
      exact h
    · cases h
    · cases h
    · cases h

end Scope

namespace Execution

variable {e c x y : Execution}

/-- An execution with values that stand alone counted as arrays of one item. -/
def lone (e : Execution) : Execution := { e with scope := e.scope.lone }

theorem items_lone {source : SourcePath} {items : List Value} (h : e.items source = .ok items) :
    e.lone.items source = .ok items := Scope.splitItems_lone h

theorem loneItems_of_mem_children (h : c ∈ e.children) :
    c.scope.loneItems = e.scope.loneItems := by
  unfold children at h
  split at h
  · cases h
  · split at h
    · rw [List.mem_singleton.mp h]
      rfl
    · obtain ⟨n, -, rfl⟩ := Option.map_eq_some_iff.mp (Option.mem_toList.mp h)
      rfl
  · obtain ⟨entry, -, rfl⟩ := List.mem_map.mp h
    rfl
  · split at h
    · obtain ⟨entry, -, rfl⟩ := List.mem_map.mp h
      rfl
    · cases h
  · obtain ⟨entry, -, rfl⟩ := List.mem_map.mp h
    rfl

/-! ## Runs that find the same -/

/-- All that the node of an execution reads is found alike, whether values that stand alone count as
arrays or not. -/
def FindsAlike (e : Execution) : Prop :=
  (∀ path ∈ e.node.paths, e.lone.scope.resolve? path = e.scope.resolve? path) ∧
    ∀ source item target, e.node = .split source item target →
      e.lone.items source = e.items source

theorem FindsAlike.children (h : e.FindsAlike) : e.lone.children = e.children.map lone := by
  have hlone : e.lone.node = e.node := rfl
  cases hnode : e.node with
  | field f =>
    simp only [Execution.children, hlone, hnode]
    rfl
  | condition test yes no =>
    have htest : test.test e.lone.scope = test.test e.scope :=
      test_congr fun path hpath => h.1 path (by rwa [hnode])
    simp only [Execution.children, hlone, hnode, htest]
    split
    · rfl
    · cases no <;> rfl
  | merge inputs policy target =>
    simp only [Execution.children, hlone, hnode, List.map_map]
    rfl
  | split source item target =>
    simp only [Execution.children, hlone, hnode, h.2 source item target hnode]
    cases e.items source with
    | ok items =>
      simp only [List.map_map]
      rfl
    | error problem => rfl
  | sequence steps =>
    simp only [Execution.children, hlone, hnode, List.map_map]
    rfl

/-- What executions put out and report together, if they do the same one by one. -/
theorem lone_parts {cs : List Execution}
    (h : ∀ c ∈ cs, ∀ before, c.lone.output before = c.output before ∧
      c.lone.log before = c.log before) :
    (∀ before, (cs.map lone).foldl (fun before c => c.output before) before =
      cs.foldl (fun before c => c.output before) before) ∧
    (∀ before, handedOn (cs.map lone) before = handedOn cs before) ∧
    apart (cs.map lone) = apart cs ∧
    (cs.map lone).map (output · .null) = cs.map (output · .null) := by
  induction cs with
  | nil => exact ⟨fun _ => rfl, fun _ => rfl, rfl, rfl⟩
  | cons c cs ih =>
    obtain ⟨hc, hcs⟩ := List.forall_mem_cons.mp h
    obtain ⟨hfold, hhanded, happart, houtputs⟩ := ih hcs
    refine ⟨fun before => ?_, fun before => ?_, ?_, ?_⟩
    · rw [List.map_cons, List.foldl_cons, List.foldl_cons, (hc before).1, hfold]
    · rw [List.map_cons, handedOn, handedOn, (hc before).1, (hc before).2, hhanded]
    · rw [List.map_cons, apart, apart, (hc .null).2, happart]
    · rw [List.map_cons, List.map_cons, List.map_cons, (hc .null).1, houtputs]

/-- Where all is found alike and the executions that are started do the same, an execution writes
and reports the same itself. -/
theorem FindsAlike.own (h : e.FindsAlike)
    (houtputs : e.lone.children.map (output · .null) = e.children.map (output · .null)) :
    e.lone.write? = e.write? ∧ e.lone.opening = e.opening ∧
      ∀ before, e.lone.closing before = e.closing before := by
  have hlone : e.lone.node = e.node := rfl
  have hplace : e.lone.place = e.place := rfl
  cases hnode : e.node with
  | field f =>
    have hpaths : ∀ path ∈ f.paths, e.lone.scope.resolve? path = e.scope.resolve? path :=
      fun path hpath => h.1 path (by rwa [hnode])
    simp only [write?, opening, closing, hlone, hplace, hnode, runField_congr hpaths,
      origin_congr hpaths, applyAll_congr fun path hpath =>
        hpaths path (List.mem_append_right _ hpath), implies_true, and_self]
  | condition test yes no =>
    have htest : test.test e.lone.scope = test.test e.scope :=
      test_congr fun path hpath => h.1 path (by rwa [hnode])
    simp only [write?, opening, closing, hlone, hplace, hnode, htest, implies_true, and_self]
  | merge inputs policy target =>
    simp only [write?, opening, closing, hlone, hplace, hnode, houtputs, implies_true,
      and_self]
  | split source item target =>
    simp only [write?, opening, closing, hlone, hplace, hnode, h.2 source item target hnode,
      houtputs, implies_true, and_self]
  | sequence steps =>
    simp only [write?, opening, closing, hlone, hnode, implies_true, and_self]

/-- Where all is found alike, all that executions put out and report is the same. -/
theorem lone_eq (h : ∀ x ∈ e.executions, x.FindsAlike) (before : Value) :
    e.lone.output before = e.output before ∧ e.lone.log before = e.log before := by
  induction e using induct generalizing before with
  | start e ih =>
    have hself : e.FindsAlike := h e e.self_mem_executions
    have hbelow : ∀ c ∈ e.children, ∀ before, c.lone.output before = c.output before ∧
        c.lone.log before = c.log before := by
      exact fun c hc => ih c hc fun x hx => h x (mem_executions_of_mem_children hc hx)
    obtain ⟨hfold, hhanded, happart, houtputs⟩ := lone_parts hbelow
    rw [← hself.children] at hfold hhanded happart houtputs
    obtain ⟨hwrite, hopening, hclosing⟩ := hself.own houtputs
    have hlone : e.lone.node = e.node := rfl
    constructor
    · cases hshares : sharesOutput e.node with
      | true => rw [output_of_shares hshares, output_of_shares (e := e.lone) hshares, hfold]
      | false =>
        rw [output_of_not_shares hshares, output_of_not_shares (e := e.lone) hshares, hwrite]
    · rw [log_eq, log_eq, hopening, hclosing, hhanded, happart, hlone]

/-! ## Runs that miss something -/

theorem code_of_splitItems {lone : Bool} {source : SourcePath} {found : Option Value}
    {problem : Problem} (h : splitItems lone source found = .error problem) :
    problem.code = .splitSourceNotArray := by
  unfold splitItems at h
  split at h
  · cases h
  · split at h
    · cases h
    · cases h
      rfl
  · split at h
    · cases h
    · cases h
      rfl
  · cases h
    rfl

/-- An execution that is stuck reports it. -/
theorem Stuck.exists_report (h : e.Stuck) (before : Value) :
    ∃ d ∈ (e.closing before).diagnostics, d.code.isMissing = true ∧ d.path = e.place.text := by
  cases hnode : e.node with
  | field f =>
    simp only [Stuck, hnode] at h
    obtain ⟨text, htext⟩ := h
    simp only [closing, hnode, runField, htext]
    refine ⟨_, List.mem_singleton_self _, ?_, rfl⟩
    cases f.optional <;> rfl
  | split source item target =>
    simp only [Stuck, hnode] at h
    obtain ⟨problem, hproblem⟩ := h
    simp only [closing, hnode, hproblem]
    refine ⟨_, List.mem_singleton_self _, ?_, rfl⟩
    rw [Problem.diagnostic, code_of_splitItems hproblem]
    rfl
  | condition | merge | sequence =>
    rw [Stuck, hnode] at h
    exact h.elim

/-- What an execution reports as missing tells that it is stuck. -/
theorem stuck_of_mem_closing {before : Value} {d : Diagnostic}
    (hd : d ∈ (e.closing before).diagnostics) (hmissing : d.code.isMissing = true) :
    e.Stuck ∧ d.path = e.place.text := by
  rcases mem_closing_cases hd with ⟨fault, rfl⟩ | ⟨hpath, hstuck | hcode | hcode⟩
  · cases fault <;> cases hmissing
  · exact ⟨hstuck, hpath⟩
  · rw [hcode] at hmissing
    cases hmissing
  · rw [hcode] at hmissing
    cases hmissing

/-- What a run reports as missing is at the place of an execution that is stuck. -/
theorem exists_stuck {before : Value} {d : Diagnostic} (hd : d ∈ (e.log before).diagnostics)
    (hmissing : d.code.isMissing = true) : ∃ x ∈ e.executions, x.Stuck ∧ d.path = x.place.text := by
  obtain ⟨x, hx, hopening | ⟨before, hclosing⟩⟩ := exists_of_mem_log hd
  · rw [code_of_mem_opening hopening] at hmissing
    cases hmissing
  · exact ⟨x, hx, stuck_of_mem_closing hclosing hmissing⟩

/-- Each execution that is stuck is reported. -/
theorem Stuck.exists_mem_log (hx : x ∈ e.executions) (h : x.Stuck) (before : Value) :
    ∃ d ∈ (e.log before).diagnostics, d.code.isMissing = true ∧ d.path = x.place.text := by
  obtain ⟨before', hsubset⟩ := exists_diagnostics_subset hx before
  obtain ⟨d, hd, hmissing, hpath⟩ := h.exists_report before'
  refine ⟨d, hsubset ?_, hmissing, hpath⟩
  rw [log_eq, Log.diagnostics_append]
  exact List.mem_append_right _ hd

theorem eq_of_mem_zipIdx {α : Type} {xs : List α} {a b : α} {i : Nat} (ha : (a, i) ∈ xs.zipIdx)
    (hb : (b, i) ∈ xs.zipIdx) : a = b := by
  have ha := List.mem_zipIdx_iff_getElem?.mp ha
  rw [List.mem_zipIdx_iff_getElem?.mp hb] at ha
  exact (Option.some.inj ha).symm

theorem lone_of_mem_children {d : Execution} (hc : c ∈ e.children) (hd : d ∈ e.lone.children)
    (hplace : d.place = c.place) : d = c.lone := by
  have hlone : e.lone.node = e.node := rfl
  -- Only one child stands at a step.
  have hstep {s t : Rule.Step} (h : e.place.down s = e.place.down t) : s = t :=
    (Rule.Place.down_inj.mp h).2
  cases hnode : e.node with
  | field f =>
    rw [Execution.children, hnode] at hc
    cases hc
  | condition test yes no =>
    simp only [Execution.children, hlone, hnode] at hc hd
    split at hc <;> split at hd
    · rw [List.mem_singleton.mp hc, List.mem_singleton.mp hd]
      rfl
    · rw [List.mem_singleton.mp hc] at hplace
      obtain ⟨n, -, rfl⟩ := Option.map_eq_some_iff.mp (Option.mem_toList.mp hd)
      cases hstep hplace
    · rw [List.mem_singleton.mp hd] at hplace
      obtain ⟨n, -, rfl⟩ := Option.map_eq_some_iff.mp (Option.mem_toList.mp hc)
      cases hstep hplace
    · obtain ⟨n, hn, rfl⟩ := Option.map_eq_some_iff.mp (Option.mem_toList.mp hc)
      obtain ⟨m, hm, rfl⟩ := Option.map_eq_some_iff.mp (Option.mem_toList.mp hd)
      cases Option.some.inj (hn.symm.trans hm)
      rfl
  | merge inputs policy target =>
    simp only [Execution.children, hlone, hnode] at hc hd
    obtain ⟨⟨n, i⟩, hn, rfl⟩ := List.mem_map.mp hc
    obtain ⟨⟨m, j⟩, hm, rfl⟩ := List.mem_map.mp hd
    cases hstep hplace
    rw [eq_of_mem_zipIdx hn hm]
    rfl
  | split source item target =>
    simp only [Execution.children, hlone, hnode] at hc hd
    split at hc
    · next items hitems =>
      rw [items_lone hitems] at hd
      obtain ⟨⟨v, i⟩, hv, rfl⟩ := List.mem_map.mp hc
      obtain ⟨⟨w, j⟩, hw, rfl⟩ := List.mem_map.mp hd
      cases hstep hplace
      rw [eq_of_mem_zipIdx hv hw]
      rfl
    · cases hc
  | sequence steps =>
    simp only [Execution.children, hlone, hnode] at hc hd
    obtain ⟨⟨n, i⟩, hn, rfl⟩ := List.mem_map.mp hc
    obtain ⟨⟨m, j⟩, hm, rfl⟩ := List.mem_map.mp hd
    cases hstep hplace
    rw [eq_of_mem_zipIdx hn hm]
    rfl

/-- An execution that stands where one would with values that stand alone counted as arrays is the
same but for that. -/
theorem lone_of_place_eq (hx : x ∈ e.executions) (hy : y ∈ e.lone.executions)
    (hplace : y.place = x.place) : y = x.lone := by
  induction e using induct with
  | start e ih =>
    rw [mem_executions] at hx hy
    rcases hx with rfl | ⟨c, hc, hx⟩
    · rcases hy with rfl | ⟨d, hd, hy⟩
      · rfl
      · exact absurd (congrArg Rule.Place.text hplace) (text_ne_of_mem_child (e := x.lone) hd hy)
    · rcases hy with rfl | ⟨d, hd, hy⟩
      · exact absurd (congrArg Rule.Place.text hplace.symm) (text_ne_of_mem_child (e := e) hc hx)
      · obtain ⟨s, steps, hcplace, hxplace⟩ := place_of_mem_child hc hx
        obtain ⟨t, others, hdplace, hyplace⟩ := place_of_mem_child hd hy
        rw [hxplace, hyplace] at hplace
        cases List.head_eq_of_cons_eq (Rule.Place.below_inj.mp hplace)
        cases lone_of_mem_children hc hd (hdplace.trans hcplace.symm)
        exact ih c hc hx hy

end Execution

/-! ## Conversions -/

/-- Whatever is reported of an outcome that is written, but for what the format cannot hold, was
reported before. -/
theorem Outcome.mem_write_iff {d : Diagnostic} (hd : d.code ≠ .outputNotRepresentable)
    (o : Outcome) (target : Format) (pretty : Bool) :
    d ∈ (o.write target pretty).outcome.errors ++ (o.write target pretty).outcome.warnings ↔
      d ∈ o.errors ++ o.warnings := by
  unfold write
  split
  · rfl
  · split
    · rfl
    · next fault _ =>
      have hnot : d ∉ [(Problem.notRepresentable fault).diagnostic Rule.Place.root.text] := by
        intro hmem
        rw [List.mem_singleton.mp hmem] at hd
        exact hd rfl
      simp only [List.mem_append, hnot, or_false]

theorem mem_execute_iff {plan : Plan} {input : Value} {d : Diagnostic} :
    d ∈ (execute plan input).errors ++ (execute plan input).warnings ↔
      d ∈ (start plan input).log.diagnostics := by
  simp only [execute, Step.outcome, List.partition_eq_filter_filter, List.mem_append,
    List.mem_filter, Function.comp_apply, ← and_or_left]
  cases d.isError <;> simp

/-- In an XML payload, a value that stands alone counts as an array just if the rules declare XML.
Rules that declare another format convert it as they would if they declared XML where all that an
execution reads is found alike, but not where an execution is stuck that would not be if they
did. -/
theorem convert_lone {plan : Plan} {text : String} {limits : Limits} {input : Value}
    (hread : Payload.read .xml limits text = .ok input) (target : Format) (pretty : Bool) :
    let declared := convert plan text .xml target pretty limits
    let decoded := convert { plan with inputFormat := .xml } text .xml target pretty limits
    (∀ x ∈ (Execution.top plan input).executions,
      x.scope.loneItems = decide (plan.inputFormat = .xml)) ∧
    ((∀ x ∈ (Execution.top plan input).executions, x.FindsAlike) → declared = decoded) ∧
    ∀ x ∈ (Execution.top plan input).executions, x.Stuck → ¬x.lone.Stuck → declared ≠ decoded := by
  intro declared decoded
  have hconvert (plan : Plan) : convert plan text .xml target pretty limits =
      .ok ((execute plan input).write target pretty) := by
    rw [convert, hread]
    rfl
  refine ⟨fun x hx => ?_, fun halike => ?_, fun x hx hstuck hnot heq => ?_⟩
  · refine Execution.of_mem_executions (P := fun e =>
      e.scope.loneItems = decide (plan.inputFormat = .xml)) (fun e he c hc => ?_) rfl hx
    rw [Execution.loneItems_of_mem_children hc, he]
  · obtain ⟨houtput, hlog⟩ := Execution.lone_eq halike (.object [])
    have hstart : start { plan with inputFormat := .xml } input = start plan input :=
      congrArg₂ Step.mk houtput hlog
    change convert _ _ _ _ _ _ = convert _ _ _ _ _ _
    rw [hconvert, hconvert, execute, execute, hstart]
  · obtain ⟨d, hd, hmissing, hpath⟩ := hstuck.exists_mem_log hx (.object [])
    have hother : d.code ≠ .outputNotRepresentable := by
      intro hcode
      rw [hcode] at hmissing
      cases hmissing
    have hwritten := Except.ok.inj ((hconvert _).symm.trans (heq.trans (hconvert _)))
    have hboth := (Outcome.mem_write_iff hother _ target pretty).mpr (mem_execute_iff.mpr hd)
    rw [hwritten, Outcome.mem_write_iff hother, mem_execute_iff] at hboth
    obtain ⟨y, hy, hystuck, hypath⟩ := Execution.exists_stuck
      (e := (Execution.top plan input).lone) hboth hmissing
    have hplace : y.place = x.place := by
      obtain ⟨steps, hsteps⟩ := Execution.place_of_mem_executions hx
      obtain ⟨others, hothers⟩ := Execution.place_of_mem_executions hy
      exact Rule.Place.text_inj (by rw [hsteps, hothers]; rfl) (hypath.symm.trans hpath)
    rw [Execution.lone_of_place_eq hx hy hplace] at hystuck
    exact hnot hystuck

/-- The plan that takes the id of the first order. -/
def firstIdPlan : Plan :=
  ⟨"1.2", .json, .json, .field
    ⟨.path ⟨false, [.key "orders", .key "order", .index 0, .key "@id"]⟩, [], ⟨[.key "first"]⟩,
      false⟩⟩

/-- A lone order is found by its index only where the rules declare the format of the payload; the
first of two orders is found either way. -/
theorem convert_lone_firstId :
    let one : String := "<orders><order id=\"o-1\"/></orders>"
    let two : String := "<orders><order id=\"o-1\"/><order id=\"o-2\"/></orders>"
    convert firstIdPlan one .xml .json false .standard ≠
        convert { firstIdPlan with inputFormat := .xml } one .xml .json false .standard ∧
      convert firstIdPlan two .xml .json false .standard =
        convert { firstIdPlan with inputFormat := .xml } two .xml .json false .standard := by
  let order (id : String) : Value := .object [("@id", .string id)]
  let orders (v : Value) : Value := .object [("orders", .object [("order", v)])]
  have hone : Payload.read .xml .standard "<orders><order id=\"o-1\"/></orders>" =
      .ok (orders (order "o-1")) := rfl
  have htwo : Payload.read .xml .standard
      "<orders><order id=\"o-1\"/><order id=\"o-2\"/></orders>" =
        .ok (orders (.array [order "o-1", order "o-2"])) := rfl
  have honly (input : Value) :
      (Execution.top firstIdPlan input).executions = [Execution.top firstIdPlan input] :=
    Execution.executions_eq _
  have hstuck : (Execution.top firstIdPlan (orders (order "o-1"))).Stuck := ⟨_, rfl⟩
  have hfree : ¬(Execution.top firstIdPlan (orders (order "o-1"))).lone.Stuck := by
    rintro ⟨text, htext⟩
    cases htext
  refine ⟨(convert_lone hone .json false).2.2 _ ?_ hstuck hfree,
    (convert_lone htwo .json false).2.1 fun x hx => ?_⟩
  · rw [honly]
    exact List.mem_singleton_self _
  · rw [honly] at hx
    rw [List.mem_singleton.mp hx]
    refine ⟨fun path hpath => ?_, nofun⟩
    rw [List.mem_singleton.mp hpath]
    rfl

/-- The plan that takes the ids of all orders. -/
def orderIdsPlan : Plan :=
  ⟨"1.2", .json, .json, .split ⟨false, [.key "orders", .key "order"]⟩
    (.field ⟨.path ⟨false, [.key "@id"]⟩, [], ⟨[]⟩, false⟩) ⟨[.key "ids"]⟩⟩

/-- A split over a lone order reports that it is no array, unless the rules declare the format of
the payload. -/
theorem convert_lone_orderIds :
    convert orderIdsPlan "<orders><order id=\"o-1\"/></orders>" .xml .json false .standard =
      .ok ⟨none, none, [(Problem.notArray ⟨false, [.key "orders", .key "order"]⟩ .object).diagnostic
        "root"], []⟩ ∧
    convert { orderIdsPlan with inputFormat := .xml } "<orders><order id=\"o-1\"/></orders>" .xml
        .json false .standard =
      .ok ⟨some "\x7b\"ids\":[\"o-1\"]\x7d",
        some (.object [("ids", .array [.string "o-1"])]), [], []⟩ := by
  exact ⟨rfl, rfl⟩

end Run

end Remap
