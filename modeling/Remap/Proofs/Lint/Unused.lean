import Remap.Proofs.Lint.Warnings

/-!
# Unused fragments

A fragment of a document is reported if nothing leads to it from the root, so nothing that leads
from the root is lost where all that are reported are taken out. But fragments of libraries may
refer to those of the document, and each reference in them is checked, wherever it leads from. So a
document without its unused fragments has the same plan exactly if no library refers to one of them
(`compile_withoutUnused`).
-/

namespace Remap

open Relation

/-! ## What is reached -/

namespace Lint

variable {table : Fragment.Table} {work seen : List String} {name owner : String}

theorem mem_reach_of_mem_seen (h : name ∈ seen) : name ∈ reach table work seen := by
  fun_induction reach table work seen with
  | case1 => exact h
  | case2 _ _ _ _ ih | case3 _ _ _ _ _ _ ih => exact ih h
  | case4 _ _ _ _ _ _ ih => exact ih (List.mem_cons_of_mem _ h)

theorem mem_reach_of_mem_work (hwork : name ∈ work) (hknown : table.has name = true) :
    name ∈ reach table work seen := by
  fun_induction reach table work seen with
  | case1 => cases hwork
  | case2 seen other rest hfound ih =>
    rcases List.mem_cons.mp hwork with rfl | hrest
    · rw [Entries.has, hfound] at hknown
      cases hknown
    · exact ih hrest
  | case3 seen other rest definition hfound hold ih =>
    rcases List.mem_cons.mp hwork with rfl | hrest
    · exact mem_reach_of_mem_seen (List.contains_iff_mem.mp hold)
    · exact ih hrest
  | case4 seen other rest definition hfound hnew ih =>
    rcases List.mem_cons.mp hwork with rfl | hrest
    · exact mem_reach_of_mem_seen List.mem_cons_self
    · exact ih (List.mem_append_right _ hrest)

/-- What is reached refers to nothing known but what is reached, if what has been seen refers to
nothing known but what has been seen or is left to do. -/
theorem reach_closed
    (hseen : ∀ owner ∈ seen, ∀ node, table.Defines owner node → ∀ name ∈ node.references,
      table.has name = true → name ∈ seen ∨ name ∈ work)
    (howner : owner ∈ reach table work seen) {node : Rule.Node} (hnode : table.Defines owner node)
    (hname : name ∈ node.references) (hknown : table.has name = true) :
    name ∈ reach table work seen := by
  fun_induction reach table work seen with
  | case1 =>
    exact (hseen owner howner node hnode name hname hknown).resolve_right List.not_mem_nil
  | case2 seen other rest hfound ih =>
    refine ih (fun owner howner node hnode name hname hknown => ?_) howner
    refine (hseen owner howner node hnode name hname hknown).imp_right fun hwork => ?_
    rcases List.mem_cons.mp hwork with rfl | hrest
    · rw [Entries.has, hfound] at hknown
      cases hknown
    · exact hrest
  | case3 seen other rest definition hfound hold ih =>
    refine ih (fun owner howner node hnode name hname hknown => ?_) howner
    rcases hseen owner howner node hnode name hname hknown with hseen | hwork
    · exact .inl hseen
    · rcases List.mem_cons.mp hwork with rfl | hrest
      · exact .inl (List.contains_iff_mem.mp hold)
      · exact .inr hrest
  | case4 seen other rest definition hfound hnew ih =>
    refine ih (fun owner howner node hnode name hname hknown => ?_) howner
    rcases List.mem_cons.mp howner with rfl | hold
    · obtain ⟨origin, hget⟩ := hnode
      cases hfound.symm.trans hget
      exact .inr (List.mem_append_left _ hname)
    · rcases hseen owner hold node hnode name hname hknown with hseen | hwork
      · exact .inl (List.mem_cons_of_mem _ hseen)
      · rcases List.mem_cons.mp hwork with rfl | hrest
        · exact .inl List.mem_cons_self
        · exact .inr (List.mem_append_right _ hrest)

/-! ## What is reported -/

variable {source : Fragment.Source} {document : Rule.Document} {plan : Plan}

/-- Whether it is reported that a fragment is unused. -/
def WarnsUnused (source : Fragment.Source) (document : Rule.Document) (name : String) : Prop :=
  (Warning.unusedFragment name).diagnostic (Rule.fragmentPlace "" name).text ∈
    Lint.document source document

instance (source : Fragment.Source) (document : Rule.Document) (name : String) :
    Decidable (WarnsUnused source document name) :=
  inferInstanceAs (Decidable (_ ∈ _))

/-- A document without the fragments that are reported to be unused. -/
def withoutUnused (source : Fragment.Source) (document : Rule.Document) : Rule.Document :=
  { document with
    fragments := document.fragments.filter fun e => !decide (WarnsUnused source document e.1) }

theorem unusedFragment_inj {other : String}
    (h : (Warning.unusedFragment name).message = (Warning.unusedFragment other).message) :
    name = other := by
  have hlist := congrArg String.toList h
  simp only [Warning.message, String.toList_append, List.append_cancel_right_eq,
    List.append_cancel_left_eq] at hlist
  exact String.toList_inj.mp hlist

/-- Where a document has a plan, those of its own fragments are reported that are not reached. -/
theorem warnsUnused_iff (hplan : Plan.compile source document = .ok plan) :
    WarnsUnused source document name ↔ name ∈ document.fragments.keys ∧
      name ∉ reach (Fragment.collect source document).table document.root.references [] := by
  rw [WarnsUnused, mem_document_iff hplan]
  constructor
  · rintro (hunused | ⟨visit, -, hwarning⟩)
    · rw [unusedFragments] at hunused
      split at hunused
      · cases hunused
      · obtain ⟨other, hother, heq⟩ := List.mem_map.mp hunused
        obtain rfl := unusedFragment_inj (congrArg Diagnostic.message heq)
        obtain ⟨hkey, hnew⟩ := List.mem_filter.mp hother
        exact ⟨hkey, by simpa using hnew⟩
    · rcases nodeWarnings_cases hwarning with ⟨hcode, -⟩ | ⟨hcode, -⟩ | ⟨hcode, -⟩ <;> cases hcode
  · rintro ⟨hkey, hnew⟩
    refine .inl ?_
    have hsome : ¬document.fragments.isEmpty = true := by
      rw [List.isEmpty_iff]
      rintro hnil
      rw [hnil] at hkey
      cases hkey
    rw [unusedFragments, if_neg hsome]
    refine List.mem_map.mpr ⟨name, List.mem_filter.mpr ⟨hkey, ?_⟩, rfl⟩
    simp [hnew]

/-- No fragment that is reported is referred to from the root or by another fragment of the document
that is not reported. -/
theorem not_warnsUnused_of_root (hplan : Plan.compile source document = .ok plan)
    (hname : name ∈ document.root.references) : ¬WarnsUnused source document name := by
  obtain ⟨hwell, -⟩ := Plan.compile_eq_ok_iff_expands.mp hplan
  rw [warnsUnused_iff hplan]
  rintro ⟨-, hnew⟩
  refine hnew (mem_reach_of_mem_work hname ?_)
  rw [Fragment.Table.has_iff_defines, hwell.table_defines_eq]
  exact hwell.rootKnown name hname

theorem not_warnsUnused_of_fragment (hplan : Plan.compile source document = .ok plan)
    {node : Rule.Node} (hnode : (owner, node) ∈ document.fragments)
    (howner : ¬WarnsUnused source document owner) (hname : name ∈ node.references) :
    ¬WarnsUnused source document name := by
  obtain ⟨hwell, -⟩ := Plan.compile_eq_ok_iff_expands.mp hplan
  have hdefines : Fragment.Defines source document owner node := .own hnode
  have hreached : owner ∈ reach (Fragment.collect source document).table
      document.root.references [] := by
    by_contra hnew
    exact howner ((warnsUnused_iff hplan).mpr ⟨List.mem_map_of_mem hnode, hnew⟩)
  rw [warnsUnused_iff hplan]
  rintro ⟨-, hnew⟩
  have hknown := hwell.fragmentsKnown owner node hdefines name hname
  rw [← hwell.table_defines_eq] at hdefines hknown
  exact hnew (reach_closed nofun hreached hdefines hname (Fragment.Table.has_iff_defines.mpr hknown))

/-! ## Without them -/

/-- Whether a fragment of a library that a document includes, directly or through libraries, refers
to a name. -/
def LibraryRefers (source : Fragment.Source) (document : Rule.Document) (name : String) : Prop :=
  ∃ owner library fragment node, Fragment.Reachable source document owner ∧
    source.Loads owner library ∧ (fragment, node) ∈ library.fragments ∧ name ∈ node.references

theorem mem_fragments_withoutUnused {node : Rule.Node} :
    (name, node) ∈ (withoutUnused source document).fragments ↔
      (name, node) ∈ document.fragments ∧ ¬WarnsUnused source document name := by
  rw [withoutUnused, List.mem_filter, Bool.not_eq_true', decide_eq_false_iff_not]

theorem reachable_withoutUnused_iff :
    Fragment.Reachable source (withoutUnused source document) name ↔
      Fragment.Reachable source document name :=
  ⟨.of_includes_eq rfl, .of_includes_eq rfl⟩

theorem defines_of_withoutUnused {node : Rule.Node}
    (h : Fragment.Defines source (withoutUnused source document) name node) :
    Fragment.Defines source document name node := by
  cases h with
  | own hmem => exact .own (mem_fragments_withoutUnused.mp hmem).1
  | library hreach hloads hmem =>
    exact .library (reachable_withoutUnused_iff.mp hreach) hloads hmem

theorem defines_withoutUnused {node : Rule.Node}
    (h : Fragment.Defines source document name node) (hkept : ¬WarnsUnused source document name) :
    Fragment.Defines source (withoutUnused source document) name node := by
  cases h with
  | own hmem => exact .own (mem_fragments_withoutUnused.mpr ⟨hmem, hkept⟩)
  | library hreach hloads hmem =>
    exact .library (reachable_withoutUnused_iff.mpr hreach) hloads hmem

/-- What is defined still is defined at one place, though maybe at another. -/
theorem exists_definedAt_of_withoutUnused {owner : Option String} {i : Nat}
    (h : Fragment.DefinedAt source (withoutUnused source document) owner i name) :
    ∃ j, Fragment.DefinedAt source document owner j name ∧ (owner ≠ none → j = i) := by
  cases h with
  | own hi =>
    obtain ⟨⟨_, node⟩, hmem, rfl⟩ := List.mem_map.mp (List.mem_of_getElem? hi)
    have hkey := List.mem_map_of_mem (f := Prod.fst) (mem_fragments_withoutUnused.mp hmem).1
    obtain ⟨j, hj⟩ := List.getElem?_of_mem hkey
    exact ⟨j, .own hj, fun hne => absurd rfl hne⟩
  | library hreach hloads hi =>
    exact ⟨i, .library (reachable_withoutUnused_iff.mp hreach) hloads hi, fun _ => rfl⟩

section

variable (hwell : Fragment.WellFormed source document)
include hwell

theorem definedOnce_withoutUnused {owner owner' : Option String} {i i' : Nat}
    (h : Fragment.DefinedAt source (withoutUnused source document) owner i name)
    (h' : Fragment.DefinedAt source (withoutUnused source document) owner' i' name) :
    owner = owner' ∧ i = i' := by
  obtain ⟨j, hj, hsame⟩ := exists_definedAt_of_withoutUnused h
  obtain ⟨j', hj', hsame'⟩ := exists_definedAt_of_withoutUnused h'
  obtain ⟨rfl, rfl⟩ := hwell.definedOnce _ _ _ _ _ hj hj'
  refine ⟨rfl, ?_⟩
  cases owner with
  | some owner => exact (hsame nofun).symm.trans (hsame' nofun)
  | none =>
    have hkeys : document.fragments.keys.Nodup := by
      have hnodup := Fragment.nodup_of_definedOnce [] hwell.definedOnce .nil (List.forall_mem_nil _)
      rwa [List.flatMap_nil, List.append_nil] at hnodup
    have hsublist : ((withoutUnused source document).fragments.keys).Sublist
        document.fragments.keys := List.filter_sublist.map _
    cases h with
    | own hi =>
      cases h' with
      | own hi' =>
        obtain ⟨hlt, -⟩ := List.getElem?_eq_some_iff.mp hi
        exact (List.getElem?_inj hlt (hkeys.sublist hsublist)).mp (hi.trans hi'.symm)

theorem collect_withoutUnused_problems :
    (Fragment.collect source (withoutUnused source document)).problems = [] := by
  refine (Fragment.collect_problems_eq_nil_iff _ _).mpr ⟨fun name hname => ?_, fun name hname => ?_, ?_⟩
  · exact hwell.loads name (reachable_withoutUnused_iff.mp hname)
  · exact hwell.includesAcyclic name (reachable_withoutUnused_iff.mp hname)
  · exact fun _ _ _ _ _ h h' => definedOnce_withoutUnused hwell h h'

end

/-- What is reported is not defined any more. -/
theorem not_defines_withoutUnused (hplan : Plan.compile source document = .ok plan)
    (hwarns : WarnsUnused source document name) (node : Rule.Node) :
    ¬Fragment.Defines source (withoutUnused source document) name node := by
  intro h
  cases h with
  | own hmem => exact (mem_fragments_withoutUnused.mp hmem).2 hwarns
  | library hreach hloads hmem =>
    obtain ⟨hwell, -⟩ := Plan.compile_eq_ok_iff_expands.mp hplan
    obtain ⟨i, hi⟩ := List.getElem?_of_mem ((warnsUnused_iff hplan).mp hwarns).1
    obtain ⟨j, hj⟩ := List.getElem?_of_mem (List.mem_map_of_mem (f := Prod.fst) hmem)
    have hlibrary : Fragment.DefinedAt source document _ j name :=
      .library (reachable_withoutUnused_iff.mp hreach) hloads hj
    exact nomatch (hwell.definedOnce _ _ _ _ _ (.own hi) hlibrary).1

/-- Without its unused fragments a document is well-formed, unless a library refers to them. -/
theorem wellFormed_withoutUnused_iff (hplan : Plan.compile source document = .ok plan) :
    Fragment.WellFormed source (withoutUnused source document) ↔
      ∀ name, WarnsUnused source document name → ¬LibraryRefers source document name := by
  obtain ⟨hwell, -⟩ := Plan.compile_eq_ok_iff_expands.mp hplan
  constructor
  · rintro h name hwarns ⟨owner, library, fragment, node, hreach, hloads, hmem, hname⟩
    have hnode : Fragment.Defines source (withoutUnused source document) fragment node :=
      .library (reachable_withoutUnused_iff.mpr hreach) hloads hmem
    obtain ⟨other, hother⟩ := h.fragmentsKnown fragment node hnode name hname
    exact not_defines_withoutUnused hplan hwarns other hother
  · intro hfree
    obtain ⟨hloads, hincludes, honce⟩ :=
      (Fragment.collect_problems_eq_nil_iff _ _).mp (collect_withoutUnused_problems hwell)
    refine ⟨hloads, hincludes, honce, fun name hname => ?_, fun owner node hnode name hname => ?_,
      fun name hcycle => ?_⟩
    · obtain ⟨node, hnode⟩ := hwell.rootKnown name hname
      exact ⟨node, defines_withoutUnused hnode (not_warnsUnused_of_root hplan hname)⟩
    · obtain ⟨other, hother⟩ :=
        hwell.fragmentsKnown owner node (defines_of_withoutUnused hnode) name hname
      refine ⟨other, defines_withoutUnused hother ?_⟩
      cases hnode with
      | own hmem =>
        obtain ⟨hmem, hkept⟩ := mem_fragments_withoutUnused.mp hmem
        exact not_warnsUnused_of_fragment hplan hmem hkept hname
      | library hreach hloads hmem =>
        exact fun hwarns => hfree name hwarns
          ⟨_, _, _, _, reachable_withoutUnused_iff.mp hreach, hloads, hmem, hname⟩
    · refine hwell.referencesAcyclic name (TransGen.mono ?_ _ _ hcycle)
      rintro a b ⟨node, hnode, hb, other, hother⟩
      exact ⟨node, defines_of_withoutUnused hnode, hb, other, defines_of_withoutUnused hother⟩

/-- **Unused fragments** that are reported of a document with a plan can be taken out, and the plan
stays the same, exactly if no fragment of a library refers to one of them. Where one does, its
reference is reported to name an unknown fragment, and there is no plan. -/
theorem compile_withoutUnused (hplan : Plan.compile source document = .ok plan) :
    (Plan.compile source (withoutUnused source document) = .ok plan ↔
      ∀ name, WarnsUnused source document name → ¬LibraryRefers source document name) ∧
    ∀ name, WarnsUnused source document name → LibraryRefers source document name →
      ∃ found path, Plan.compile source (withoutUnused source document) = .error found ∧
        (Fragment.Problem.unknown name).diagnostic path ∈ found := by
  obtain ⟨hwell, root, p, hexpands, hresolved, hlowers, hsame⟩ :=
    Plan.compile_eq_ok_iff_expands.mp hplan
  refine ⟨⟨fun h => ?_, fun hfree => ?_⟩, ?_⟩
  · obtain ⟨hwithout, -⟩ := Plan.compile_eq_ok_iff_expands.mp h
    exact (wellFormed_withoutUnused_iff hplan).mp hwithout
  · have hwithout := (wellFormed_withoutUnused_iff hplan).mpr hfree
    have hless := hwithout.expands_iff.mpr rfl
    have hmore := hless.mono fun _ _ => defines_of_withoutUnused
    rw [hwell.expands_iff.mp hmore, ← hwell.expands_iff.mp hexpands] at hless
    exact Plan.compile_eq_ok_iff_expands.mpr ⟨hwithout, root, p, hless, hresolved, hlowers, hsame⟩
  · rintro name hwarns ⟨owner, library, fragment, node, hreach, hloads, hmem, hname⟩
    have hnode : Fragment.Defines source (withoutUnused source document) fragment node :=
      .library (reachable_withoutUnused_iff.mpr hreach) hloads hmem
    have htable := Fragment.collect_table_defines_eq (collect_withoutUnused_problems hwell)
    have hnew : ¬(Fragment.collect source (withoutUnused source document)).table.has name = true := by
      rw [Fragment.Table.has_iff_defines, htable]
      exact fun ⟨other, hother⟩ => not_defines_withoutUnused hplan hwarns other hother
    rw [← htable] at hnode
    obtain ⟨origin, hentry⟩ := hnode
    obtain ⟨path, hpath⟩ := Fragment.exists_mem_unknownReferences origin hname hnew
    have hfound : (Fragment.Problem.unknown name).diagnostic path ∈
        Plan.findings (Fragment.bundle source (withoutUnused source document)) := by
      refine List.mem_append_left _ (List.mem_append_left _ (List.mem_append_right _ ?_))
      exact List.mem_append_right _ (List.mem_flatMap.mpr ⟨_, Entries.mem_of_get? hentry, hpath⟩)
    have herrors : Diagnostic.hasErrors
        (Plan.findings (Fragment.bundle source (withoutUnused source document))) = true :=
      List.any_eq_true.mpr ⟨_, hfound, Fragment.Problem.isError_diagnostic _ _⟩
    exact ⟨_, path, if_pos herrors, hfound⟩

/-! ## A library that refers to a document -/

/-- A source of a library with a total, which stands for the price of whoever includes it. -/
def totals : Fragment.Source :=
  .ofEntries [("totals",
    "\x7b\"fragments\":\x7b\"total\":\x7b\"kind\":\"fragment\",\"name\":\"price\"\x7d\x7d\x7d")]

theorem totals_loads : totals.Loads "totals" ⟨[], [("total", .fragment "price")]⟩ :=
  ⟨_, rfl, by cbv⟩

def priceNode : Rule.Node := .field ⟨.path "price", [], "price", false⟩

/-- A document that includes the totals. -/
def priced (root : Rule.Node) (fragments : Entries Rule.Node) : Rule.Document :=
  ⟨"1.2", .json, .json, ["totals"], fragments, root⟩

/-- What the document is with nothing included. -/
def pricedAlone : Rule.Document := ⟨"1.2", .json, .json, [], [], priceNode⟩

def pricePlan : Plan :=
  ⟨"1.2", .json, .json, .field ⟨.path ⟨false, [.key "price"]⟩, [], ⟨[.key "price"]⟩, false⟩⟩

theorem compile_of_bundle (h : Fragment.bundle source document = ⟨pricedAlone, []⟩) :
    Plan.compile source document = .ok pricePlan := by
  rw [Plan.compile, h]
  cbv

theorem lint_of_bundle (h : Fragment.bundle source document = ⟨pricedAlone, []⟩) :
    Lint.document source document = unusedFragments source document := by
  have hnodes : Check.inOrder (Check.findings pricedAlone ++ warnings pricedAlone.root) = [] := by
    cbv
  rw [Lint.document, h, hnodes, List.map_nil, List.append_nil, List.nil_append]

/-- Of a price that the root refers to as a library does, and a spare, the spare is taken out. -/
theorem compile_withoutUnused_spare :
    let document := priced (.fragment "price") [("price", priceNode), ("spare", .sequence [])]
    Plan.compile totals document = .ok pricePlan ∧ WarnsUnused totals document "spare" ∧
      ¬LibraryRefers totals document "spare" ∧
        Plan.compile totals (withoutUnused totals document) = .ok pricePlan := by
  intro document
  have hbundle : Fragment.bundle totals document = ⟨pricedAlone, []⟩ := by
    rw [Fragment.bundle, Fragment.collect_of_include rfl totals_loads rfl]
    cbv
  have hlint : Lint.document totals document =
      [(Warning.unusedFragment "spare").diagnostic "fragments.spare"] := by
    rw [lint_of_bundle hbundle, unusedFragments, Fragment.collect_of_include rfl totals_loads rfl]
    cbv
  have hless : withoutUnused totals document =
      priced (.fragment "price") [("price", priceNode)] := by
    simp only [withoutUnused, WarnsUnused, hlint]
    cbv
  have hbundle' : Fragment.bundle totals (withoutUnused totals document) = ⟨pricedAlone, []⟩ := by
    rw [hless, Fragment.bundle, Fragment.collect_of_include rfl totals_loads rfl]
    cbv
  have hwarns : WarnsUnused totals document "spare" := by
    rw [WarnsUnused, hlint]
    exact List.mem_singleton.mpr rfl
  have hplan := compile_of_bundle hbundle
  have hplan' := compile_of_bundle hbundle'
  exact ⟨hplan, hwarns, (compile_withoutUnused hplan).1.mp hplan' _ hwarns, hplan'⟩

/-- What is gathered of a document with no fragments of its own. -/
def totalTable : Fragment.Table :=
  [("total", ⟨.fragment "price", Rule.fragmentPlace "totals:" "total"⟩)]

/-- A price that only a library refers to is taken out, and what the library refers to is unknown
then. -/
theorem compile_withoutUnused_price :
    let document := priced priceNode [("price", priceNode)]
    Plan.compile totals document = .ok pricePlan ∧ WarnsUnused totals document "price" ∧
      Plan.compile totals (withoutUnused totals document) =
        .error [(Fragment.Problem.unknown "price").diagnostic "totals:fragments.total"] := by
  intro document
  have hbundle : Fragment.bundle totals document = ⟨pricedAlone, []⟩ := by
    rw [Fragment.bundle, Fragment.collect_of_include rfl totals_loads rfl]
    cbv
  have hlint : Lint.document totals document =
      [(Warning.unusedFragment "price").diagnostic "fragments.price"] := by
    rw [lint_of_bundle hbundle, unusedFragments, Fragment.collect_of_include rfl totals_loads rfl]
    cbv
  have hless : withoutUnused totals document = priced priceNode [] := by
    simp only [withoutUnused, WarnsUnused, hlint]
    cbv
  have hcollect : Fragment.collect totals (priced priceNode []) = ⟨totalTable, ["totals"], []⟩ := by
    rw [Fragment.collect_of_include rfl totals_loads rfl]
    rfl
  have hunknown : Fragment.checkReferences totalTable priceNode =
      [(Fragment.Problem.unknown "price").diagnostic "totals:fragments.total"] := by rfl
  have horder : (Fragment.order totalTable).problems = [] := by cbv
  have hresolved : Check.resolved pricedAlone = [] := by cbv
  have hfound : Plan.findings (Fragment.bundle totals (priced priceNode [])) =
      [(Fragment.Problem.unknown "price").diagnostic "totals:fragments.total"] := by
    have hproblems : (Fragment.bundle totals (priced priceNode [])).problems =
        [(Fragment.Problem.unknown "price").diagnostic "totals:fragments.total"] := by
      rw [Fragment.bundle, hcollect]
      exact (congrArg₂ _ hunknown horder).trans (List.append_nil _)
    exact (congrArg₂ _ hproblems hresolved).trans (List.append_nil _)
  refine ⟨compile_of_bundle hbundle, ?_, ?_⟩
  · rw [WarnsUnused, hlint]
    exact List.mem_singleton.mpr rfl
  · rw [hless, Plan.compile, hfound]
    rfl

end Lint

end Remap
