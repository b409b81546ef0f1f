import Mathlib.Data.List.Nodup
import Mathlib.Data.List.Pairwise
import Remap.Proofs.Entries
import Remap.Proofs.Fragment.Graph
import Remap.Proofs.Rule.Reading

/-!
# Gathering libraries

Libraries are gathered depth first off a list of pending ones. `Gathers` tells the same story by
recursion on what includes what: the libraries that a library includes are gathered before those
that wait behind it.
-/

namespace Remap.Fragment

open Relation

theorem Problem.isError_diagnostic (problem : Problem) (path : String) :
    (problem.diagnostic path).isError := by
  cases problem <;> rfl

/-! ## Defining fragments -/

/-- The definitions that fragments of an owner make. -/
def definitions (owner : String) (fragments : Entries Rule.Node) : Table :=
  fragments.map fun (name, node) => (name, ⟨node, Rule.fragmentPlace owner name⟩)

@[simp] theorem keys_definitions (owner : String) (fragments : Entries Rule.Node) :
    Entries.keys (definitions owner fragments) = fragments.keys := by
  simp [definitions, Entries.keys, Function.comp_def]

namespace Gathered

theorem define_of_mem {g : Gathered} {name : String} (owner : String) (node : Rule.Node)
    (h : name ∈ g.table.keys) : ∃ d, d.isError ∧ g.define owner name node = g.report [d] := by
  obtain ⟨first, hfirst⟩ := Entries.get?_of_mem_keys h
  simp only [define, hfirst]
  exact ⟨_, Problem.isError_diagnostic _ _, rfl⟩

theorem define_of_notMem {g : Gathered} {owner name : String} {node : Rule.Node}
    (h : name ∉ g.table.keys) :
    g.define owner name node = { g with table := g.table ++ definitions owner [(name, node)] } := by
  simp only [define, Entries.get?_eq_none_iff.mpr h, definitions, List.map_cons, List.map_nil]

theorem problems_report_ne_nil {g : Gathered} {ds : List Diagnostic} (h : ds ≠ []) :
    (g.report ds).problems ≠ [] :=
  List.append_ne_nil_of_right_ne_nil _ h

theorem problems_isPrefix_defineAll (g : Gathered) (owner : String)
    (fragments : Entries Rule.Node) : g.problems <+: (g.defineAll owner fragments).problems := by
  induction fragments generalizing g with
  | nil => exact List.prefix_rfl
  | cons e rest ih =>
    obtain ⟨name, node⟩ := e
    refine List.IsPrefix.trans ?_ (ih (g.define owner name node))
    by_cases h : name ∈ g.table.keys
    · obtain ⟨d, -, hd⟩ := define_of_mem owner node h
      rw [hd]
      exact List.prefix_append ..
    · simp only [define_of_notMem h, List.prefix_rfl]

theorem isError_of_mem_problems_defineAll {g : Gathered} {owner : String}
    {fragments : Entries Rule.Node} (hg : ∀ d ∈ g.problems, d.isError) :
    ∀ d ∈ (g.defineAll owner fragments).problems, d.isError := by
  induction fragments generalizing g with
  | nil => exact hg
  | cons e rest ih =>
    obtain ⟨name, node⟩ := e
    refine ih (g := g.define owner name node) ?_
    by_cases h : name ∈ g.table.keys
    · obtain ⟨problem, hproblem, heq⟩ := define_of_mem owner node h
      rw [heq]
      intro d hd
      rcases List.mem_append.mp hd with hd | hd
      · exact hg d hd
      · rwa [List.mem_singleton.mp hd]
    · rw [define_of_notMem h]
      exact hg

/-- Fragments of new and different names are added to the table. -/
theorem defineAll_of_nodup {g : Gathered} {owner : String} {fragments : Entries Rule.Node}
    (h : (g.table.keys ++ fragments.keys).Nodup) :
    g.defineAll owner fragments = { g with table := g.table ++ definitions owner fragments } := by
  induction fragments generalizing g with
  | nil => simp [defineAll, definitions]
  | cons e rest ih =>
    obtain ⟨name, node⟩ := e
    have hnew : name ∉ g.table.keys := fun hmem =>
      (List.disjoint_of_nodup_append h) hmem List.mem_cons_self
    have hrest : (({ g with table := g.table ++ definitions owner [(name, node)] } :
        Gathered).table.keys ++ Entries.keys rest).Nodup := by
      simpa [Entries.keys, definitions, List.append_assoc] using h
    change (g.define owner name node).defineAll owner rest = _
    rw [define_of_notMem hnew, ih hrest]
    simp [definitions, List.append_assoc]

/-- Fragments that are added without a problem have new and different names. -/
theorem nodup_of_defineAll {g : Gathered} {owner : String} {fragments : Entries Rule.Node}
    (hkeys : g.table.keys.Nodup) (h : (g.defineAll owner fragments).problems = []) :
    (g.table.keys ++ fragments.keys).Nodup := by
  induction fragments generalizing g with
  | nil => simpa [Entries.keys] using hkeys
  | cons e rest ih =>
    obtain ⟨name, node⟩ := e
    change ((g.define owner name node).defineAll owner rest).problems = [] at h
    by_cases hmem : name ∈ g.table.keys
    · obtain ⟨d, -, hd⟩ := define_of_mem owner node hmem
      have hgrow := problems_isPrefix_defineAll (g.define owner name node) owner rest
      rw [h, hd] at hgrow
      exact absurd (List.prefix_nil.mp hgrow) (problems_report_ne_nil (List.cons_ne_nil _ _))
    · rw [define_of_notMem hmem] at h
      have hone : (g.table ++ definitions owner [(name, node)]).keys.Nodup := by
        rw [Entries.keys_append, keys_definitions]
        exact hkeys.append (List.nodup_singleton _) (List.disjoint_singleton.mpr hmem)
      simpa [Entries.keys, definitions, List.append_assoc] using ih hone h

/-- What has been gathered, with one more library asked for. -/
def ask (g : Gathered) (name : String) : Gathered := { g with asked := g.asked ++ [name] }

end Gathered

/-! ## Depth first -/

/-- How a pending library is dealt with that leads to no others. -/
inductive Passes (source : Source) (g : Gathered) (p : Pending) : Gathered → Prop where
  /-- The library is one of those that led to it. -/
  | cycle : p.name ∈ p.chain →
      Passes source g p (g.report [(Problem.includeCycle
        (p.chain.dropWhile (· != p.name) ++ [p.name])).diagnostic p.path])
  /-- The library has been asked for before. -/
  | again : p.name ∉ p.chain → p.name ∈ g.asked → Passes source g p g
  | unavailable {cause : Unavailable} : p.name ∉ p.chain → p.name ∉ g.asked →
      source.load p.name = .error cause →
      Passes source g p
        ((g.ask p.name).report [(Problem.unavailable cause).diagnostic p.path])
  | malformed {text : String} {faults : List Diagnostic} : p.name ∉ p.chain → p.name ∉ g.asked →
      source.load p.name = .ok text → Rule.Library.parse p.name text = .error faults →
      Passes source g p ((g.ask p.name).report faults)

/-- How pending libraries are gathered, one after the other. -/
inductive Gathers (source : Source) : Gathered → List Pending → Gathered → Prop where
  | done {g : Gathered} : Gathers source g [] g
  | pass {g inner g' : Gathered} {p : Pending} {rest : List Pending} :
      Passes source g p inner → Gathers source inner rest g' → Gathers source g (p :: rest) g'
  /-- The library loads, and those that it includes come next. -/
  | load {g inner g' : Gathered} {p : Pending} {rest : List Pending} {library : Rule.Library} :
      p.name ∉ p.chain → p.name ∉ g.asked → source.Loads p.name library →
      Gathers source ((g.ask p.name).defineAll (p.name ++ ":") library.fragments)
        (p.includes library) inner →
      Gathers source inner rest g' → Gathers source g (p :: rest) g'

variable {source : Source} {document : Rule.Document}

/-- Gathering two lists of libraries one after the other. -/
theorem Gathers.of_append {g g' : Gathered} {front back : List Pending}
    (h : Gathers source g (front ++ back) g') :
    ∃ inner, Gathers source g front inner ∧ Gathers source inner back g' := by
  generalize hwork : front ++ back = work at h
  induction h generalizing front with
  | done =>
    obtain ⟨rfl, rfl⟩ := List.append_eq_nil_iff.mp hwork
    exact ⟨_, .done, .done⟩
  | pass hpass hrest ih =>
    cases front with
    | nil => exact ⟨_, .done, by rw [← List.nil_append back, hwork]; exact .pass hpass hrest⟩
    | cons q front =>
      obtain ⟨rfl, htail⟩ := List.cons.inj hwork
      obtain ⟨inner, hfront, hback⟩ := ih htail
      exact ⟨inner, .pass hpass hfront, hback⟩
  | load hchain hnew hloads hincludes hrest _ ih =>
    cases front with
    | nil => exact ⟨_, .done, by
      rw [← List.nil_append back, hwork]; exact .load hchain hnew hloads hincludes hrest⟩
    | cons q front =>
      obtain ⟨rfl, htail⟩ := List.cons.inj hwork
      obtain ⟨inner, hfront, hback⟩ := ih htail
      exact ⟨inner, .load hchain hnew hloads hincludes hfront, hback⟩

/-- Gathering off a list of pending libraries. -/
theorem gathers (g : Gathered) (work : List Pending)
    (h : ∀ p ∈ work, MayBeAsked source document p.name) :
    Gathers source g work (gather source document g work h) := by
  fun_induction gather source document g work h with
  | case1 => exact .done
  | case2 g p rest h hrest hchain cycle _ ih => exact .pass (.cycle (by simpa using hchain)) ih
  | case3 g p rest h hrest hchain hasked _ ih =>
    exact .pass (.again (by simpa using hchain) (by simpa using hasked)) ih
  | case4 g p rest h hrest hchain hnew asked cause hload _ ih =>
    exact .pass (.unavailable (by simpa using hchain) (by simpa using hnew) hload) ih
  | case5 g p rest h hrest hchain hnew asked text hload faults hparse _ ih =>
    exact .pass (.malformed (by simpa using hchain) (by simpa using hnew) hload hparse) ih
  | case6 g p rest h hrest hchain hnew asked text hload library hparse hall _ ih =>
    obtain ⟨inner, hincludes, hback⟩ := ih.of_append
    exact .load (by simpa using hchain) (by simpa using hnew) ⟨text, hload, hparse⟩ hincludes hback

theorem Passes.problems_isPrefix {g g' : Gathered} {p : Pending}
    (h : Passes source g p g') : g.problems <+: g'.problems := by
  cases h with
  | cycle | unavailable | malformed => exact List.prefix_append ..
  | again => exact List.prefix_rfl

theorem Gathers.problems_isPrefix {g g' : Gathered} {work : List Pending}
    (h : Gathers source g work g') : g.problems <+: g'.problems := by
  induction h with
  | done => exact List.prefix_rfl
  | pass hpass _ ih => exact hpass.problems_isPrefix.trans ih
  | load _ _ _ _ _ ihincludes ihrest =>
    refine List.IsPrefix.trans ?_ (ihincludes.trans ihrest)
    exact Gathered.problems_isPrefix_defineAll (Gathered.ask _ _) _ _

/-- All that is reported while libraries are gathered is an error. -/
theorem Gathers.isError_of_mem_problems {g g' : Gathered} {work : List Pending}
    (h : Gathers source g work g') (hg : ∀ d ∈ g.problems, d.isError) :
    ∀ d ∈ g'.problems, d.isError := by
  induction h with
  | done => exact hg
  | @pass g inner g' p rest hpass _ ih =>
    refine ih ?_
    cases hpass with
    | again => exact hg
    | cycle | unavailable =>
      intro d hd
      rcases List.mem_append.mp hd with hd | hd
      · exact hg d hd
      · rw [List.mem_singleton.mp hd]
        exact Problem.isError_diagnostic ..
    | malformed _ _ _ hparse =>
      intro d hd
      rcases List.mem_append.mp hd with hd | hd
      · exact hg d hd
      · exact Rule.Library.isError_of_mem_faults hparse d hd
  | load _ _ _ _ _ ihincludes ihrest =>
    exact ihrest (ihincludes (Gathered.isError_of_mem_problems_defineAll hg))

theorem Gathers.asked_subset {g g' : Gathered} {work : List Pending}
    (h : Gathers source g work g') : g.asked ⊆ g'.asked := by
  induction h with
  | done => exact List.Subset.refl _
  | pass hpass _ ih =>
    refine List.Subset.trans ?_ ih
    cases hpass with
    | cycle | again => exact List.Subset.refl _
    | unavailable | malformed => exact List.subset_append_left ..
  | load _ _ _ _ _ ihincludes ihrest =>
    refine List.Subset.trans ?_ (List.Subset.trans ihincludes ihrest)
    rw [Gathered.asked_defineAll]
    exact List.subset_append_left ..

/-! ## Gathering without problems -/

/-- Where no problem is reported, only a library that has been asked for is passed over. -/
theorem Passes.of_problems_eq_nil {g g' : Gathered} {p : Pending}
    (h : Passes source g p g') (hproblems : g'.problems = []) :
    g' = g ∧ p.name ∉ p.chain ∧ p.name ∈ g.asked := by
  cases h with
  | again hchain hasked => exact ⟨rfl, hchain, hasked⟩
  | cycle | unavailable =>
    exact absurd hproblems (Gathered.problems_report_ne_nil (List.cons_ne_nil _ _))
  | malformed _ _ _ hparse =>
    exact absurd hproblems (Gathered.problems_report_ne_nil (Rule.Library.faults_ne_nil hparse))

/-- Libraries that have been asked for, those of a chain aside, are done with: they load, what they
include has been asked for too, and no path out of them goes on for ever. -/
def Settled (source : Source) (chain : List String) (g : Gathered) : Prop :=
  ∀ name ∈ g.asked, name ∉ chain →
    Acc (fun b a => source.Includes a b) name ∧
      ∃ library, source.Loads name library ∧ ∀ b ∈ library.includes, b ∈ g.asked

/-- Gathering settles the libraries that it meets. The chain holds the libraries whose includes are
being gathered, all of which meet again further up. -/
theorem Gathers.settled {g g' : Gathered} {work : List Pending}
    (h : Gathers source g work g') {chain : List String} (hproblems : g'.problems = [])
    (hchain : ∀ p ∈ work, p.chain = chain) (hg : Settled source chain g) :
    Settled source chain g' ∧ ∀ p ∈ work, p.name ∈ g'.asked ∧ p.name ∉ chain := by
  induction h generalizing chain with
  | done => exact ⟨hg, fun p hp => nomatch hp⟩
  | @pass g inner g' p rest hpass hrest ih =>
    have hinner := List.prefix_nil.mp (hproblems ▸ hrest.problems_isPrefix)
    obtain ⟨rfl, hnotMem, hasked⟩ := hpass.of_problems_eq_nil hinner
    rw [hchain p List.mem_cons_self] at hnotMem
    obtain ⟨hsettled, hwork⟩ := ih hproblems (fun q hq => hchain q (List.mem_cons_of_mem _ hq)) hg
    refine ⟨hsettled, fun q hq => ?_⟩
    rcases List.mem_cons.mp hq with rfl | hq
    · exact ⟨hrest.asked_subset hasked, hnotMem⟩
    · exact hwork q hq
  | @load g inner g' p rest library hnotMem hnew hloads hincludes hrest ihincludes ihrest =>
    have hinner := List.prefix_nil.mp (hproblems ▸ hrest.problems_isPrefix)
    have hp : p.chain = chain := hchain p List.mem_cons_self
    rw [hp] at hnotMem
    have hask : Settled source (chain ++ [p.name])
        ((g.ask p.name).defineAll (p.name ++ ":") library.fragments) := by
      intro name hname hnot
      rw [Gathered.asked_defineAll, Gathered.ask, List.mem_append] at hname
      rw [List.mem_append, not_or] at hnot
      obtain ⟨hacc, other, hother, hsub⟩ := hg name (hname.resolve_right hnot.2) hnot.1
      refine ⟨hacc, other, hother, fun b hb => ?_⟩
      rw [Gathered.asked_defineAll]
      exact List.mem_append_left _ (hsub b hb)
    have hnext : ∀ q ∈ p.includes library, q.chain = chain ++ [p.name] := by
      intro q hq
      obtain ⟨name, -, rfl⟩ := List.mem_map.mp hq
      rw [hp]
    obtain ⟨hsettled, hbelow⟩ := ihincludes hinner hnext hask
    have hbelow' : ∀ b ∈ library.includes, b ∈ inner.asked ∧ b ∉ chain ++ [p.name] := fun b hb =>
      hbelow ⟨b, p.chain ++ [p.name], p.path⟩ (List.mem_map.mpr ⟨b, hb, rfl⟩)
    -- All that the library includes is settled, and so is the library itself.
    have hinnerSettled : Settled source chain inner := by
      intro name hname hnot
      by_cases heq : name = p.name
      · subst heq
        refine ⟨.intro _ fun b hb => ?_, library, hloads, fun b hb => (hbelow' b hb).1⟩
        obtain ⟨other, hother, hb⟩ := hb
        cases hother.unique hloads
        exact (hsettled b (hbelow' b hb).1 (hbelow' b hb).2).1
      · exact hsettled name hname (by simp [hnot, heq])
    obtain ⟨hfinal, hwork⟩ :=
      ihrest hproblems (fun q hq => hchain q (List.mem_cons_of_mem _ hq)) hinnerSettled
    refine ⟨hfinal, fun q hq => ?_⟩
    rcases List.mem_cons.mp hq with rfl | hq
    · refine ⟨hrest.asked_subset (hincludes.asked_subset ?_), hnotMem⟩
      rw [Gathered.asked_defineAll]
      exact List.mem_append_right _ (List.mem_singleton_self _)
    · exact hwork q hq

/-! ## The table -/

/-- The table holds the definitions of a document, and then those of the libraries that loaded, in
the order in which they were asked for. -/
def Tabulated (source : Source) (document : Rule.Document) (g : Gathered) : Prop :=
  ∃ loaded : List (String × Rule.Library), g.asked = loaded.map (·.1) ∧ g.asked.Nodup ∧
    (∀ l ∈ loaded, Reachable source document l.1 ∧ source.Loads l.1 l.2) ∧
    g.table = definitions "" document.fragments ++
      loaded.flatMap fun l => definitions (l.1 ++ ":") l.2.fragments

theorem Tabulated.load {g : Gathered} {name : String} {library : Rule.Library}
    (hg : Tabulated source document g)
    (hreach : Reachable source document name) (hloads : source.Loads name library)
    (hnew : name ∉ g.asked) (hnodup : (g.table.keys ++ library.fragments.keys).Nodup) :
    Tabulated source document ((g.ask name).defineAll (name ++ ":") library.fragments) := by
  obtain ⟨loaded, hasked, hdistinct, hall, htable⟩ := hg
  rw [Gathered.defineAll_of_nodup (g := g.ask name) hnodup]
  refine ⟨loaded ++ [(name, library)], ?_, ?_, ?_, ?_⟩
  · simp [Gathered.ask, hasked]
  · exact hdistinct.append (List.nodup_singleton _) (List.disjoint_singleton.mpr hnew)
  · intro l hl
    rcases List.mem_append.mp hl with hl | hl
    · exact hall l hl
    · cases List.mem_singleton.mp hl
      exact ⟨hreach, hloads⟩
  · simp [Gathered.ask, htable]

/-- Where no problem is reported, all that loads is in the table, and no name is there twice. -/
theorem Gathers.tabulated {g g' : Gathered} {work : List Pending}
    (h : Gathers source g work g') (hproblems : g'.problems = [])
    (hreach : ∀ p ∈ work, Reachable source document p.name)
    (hg : Tabulated source document g) (hkeys : g.table.keys.Nodup) :
    Tabulated source document g' ∧ g'.table.keys.Nodup := by
  induction h with
  | done => exact ⟨hg, hkeys⟩
  | @pass g inner g' p rest hpass hrest ih =>
    have hinner := List.prefix_nil.mp (hproblems ▸ hrest.problems_isPrefix)
    obtain ⟨rfl, -, -⟩ := hpass.of_problems_eq_nil hinner
    exact ih hproblems (fun q hq => hreach q (List.mem_cons_of_mem _ hq)) hg hkeys
  | @load g inner g' p rest library _ hnew hloads hincludes hrest ihincludes ihrest =>
    have hinner := List.prefix_nil.mp (hproblems ▸ hrest.problems_isPrefix)
    have hdefine := List.prefix_nil.mp (hinner ▸ hincludes.problems_isPrefix)
    have hp := hreach p List.mem_cons_self
    have hnodup := Gathered.nodup_of_defineAll (g := g.ask p.name) hkeys hdefine
    have hbelow : ∀ q ∈ p.includes library, Reachable source document q.name := by
      intro q hq
      obtain ⟨name, hname, rfl⟩ := List.mem_map.mp hq
      exact .through hp ⟨library, hloads, hname⟩
    obtain ⟨hinnerTable, hinnerKeys⟩ := ihincludes hinner hbelow
      (hg.load hp hloads hnew hnodup) (by
        rw [Gathered.defineAll_of_nodup hnodup, Entries.keys_append, keys_definitions]
        exact hnodup)
    exact ihrest hproblems (fun q hq => hreach q (List.mem_cons_of_mem _ hq)) hinnerTable hinnerKeys

private theorem keys_table (document : Rule.Document) (loaded : List (String × Rule.Library)) :
    Entries.keys (definitions "" document.fragments ++
      loaded.flatMap fun l => definitions (l.1 ++ ":") l.2.fragments) =
      document.fragments.keys ++ loaded.flatMap fun l => l.2.fragments.keys := by
  simp only [Entries.keys_append, Entries.keys_flatMap, keys_definitions]

private theorem nodup_of_getElem? {names : List String}
    (h : ∀ (i j : Nat) (name : String), names[i]? = some name → names[j]? = some name → i = j) :
    names.Nodup := by
  rw [List.nodup_iff_getElem?_ne_getElem?]
  intro i j hij hj heq
  rw [List.getElem?_eq_getElem hj] at heq
  exact absurd (h i j _ heq (List.getElem?_eq_getElem hj)) (Nat.ne_of_lt hij)

/-- Where no name is defined at two places, no name occurs twice in what different libraries and
the document define. -/
theorem nodup_of_definedOnce (loaded : List (String × Rule.Library))
    (honce : ∀ owner i owner' i' name, DefinedAt source document owner i name →
      DefinedAt source document owner' i' name → owner = owner' ∧ i = i')
    (hdistinct : (loaded.map (·.1)).Nodup)
    (hall : ∀ l ∈ loaded, Reachable source document l.1 ∧ source.Loads l.1 l.2) :
    (document.fragments.keys ++ loaded.flatMap fun l => l.2.fragments.keys).Nodup := by
  have defined {l : String × Rule.Library} (hl : l ∈ loaded) {i : Nat} {name : String}
      (h : l.2.fragments.keys[i]? = some name) : DefinedAt source document (some l.1) i name :=
    .library (hall l hl).1 (hall l hl).2 h
  refine List.nodup_append.mpr ⟨?_, List.nodup_flatMap.mpr ⟨fun l hl => ?_, ?_⟩, ?_⟩
  · exact nodup_of_getElem? fun i j name hi hj => (honce _ _ _ _ name (.own hi) (.own hj)).2
  · exact nodup_of_getElem? fun i j name hi hj =>
      (honce _ _ _ _ name (defined hl hi) (defined hl hj)).2
  · refine (List.pairwise_map.mp hdistinct).imp_of_mem fun {a b} ha hb hne name hna hnb => ?_
    obtain ⟨i, hi⟩ := List.getElem?_of_mem hna
    obtain ⟨j, hj⟩ := List.getElem?_of_mem hnb
    exact hne (Option.some.inj (honce _ _ _ _ name (defined ha hi) (defined hb hj)).1)
  · rintro name hown _ hlib rfl
    obtain ⟨l, hl, hname⟩ := List.mem_flatMap.mp hlib
    obtain ⟨i, hi⟩ := List.getElem?_of_mem hown
    obtain ⟨j, hj⟩ := List.getElem?_of_mem hname
    exact nomatch (honce _ _ _ _ name (.own hi) (defined hl hj)).1

/-- Libraries that load, include each other in no cycle and define no name twice are gathered
without problems. The members of a chain all lead to the library that waits. -/
theorem Gathers.problems_eq_nil {g g' : Gathered} {work : List Pending}
    (h : Gathers source g work g')
    (hloads : ∀ name, Reachable source document name → ∃ library, source.Loads name library)
    (hacyclic : ∀ name, Reachable source document name → ¬ TransGen source.Includes name name)
    (honce : ∀ owner i owner' i' name, DefinedAt source document owner i name →
      DefinedAt source document owner' i' name → owner = owner' ∧ i = i')
    (hwork : ∀ p ∈ work, Reachable source document p.name ∧
      ∀ a ∈ p.chain, TransGen source.Includes a p.name)
    (hg : Tabulated source document g) (hproblems : g.problems = []) :
    Tabulated source document g' ∧ g'.problems = [] := by
  induction h with
  | done => exact ⟨hg, hproblems⟩
  | @pass g inner g' p rest hpass _ ih =>
    obtain ⟨hreach, hchain⟩ := hwork p List.mem_cons_self
    obtain ⟨library, text, hload, hparse⟩ := hloads p.name hreach
    have hrest := fun q hq => hwork q (List.mem_cons_of_mem p hq)
    cases hpass with
    | cycle hmem => exact absurd (hchain _ hmem) (hacyclic _ hreach)
    | again => exact ih hrest hg hproblems
    | unavailable _ _ hnone => rw [hload] at hnone; cases hnone
    | malformed _ _ hload' hparse' =>
      rw [hload] at hload'
      cases hload'
      rw [hparse] at hparse'
      cases hparse'
  | @load g inner g' p rest library hchain hnew hlib _ _ ihincludes ihrest =>
    obtain ⟨hreach, hpath⟩ := hwork p List.mem_cons_self
    have hnodup : (g.table.keys ++ library.fragments.keys).Nodup := by
      obtain ⟨loaded, hasked, hdistinct, hall, htable⟩ := hg
      have h := nodup_of_definedOnce (loaded ++ [(p.name, library)]) honce
        (by
          rw [List.map_append, ← hasked]
          exact hdistinct.append (List.nodup_singleton _) (List.disjoint_singleton.mpr hnew))
        (by
          intro l hl
          rcases List.mem_append.mp hl with hl | hl
          · exact hall l hl
          · cases List.mem_singleton.mp hl
            exact ⟨hreach, hlib⟩)
      rw [htable, keys_table]
      simpa [List.append_assoc] using h
    have hdefined := hg.load hreach hlib hnew hnodup
    rw [Gathered.defineAll_of_nodup (g := g.ask p.name) hnodup] at hdefined ihincludes
    obtain ⟨hinner, hinnerProblems⟩ := ihincludes (by
      intro q hq
      obtain ⟨name, hname, rfl⟩ := List.mem_map.mp hq
      have hedge : source.Includes p.name name := ⟨library, hlib, hname⟩
      refine ⟨.through hreach hedge, fun a ha => ?_⟩
      rcases List.mem_append.mp ha with ha | ha
      · exact (hpath a ha).tail hedge
      · cases List.mem_singleton.mp ha
        exact .single hedge) hdefined hproblems
    exact ihrest (fun q hq => hwork q (List.mem_cons_of_mem _ hq)) hinner hinnerProblems

/-- A table without a name twice holds each name that is defined from one place. -/
theorem definedOnce_of_nodup {loaded : List (String × Rule.Library)}
    (hall : ∀ l ∈ loaded, source.Loads l.1 l.2)
    (hcover : ∀ name, Reachable source document name → name ∈ loaded.map (·.1))
    (hnodup : (document.fragments.keys ++ loaded.flatMap fun l => l.2.fragments.keys).Nodup)
    {owner owner' : Option String} {i i' : Nat} {name : String}
    (h : DefinedAt source document owner i name) (h' : DefinedAt source document owner' i' name) :
    owner = owner' ∧ i = i' := by
  obtain ⟨hown, hlib, hdisjoint⟩ := List.nodup_append.mp hnodup
  obtain ⟨heach, hpairs⟩ := List.nodup_flatMap.mp hlib
  have entry {owner : String} {library : Rule.Library}
      (hreach : Reachable source document owner) (hloads : source.Loads owner library) :
      (owner, library) ∈ loaded := by
    obtain ⟨l, hl, rfl⟩ := List.mem_map.mp (hcover owner hreach)
    rw [hloads.unique (hall l hl)]
    exact hl
  have position {names : List String} (hn : names.Nodup) {i j : Nat} (hi : names[i]? = some name)
      (hj : names[j]? = some name) : i = j :=
    (List.getElem?_inj (List.getElem?_eq_some_iff.mp hi).1 hn).mp (hi.trans hj.symm)
  cases h with
  | own hi =>
    cases h' with
    | own hj => exact ⟨rfl, position hown hi hj⟩
    | library hreach hloads hj =>
      exact absurd rfl (hdisjoint name (List.mem_of_getElem? hi) name
        (List.mem_flatMap.mpr ⟨_, entry hreach hloads, List.mem_of_getElem? hj⟩))
  | @library a la _ _ hreach hloads hi =>
    cases h' with
    | own hj =>
      exact absurd rfl (hdisjoint name (List.mem_of_getElem? hj) name
        (List.mem_flatMap.mpr ⟨_, entry hreach hloads, List.mem_of_getElem? hi⟩))
    | @library b lb _ _ hreach' hloads' hj =>
      by_cases hab : a = b
      · subst hab
        cases hloads.unique hloads'
        exact ⟨rfl, position (heach _ (entry hreach hloads)) hi hj⟩
      · have : Std.Symm (Function.onFun List.Disjoint
            fun l : String × Rule.Library => l.2.fragments.keys) :=
          ⟨fun _ _ h _ hx hy => h hy hx⟩
        have hdisj := hpairs.forall (entry hreach hloads) (entry hreach' hloads')
          fun heq => hab (congrArg Prod.fst heq)
        exact absurd (List.mem_of_getElem? hj) (hdisj (List.mem_of_getElem? hi))

/-! ## The libraries of a document -/

/-- The libraries of a document as they are still to be loaded. -/
def topIncludes (document : Rule.Document) : List Pending :=
  document.includes.zipIdx.map fun (name, i) => ⟨name, [], "includes" ++ Rule.Step.indexText i⟩

private theorem defineAll_own (h : document.fragments.keys.Nodup) :
    (⟨[], [], []⟩ : Gathered).defineAll "" document.fragments =
      ⟨definitions "" document.fragments, [], []⟩ :=
  Gathered.defineAll_of_nodup (g := ⟨[], [], []⟩) h

private theorem tabulated_own (source : Source) (document : Rule.Document) :
    Tabulated source document ⟨definitions "" document.fragments, [], []⟩ :=
  ⟨[], rfl, List.nodup_nil, fun _ hl => absurd hl List.not_mem_nil, by simp⟩

theorem collect_gathers (source : Source) (document : Rule.Document) :
    Gathers source ((⟨[], [], []⟩ : Gathered).defineAll "" document.fragments)
      (topIncludes document) (collect source document) :=
  gathers ..

/-- All that is reported of the libraries and fragments of a document is an error. -/
theorem isError_of_mem_collect_problems :
    ∀ d ∈ (collect source document).problems, d.isError := by
  refine (collect_gathers source document).isError_of_mem_problems ?_
  exact Gathered.isError_of_mem_problems_defineAll fun d hd => absurd hd List.not_mem_nil

theorem mem_topIncludes {p : Pending}
    (h : p ∈ topIncludes document) : p.name ∈ document.includes ∧ p.chain = [] := by
  obtain ⟨⟨name, i⟩, hmem, rfl⟩ := List.mem_map.mp h
  exact ⟨List.fst_mem_of_mem_zipIdx hmem, rfl⟩

private theorem nodup_own (hproblems : (collect source document).problems = []) :
    document.fragments.keys.Nodup := by
  have hstart := (collect_gathers source document).problems_isPrefix
  rw [hproblems] at hstart
  exact Gathered.nodup_of_defineAll (g := ⟨[], [], []⟩) List.nodup_nil (List.prefix_nil.mp hstart)

/-- Where no problem is reported, all libraries that are reached have been asked for and load, and
no path out of them goes on for ever. -/
theorem settled_collect (hproblems : (collect source document).problems = []) {name : String}
    (hname : Reachable source document name) :
    name ∈ (collect source document).asked ∧ Acc (fun b a => source.Includes a b) name ∧
      ∃ library, source.Loads name library := by
  have h := collect_gathers source document
  rw [defineAll_own (nodup_own hproblems)] at h
  obtain ⟨hsettled, htop⟩ := h.settled hproblems
    (fun p hp => (mem_topIncludes hp).2) fun _ hname => absurd hname List.not_mem_nil
  have hasked : name ∈ (collect source document).asked := by
    induction hname with
    | own hmem =>
      obtain ⟨i, hi⟩ := List.getElem?_of_mem hmem
      exact (htop _ (List.mem_map.mpr ⟨(_, i), List.mem_zipIdx_iff_getElem?.mpr hi, rfl⟩)).1
    | through _ hedge ih =>
      obtain ⟨library, hloads, hmem⟩ := hedge
      obtain ⟨-, other, hother, hsub⟩ := hsettled _ ih List.not_mem_nil
      cases hloads.unique hother
      exact hsub _ hmem
  obtain ⟨hacc, library, hloads, -⟩ := hsettled name hasked List.not_mem_nil
  exact ⟨hasked, hacc, library, hloads⟩

theorem tabulated_collect (hproblems : (collect source document).problems = []) :
    Tabulated source document (collect source document) ∧
      (collect source document).table.keys.Nodup := by
  have h := collect_gathers source document
  have hown := nodup_own hproblems
  rw [defineAll_own hown] at h
  exact h.tabulated hproblems (fun p hp => .own (mem_topIncludes hp).1)
    (tabulated_own source document) (by rwa [keys_definitions])

/-- Libraries are gathered without problems exactly where all that are reached load, include each
other in no cycle, and define no name twice. -/
theorem collect_problems_eq_nil_iff (source : Source) (document : Rule.Document) :
    (collect source document).problems = [] ↔
      (∀ name, Reachable source document name → ∃ library, source.Loads name library) ∧
      (∀ name, Reachable source document name → ¬ TransGen source.Includes name name) ∧
      ∀ owner i owner' i' name, DefinedAt source document owner i name →
        DefinedAt source document owner' i' name → owner = owner' ∧ i = i' := by
  constructor
  · intro hproblems
    obtain ⟨⟨loaded, hasked, -, hall, htable⟩, hkeys⟩ := tabulated_collect hproblems
    rw [htable, keys_table] at hkeys
    refine ⟨fun name hname => (settled_collect hproblems hname).2.2, fun name hname =>
      not_transGen_self_of_acc (settled_collect hproblems hname).2.1, ?_⟩
    intro owner i owner' i' name
    exact definedOnce_of_nodup (fun l hl => (hall l hl).2)
      (fun name hname => hasked ▸ (settled_collect hproblems hname).1) hkeys
  · rintro ⟨hloads, hacyclic, honce⟩
    have h := collect_gathers source document
    have hown := nodup_of_definedOnce [] honce List.nodup_nil (by simp)
    rw [List.flatMap_nil, List.append_nil] at hown
    rw [defineAll_own hown] at h
    refine (h.problems_eq_nil hloads hacyclic honce (fun p hp => ?_)
      (tabulated_own source document) rfl).2
    exact ⟨.own (mem_topIncludes hp).1,
      fun a ha => by rw [(mem_topIncludes hp).2] at ha; nomatch ha⟩

/-- Where no problem is reported, the table has just what is defined. -/
theorem collect_table_defines_iff (hproblems : (collect source document).problems = [])
    {name : String} {node : Rule.Node} :
    (collect source document).table.Defines name node ↔ Defines source document name node := by
  obtain ⟨⟨loaded, hasked, -, hall, htable⟩, hkeys⟩ := tabulated_collect hproblems
  have hentry : (collect source document).table.Defines name node ↔
      ∃ origin, (name, ⟨node, origin⟩) ∈ (collect source document).table :=
    exists_congr fun _ => ⟨Entries.mem_of_get?, Entries.get?_of_mem hkeys⟩
  have mem_definitions {owner : String} {fragments : Entries Rule.Node} :
      (∃ origin, (name, ⟨node, origin⟩) ∈ definitions owner fragments) ↔
        (name, node) ∈ fragments := by
    simp [definitions]
  rw [hentry, htable]
  simp only [List.mem_append, List.mem_flatMap, exists_or, mem_definitions]
  constructor
  · rintro (hown | ⟨origin, l, hl, hlib⟩)
    · exact .own hown
    · exact .library (hall l hl).1 (hall l hl).2 (mem_definitions.mp ⟨origin, hlib⟩)
  · intro h
    cases h with
    | own hown => exact .inl hown
    | @library owner library _ _ hreach hloads hlib =>
      have hmem := (settled_collect hproblems hreach).1
      rw [hasked] at hmem
      obtain ⟨l, hl, rfl⟩ := List.mem_map.mp hmem
      cases hloads.unique (hall l hl).2
      obtain ⟨origin, horigin⟩ := mem_definitions.mpr hlib
      exact .inr ⟨origin, l, hl, horigin⟩

theorem collect_table_defines_eq (hproblems : (collect source document).problems = []) :
    (collect source document).table.Defines = Defines source document := by
  funext name node
  exact propext (collect_table_defines_iff hproblems)

/-- What is gathered of one library that includes no others. -/
theorem collect_of_include {name : String} {library : Rule.Library}
    (hincludes : document.includes = [name]) (hloads : source.Loads name library)
    (hnone : library.includes = []) :
    collect source document =
      (((⟨[], [], []⟩ : Gathered).defineAll "" document.fragments).ask name).defineAll
        (name ++ ":") library.fragments := by
  have hgathers := collect_gathers source document
  have hasked : ((⟨[], [], []⟩ : Gathered).defineAll "" document.fragments).asked = [] :=
    Gathered.asked_defineAll ..
  rw [topIncludes, hincludes] at hgathers
  generalize collect source document = gathered at hgathers
  cases hgathers with
  | pass hpass _ =>
    obtain ⟨text, hload, hparse⟩ := hloads
    cases hpass with
    | cycle hmem => cases hmem
    | again _ hmem =>
      rw [hasked] at hmem
      cases hmem
    | unavailable _ _ hfails => cases hload.symm.trans hfails
    | malformed _ _ hload' hfails =>
      cases hload.symm.trans hload'
      cases hparse.symm.trans hfails
  | load _ _ hloads' hbelow hrest =>
    cases hloads.unique hloads'
    rw [Pending.includes, hnone] at hbelow
    cases hbelow
    cases hrest
    rfl

end Remap.Fragment
