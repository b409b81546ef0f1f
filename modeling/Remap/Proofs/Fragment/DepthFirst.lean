import Remap.Proofs.Fragment.Gathering

/-!
# Gathering depth first

The loop over pending libraries comes to an end, and asks for the libraries that are reached in the
order of a depth-first search, each once. The first definition of a name in that order stands,
behind that of the document itself (`collect_depthFirst`).
-/

namespace Remap.Fragment

open Relation

/-! ## Depth-first search -/

/-- The names that a depth-first search comes to from some targets, in order, besides those that
have been seen before. What a new name leads to comes before the targets behind it. -/
inductive DepthFirst (next : String → List String) :
    List String → List String → List String → Prop where
  | nil {seen : List String} : DepthFirst next seen [] []
  | seen {seen rest order : List String} {name : String} :
      name ∈ seen → DepthFirst next seen rest order → DepthFirst next seen (name :: rest) order
  | new {seen rest below after : List String} {name : String} :
      name ∉ seen → DepthFirst next (seen ++ [name]) (next name) below →
      DepthFirst next (seen ++ name :: below) rest after →
      DepthFirst next seen (name :: rest) (name :: (below ++ after))

namespace DepthFirst

variable {next : String → List String} {seen targets order order' : List String} {name : String}

theorem unique (h : DepthFirst next seen targets order) (h' : DepthFirst next seen targets order') :
    order = order' := by
  induction h generalizing order' with
  | nil =>
    cases h'
    rfl
  | seen hmem _ ih =>
    cases h' with
    | seen _ hrest => exact ih hrest
    | new hnew => exact absurd hmem hnew
  | new hnew _ _ ihbelow ihafter =>
    cases h' with
    | seen hmem => exact absurd hmem hnew
    | new _ hbelow hafter =>
      obtain rfl := ihbelow hbelow
      obtain rfl := ihafter hafter
      rfl

/-- Each name is come to once. -/
theorem nodup (h : DepthFirst next seen targets order) : order.Nodup ∧ seen.Disjoint order := by
  induction h with
  | nil => exact ⟨.nil, List.disjoint_nil_right _⟩
  | seen _ _ ih => exact ih
  | @new seen rest below after name hnew _ _ ihbelow ihafter =>
    obtain ⟨hbelow, hseen⟩ := ihbelow
    obtain ⟨hafter, hseen'⟩ := ihafter
    rw [List.disjoint_append_left, List.singleton_disjoint] at hseen
    rw [List.disjoint_append_left, List.disjoint_cons_left] at hseen'
    obtain ⟨hout, hname, happart⟩ := hseen'
    refine ⟨List.nodup_cons.mpr ⟨?_, hbelow.append hafter happart⟩, ?_⟩
    · exact fun hmem => (List.mem_append.mp hmem).elim hseen.2 hname
    · rw [List.disjoint_cons_right, List.disjoint_append_right]
      exact ⟨hnew, hseen.1, hout⟩

/-- All that the targets and the names that are come to lead to is come to, unless it has been seen
before. -/
theorem closed (h : DepthFirst next seen targets order) :
    (∀ target ∈ targets, target ∈ seen ∨ target ∈ order) ∧
      ∀ owner ∈ order, ∀ name ∈ next owner, name ∈ seen ∨ name ∈ order := by
  induction h with
  | nil => exact ⟨nofun, nofun⟩
  | seen hmem _ ih => exact ⟨List.forall_mem_cons.mpr ⟨.inl hmem, ih.1⟩, ih.2⟩
  | @new seen rest below after name _ _ _ ihbelow ihafter =>
    have inner {other : String} (h : other ∈ seen ++ [name] ∨ other ∈ below) :
        other ∈ seen ∨ other ∈ name :: (below ++ after) := by
      simp only [List.mem_append, List.mem_cons, List.not_mem_nil, or_false] at h ⊢
      tauto
    have behind {other : String} (h : other ∈ seen ++ name :: below ∨ other ∈ after) :
        other ∈ seen ∨ other ∈ name :: (below ++ after) := by
      simp only [List.mem_append, List.mem_cons] at h ⊢
      tauto
    refine ⟨List.forall_mem_cons.mpr ⟨.inr List.mem_cons_self, fun target htarget => ?_⟩, ?_⟩
    · exact behind (ihafter.1 target htarget)
    · intro owner howner other hother
      rcases List.mem_cons.mp howner with rfl | howner
      · exact inner (ihbelow.1 other hother)
      · rcases List.mem_append.mp howner with howner | howner
        · exact inner (ihbelow.2 owner howner other hother)
        · exact behind (ihafter.2 owner howner other hother)

theorem exists_of_mem (h : DepthFirst next seen targets order) (hname : name ∈ order) :
    ∃ target ∈ targets, ReflTransGen (fun a b => b ∈ next a) target name := by
  induction h with
  | nil => cases hname
  | seen _ _ ih =>
    obtain ⟨target, htarget, hpath⟩ := ih hname
    exact ⟨target, List.mem_cons_of_mem _ htarget, hpath⟩
  | @new seen rest below after top _ _ _ ihbelow ihafter =>
    rcases List.mem_cons.mp hname with rfl | hname
    · exact ⟨name, List.mem_cons_self, .refl⟩
    · rcases List.mem_append.mp hname with hname | hname
      · obtain ⟨target, htarget, hpath⟩ := ihbelow hname
        exact ⟨top, List.mem_cons_self, hpath.head htarget⟩
      · obtain ⟨target, htarget, hpath⟩ := ihafter hname
        exact ⟨target, List.mem_cons_of_mem _ htarget, hpath⟩

/-- A search comes to just what is reached from its targets. -/
theorem mem_iff (h : DepthFirst next [] targets order) :
    name ∈ order ↔ ∃ target ∈ targets, ReflTransGen (fun a b => b ∈ next a) target name := by
  refine ⟨h.exists_of_mem, ?_⟩
  rintro ⟨target, htarget, hpath⟩
  obtain ⟨htargets, hclosed⟩ := h.closed
  induction hpath with
  | refl => exact (htargets target htarget).resolve_left List.not_mem_nil
  | tail _ hstep ih => exact (hclosed _ ih _ hstep).resolve_left List.not_mem_nil

end DepthFirst

/-! ## Libraries -/

/-- The library of a name, if it loads. -/
def Source.library? (source : Source) (name : String) : Option Rule.Library :=
  match source.load name with
  | .ok text => (Rule.Library.parse name text).toOption
  | .error _ => none

/-- What the library of a name includes. -/
def Source.includes (source : Source) (name : String) : List String :=
  ((source.library? name).map (·.includes)).getD []

/-- What the library of an owner defines a name as. -/
def Source.definition? (source : Source) (name owner : String) : Option Definition :=
  (source.library? owner).bind fun library =>
    (library.fragments.get? name).map (⟨·, Rule.fragmentPlace (owner ++ ":") name⟩)

variable {source : Source} {document : Rule.Document} {name owner : String}

theorem Source.Loads.library?_eq {library : Rule.Library} (h : source.Loads name library) :
    source.library? name = some library := by
  obtain ⟨text, hload, hparse⟩ := h
  simp only [library?, hload, hparse, Except.toOption]

theorem Source.library?_eq_some_iff {library : Rule.Library} :
    source.library? name = some library ↔ source.Loads name library := by
  refine ⟨fun h => ?_, Loads.library?_eq⟩
  rw [library?] at h
  split at h
  · next text hload =>
    cases hparse : Rule.Library.parse name text with
    | error => simp [hparse, Except.toOption] at h
    | ok other =>
      simp only [hparse, Except.toOption, Option.some.injEq] at h
      exact ⟨text, hload, h ▸ hparse⟩
  · cases h

theorem Source.mem_includes_iff : name ∈ source.includes owner ↔ source.Includes owner name := by
  simp only [includes, Includes, ← library?_eq_some_iff]
  cases source.library? owner <;> simp

theorem reachable_iff : Reachable source document name ↔
    ∃ target ∈ document.includes,
      ReflTransGen (fun a b => b ∈ source.includes a) target name := by
  constructor
  · intro h
    induction h with
    | own hmem => exact ⟨_, hmem, .refl⟩
    | through _ hincludes ih =>
      obtain ⟨target, htarget, hpath⟩ := ih
      exact ⟨target, htarget, hpath.tail (Source.mem_includes_iff.mpr hincludes)⟩
  · rintro ⟨target, htarget, hpath⟩
    induction hpath with
    | refl => exact .own htarget
    | tail _ hstep ih => exact .through ih (Source.mem_includes_iff.mp hstep)

/-! ## Definitions -/

theorem Gathered.get?_define {g : Gathered} {other : String} {node : Rule.Node} :
    (g.define owner other node).table.get? name = (g.table.get? name).or
      (if other = name then some ⟨node, Rule.fragmentPlace owner name⟩ else none) := by
  by_cases hmem : other ∈ g.table.keys
  · obtain ⟨d, -, hd⟩ := define_of_mem owner node hmem
    rw [hd]
    by_cases h : other = name
    · subst h
      obtain ⟨first, hfirst⟩ := Entries.get?_of_mem_keys hmem
      simp [report, hfirst]
    · simp [report, h]
  · rw [define_of_notMem hmem, Entries.get?_append]
    by_cases h : other = name <;> simp [definitions, Entries.get?, h]

/-- A definition that is there stands, else the first of its name among those that are added. -/
theorem Gathered.get?_defineAll {g : Gathered} {fragments : Entries Rule.Node} :
    (g.defineAll owner fragments).table.get? name = (g.table.get? name).or
      ((fragments.get? name).map (⟨·, Rule.fragmentPlace owner name⟩)) := by
  induction fragments generalizing g with
  | nil => simp [defineAll, Entries.get?]
  | cons e rest ih =>
    obtain ⟨other, node⟩ := e
    change ((g.define owner other node).defineAll owner rest).table.get? name = _
    rw [ih, get?_define, Option.or_assoc]
    by_cases h : other = name <;> simp [Entries.get?, h]

/-! ## Gathering -/

/-- A library that is passed over has been asked for before, or is asked for now and does not
load. -/
theorem Passes.asked {g g' : Gathered} {p : Pending} (h : Passes source g p g')
    (hchain : p.chain ⊆ g.asked) : g'.table = g.table ∧
      ((p.name ∈ g.asked ∧ g'.asked = g.asked) ∨
        (p.name ∉ g.asked ∧ source.library? p.name = none ∧ g'.asked = g.asked ++ [p.name])) := by
  cases h with
  | cycle hmem => exact ⟨rfl, .inl ⟨hchain hmem, rfl⟩⟩
  | again _ hmem => exact ⟨rfl, .inl ⟨hmem, rfl⟩⟩
  | unavailable _ hnew hload =>
    refine ⟨rfl, .inr ⟨hnew, ?_, rfl⟩⟩
    simp only [Source.library?, hload]
  | malformed _ hnew hload hparse =>
    refine ⟨rfl, .inr ⟨hnew, ?_, rfl⟩⟩
    simp only [Source.library?, hload, hparse, Except.toOption]

/-- Libraries are asked for depth first, and of the definitions of a name the first one stands. -/
theorem Gathers.depthFirst {g g' : Gathered} {work : List Pending} (h : Gathers source g work g')
    (hchain : ∀ p ∈ work, p.chain ⊆ g.asked) :
    ∃ order, DepthFirst source.includes g.asked (work.map (·.name)) order ∧
      g'.asked = g.asked ++ order ∧
      ∀ name, g'.table.get? name =
        (g.table.get? name).or (order.findSome? (source.definition? name)) := by
  induction h with
  | done => exact ⟨[], .nil, (List.append_nil _).symm, fun name => by simp⟩
  | @pass g inner g' p rest hpass _ ih =>
    obtain ⟨hp, hrest⟩ := List.forall_mem_cons.mp hchain
    obtain ⟨htable, ⟨hmem, hasked⟩ | ⟨hnew, hnone, hasked⟩⟩ := hpass.asked hp
    · rw [hasked, htable] at ih
      obtain ⟨order, horder, hasked', hget⟩ := ih hrest
      exact ⟨order, .seen hmem horder, hasked', hget⟩
    · rw [hasked, htable] at ih
      obtain ⟨order, horder, hasked', hget⟩ := ih fun q hq =>
        List.subset_append_of_subset_left _ (hrest q hq)
      refine ⟨p.name :: ([] ++ order), .new hnew ?_ horder, ?_, fun name => ?_⟩
      · rw [Source.includes, hnone]
        exact .nil
      · rw [hasked', List.append_assoc, List.singleton_append, List.nil_append]
      · rw [hget, List.nil_append, List.findSome?_cons, Source.definition?, hnone]
        rfl
  | @load g inner g' p rest library _ hnew hloads _ _ ihbelow ihafter =>
    obtain ⟨hp, hrest⟩ := List.forall_mem_cons.mp hchain
    rw [Gathered.asked_defineAll] at ihbelow
    have hbelow : ∀ q ∈ p.includes library, q.chain ⊆ (g.ask p.name).asked := by
      intro q hq
      obtain ⟨name, -, rfl⟩ := List.mem_map.mp hq
      exact List.append_subset.mpr ⟨List.subset_append_of_subset_left _ hp,
        List.subset_append_right _ _⟩
    obtain ⟨below, hfirst, hasked, hget⟩ := ihbelow hbelow
    rw [hasked, Gathered.ask, List.append_assoc, List.singleton_append] at ihafter
    obtain ⟨after, hsecond, hasked', hget'⟩ := ihafter fun q hq =>
      List.subset_append_of_subset_left _ (hrest q hq)
    have hnames : (p.includes library).map (·.name) = source.includes p.name := by
      rw [Source.includes, hloads.library?_eq]
      simp [Pending.includes, Function.comp_def]
    refine ⟨p.name :: (below ++ after), .new hnew (hnames ▸ hfirst) hsecond, ?_, fun name => ?_⟩
    · rw [hasked', List.append_assoc, List.cons_append]
    · rw [hget', hget, Gathered.get?_defineAll, List.findSome?_cons, List.findSome?_append,
        Source.definition?, hloads.library?_eq, Option.or_assoc, Option.or_assoc]
      cases h : library.fragments.get? name <;> simp [Gathered.ask, h]

/-! ## The loop -/

/-- One turn of the loop over pending libraries, with the name of the library for whose text the
source is asked in this turn. -/
inductive Advances (source : Source) :
    Gathered × List Pending → Option String → Gathered × List Pending → Prop where
  | skip {g g' : Gathered} {p : Pending} {rest : List Pending} :
      p.name ∈ p.chain ∨ p.name ∈ g.asked → Passes source g p g' →
      Advances source (g, p :: rest) none (g', rest)
  | fail {g g' : Gathered} {p : Pending} {rest : List Pending} :
      p.name ∉ p.chain → p.name ∉ g.asked → Passes source g p g' →
      Advances source (g, p :: rest) (some p.name) (g', rest)
  | load {g : Gathered} {p : Pending} {rest : List Pending} {library : Rule.Library} :
      p.name ∉ p.chain → p.name ∉ g.asked → source.Loads p.name library →
      Advances source (g, p :: rest) (some p.name)
        ((g.ask p.name).defineAll (p.name ++ ":") library.fragments, p.includes library ++ rest)

/-- Turns of the loop, with the names of the libraries for whose texts the source is asked. -/
inductive Runs (source : Source) :
    Gathered × List Pending → List String → Gathered × List Pending → Prop where
  | done {s : Gathered × List Pending} : Runs source s [] s
  | turn {s s' s'' : Gathered × List Pending} {call : Option String} {calls : List String} :
      Advances source s call s' → Runs source s' calls s'' →
      Runs source s (call.toList ++ calls) s''

theorem Passes.unique {g a b : Gathered} {p : Pending} (ha : Passes source g p a)
    (hb : Passes source g p b) : a = b := by
  cases ha with
  | cycle hmem =>
    cases hb with
    | cycle => rfl
    | again hnot | unavailable hnot | malformed hnot => exact absurd hmem hnot
  | again hnot hmem =>
    cases hb with
    | cycle hmem => exact absurd hmem hnot
    | again => rfl
    | unavailable _ hnew | malformed _ hnew => exact absurd hmem hnew
  | unavailable hnot hnew hload =>
    cases hb with
    | cycle hmem => exact absurd hmem hnot
    | again _ hmem => exact absurd hmem hnew
    | unavailable _ _ hload' =>
      cases hload.symm.trans hload'
      rfl
    | malformed _ _ hload' => cases hload.symm.trans hload'
  | malformed hnot hnew hload hparse =>
    cases hb with
    | cycle hmem => exact absurd hmem hnot
    | again _ hmem => exact absurd hmem hnew
    | unavailable _ _ hload' => cases hload.symm.trans hload'
    | malformed _ _ hload' hparse' =>
      cases hload.symm.trans hload'
      cases hparse.symm.trans hparse'
      rfl

/-- A library that loads when it is asked for is not passed over. -/
theorem Passes.not_loads {g g' : Gathered} {p : Pending} {library : Rule.Library}
    (h : Passes source g p g') (hnot : p.name ∉ p.chain) (hnew : p.name ∉ g.asked) :
    ¬source.Loads p.name library := by
  rintro ⟨text, hload, hparse⟩
  cases h with
  | cycle hmem => exact hnot hmem
  | again _ hmem => exact hnew hmem
  | unavailable _ _ hload' => cases hload.symm.trans hload'
  | malformed _ _ hload' hparse' =>
    cases hload.symm.trans hload'
    cases hparse.symm.trans hparse'

/-- No turn can go two ways. -/
theorem Advances.unique {s a b : Gathered × List Pending} {call call' : Option String}
    (ha : Advances source s call a) (hb : Advances source s call' b) : a = b := by
  cases ha with
  | skip _ hpass | fail _ _ hpass =>
    cases hb with
    | skip _ hpass' | fail _ _ hpass' => rw [hpass.unique hpass']
    | load hnot hnew hloads => exact absurd hloads (hpass.not_loads hnot hnew)
  | load hnot hnew hloads =>
    cases hb with
    | skip _ hpass | fail _ _ hpass => exact absurd hloads (hpass.not_loads hnot hnew)
    | load _ _ hloads' => rw [hloads.unique hloads']

/-- The names that are asked for are noted. -/
theorem Advances.asked_eq {s s' : Gathered × List Pending} {call : Option String}
    (h : Advances source s call s') : s'.1.asked = s.1.asked ++ call.toList := by
  cases h with
  | skip hmem hpass =>
    cases hpass with
    | cycle | again => exact (List.append_nil _).symm
    | unavailable hnot hnew | malformed hnot hnew => exact (hmem.elim hnot hnew).elim
  | fail hnot hnew hpass =>
    cases hpass with
    | cycle hmem => exact absurd hmem hnot
    | again _ hmem => exact absurd hmem hnew
    | unavailable | malformed => rfl
  | load => exact Gathered.asked_defineAll ..

theorem Runs.asked_eq {s s' : Gathered × List Pending} {calls : List String}
    (h : Runs source s calls s') : s'.1.asked = s.1.asked ++ calls := by
  induction h with
  | done => exact (List.append_nil _).symm
  | turn hturn _ ih => rw [ih, hturn.asked_eq, List.append_assoc]

/-- Where a run ends because nothing is pending, there is no other, and none that goes on for
ever. -/
theorem Runs.acc {s : Gathered × List Pending} {g : Gathered} {calls : List String}
    (h : Runs source s calls (g, [])) : Acc (fun b a => ∃ call, Advances source a call b) s := by
  generalize hlast : (g, []) = last at h
  induction h with
  | done =>
    subst hlast
    exact .intro _ nofun
  | turn hturn _ ih => exact .intro _ fun b ⟨_, hb⟩ => hturn.unique hb ▸ ih hlast

/-- The loop goes on until nothing is pending. -/
theorem exists_runs_gather (g : Gathered) (work : List Pending)
    (h : ∀ p ∈ work, MayBeAsked source document p.name) :
    ∃ calls, Runs source (g, work) calls (gather source document g work h, []) := by
  fun_induction gather source document g work h with
  | case1 => exact ⟨[], .done⟩
  | case2 g p rest h hrest hchain cycle _ ih =>
    have hmem : p.name ∈ p.chain := by simpa using hchain
    obtain ⟨calls, hrun⟩ := ih
    exact ⟨_, .turn (.skip (.inl hmem) (.cycle hmem)) hrun⟩
  | case3 g p rest h hrest hchain hasked _ ih =>
    have hmem : p.name ∈ g.asked := by simpa using hasked
    obtain ⟨calls, hrun⟩ := ih
    exact ⟨_, .turn (.skip (.inr hmem) (.again (by simpa using hchain) hmem)) hrun⟩
  | case4 g p rest h hrest hchain hasked asked cause hload _ ih =>
    have hnot : p.name ∉ p.chain := by simpa using hchain
    have hnew : p.name ∉ g.asked := by simpa using hasked
    obtain ⟨calls, hrun⟩ := ih
    exact ⟨_, .turn (.fail hnot hnew (.unavailable hnot hnew hload)) hrun⟩
  | case5 g p rest h hrest hchain hasked asked text hload faults hparse _ ih =>
    have hnot : p.name ∉ p.chain := by simpa using hchain
    have hnew : p.name ∉ g.asked := by simpa using hasked
    obtain ⟨calls, hrun⟩ := ih
    exact ⟨_, .turn (.fail hnot hnew (.malformed hnot hnew hload hparse)) hrun⟩
  | case6 g p rest h hrest hchain hasked asked text hload library hparse hall _ ih =>
    obtain ⟨calls, hrun⟩ := ih
    exact ⟨_, .turn (.load (by simpa using hchain) (by simpa using hasked)
      ⟨text, hload, hparse⟩) hrun⟩

/-- Every run of the loop comes to an end, with what is collected. The source is asked for each
library that is reached once, and for no others, in the order of a depth-first search. A name stands
for the document's own definition if it has one, else for that of the first library in this order
that defines it. -/
theorem collect_depthFirst (source : Source) (document : Rule.Document) :
    let start : Gathered := (⟨[], [], []⟩ : Gathered).defineAll "" document.fragments
    let gathered := collect source document
    Acc (fun b a => ∃ call, Advances source a call b) (start, topIncludes document) ∧
    Runs source (start, topIncludes document) gathered.asked (gathered, []) ∧
    gathered.asked.Nodup ∧
    (∀ name, name ∈ gathered.asked ↔ Reachable source document name) ∧
    (∀ order, DepthFirst source.includes [] document.includes order ↔ order = gathered.asked) ∧
    ∀ name, gathered.table.get? name =
      ((document.fragments.get? name).map (⟨·, Rule.fragmentPlace "" name⟩)).or
        (gathered.asked.findSome? (source.definition? name)) := by
  intro start gathered
  have hstart : start.asked = [] := Gathered.asked_defineAll ..
  obtain ⟨calls, hrun⟩ : ∃ calls,
      Runs source (start, topIncludes document) calls (gathered, []) := exists_runs_gather ..
  obtain rfl : gathered.asked = calls := hrun.asked_eq.trans (by rw [hstart, List.nil_append])
  have hnames : (topIncludes document).map (·.name) = document.includes := by
    simp [topIncludes, Function.comp_def]
  have hchain : ∀ p ∈ topIncludes document, p.chain ⊆ start.asked := by
    intro p hp
    rw [(mem_topIncludes hp).2]
    exact List.nil_subset _
  obtain ⟨order, horder, hasked, hget⟩ := (collect_gathers source document).depthFirst hchain
  rw [hnames, hstart] at horder
  rw [hstart, List.nil_append] at hasked
  refine ⟨hrun.acc, hrun, hasked ▸ horder.nodup.1,
    fun name => ?_, fun order' => ?_, fun name => ?_⟩
  · rw [hasked, horder.mem_iff, reachable_iff]
  · rw [hasked]
    exact ⟨fun h => h.unique horder, fun h => h ▸ horder⟩
  · rw [hasked, hget, Gathered.get?_defineAll]
    rfl

end Remap.Fragment
