import Remap.Entries
import Remap.Rule.Reader

/-!
# Fragment tables

The fragments that a document may refer to are its own and those of the libraries that it includes,
directly or through other libraries. Libraries are loaded depth first and in order, each once. Of
several fragments of one name the first stands. Every fragment keeps the place it was defined at.

Rules name the libraries that they include, and a source has their texts. A source serves finitely
many texts, possibly each under many names.
-/

namespace Remap.Fragment

/-! ## Sources -/

/-- Why the text of a library cannot be had. -/
inductive Unavailable where
  | notFound (name : String)
  | escapes (name : String)
  | unreadable (name reason : String)
deriving DecidableEq, Repr

def Unavailable.message : Unavailable → String
  | notFound name => "fragment library '" ++ name ++ "' not found"
  | escapes name => "fragment library '" ++ name ++ "' resolves outside the rules directory"
  | unreadable name reason => "cannot read fragment library '" ++ name ++ "': " ++ reason

/-- A source of libraries by name. -/
structure Source where
  load : String → Except Unavailable String
  finite : ∃ texts : List String, ∀ name text, load name = .ok text → text ∈ texts

namespace Source

def ofEntries (libraries : Entries String) : Source where
  load name :=
    match libraries.get? name with
    | some text => .ok text
    | none => .error (.notFound name)
  finite := by
    refine ⟨libraries.map (·.2), fun name text h => ?_⟩
    split at h
    case h_1 found hfound =>
      cases h
      exact List.mem_map.mpr ⟨_, Entries.mem_of_get? hfound, rfl⟩
    case h_2 => cases h

def empty : Source := ofEntries []

end Source

/-! ## Tables -/

/-- A fragment and the place of its definition. -/
structure Definition where
  node : Rule.Node
  origin : Rule.Place

/-- The fragments that may be referred to, in order of definition. -/
abbrev Table := Entries Definition

/-- What is wrong with the fragments of a document. -/
inductive Problem where
  /-- Libraries include each other; the first is named again at the end. -/
  | includeCycle (names : List String)
  | unavailable (cause : Unavailable)
  | duplicate (name : String) (first : Rule.Place)
  | unknown (name : String)
  /-- Fragments refer to each other; the first is named again at the end. -/
  | cycle (names : List String)
deriving DecidableEq, Repr

namespace Problem

def code : Problem → Code
  | includeCycle _ | cycle _ => .referenceCycle
  | unavailable _ => .includeUnavailable
  | duplicate .. => .duplicateFragment
  | unknown _ => .unknownFragment

def arrows (names : List String) : String := " → ".intercalate names

def message : Problem → String
  | includeCycle names => "include cycle: " ++ arrows names
  | unavailable cause => cause.message
  | duplicate name first =>
    "fragment '" ++ name ++ "' is already defined at " ++ first.text
  | unknown name => "unknown fragment '" ++ name ++ "'"
  | cycle names => "fragment cycle: " ++ arrows names

/-- A problem as a finding at a place. -/
def diagnostic (p : Problem) (path : String) : Diagnostic := ⟨p.code, path, p.message⟩

end Problem

/-- What has been gathered: the table, the names of the libraries asked for, and what is wrong. -/
structure Gathered where
  table : Table
  asked : List String
  problems : List Diagnostic

/-- A library to be loaded, with the libraries that led to it and the place of the document's own
include that did. -/
structure Pending where
  name : String
  chain : List String
  path : String

/-- The table with a fragment added, or a complaint if the name is taken. -/
def Gathered.define (g : Gathered) (owner name : String) (node : Rule.Node) : Gathered :=
  let origin := Rule.fragmentPlace owner name
  match g.table.get? name with
  | some first =>
    let problem := Problem.duplicate name first.origin
    { g with problems := g.problems ++ [problem.diagnostic origin.text] }
  | none => { g with table := g.table ++ [(name, ⟨node, origin⟩)] }

def Gathered.defineAll (g : Gathered) (owner : String) (fragments : Entries Rule.Node) : Gathered :=
  fragments.foldl (fun g (name, node) => g.define owner name node) g

def Gathered.report (g : Gathered) (problems : List Diagnostic) : Gathered :=
  { g with problems := g.problems ++ problems }

@[simp] theorem Gathered.asked_define (g : Gathered) (owner name : String) (node : Rule.Node) :
    (g.define owner name node).asked = g.asked := by
  simp only [define]
  split <;> rfl

@[simp] theorem Gathered.asked_defineAll (g : Gathered) (owner : String)
    (fragments : Entries Rule.Node) : (g.defineAll owner fragments).asked = g.asked := by
  unfold defineAll
  induction fragments generalizing g with
  | nil => rfl
  | cons e rest ih => simp [List.foldl_cons, ih]

@[simp] theorem Gathered.asked_report (g : Gathered) (problems : List Diagnostic) :
    (g.report problems).asked = g.asked := rfl

/-- A test that fewer things pass, and not this one, leaves fewer things. -/
theorem length_filter_lt {α : Type} {p q : α → Bool} {xs : List α} {x : α} (hmem : x ∈ xs)
    (hle : ∀ y, q y = true → p y = true) (hp : p x = true) (hq : q x = false) :
    (xs.filter q).length < (xs.filter p).length := by
  have hfilter : xs.filter q = (xs.filter p).filter q := by
    rw [List.filter_filter]
    congr 1
    funext y
    cases hy : q y with
    | false => rfl
    | true => rw [hle y hy]; rfl
  rw [hfilter]
  refine List.length_filter_lt_length_iff_exists.mpr ⟨x, List.mem_filter.mpr ⟨hmem, hp⟩, ?_⟩
  rw [hq]
  exact Bool.false_ne_true

/-- The names that may come up while the libraries of a document are loaded. -/
def MayBeAsked (source : Source) (document : Rule.Document) (name : String) : Prop :=
  name ∈ document.includes ∨ ∃ owner text library, source.load owner = .ok text ∧
    Rule.Library.parse owner text = .ok library ∧ name ∈ library.includes

/-- Only finitely many names may come up. -/
theorem MayBeAsked.finite (source : Source) (document : Rule.Document) :
    ∃ names : List String, ∀ name, MayBeAsked source document name → name ∈ names := by
  obtain ⟨texts, htexts⟩ := source.finite
  refine ⟨document.includes ++ texts.flatMap Rule.namesIn, fun name h => ?_⟩
  rcases h with h | ⟨owner, text, library, hload, hparse, hname⟩
  · exact List.mem_append_left _ h
  · exact List.mem_append_right _ (List.mem_flatMap.mpr
      ⟨text, htexts _ _ hload, Rule.Library.includes_subset hparse hname⟩)

/-- Some list of the names that may come up. -/
noncomputable def candidates (source : Source) (document : Rule.Document) : List String :=
  (MayBeAsked.finite source document).choose

/-- How many names may still come up for the first time. -/
noncomputable def unasked (source : Source) (document : Rule.Document) (asked : List String) :
    Nat :=
  ((candidates source document).filter fun name => !asked.contains name).length

/-- Asking for a new name leaves fewer to ask for. -/
theorem unasked_lt {source : Source} {document : Rule.Document} {asked : List String}
    {name : String} (h : MayBeAsked source document name) (hnew : asked.contains name = false) :
    unasked source document (asked ++ [name]) < unasked source document asked := by
  have hmem : name ∈ candidates source document :=
    (MayBeAsked.finite source document).choose_spec name h
  refine length_filter_lt hmem (fun n hn => ?_) (by simpa using hnew) (by simp)
  simp only [Bool.not_eq_true', List.contains_eq_mem, decide_eq_false_iff_not] at hn ⊢
  exact fun hin => hn (List.mem_append_left _ hin)

/-- The libraries that a library includes, as they are still to be loaded. -/
def Pending.includes (p : Pending) (library : Rule.Library) : List Pending :=
  library.includes.map fun name => ⟨name, p.chain ++ [p.name], p.path⟩

def gather (source : Source) (document : Rule.Document) (g : Gathered) (work : List Pending)
    (h : ∀ p ∈ work, MayBeAsked source document p.name) : Gathered :=
  match work with
  | [] => g
  | p :: rest =>
    have hrest := fun q hq => h q (List.mem_cons_of_mem p hq)
    if p.chain.contains p.name then
      let cycle := p.chain.dropWhile (· != p.name) ++ [p.name]
      gather source document (g.report [(Problem.includeCycle cycle).diagnostic p.path]) rest hrest
    else if hnew : g.asked.contains p.name then gather source document g rest hrest
    else
      let g := { g with asked := g.asked ++ [p.name] }
      match hload : source.load p.name with
      | .error cause =>
        gather source document (g.report [(Problem.unavailable cause).diagnostic p.path]) rest hrest
      | .ok text =>
        match hparse : Rule.Library.parse p.name text with
        | .error faults => gather source document (g.report faults) rest hrest
        | .ok library =>
          have hall : ∀ q ∈ p.includes library ++ rest, MayBeAsked source document q.name := by
            intro q hq
            rcases List.mem_append.mp hq with hq | hq
            · obtain ⟨name, hname, rfl⟩ := List.mem_map.mp hq
              exact .inr ⟨p.name, text, library, hload, hparse, hname⟩
            · exact hrest q hq
          gather source document (g.defineAll (p.name ++ ":") library.fragments)
            (p.includes library ++ rest) hall
termination_by (unasked source document g.asked, work.length)
decreasing_by
  all_goals simp_wf
  · exact .right _ (by simp)
  · exact .right _ (by simp)
  all_goals
    refine .left _ _ ?_
    simpa using unasked_lt (h p List.mem_cons_self) (by simpa using hnew)

def collect (source : Source) (document : Rule.Document) : Gathered :=
  let work := document.includes.zipIdx.map fun (name, i) =>
    (⟨name, [], "includes" ++ Rule.Step.indexText i⟩ : Pending)
  gather source document ((⟨[], [], []⟩ : Gathered).defineAll "" document.fragments) work <| by
    intro p hp
    obtain ⟨⟨name, i⟩, hmem, rfl⟩ := List.mem_map.mp hp
    exact .inl (List.fst_mem_of_mem_zipIdx hmem)

end Remap.Fragment
