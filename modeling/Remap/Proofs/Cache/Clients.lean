import Mathlib.Data.List.Dedup
import Mathlib.Data.Set.Function
import Mathlib.Logic.Function.Basic
import Remap.Cache
import Remap.Proofs.Entries

/-!
# Clients of one cache

Clients share a cache. A request for the plan of a text is looked up, compiled if the cache has no
plan for it, kept, and answered, each in a turn of its own, with the turns of other clients in
between. The cache is only locked within a turn: a client may keep a plan after another one has
cleared the cache, and two may keep a plan for the same text.

What the cache has for a digest is, after any turns, just the plan of a text that was kept since the
cache was cleared last (`Host.Sound`). As long as no two texts in use have one digest, no client can
tell the cache from compiling anew (`run_transparent`).
-/

namespace Remap.Cache

/-- Requests to a cache. All but the first are done at once. -/
inductive Call where
  | compile (text : String)
  | get (digest : String)
  | size
  | clear
deriving DecidableEq

/-- What comes next for the request of a text's plan. -/
inductive Task where
  | look (text : String)
  | compile (text : String)
  | keep (text : String) (plan : Plan)
  | answer (text : String) (result : Except (List Diagnostic) Plan)

/-- What a turn shows. -/
inductive Event where
  | asked (text : String)
  | kept (text : String)
  | answered (text : String) (result : Except (List Diagnostic) Plan)
  | found (digest : String) (plan : Option Plan)
  | counted (size : Nat)
  | cleared

/-- What a client does with its turn: call, or go on with its task. -/
inductive Move where
  | call (call : Call)
  | goOn
deriving DecidableEq

/-- The clients of a cache at their tasks, and what happened so far, the latest first. -/
structure Host (Client : Type) where
  cache : Cache
  task : Client → Option Task
  history : List (Client × Event)

def Task.text : Task → String
  | look text | compile text | keep text _ | answer text _ => text

/-- In how many turns a task is done. -/
def Task.turns : Task → Nat
  | look _ => 4
  | compile _ => 3
  | keep _ _ => 2
  | answer _ _ => 1

/-- The texts whose plans were kept since the cache was cleared. -/
def keptTexts {Client : Type} : List (Client × Event) → List String
  | [] => []
  | (_, .kept text) :: earlier => text :: keptTexts earlier
  | (_, .cleared) :: _ => []
  | _ :: earlier => keptTexts earlier

namespace Host

variable {Client : Type}

def start : Host Client := ⟨.empty, fun _ => none, []⟩

def note (host : Host Client) (client : Client) (event : Event) : Host Client :=
  { host with history := (client, event) :: host.history }

def keep (host : Host Client) (client : Client) (text : String) (plan : Plan) : Host Client :=
  { host.note client (.kept text) with cache := host.cache.keep text plan }

def clear (host : Host Client) (client : Client) : Host Client :=
  { host.note client .cleared with cache := .empty }

variable [DecidableEq Client]

def assign (host : Host Client) (client : Client) (task : Option Task) : Host Client :=
  { host with task := Function.update host.task client task }

def call (host : Host Client) (client : Client) : Call → Host Client
  | .compile text => (host.note client (.asked text)).assign client (some (.look text))
  | .get digest => host.note client (.found digest (host.cache.get? digest))
  | .size => host.note client (.counted host.cache.size)
  | .clear => host.clear client

/-- A client's next step with its task. -/
def goOn (source : Fragment.Source) (host : Host Client) (client : Client) : Task → Host Client
  | .look text =>
    match host.cache.get? (key text) with
    | some plan => host.assign client (some (.answer text (.ok plan)))
    | none => host.assign client (some (.compile text))
  | .compile text =>
    match Plan.compileText source text with
    | .ok plan => host.assign client (some (.keep text plan))
    | .error errors => host.assign client (some (.answer text (.error errors)))
  | .keep text plan => (host.keep client text plan).assign client (some (.answer text (.ok plan)))
  | .answer text result => (host.note client (.answered text result)).assign client none

/-- A client with a task makes no call, and one without has nothing to go on with. -/
def turn (source : Fragment.Source) (host : Host Client) : Client × Move → Host Client
  | (client, .call call) =>
    match host.task client with
    | none => host.call client call
    | some _ => host
  | (client, .goOn) =>
    match host.task client with
    | none => host
    | some task => host.goOn source client task

/-- What clients come to whose turns are in the given order. -/
def run (source : Fragment.Source) (host : Host Client) (moves : List (Client × Move)) :
    Host Client :=
  moves.foldl (turn source) host

end Host

variable {source : Fragment.Source} {texts : Set String} {Client : Type} {host : Host Client}
  {client : Client}

/-! ## What holds between turns -/

/-- A task is for a text in use, and what it is about to keep or to answer is what compiling
gives. -/
def Task.Sound (source : Fragment.Source) (texts : Set String) (task : Task) : Prop :=
  task.text ∈ texts ∧
    match task with
    | .look _ | .compile _ => True
    | .keep text plan => Plan.compileText source text = .ok plan
    | .answer text result => Plan.compileText source text = result

/-- What an event shows is right, given what happened before. -/
def Event.Sound (source : Fragment.Source) (earlier : List (Client × Event)) : Event → Prop
  | .answered text result => Plan.compileText source text = result
  | .found digest plan? => ∀ plan, plan? = some plan ↔
      ∃ text ∈ keptTexts earlier, key text = digest ∧ Plan.compileText source text = .ok plan
  | .counted size => size = (keptTexts earlier).dedup.length
  | .asked _ | .kept _ | .cleared => True

/-- What holds between the turns of clients that only use the given texts. -/
structure Host.Sound (source : Fragment.Source) (texts : Set String) (host : Host Client) :
    Prop where
  entries : ∀ digest plan, host.cache.get? digest = some plan ↔
    ∃ text ∈ keptTexts host.history, key text = digest ∧ Plan.compileText source text = .ok plan
  digests : host.cache.plans.keys.Perm ((keptTexts host.history).dedup.map key)
  used : ∀ text ∈ keptTexts host.history, text ∈ texts
  tasks : ∀ client task, host.task client = some task → task.Sound source texts
  events : ∀ client event earlier, (client, event) :: earlier <:+ host.history →
    event.Sound source earlier

namespace Host

theorem Sound.start : (start : Host Client).Sound source texts where
  entries digest plan := by simp [Host.start, empty, get?, Entries.get?, keptTexts]
  digests := by simp [Host.start, empty, Entries.keys, keptTexts]
  used _ h := nomatch h
  tasks _ _ h := nomatch h
  events client event earlier h := by simp [Host.start] at h

/-- The events of a history with one more. -/
private theorem events_cons {event : Event} {history : List (Client × Event)}
    (hevents : ∀ client event earlier, (client, event) :: earlier <:+ history →
      event.Sound source earlier) (hevent : event.Sound source history) :
    ∀ other event' earlier, (other, event') :: earlier <:+ (client, event) :: history →
      event'.Sound source earlier := by
  intro other event' earlier h
  rcases List.suffix_cons_iff.mp h with heq | h
  · cases heq
    exact hevent
  · exact hevents _ _ _ h

theorem Sound.note {event : Event} (h : host.Sound source texts)
    (hevent : event.Sound source host.history)
    (hkept : keptTexts ((client, event) :: host.history) = keptTexts host.history) :
    (host.note client event).Sound source texts where
  entries := by
    simp only [Host.note, hkept]
    exact h.entries
  digests := by
    simp only [Host.note, hkept]
    exact h.digests
  used := by
    simp only [Host.note, hkept]
    exact h.used
  tasks := h.tasks
  events := events_cons h.events hevent

theorem Sound.clear (h : host.Sound source texts) : (host.clear client).Sound source texts where
  entries digest plan := by simp [Host.clear, Host.note, empty, get?, Entries.get?, keptTexts]
  digests := by simp [Host.clear, Host.note, empty, Entries.keys, keptTexts]
  used _ h := nomatch h
  tasks := h.tasks
  events := events_cons h.events trivial

theorem Sound.size_cache (h : host.Sound source texts) :
    host.cache.size = (keptTexts host.history).dedup.length := by
  have hlength := h.digests.length_eq
  rwa [Entries.keys, List.length_map, List.length_map] at hlength

section Keep

variable {text : String} {plan : Plan}

/-- A text in use is the only one of its digest. -/
private theorem Sound.eq_of_key (h : host.Sound source texts) (hkey : Set.InjOn key texts)
    (htext : text ∈ texts) {other : String} (hother : other ∈ keptTexts host.history)
    (heq : key other = key text) : other = text :=
  hkey (h.used other hother) htext heq

/-- The plan of a text may have been kept by any client, but only for this very text. -/
theorem Sound.compileText_of_get? (h : host.Sound source texts) (hkey : Set.InjOn key texts)
    (htext : text ∈ texts) (hfound : host.cache.get? (key text) = some plan) :
    Plan.compileText source text = .ok plan := by
  obtain ⟨other, hother, heq, hplan⟩ := (h.entries _ _).mp hfound
  rwa [h.eq_of_key hkey htext hother heq] at hplan

theorem Sound.entries_keep (h : host.Sound source texts) (hkey : Set.InjOn key texts)
    (htext : text ∈ texts) (hplan : Plan.compileText source text = .ok plan) (digest : String)
    (found : Plan) : (host.cache.keep text plan).get? digest = some found ↔
      ∃ other ∈ text :: keptTexts host.history,
        key other = digest ∧ Plan.compileText source other = .ok found := by
  by_cases hdigest : digest = key text
  · subst hdigest
    rw [get?, Cache.keep, Entries.get?_put_self, Option.some.injEq]
    constructor
    · rintro rfl
      exact ⟨text, List.mem_cons_self, rfl, hplan⟩
    · rintro ⟨other, hother, heq, hfound⟩
      have : other = text :=
        (List.mem_cons.mp hother).elim id fun hother => h.eq_of_key hkey htext hother heq
      rw [this, hplan] at hfound
      exact Except.ok.inj hfound
  · rw [get?, Cache.keep, Entries.get?_put_of_ne hdigest]
    refine (h.entries digest found).trans (exists_congr fun other => ?_)
    rw [List.mem_cons]
    refine and_congr_left fun hother => ⟨.inr, fun hmem => hmem.resolve_left ?_⟩
    rintro rfl
    exact hdigest hother.1.symm

theorem Sound.digests_keep (h : host.Sound source texts) (hkey : Set.InjOn key texts)
    (htext : text ∈ texts) : (host.cache.keep text plan).plans.keys.Perm
      ((text :: keptTexts host.history).dedup.map key) := by
  have hiff : key text ∈ host.cache.plans.keys ↔ text ∈ keptTexts host.history := by
    rw [h.digests.mem_iff, List.mem_map]
    constructor
    · rintro ⟨other, hother, heq⟩
      rw [List.mem_dedup] at hother
      exact h.eq_of_key hkey htext hother heq ▸ hother
    · exact fun hmem => ⟨text, List.mem_dedup.mpr hmem, rfl⟩
  by_cases hmem : text ∈ keptTexts host.history
  · rw [Cache.keep, Entries.keys_put_of_mem _ (hiff.mpr hmem), List.dedup_cons_of_mem hmem]
    exact h.digests
  · rw [Cache.keep, Entries.keys_put_of_notMem _ (mt hiff.mp hmem),
      List.dedup_cons_of_notMem hmem, List.map_cons]
    exact (List.perm_append_singleton _ _).trans (h.digests.cons _)

theorem Sound.keep (h : host.Sound source texts) (hkey : Set.InjOn key texts)
    (htext : text ∈ texts) (hplan : Plan.compileText source text = .ok plan) :
    (host.keep client text plan).Sound source texts where
  entries := h.entries_keep hkey htext hplan
  digests := h.digests_keep hkey htext
  used := List.forall_mem_cons.mpr ⟨htext, h.used⟩
  tasks := h.tasks
  events := events_cons h.events trivial

end Keep

variable [DecidableEq Client]

theorem Sound.assign {task? : Option Task} (h : host.Sound source texts)
    (htask : ∀ task, task? = some task → task.Sound source texts) :
    (host.assign client task?).Sound source texts where
  entries := h.entries
  digests := h.digests
  used := h.used
  tasks other task hother := by
    simp only [Host.assign, Function.update_apply] at hother
    split at hother
    · exact htask task hother
    · exact h.tasks other task hother
  events := h.events

/-! ## A turn -/

theorem Sound.call {call : Call} (h : host.Sound source texts)
    (hcall : ∀ text, call = .compile text → text ∈ texts) :
    (host.call client call).Sound source texts := by
  cases call with
  | compile text =>
    have hasked : (host.note client (.asked text)).Sound source texts := h.note trivial rfl
    refine hasked.assign fun task htask => ?_
    cases htask
    exact ⟨hcall text rfl, trivial⟩
  | get digest => exact h.note (h.entries digest) rfl
  | size => exact h.note h.size_cache rfl
  | clear => exact h.clear

theorem Sound.goOn {task : Task} (h : host.Sound source texts) (hkey : Set.InjOn key texts)
    (htask : task.Sound source texts) : (host.goOn source client task).Sound source texts := by
  -- where the next task is for the same text, only what it keeps or answers is left to check
  have next {task : Task} (htask : task.Sound source texts) :
      ∀ task', some task = some task' → task'.Sound source texts :=
    fun _ heq => Option.some.inj heq ▸ htask
  obtain ⟨htext, hresult⟩ := htask
  cases task with
  | look text =>
    rw [Host.goOn]
    split
    next plan hfound =>
      exact h.assign (next ⟨htext, h.compileText_of_get? hkey htext hfound⟩)
    next => exact h.assign (next ⟨htext, trivial⟩)
  | compile text =>
    rw [Host.goOn]
    split
    next plan hplan => exact h.assign (next ⟨htext, hplan⟩)
    next errors herrors => exact h.assign (next ⟨htext, herrors⟩)
  | keep text plan => exact (h.keep hkey htext hresult).assign (next ⟨htext, hresult⟩)
  | answer text result =>
    have hanswered : (host.note client (.answered text result)).Sound source texts :=
      h.note hresult rfl
    exact hanswered.assign fun _ h => nomatch h

/-- What holds between turns is kept by any turn of any client. -/
theorem Sound.turn {move : Move} (h : host.Sound source texts) (hkey : Set.InjOn key texts)
    (hmove : ∀ text, move = .call (.compile text) → text ∈ texts) :
    (host.turn source (client, move)).Sound source texts := by
  cases move with
  | call call =>
    rw [Host.turn]
    split
    · exact h.call fun text hcall => hmove text (congrArg Move.call hcall)
    · exact h
  | goOn =>
    rw [Host.turn]
    split
    next => exact h
    next task htask => exact h.goOn hkey (h.tasks client task htask)

theorem Sound.run {moves : List (Client × Move)} (h : host.Sound source texts)
    (hkey : Set.InjOn key texts)
    (hmoves : ∀ client text, (client, .call (.compile text)) ∈ moves → text ∈ texts) :
    (host.run source moves).Sound source texts := by
  induction moves generalizing host with
  | nil => exact h
  | cons move rest ih =>
    obtain ⟨client, move⟩ := move
    refine ih (h.turn hkey fun text heq => ?_) fun client text hmem => ?_
    · exact hmoves client text (heq ▸ List.mem_cons_self)
    · exact hmoves client text (List.mem_cons_of_mem _ hmem)

/-! ## Answers -/

theorem history_suffix_turn (source : Fragment.Source) (host : Host Client)
    (move : Client × Move) : host.history <:+ (host.turn source move).history := by
  obtain ⟨client, call | _⟩ := move
  · rw [Host.turn]
    split
    · cases call <;> exact List.suffix_cons _ _
    · exact List.suffix_rfl
  · rw [Host.turn]
    split
    · exact List.suffix_rfl
    next task _ =>
      cases task with
      | look | compile =>
        rw [Host.goOn]
        split <;> exact List.suffix_rfl
      | keep | answer => exact List.suffix_cons _ _

theorem history_suffix_run (source : Fragment.Source) (host : Host Client)
    (moves : List (Client × Move)) : host.history <:+ (host.run source moves).history := by
  induction moves generalizing host with
  | nil => exact List.suffix_rfl
  | cons move rest ih => exact (history_suffix_turn source host move).trans (ih _)

/-- A turn of one client leaves the tasks of the others. -/
theorem task_turn_of_ne {other : Client} (source : Fragment.Source) (host : Host Client)
    (move : Move) (hne : other ≠ client) :
    (host.turn source (client, move)).task other = host.task other := by
  have hassign (host : Host Client) (task? : Option Task) :
      (host.assign client task?).task other = host.task other :=
    Function.update_of_ne hne ..
  cases move with
  | call call =>
    rw [Host.turn]
    split
    · cases call with
      | compile => exact hassign ..
      | get | size | clear => rfl
    · rfl
  | goOn =>
    rw [Host.turn]
    split
    · rfl
    next task _ =>
      cases task with
      | look | compile =>
        rw [Host.goOn]
        split <;> exact hassign ..
      | keep | answer => exact hassign ..

/-- Going on with a task answers it, or comes nearer to the answer. -/
theorem answered_or_turns_lt (source : Fragment.Source) (host : Host Client) (client : Client)
    (task : Task) :
    (∃ result, (host.goOn source client task).history =
      (client, .answered task.text result) :: host.history) ∨
    ∃ next, (host.goOn source client task).task client = some next ∧
      next.text = task.text ∧ next.turns < task.turns := by
  have hassign (host : Host Client) (task : Task) :
      (host.assign client (some task)).task client = some task :=
    Function.update_self ..
  cases task with
  | look text =>
    right
    rw [Host.goOn]
    split <;> exact ⟨_, hassign .., rfl, by simp [Task.turns]⟩
  | compile text =>
    right
    rw [Host.goOn]
    split <;> exact ⟨_, hassign .., rfl, by simp [Task.turns]⟩
  | keep text plan => exact .inr ⟨_, hassign .., rfl, Nat.one_lt_two⟩
  | answer text result => exact .inl ⟨result, rfl⟩

/-- No client waits for another: a task is done once its client had as many turns as it takes. -/
theorem exists_answered (source : Fragment.Source) {moves : List (Client × Move)} {task : Task}
    (htask : host.task client = some task) (hturns : task.turns ≤ moves.count (client, .goOn)) :
    ∃ since result, (host.run source moves).history = since ++ host.history ∧
      (client, .answered task.text result) ∈ since := by
  induction moves generalizing host task with
  | nil => cases task <;> exact absurd hturns (by simp [Task.turns])
  | cons move rest ih =>
    -- what is shown after this turn comes on top of what the turn shows
    have later {task' : Task} (htext : task'.text = task.text)
        (htask' : (host.turn source move).task client = some task')
        (hturns' : task'.turns ≤ rest.count (client, .goOn)) :
        ∃ since result, (host.run source (move :: rest)).history = since ++ host.history ∧
          (client, .answered task.text result) ∈ since := by
      obtain ⟨since, result, hrest, hmem⟩ := ih htask' hturns'
      obtain ⟨new, hnew⟩ := history_suffix_turn source host move
      refine ⟨since ++ new, result, ?_, List.mem_append_left _ (htext ▸ hmem)⟩
      rw [List.append_assoc, hnew]
      exact hrest
    obtain ⟨other, move⟩ := move
    by_cases hother : client = other
    · subst hother
      cases move with
      | call call =>
        have hsame : host.turn source (client, .call call) = host := by
          rw [Host.turn, htask]
        refine later rfl (by rwa [hsame]) ?_
        rwa [List.count_cons_of_ne (by simp)] at hturns
      | goOn =>
        have hturn : host.turn source (client, .goOn) = host.goOn source client task := by
          rw [Host.turn, htask]
        rcases answered_or_turns_lt source host client task with ⟨result, hshown⟩ |
          ⟨next, hnext, htext, hlt⟩
        · obtain ⟨since, hsince⟩ := history_suffix_run source (host.goOn source client task) rest
          refine ⟨since ++ [(client, .answered task.text result)], result, ?_, by simp⟩
          rw [List.append_assoc, List.singleton_append, ← hshown, hsince, ← hturn]
          rfl
        · refine later htext (hturn ▸ hnext) ?_
          rw [List.count_cons_self] at hturns
          omega
    · refine later rfl ((task_turn_of_ne source host move hother).trans htask) ?_
      rwa [List.count_cons_of_ne (fun heq => hother (congrArg Prod.fst heq).symm)] at hturns

/-- A request of a client without a task is answered within four more turns of this client. -/
theorem exists_answered_of_call (source : Fragment.Source) {moves : List (Client × Move)}
    (text : String) (hfree : host.task client = none)
    (hturns : 4 ≤ moves.count (client, .goOn)) :
    ∃ since result,
      (host.run source ((client, .call (.compile text)) :: moves)).history =
        since ++ host.history ∧ (client, .answered text result) ∈ since := by
  have hask : host.turn source (client, .call (.compile text)) =
      host.call client (.compile text) := by
    rw [turn, hfree]
  have htask : (host.call client (.compile text)).task client = some (.look text) :=
    Function.update_self ..
  obtain ⟨since, result, hrun, hmem⟩ := exists_answered source htask hturns
  refine ⟨since ++ [(client, .asked text)], result, ?_, List.mem_append_left _ hmem⟩
  rw [List.append_assoc, run, List.foldl_cons, hask]
  exact hrun

/-- A client that no other one comes between gets what one request on the cache gives, and leaves
the cache as that does. -/
theorem run_alone (text : String) (htask : host.task client = none) :
    (host.run source ((client, .call (.compile text)) :: List.replicate 4 (client, .goOn))).cache =
        (host.cache.compile source text).2 ∧
      ∃ since, (host.run source
          ((client, .call (.compile text)) :: List.replicate 4 (client, .goOn))).history =
        (client, .answered text (host.cache.compile source text).1) :: since := by
  cases hfound : host.cache.get? (key text) with
  | some plan =>
    simp [run, turn, htask, call, goOn, assign, note, compile, hfound]
  | none =>
    cases hcompile : Plan.compileText source text with
    | ok plan =>
      simp [run, turn, htask, call, goOn, assign, note, keep, compile, hfound, hcompile]
    | error errors =>
      simp [run, turn, htask, call, goOn, assign, note, compile, hfound, hcompile]

end Host

/-! ## A cache is transparent -/

variable [DecidableEq Client]

/-- Whatever clients ask in whatever order, and whoever keeps or clears what in between, as long as
no two of the texts they use have one digest: every request for a text is answered, without waiting
for anyone, just as compiling the text answers it; what is found for a digest is the plan of a kept
text of that digest; a text that does not compile has no entry; and there are as many entries as
there are texts whose plan was kept since the cache was cleared. -/
theorem run_transparent (source : Fragment.Source) (moves : List (Client × Move))
    (texts : Set String)
    (hused : ∀ client text, (client, .call (.compile text)) ∈ moves → text ∈ texts)
    (hkey : Set.InjOn key texts) :
    let host := Host.start.run source moves
    (∀ client text result, (client, .answered text result) ∈ host.history →
      result = Plan.compileText source text) ∧
    (∀ before client text after, moves = before ++ (client, .call (.compile text)) :: after →
      (Host.start.run source before).task client = none → 4 ≤ after.count (client, .goOn) →
      ∃ since, host.history = since ++ (Host.start.run source before).history ∧
        (client, .answered text (Plan.compileText source text)) ∈ since) ∧
    (∀ client digest plan? earlier, (client, .found digest plan?) :: earlier <:+ host.history →
      ∀ plan, plan? = some plan ↔
        ∃ text ∈ keptTexts earlier, key text = digest ∧ Plan.compileText source text = .ok plan) ∧
    (∀ text ∈ texts, ∀ errors, Plan.compileText source text = .error errors →
      host.cache.get? (key text) = none) ∧
    host.cache.size = (keptTexts host.history).dedup.length ∧
    ∀ client size earlier, (client, .counted size) :: earlier <:+ host.history →
      size = (keptTexts earlier).dedup.length := by
  intro host
  have hsound : host.Sound source texts := Host.Sound.start.run hkey hused
  have hanswered {client text result} (h : (client, .answered text result) ∈ host.history) :
      result = Plan.compileText source text := by
    obtain ⟨later, earlier, heq⟩ := List.append_of_mem h
    exact (hsound.events _ _ _ ⟨later, heq.symm⟩).symm
  refine ⟨fun _ _ _ => hanswered, fun before client text after hmoves hfree hturns => ?_,
    fun client digest plan? earlier h => hsound.events _ _ _ h, fun text htext errors herrors => ?_,
    hsound.size_cache, fun client size earlier h => hsound.events _ _ _ h⟩
  · have hrun : host = (Host.start.run source before).run source
        ((client, .call (.compile text)) :: after) := by
      simp only [host, hmoves, Host.run, List.foldl_append]
    obtain ⟨since, result, hhistory, hmem⟩ :=
      Host.exists_answered_of_call source text hfree hturns
    rw [← hrun] at hhistory
    refine ⟨since, hhistory, ?_⟩
    have hresult := hanswered (hhistory ▸ List.mem_append_left _ hmem)
    rwa [hresult] at hmem
  · cases hfound : host.cache.get? (key text) with
    | none => rfl
    | some plan =>
      have := hsound.compileText_of_get? hkey htext hfound
      rw [herrors] at this
      nomatch this

def pairText : String :=
  "\x7b\"schemaVersion\":\"1.0\",\"inputFormat\":\"json\",\"outputFormat\":\"json\"," ++
    "\"root\":\x7b\"kind\":\"field\",\"source\":\"a\",\"target\":\"b\"\x7d\x7d"

/-- Two clients miss the same text, one clears the cache before the other keeps its plan, and then
asks for a text that does not compile. -/
def raced : List (Bool × Move) :=
  [(false, .call (.compile pairText)), (true, .call (.compile pairText)), (false, .goOn),
    (true, .goOn), (false, .goOn), (true, .goOn), (false, .goOn), (false, .goOn),
    (false, .call .clear), (true, .goOn), (false, .call (.compile "\x7b")), (true, .goOn),
    (false, .goOn), (false, .goOn), (false, .goOn), (false, .call .size)]

theorem run_raced :
    Set.InjOn key {pairText, "\x7b"} ∧
      let host := Host.start.run .empty raced
      (∃ since, host.history =
          since ++ (Host.start.run .empty [(false, .call (.compile pairText))]).history ∧
        (true, .answered pairText (Plan.compileText .empty pairText)) ∈ since) ∧
      host.cache.size = (keptTexts host.history).dedup.length := by
  have hkey : Set.InjOn key {pairText, "\x7b"} := by
    have hne : key pairText ≠ key "\x7b" := by decide +kernel
    rintro _ (rfl | rfl) _ (rfl | rfl) heq
    · rfl
    · exact absurd heq hne
    · exact absurd heq.symm hne
    · rfl
  have hused (client : Bool) (text : String) (hmem : (client, .call (.compile text)) ∈ raced) :
      text ∈ ({pairText, "\x7b"} : Set String) := by
    simp only [raced, List.mem_cons, Prod.mk.injEq, Move.call.injEq, Call.compile.injEq,
      reduceCtorEq, and_false, false_or, List.not_mem_nil, or_false] at hmem
    rcases hmem with ⟨-, rfl⟩ | ⟨-, rfl⟩ | ⟨-, rfl⟩ <;> simp
  obtain ⟨-, hreturns, -, -, hsize, -⟩ := run_transparent .empty raced _ hused hkey
  exact ⟨hkey, hreturns [(false, .call (.compile pairText))] true pairText _ rfl rfl (by decide),
    hsize⟩

end Remap.Cache
