import Mathlib.Data.List.Basic
import Remap.Run.Execute

/-!
# Resolving paths

A path may lead nowhere for two reasons: one of its wildcards has no split around it, or what it
names is not there. Resolving does not tell them apart; `locate` does. A wildcard is unbound just
where a path has more of them than there are splits (`locate_eq_unbound_iff`).

A bound wildcard stands for the index of a split. The main statement (`resolve?_pin`) has two parts.
Inside an item of a split over an absolute path, that path with a wildcard behind it leads to the
item, whatever wildcards it has itself. And a path leads where it leads with indices in the place of
its wildcards: from left to right, those of the innermost splits from the outside in.
-/

namespace Remap

/-- Segments with indices in the place of wildcards, from left to right. -/
def Path.pin : List Nat → List Segment → List Segment
  | _, [] => []
  | i :: indices, .wildcard :: rest => .index i :: pin indices rest
  | indices, segment :: rest => segment :: pin indices rest

/-- A path with indices in the place of wildcards, from left to right. -/
def SourcePath.pin (p : SourcePath) (indices : List Nat) : SourcePath :=
  ⟨p.absolute, Path.pin indices p.segments⟩

/-- A path has no wildcards left if there is an index for each. -/
theorem SourcePath.wildcards_pin {p : SourcePath} {indices : List Nat}
    (h : p.wildcards ≤ indices.length) : (p.pin indices).wildcards = 0 := by
  obtain ⟨absolute, segments⟩ := p
  simp only [wildcards, pin] at h ⊢
  induction segments generalizing indices with
  | nil => rfl
  | cons segment rest ih =>
    cases segment with
    | key name => simpa [Path.pin] using ih (by simpa using h)
    | index i => simpa [Path.pin] using ih (by simpa using h)
    | wildcard =>
      cases indices with
      | nil => simp at h
      | cons i indices => simpa [Path.pin] using ih (by simpa using h)

end Remap

namespace Remap.Run

/-- Why a path leads nowhere. -/
inductive Missing where
  /-- A wildcard has no split that it stands for. -/
  | unbound
  /-- What the path names is not there. -/
  | absent
deriving DecidableEq, Repr

namespace Scope

/-! ## Paths that lead nowhere -/

/-- A thing, unless it is absent. -/
def orAbsent (found : Option Value) : Except Missing Value :=
  match found with
  | some v => .ok v
  | none => .error .absent

/-- The value at the end of segments, or why there is none. -/
def locateFrom (s : Scope) : List Nat → List Segment → Value → Except Missing Value
  | _, [], v => .ok v
  | bound, .key name :: rest, v => (orAbsent (v.get? name)).bind (s.locateFrom bound rest)
  | bound, .index i :: rest, v => (orAbsent (s.item? i v)).bind (s.locateFrom bound rest)
  | [], .wildcard :: _, _ => .error .unbound
  | i :: bound, .wildcard :: rest, v => (orAbsent (s.item? i v)).bind (s.locateFrom bound rest)

/-- The value that a path leads to, or why there is none. -/
def locate (s : Scope) (p : SourcePath) : Except Missing Value :=
  if s.depth < p.wildcards then .error .unbound
  else
    let bound := ((s.items.take p.wildcards).map (·.2)).reverse
    s.locateFrom bound p.segments (if p.absolute then s.root else s.current)

theorem toOption_bind {found : Option Value} {f : Value → Except Missing Value}
    {g : Value → Option Value} (h : ∀ v, (f v).toOption = g v) :
    ((orAbsent found).bind f).toOption = found.bind g := by
  cases found with
  | none => rfl
  | some v => exact h v

theorem toOption_locateFrom (s : Scope) (bound : List Nat) (segments : List Segment) (v : Value) :
    (s.locateFrom bound segments v).toOption = s.follow? bound segments v := by
  induction segments generalizing bound v with
  | nil => rw [locateFrom, follow?]; rfl
  | cons segment rest ih =>
    cases segment with
    | key name => rw [locateFrom, follow?]; exact toOption_bind (ih bound)
    | index i => rw [locateFrom, follow?]; exact toOption_bind (ih bound)
    | wildcard =>
      cases bound with
      | nil => rfl
      | cons i bound => rw [locateFrom, follow?]; exact toOption_bind (ih bound)

/-- Where a path leads is where it is resolved to. -/
theorem toOption_locate (s : Scope) (p : SourcePath) : (s.locate p).toOption = s.resolve? p := by
  unfold locate resolve?
  split
  · rfl
  · exact toOption_locateFrom ..

/-- Segments find all that their wildcards stand for if there is enough. -/
theorem locateFrom_ne_unbound {s : Scope} {bound : List Nat} {segments : List Segment} {v : Value}
    (h : segments.count .wildcard ≤ bound.length) :
    s.locateFrom bound segments v ≠ .error .unbound := by
  have hbind {found : Option Value} {f : Value → Except Missing Value}
      (hf : ∀ v, f v ≠ .error .unbound) : (orAbsent found).bind f ≠ .error .unbound := by
    cases found with
    | none => exact fun heq => nomatch heq
    | some v => exact hf v
  induction segments generalizing bound v with
  | nil => rw [locateFrom]; exact fun heq => nomatch heq
  | cons segment rest ih =>
    cases segment with
    | key name => rw [locateFrom]; exact hbind fun v => ih (by simpa using h)
    | index i => rw [locateFrom]; exact hbind fun v => ih (by simpa using h)
    | wildcard =>
      cases bound with
      | nil => simp at h
      | cons i bound => rw [locateFrom]; exact hbind fun v => ih (by simpa using h)

/-- A wildcard is unbound just where a path has more of them than there are splits around. -/
theorem locate_eq_unbound_iff {s : Scope} {p : SourcePath} :
    s.locate p = .error .unbound ↔ s.depth < p.wildcards := by
  unfold locate
  split
  · next hlt => exact iff_of_true rfl hlt
  · next hle =>
    refine iff_of_false (locateFrom_ne_unbound ?_) hle
    rw [List.length_reverse, List.length_map, List.length_take]
    exact Nat.le_min.mpr ⟨Nat.le_refl _, Nat.not_lt.mp hle⟩

/-! ## What wildcards stand for -/

variable {s : Scope}

/-- The indices of the splits around, outermost first. -/
def indices (s : Scope) : List Nat := s.items.reverse.map (·.2)

theorem length_indices (s : Scope) : s.indices.length = s.depth := by
  rw [indices, List.length_map, List.length_reverse, depth]

theorem indices_enter (s : Scope) (item : Value) (k : Nat) :
    (s.enter item k).indices = s.indices ++ [k] := by
  rw [indices, enter, List.reverse_cons, List.map_append]
  rfl

/-- The wildcards of a path stand for the last indices around, if there is one for each. -/
theorem resolve?_of_le {p : SourcePath} (h : p.wildcards ≤ s.depth) :
    s.resolve? p = s.follow? (s.indices.drop (s.depth - p.wildcards)) p.segments
      (if p.absolute then s.root else s.current) := by
  have hbound : s.indices.drop (s.depth - p.wildcards) =
      ((s.items.take p.wildcards).map (·.2)).reverse := by
    rw [indices, ← List.map_drop, List.drop_reverse, List.map_reverse]
    exact congrArg (fun n => ((s.items.take n).map (·.2)).reverse) (Nat.sub_sub_self h)
  rw [hbound, resolve?, if_neg (Nat.not_lt.mpr h)]

theorem le_depth_of_resolve? {p : SourcePath} {v : Value} (h : s.resolve? p = some v) :
    p.wildcards ≤ s.depth := by
  refine Nat.not_lt.mp fun hlt => ?_
  rw [resolve?, if_pos hlt] at h
  cases h

/-- Segments lead on from where the ones before them lead, with the indices that these leave. -/
theorem follow?_append {bound : List Nat} {front : List Segment}
    (hbound : front.count .wildcard = bound.length) (more : List Nat) (back : List Segment)
    (v : Value) :
    s.follow? (bound ++ more) (front ++ back) v =
      (s.follow? bound front v).bind (s.follow? more back) := by
  induction front generalizing bound v with
  | nil =>
    rw [List.eq_nil_of_length_eq_zero hbound.symm, List.nil_append, List.nil_append, follow?,
      Option.bind_some]
  | cons segment rest ih =>
    cases segment with
    | key name =>
      rw [List.cons_append, follow?, follow?, Option.bind_assoc]
      exact Option.bind_congr fun w _ => ih (by simpa using hbound) w
    | index i =>
      rw [List.cons_append, follow?, follow?, Option.bind_assoc]
      exact Option.bind_congr fun w _ => ih (by simpa using hbound) w
    | wildcard =>
      cases bound with
      | nil => simp at hbound
      | cons i bound =>
        rw [List.cons_append, List.cons_append, follow?, follow?, Option.bind_assoc]
        exact Option.bind_congr fun w _ => ih (by simpa using hbound) w

theorem follow?_pin {bound : List Nat} {segments : List Segment}
    (hbound : segments.count .wildcard = bound.length) (v : Value) :
    s.follow? [] (Path.pin bound segments) v = s.follow? bound segments v := by
  induction segments generalizing bound v with
  | nil => rfl
  | cons segment rest ih =>
    cases segment with
    | key name =>
      rw [Path.pin, follow?, follow?]
      · exact Option.bind_congr fun w _ => ih (by simpa using hbound) w
      · exact nofun
    | index i =>
      rw [Path.pin, follow?, follow?]
      · exact Option.bind_congr fun w _ => ih (by simpa using hbound) w
      · exact nofun
    | wildcard =>
      cases bound with
      | nil => simp at hbound
      | cons i bound =>
        rw [Path.pin, follow?, follow?]
        exact Option.bind_congr fun w _ => ih (by simpa using hbound) w

/-- An item that a split finds is what an index leads to. -/
theorem item?_of_split {source : SourcePath} {found : Option Value} {items : List Value}
    (h : splitItems s.loneItems source found = .ok items) {k : Nat} {v : Value}
    (hv : items[k]? = some v) : ∃ w, found = some w ∧ s.item? k w = some v := by
  unfold splitItems at h
  split at h
  · next own =>
    cases h
    exact ⟨_, rfl, hv⟩
  · split at h
    · cases h
      cases hv
    · cases h
  · next w harray hnull =>
    split at h
    · next hlone =>
      cases h
      obtain ⟨rfl, rfl⟩ : k = 0 ∧ w = v := by
        cases k with
        | zero => exact ⟨rfl, Option.some.inj hv⟩
        | succ k => cases hv
      refine ⟨w, rfl, ?_⟩
      unfold item?
      split
      · exact absurd rfl (harray _)
      · exact absurd rfl hnull
      · rw [hlone]; rfl
    · cases h
  · cases h

/-- Entering an item does not change how segments are followed. -/
theorem follow?_enter (item : Value) (k : Nat) (bound : List Nat) (segments : List Segment)
    (v : Value) : (s.enter item k).follow? bound segments v = s.follow? bound segments v := by
  induction segments generalizing bound v with
  | nil => rw [follow?, follow?]
  | cons segment rest ih =>
    cases segment with
    | key name =>
      rw [follow?, follow?]
      exact Option.bind_congr fun w _ => ih bound w
    | index i =>
      rw [follow?, follow?]
      exact Option.bind_congr fun w _ => ih bound w
    | wildcard =>
      cases bound with
      | nil => rw [follow?, follow?]
      | cons i bound =>
        rw [follow?, follow?]
        exact Option.bind_congr fun w _ => ih bound w

theorem resolve?_of_plain {p : SourcePath} (h : p.wildcards = 0) :
    s.resolve? p = s.follow? [] p.segments (if p.absolute then s.root else s.current) := by
  rw [resolve?_of_le (h ▸ Nat.zero_le _), h, Nat.sub_zero, ← length_indices, List.drop_length]

/-- An absolute path with a wildcard behind it leads, inside an item of a split over that path, from
the item on. -/
theorem resolve?_enter_of_split {source : SourcePath} (habsolute : source.absolute = true)
    {items : List Value} (hitems : splitItems s.loneItems source (s.resolve? source) = .ok items)
    {k : Nat} {v : Value} (hv : items[k]? = some v) {rest : List Segment}
    (hrest : .wildcard ∉ rest) :
    (s.enter v k).resolve? ⟨true, source.segments ++ .wildcard :: rest⟩ =
      (s.enter v k).resolve? ⟨false, rest⟩ := by
  obtain ⟨w, hw, hitem⟩ := item?_of_split hitems hv
  have hdepth : source.wildcards ≤ s.depth := le_depth_of_resolve? hw
  rw [resolve?_of_le hdepth, habsolute, if_pos rfl] at hw
  have hplain : rest.count .wildcard = 0 := List.count_eq_zero.mpr hrest
  have hwildcards : (⟨true, source.segments ++ .wildcard :: rest⟩ : SourcePath).wildcards =
      source.wildcards + 1 := by
    simp [SourcePath.wildcards, hplain]
  have henter : (s.enter v k).depth = s.depth + 1 := rfl
  -- The index of the item stands behind those that the wildcards of the source stand for.
  have hindices : (s.enter v k).indices.drop ((s.enter v k).depth - (source.wildcards + 1)) =
      s.indices.drop (s.depth - source.wildcards) ++ [k] := by
    rw [henter, Nat.add_sub_add_right, indices_enter, List.drop_append_of_le_length]
    rw [length_indices]
    exact Nat.sub_le _ _
  have hlength : source.segments.count .wildcard =
      (s.indices.drop (s.depth - source.wildcards)).length := by
    rw [List.length_drop, length_indices]
    exact (Nat.sub_sub_self hdepth).symm
  calc (s.enter v k).resolve? ⟨true, source.segments ++ .wildcard :: rest⟩
      = (s.enter v k).follow? (s.indices.drop (s.depth - source.wildcards) ++ [k])
          (source.segments ++ .wildcard :: rest) s.root := by
        rw [resolve?_of_le (by rw [hwildcards, henter]; omega), hwildcards, hindices]
        rfl
    _ = (some w).bind ((s.enter v k).follow? [k] (.wildcard :: rest)) := by
        rw [follow?_append hlength, follow?_enter, hw]
    _ = (some v).bind ((s.enter v k).follow? [] rest) := by
        rw [Option.bind_some, follow?]
        exact congrArg (Option.bind · _) hitem
    _ = (s.enter v k).resolve? ⟨false, rest⟩ :=
        (resolve?_of_plain (p := ⟨false, rest⟩) hplain).symm

/-- Inside an item of a split over an absolute path, that path with a wildcard behind it leads to
the item, and on from there as a relative path does. A path leads where it leads with indices in the
place of its wildcards: from left to right, those of the innermost splits from the outside in. -/
theorem resolve?_pin :
    (∀ (s : Scope) (source : SourcePath) (items : List Value), source.absolute = true →
      splitItems s.loneItems source (s.resolve? source) = .ok items →
        ∀ (k : Nat) (v : Value) (rest : List Segment), items[k]? = some v → .wildcard ∉ rest →
          (s.enter v k).resolve? ⟨true, source.segments ++ .wildcard :: rest⟩ =
            (s.enter v k).resolve? ⟨false, rest⟩) ∧
    ∀ (s : Scope) (p : SourcePath), p.wildcards ≤ s.depth →
      (p.pin (s.indices.drop (s.depth - p.wildcards))).wildcards = 0 ∧
        s.resolve? p = s.resolve? (p.pin (s.indices.drop (s.depth - p.wildcards))) := by
  refine ⟨fun s source items habsolute hitems k v rest hv hrest =>
    resolve?_enter_of_split habsolute hitems hv hrest, fun s p hdepth => ?_⟩
  have hlength : p.wildcards = (s.indices.drop (s.depth - p.wildcards)).length := by
    rw [List.length_drop, length_indices, Nat.sub_sub_self hdepth]
  have hplain := SourcePath.wildcards_pin (Nat.le_of_eq hlength)
  refine ⟨hplain, ?_⟩
  rw [resolve?_of_plain hplain, resolve?_of_le hdepth]
  exact (follow?_pin hlength _).symm

/-- Rows of cells, from within the second row. -/
def secondRow : Scope :=
  let row : Value := .array [.string "c", .string "d"]
  (ofInput .json (.array [.array [.string "a", .string "b"], row])).enter row 1

/-- Inside the second cell of the second row, the path of the cells leads to that cell. -/
theorem resolve?_pin_secondRow :
    ((secondRow.enter (.string "d") 1).resolve? ⟨true, [.wildcard, .wildcard]⟩ =
      (secondRow.enter (.string "d") 1).resolve? ⟨false, []⟩) ∧
    (secondRow.enter (.string "d") 1).resolve? ⟨true, [.wildcard, .wildcard]⟩ =
      (secondRow.enter (.string "d") 1).resolve? ⟨true, [.index 1, .index 1]⟩ :=
  ⟨resolve?_pin.1 secondRow ⟨true, [.wildcard]⟩ [.string "c", .string "d"] rfl rfl 1 _ []
      rfl (by decide),
    (resolve?_pin.2 (secondRow.enter (.string "d") 1) ⟨true, [.wildcard, .wildcard]⟩ (by decide)).2⟩

end Scope

end Remap.Run
