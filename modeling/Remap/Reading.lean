import Remap.Diagnostic

/-!
# Readings

Something is made out of parts, each of which may be at fault. Making goes on past a fault, so that
all faults are reported at once, in the order of the parts.
-/

namespace Remap

/-- The outcome of reading a part: the thing read, if it could be, and the faults met. -/
structure Reading (α : Type) where
  value : Option α
  faults : List Diagnostic

namespace Reading

variable {α β : Type}

instance : Functor Reading where
  map f r := ⟨r.value.map f, r.faults⟩

instance : Applicative Reading where
  pure x := ⟨some x, []⟩
  seq f x :=
    let r := x ()
    ⟨f.value.bind fun f => r.value.map f, f.faults ++ r.faults⟩

@[simp] theorem value_pure (x : α) : (pure x : Reading α).value = some x := rfl

@[simp] theorem faults_pure (x : α) : (pure x : Reading α).faults = [] := rfl

@[simp] theorem value_map (f : α → β) (r : Reading α) : (f <$> r).value = r.value.map f := rfl

@[simp] theorem faults_map (f : α → β) (r : Reading α) : (f <$> r).faults = r.faults := rfl

@[simp] theorem value_seq (f : Reading (α → β)) (r : Reading α) :
    (f <*> r).value = f.value.bind fun f => r.value.map f := rfl

@[simp] theorem faults_seq (f : Reading (α → β)) (r : Reading α) :
    (f <*> r).faults = f.faults ++ r.faults := rfl

/-- A part that could not be read, for one reason. -/
def rejected (fault : Diagnostic) : Reading α := ⟨none, [fault]⟩

/-- Reports faults in front of those of a part. -/
def after (faults : List Diagnostic) (r : Reading α) : Reading α :=
  ⟨r.value, faults ++ r.faults⟩

/-- The thing read, if no fault was met. -/
def result (r : Reading α) : Except (List Diagnostic) α :=
  match r.value, r.faults with
  | some value, [] => .ok value
  | _, faults => .error faults

/-- What is returned was read. -/
theorem value_of_result {r : Reading α} {x : α} (h : r.result = .ok x) : r.value = some x := by
  unfold result at h
  split at h <;> simp_all

/-- The things read one by one, if all could be. -/
def all : List (Reading α) → Reading (List α)
  | [] => pure []
  | r :: rest => List.cons <$> r <*> all rest

/-- Everything in a list that was read is the reading of a part. -/
theorem exists_of_mem_all {readings : List (Reading α)} {xs : List α}
    (h : (all readings).value = some xs) {x : α} (hx : x ∈ xs) :
    ∃ r ∈ readings, r.value = some x := by
  induction readings generalizing xs with
  | nil =>
    simp only [all, value_pure, Option.some.injEq] at h
    simp [← h] at hx
  | cons r rest ih =>
    simp only [all, value_seq, value_map, Option.bind_eq_some_iff, Option.map_eq_some_iff] at h
    obtain ⟨_, ⟨y, hy, rfl⟩, ys, hys, rfl⟩ := h
    rcases List.mem_cons.mp hx with rfl | hx
    · exact ⟨r, List.mem_cons_self, hy⟩
    · obtain ⟨r', hr', h'⟩ := ih hys hx
      exact ⟨r', List.mem_cons_of_mem _ hr', h'⟩

def list (f : Nat → Value → Reading α) (items : List Value) : Reading (List α) :=
  all (items.zipIdx.map fun (item, i) => f i item)

end Reading

end Remap
