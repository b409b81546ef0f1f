/-!
# Ordered entries

A table of named things in which the order of insertion shows: a new name goes to the end, and a
name that is already there keeps its place. Objects, headers and fragment tables are of this kind.
-/

namespace Remap

abbrev Entries (α : Type) := List (String × α)

namespace Entries

variable {α : Type}

/-- The thing of the given name. -/
def get? (key : String) : Entries α → Option α
  | [] => none
  | (k, v) :: rest => if k = key then some v else get? key rest

/-- What a table holds is smaller than the table. -/
theorem sizeOf_lt_of_get? [SizeOf α] {key : String} {value : α} {es : Entries α}
    (h : es.get? key = some value) : sizeOf value < sizeOf es := by
  induction es with
  | nil => simp [get?] at h
  | cons e rest ih =>
    obtain ⟨k, v⟩ := e
    simp only [get?] at h
    split at h
    · cases h; simp; omega
    · have := ih h; simp; omega

/-- A thing that is found is an entry. -/
theorem mem_of_get? {key : String} {value : α} {es : Entries α} (h : es.get? key = some value) :
    (key, value) ∈ es := by
  induction es with
  | nil => simp [get?] at h
  | cons e rest ih =>
    obtain ⟨k, v⟩ := e
    simp only [get?] at h
    split at h
    · simp_all
    · exact List.mem_cons_of_mem _ (ih h)

def has (key : String) (es : Entries α) : Bool := (es.get? key).isSome

def keys (es : Entries α) : List String := es.map (·.1)

/-- What is found has its name among the names. -/
theorem mem_keys_of_get? {key : String} {value : α} {es : Entries α}
    (h : es.get? key = some value) : key ∈ es.keys :=
  List.mem_map.mpr ⟨_, mem_of_get? h, rfl⟩

/-- Sets the thing of the given name, in its place if the name is taken, else at the end. -/
def put (key : String) (value : α) : Entries α → Entries α
  | [] => [(key, value)]
  | (k, v) :: rest => if k = key then (key, value) :: rest else (k, v) :: put key value rest

/-- Drops the thing of the given name; the others keep their order. -/
def erase (key : String) : Entries α → Entries α
  | [] => []
  | (k, v) :: rest => if k = key then rest else (k, v) :: erase key rest

/-- The table built from pairs, where a later pair of the same name replaces an earlier one. -/
def ofPairs (pairs : List (String × α)) : Entries α :=
  pairs.foldl (fun es (k, v) => es.put k v) []

end Entries

end Remap
