/-!
# Entries under text keys

Maps that keep the order in which their keys were first set, as lists of entries: `set` replaces the
value of a key where it stands, `get?` is `List.lookup`, and a map in key order is `sorted`.
-/
namespace FieldPlan

abbrev Entries (α : Type) := List (String × α)

namespace Entries

variable {α : Type}

def get? (entries : Entries α) (key : String) : Option α := List.lookup key entries

def keys (entries : Entries α) : List String := entries.map (·.1)

/-- Sets the value of a key, in the place of an earlier entry with the key if there is one. -/
def set (key : String) (value : α) : Entries α → Entries α
  | [] => [(key, value)]
  | (k, v) :: rest => if k = key then (key, value) :: rest else (k, v) :: set key value rest

/-- Sets the value of a key that has none. -/
def setIfAbsent (key : String) (value : α) (entries : Entries α) : Entries α :=
  if (entries.get? key).isSome then entries else entries.set key value

/-- The last of several entries with one key wins and stands where the first stood. -/
def ofList (entries : Entries α) : Entries α :=
  entries.foldl (fun es e => es.set e.1 e.2) []

def erase (key : String) (entries : Entries α) : Entries α := entries.filter (·.1 != key)

def sorted (entries : Entries α) : Entries α := entries.mergeSort fun a b => a.1 ≤ b.1

@[simp] theorem get?_nil (key : String) : get? ([] : Entries α) key = none := rfl

theorem get?_cons (k : String) (v : α) (rest : Entries α) (key : String) :
    get? ((k, v) :: rest) key = if key = k then some v else rest.get? key := by
  unfold get?
  rw [List.lookup_cons]
  by_cases h : key = k
  · simp [h]
  · simp [h, beq_eq_false_iff_ne.mpr h]

@[simp] theorem get?_set (key : String) (value : α) (entries : Entries α) (other : String) :
    (entries.set key value).get? other = if other = key then some value else entries.get? other := by
  induction entries with
  | nil => simp [set, get?_cons]
  | cons e rest ih =>
    obtain ⟨k, v⟩ := e
    unfold set
    split
    · next h => subst h; simp only [get?_cons]; split <;> rfl
    · next h =>
      simp only [get?_cons, ih]
      split
      · next h' => subst h'; simp [h]
      · rfl

theorem mem_keys_set (key : String) (value : α) (entries : Entries α) (other : String) :
    other ∈ (entries.set key value).keys ↔ other = key ∨ other ∈ entries.keys := by
  induction entries with
  | nil => simp [set, keys]
  | cons e rest ih =>
    obtain ⟨k, v⟩ := e
    unfold set
    split
    · next h => subst h; simp [keys]
    · simp only [keys, List.map_cons, List.mem_cons] at ih ⊢
      grind

theorem nodup_keys_set {key : String} {value : α} {entries : Entries α}
    (h : entries.keys.Nodup) : (entries.set key value).keys.Nodup := by
  induction entries with
  | nil => simp [set, keys]
  | cons e rest ih =>
    obtain ⟨k, v⟩ := e
    simp only [keys, List.map_cons, List.nodup_cons] at h ⊢
    unfold set
    split
    · next hk => subst hk; simpa [keys] using h
    · next hk =>
      simp only [List.map_cons, List.nodup_cons]
      refine ⟨fun hm => ?_, ih h.2⟩
      rcases (mem_keys_set key value rest k).mp hm with h' | h'
      · exact hk h'
      · exact h.1 h'

end Entries
end FieldPlan
