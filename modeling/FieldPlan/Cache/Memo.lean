/-!
# Memos

A bounded memory of values under keys. Entries are kept in the order of their last use, and the
least recently used one gives way to a new key. With a lifetime an entry is alive while
`now < storedAt + lifetime`; storing drops the dead ones before any live one gives way.
-/
namespace FieldPlan.Cache

structure MemoEntry (ν : Type) where
  key : String
  value : ν
  storedAt : Int

structure Memo (ν : Type) where
  capacity : Nat
  /-- in seconds; entries without one do not expire -/
  lifetime : Option Int
  /-- least recently used first -/
  entries : List (MemoEntry ν)

namespace Memo

variable {ν : Type}

/-- An empty memo. A lifetime of zero is none. -/
def empty (capacity : Nat) (lifetime : Option Int) : Memo ν :=
  ⟨capacity, lifetime.filter (· != 0), []⟩

def isLive (m : Memo ν) (now : Int) (e : MemoEntry ν) : Bool :=
  m.lifetime.all fun l => now < e.storedAt + l

def find? (m : Memo ν) (now : Int) (key : String) : Option (MemoEntry ν) :=
  m.entries.find? fun e => e.key == key && m.isLive now e

def without (m : Memo ν) (key : String) : List (MemoEntry ν) := m.entries.filter (·.key != key)

/-- Looks a key up; an entry that is found becomes the most recently used one. -/
def get? (m : Memo ν) (now : Int) (key : String) : Option ν × Memo ν :=
  match m.find? now key with
  | some e => (some e.value, { m with entries := m.without key ++ [e] })
  | none => (none, m)

/-- Stores a value; a memo of capacity zero refuses it. -/
def insert? (m : Memo ν) (now : Int) (key : String) (value : ν) : Option (Memo ν) :=
  if m.capacity = 0 then none
  else
    let kept := (m.without key).filter (m.isLive now)
    let room := kept.drop (kept.length + 1 - m.capacity)
    some { m with entries := room ++ [⟨key, value, now⟩] }

def liveKeys (m : Memo ν) (now : Int) : List String :=
  (m.entries.filter (m.isLive now)).map (·.key)

theorem find?_key {m : Memo ν} {now : Int} {key : String} {e : MemoEntry ν}
    (h : m.find? now key = some e) : e.key = key ∧ m.isLive now e = true ∧ e ∈ m.entries := by
  have hp := List.find?_some h
  simp only [Bool.and_eq_true, beq_iff_eq] at hp
  exact ⟨hp.1, hp.2, List.mem_of_find?_eq_some h⟩

/-- A memo never holds more entries than its capacity. -/
theorem length_insert?_le {m m' : Memo ν} {now : Int} {key : String} {value : ν}
    (h : m.insert? now key value = some m') : m'.entries.length ≤ m'.capacity := by
  unfold insert? at h
  split at h
  · simp at h
  · next hc =>
    simp only [Option.some.injEq] at h
    subst h
    simp only [List.length_append, List.length_drop, List.length_singleton]
    omega

end Memo
end FieldPlan.Cache
