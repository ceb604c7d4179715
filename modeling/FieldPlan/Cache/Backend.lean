import FieldPlan.Entries
/-!
# Shared backends

A store of texts under keys that several processes share and that may fail. `SharedStore` is one
that lives in memory; it counts the attempts to read and to write, and keeps of each key the
lifetime it was last written with.
-/
namespace FieldPlan.Cache

/-- Reading and writing of texts; a failure comes with its cause. -/
class Backend (β : Type) where
  get : β → String → Except String (Option String) × β
  set : β → String → String → Option Int → Except String Unit × β

structure SharedStore where
  texts : Entries String
  lifetimes : Entries (Option Int)
  failsRead : Bool
  failsWrite : Bool
  reads : Nat
  writes : Nat

namespace SharedStore

def unavailable : String := "backend unavailable"

def ofTexts (texts : Entries String) (failsRead failsWrite : Bool) : SharedStore :=
  ⟨texts, [], failsRead, failsWrite, 0, 0⟩

def get (s : SharedStore) (key : String) : Except String (Option String) × SharedStore :=
  (if s.failsRead then .error unavailable else .ok (s.texts.get? key),
    { s with reads := s.reads + 1 })

def set (s : SharedStore) (key text : String) (lifetime : Option Int) :
    Except String Unit × SharedStore :=
  let s := { s with writes := s.writes + 1 }
  if s.failsWrite then (.error unavailable, s)
  else (.ok (),
    { s with texts := s.texts.set key text, lifetimes := s.lifetimes.set key lifetime })

instance : Backend SharedStore := ⟨get, set⟩

/-- Puts a text in place without the count or the lifetime of a write. -/
def put (s : SharedStore) (key text : String) : SharedStore :=
  { s with texts := s.texts.set key text }

def delete (s : SharedStore) (key : String) : SharedStore := { s with texts := s.texts.erase key }

def setFailures (s : SharedStore) (reading writing : Bool) : SharedStore :=
  { s with failsRead := reading, failsWrite := writing }

/-- Replaces the texts of all keys that a test picks; answers those keys in order. -/
def overwrite (s : SharedStore) (picked : String → Bool) (text : String) :
    List String × SharedStore :=
  (((s.texts.sorted.filter fun e => picked e.1).map (·.1)),
    { s with texts := s.texts.map fun e => if picked e.1 then (e.1, text) else e })

/-- The texts with their lifetimes, in the order of the keys. -/
def contents (s : SharedStore) : List (String × String × Option Int) :=
  s.texts.sorted.map fun (key, text) => (key, text, (s.lifetimes.get? key).join)

end SharedStore
end FieldPlan.Cache
