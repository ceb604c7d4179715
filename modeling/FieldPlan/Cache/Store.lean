import FieldPlan.Cache.Backend
import FieldPlan.Cache.Codec
import FieldPlan.Cache.Memo
/-!
# The cache

A memo of this process in front of a backend that may be absent, slow to agree or failing.
`remember` answers from the memo, else from the backend, else by computing; what is computed is
written to the backend, and either way memoized. Backend failures leave a warning and nothing else.
The steps of `remember` are given one by one, since several calls can be under way at once: all
calls for one key share a flight, whose lock only one of them holds.
-/
namespace FieldPlan.Cache

inductive Warning where
  | unreadable (key cause : String)
  | undecodable (key : String)
  | unwritable (key cause : String)
  | note (text : String)
  deriving DecidableEq, Repr

def Warning.message : Warning → String
  | unreadable key cause => s!"Cache read error for {key}: {cause}"
  | undecodable key => s!"Cache decode error for {key}"
  | unwritable key cause => s!"Cache write error for {key}: {cause}"
  | note text => text

/-- Why a remembered computation has no value. -/
inductive Failure (ε : Type) where
  | raised (e : ε)
  /-- the memo has no room for any value -/
  | noCapacity
  deriving Repr

def noCapacityMessage : String := "value too large"

abbrev Result (ε α : Type) := Except (Failure ε) α

/-- The calls for one key that are under way: their lock, and how many they are. -/
structure Flight where
  lock : Nat
  callers : Nat
  deriving DecidableEq, Repr

structure Store (β ν : Type) where
  memo : Memo ν
  backend : Option β
  /-- lifetime of what is written to the backend, in seconds -/
  lifetime : Option Int
  flights : Entries Flight
  /-- a lock that no flight has had -/
  freshLock : Nat
  /-- seconds since the start -/
  now : Int
  /-- the last warning stands last -/
  log : List Warning

namespace Store

variable {β ν : Type}

def start (backend : Option β) (capacity : Nat) (lifetime memoLifetime : Option Int) : Store β ν where
  memo := Memo.empty capacity memoLifetime
  backend
  lifetime
  flights := []
  freshLock := 0
  now := 0
  log := []

def warn (s : Store β ν) (w : Warning) : Store β ν := { s with log := s.log ++ [w] }

def advance (s : Store β ν) (seconds : Nat) : Store β ν := { s with now := s.now + seconds }

/-- A new process: the memo is empty, the backend and the clock go on. -/
def restart (s : Store β ν) : Store β ν :=
  { s with memo := { s.memo with entries := [] }, flights := [] }

def lookUp (s : Store β ν) (key : String) : Option ν × Store β ν :=
  let (found, memo) := s.memo.get? s.now key
  (found, { s with memo })

/-- Joins the flight of a key, or opens one; answers its lock. -/
def join (s : Store β ν) (key : String) : Nat × Store β ν :=
  match s.flights.get? key with
  | some f => (f.lock, { s with flights := s.flights.set key { f with callers := f.callers + 1 } })
  | none =>
    (s.freshLock,
      { s with flights := s.flights.set key ⟨s.freshLock, 1⟩, freshLock := s.freshLock + 1 })

/-- Leaves the flight of a key; the last one closes it. -/
def leave (s : Store β ν) (key : String) : Store β ν :=
  match s.flights.get? key with
  | some f =>
    if f.callers ≤ 1 then { s with flights := s.flights.erase key }
    else { s with flights := s.flights.set key { f with callers := f.callers - 1 } }
  | none => s

def fetch [Backend β] (s : Store β ν) (key : String) (codec : Codec ν) : Option ν × Store β ν :=
  match s.backend with
  | none => (none, s)
  | some b =>
    let (answer, b) := Backend.get b key
    let s := { s with backend := some b }
    match answer with
    | .error cause => (none, s.warn (.unreadable key cause))
    | .ok none => (none, s)
    | .ok (some text) =>
      match codec.decode text with
      | some v => (some v, s)
      | none => (none, s.warn (.undecodable key))

def publish [Backend β] (s : Store β ν) (key : String) (codec : Codec ν) (v : ν) : Store β ν :=
  match s.backend with
  | none => s
  | some b =>
    match codec.encode v with
    | .error cause => s.warn (.unwritable key cause)
    | .ok text =>
      let (answer, b) := Backend.set b key text s.lifetime
      let s := { s with backend := some b }
      match answer with
      | .error cause => s.warn (.unwritable key cause)
      | .ok () => s

/-- Memoizes a value, if there is room for any. -/
def memoize {ε : Type} (s : Store β ν) (key : String) (v : ν) : Result ε ν × Store β ν :=
  match s.memo.insert? s.now key v with
  | some memo => (.ok v, { s with memo })
  | none => (.error .noCapacity, s)

/-- The value of a key whose lock is held: recalled, fetched, or computed and published. The
computation may report something; the report is there only if it ran. -/
def produce {ε ι : Type} [Backend β] (s : Store β ν) (key : String) (codec : Codec ν)
    (compute : Store β ν → (Result ε ν × ι) × Store β ν) : (Result ε ν × Option ι) × Store β ν :=
  match s.lookUp key with
  | (some v, s) => ((.ok v, none), s)
  | (none, s) =>
    match s.fetch key codec with
    | (some v, s) =>
      let (r, s) := s.memoize key v
      ((r, none), s)
    | (none, s) =>
      match compute s with
      | ((.error e, report), s) => ((.error e, some report), s)
      | ((.ok v, report), s) =>
        let (r, s) := (s.publish key codec v).memoize key v
        ((r, some report), s)

/-- The value of a key, computed at most once while it stays memoized. -/
def remember {ε ι : Type} [Backend β] (s : Store β ν) (key : String) (codec : Codec ν)
    (compute : Store β ν → (Result ε ν × ι) × Store β ν) : (Result ε ν × Option ι) × Store β ν :=
  match s.lookUp key with
  | (some v, s) => ((.ok v, none), s)
  | (none, s) =>
    let (r, s) := (s.join key).2.produce key codec compute
    (r, s.leave key)

end Store
end FieldPlan.Cache
