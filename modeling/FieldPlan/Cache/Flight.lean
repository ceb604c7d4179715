import FieldPlan.Cache.Task
/-!
# Concurrent tasks

Threads that carry out tasks against one store, one atomic step at a time. A call of `remember`
looks the memo up, joins the key's flight, takes its lock, looks the memo up again, fetches,
computes, publishes, memoizes, drops the lock and leaves the flight; the last two happen also when
the computation fails. While a thread computes, the tasks inside may make calls of their own. A
thread that waits for a lock which another call holds cannot step.
-/
namespace FieldPlan.Cache

/-- A call of `remember`, and what follows it. -/
structure Call (ε ν α : Type) : Type 1 where
  key : String
  codec : Codec ν
  body : Task ε ν ν
  next : Result ε ν → Task ε ν α

/-- Where a thread stands. -/
inductive Activity (ε ν α : Type) : Type 1 where
  | running (t : Task ε ν α)
  /-- the memo had no value -/
  | joining (c : Call ε ν α)
  /-- in the flight, without its lock -/
  | waiting (c : Call ε ν α) (lock : Nat)
  /-- with the lock, before the second look at the memo -/
  | checking (c : Call ε ν α) (lock : Nat)
  | fetching (c : Call ε ν α) (lock : Nat)
  /-- the computation has ended with a value -/
  | publishing (c : Call ε ν α) (lock : Nat) (v : ν)
  | memoizing (c : Call ε ν α) (lock : Nat) (v : ν)
  | unlocking (c : Call ε ν α) (lock : Nat) (r : Result ε ν)
  /-- without the lock again -/
  | leaving (c : Call ε ν α) (lock : Nat) (r : Result ε ν)

/-- The calls whose computations are running, innermost first. -/
inductive Calls (ε ν : Type) : Type → Type → Type 1 where
  | none {α : Type} : Calls ε ν α α
  | computing {α γ : Type} (c : Call ε ν γ) (lock : Nat) (outer : Calls ε ν γ α) : Calls ε ν ν α

/-- A thread that is to answer an `α`; its innermost task answers an `inner`. -/
structure Thread (ε ν α : Type) : Type 1 where
  inner : Type
  activity : Activity ε ν inner
  calls : Calls ε ν inner α

/-- What the threads share: the store, the locks that are held, and the keys whose computations
have ended with a value, last first. -/
structure Shared (β ν : Type) where
  store : Store β ν
  held : List Nat
  computed : List String

namespace Thread

variable {β ε ν α : Type}

def start (t : Task ε ν α) : Thread ε ν α := ⟨α, .running t, .none⟩

/-- The outcome of a thread that has ended. -/
def result? : Thread ε ν α → Option (Result ε α)
  | ⟨_, .running (.pure a), .none⟩ => some (.ok a)
  | ⟨_, .running (.fail e), .none⟩ => some (.error e)
  | _ => none

/-- The next step, unless the thread has ended or waits for a lock that is held. -/
def step [Backend β] : Thread ε ν α → Shared β ν → Option (Thread ε ν α × Shared β ν)
  | ⟨_, .running (.pure v), .computing c lock outer⟩, s =>
    some (⟨_, .publishing c lock v, outer⟩, { s with computed := c.key :: s.computed })
  | ⟨_, .running (.fail e), .computing c lock outer⟩, s =>
    some (⟨_, .unlocking c lock (.error e), outer⟩, s)
  | ⟨_, .running (.pure _), .none⟩, _ => none
  | ⟨_, .running (.fail _), .none⟩, _ => none
  | ⟨_, .running (.note text next), calls⟩, s =>
    some (⟨_, .running next, calls⟩, { s with store := s.store.warn (.note text) })
  | ⟨_, .running (.remember key codec body next), calls⟩, s =>
    let (found, store) := s.store.lookUp key
    let activity := match found with
      | some v => .running (next (.ok v))
      | none => .joining ⟨key, codec, body, next⟩
    some (⟨_, activity, calls⟩, { s with store })
  | ⟨_, .joining c, calls⟩, s =>
    let (lock, store) := s.store.join c.key
    some (⟨_, .waiting c lock, calls⟩, { s with store })
  | ⟨_, .waiting c lock, calls⟩, s =>
    if lock ∈ s.held then none
    else some (⟨_, .checking c lock, calls⟩, { s with held := lock :: s.held })
  | ⟨_, .checking c lock, calls⟩, s =>
    let (found, store) := s.store.lookUp c.key
    let activity := match found with
      | some v => .unlocking c lock (.ok v)
      | none => .fetching c lock
    some (⟨_, activity, calls⟩, { s with store })
  | ⟨_, .fetching c lock, calls⟩, s =>
    match s.store.fetch c.key c.codec with
    | (some v, store) => some (⟨_, .memoizing c lock v, calls⟩, { s with store })
    | (none, store) => some (⟨_, .running c.body, .computing c lock calls⟩, { s with store })
  | ⟨_, .publishing c lock v, calls⟩, s =>
    some (⟨_, .memoizing c lock v, calls⟩,
      { s with store := s.store.publish c.key c.codec v })
  | ⟨_, .memoizing c lock v, calls⟩, s =>
    let (r, store) := s.store.memoize c.key v
    some (⟨_, .unlocking c lock r, calls⟩, { s with store })
  | ⟨_, .unlocking c lock r, calls⟩, s =>
    some (⟨_, .leaving c lock r, calls⟩, { s with held := s.held.erase lock })
  | ⟨_, .leaving c _ r, calls⟩, s =>
    some (⟨_, .running (c.next r), calls⟩, { s with store := s.store.leave c.key })

end Thread

structure Crew (β ε ν α : Type) : Type 1 where
  threads : List (Thread ε ν α)
  shared : Shared β ν

namespace Crew

variable {β ε ν α : Type}

def start (tasks : List (Task ε ν α)) (s : Store β ν) : Crew β ε ν α :=
  ⟨tasks.map Thread.start, ⟨s, [], []⟩⟩

def step? [Backend β] (w : Crew β ε ν α) (i : Nat) : Option (Crew β ε ν α) := do
  let t ← w.threads[i]?
  let (t, shared) ← t.step w.shared
  return ⟨w.threads.set i t, shared⟩

/-- One step of the thread at a position; a thread that cannot step stays as it is. -/
def step [Backend β] (w : Crew β ε ν α) (i : Nat) : Crew β ε ν α := (w.step? i).getD w

def runSchedule [Backend β] (w : Crew β ε ν α) (schedule : List Nat) : Crew β ε ν α :=
  schedule.foldl step w

/-- Every thread in turn, for a number of rounds. -/
def runRounds [Backend β] (w : Crew β ε ν α) (rounds : Nat) : Crew β ε ν α :=
  w.runSchedule ((List.replicate rounds (List.range w.threads.length)).flatten)

def results? (w : Crew β ε ν α) : List (Option (Result ε α)) := w.threads.map Thread.result?

end Crew
end FieldPlan.Cache
