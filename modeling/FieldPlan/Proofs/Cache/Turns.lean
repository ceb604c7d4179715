import FieldPlan.Cache.Flight
/-!
# Turns

What one step of a thread does to the calls that are under way. A call has a stake in a flight from
joining to leaving it; a step opens, moves on or closes one stake and leaves all others alone.
-/
namespace FieldPlan.Cache

/-- How far a call is that has joined its flight. -/
inductive Stage (ε ν : Type) where
  | waiting
  | checking
  | fetching
  | computing
  | publishing (v : ν)
  | memoizing (v : ν)
  | unlocking (r : Result ε ν)
  | leaving (r : Result ε ν)

namespace Stage

variable {ε ν : Type}

def holds : Stage ε ν → Bool
  | waiting | leaving _ => false
  | _ => true

/-- The memo had no value when the lock was taken. -/
def produces : Stage ε ν → Bool
  | fetching | computing | publishing _ | memoizing _ => true
  | _ => false

/-- A value is there but not yet in the memo. -/
def stores : Stage ε ν → Bool
  | publishing _ | memoizing _ => true
  | _ => false

def isComputing : Stage ε ν → Bool
  | computing => true
  | _ => false

def result? : Stage ε ν → Option (Result ε ν)
  | unlocking r | leaving r => some r
  | _ => none

theorem holds_of_produces {x : Stage ε ν} (h : x.produces = true) : x.holds = true := by
  cases x with
  | waiting => cases h
  | leaving r => cases h
  | _ => rfl

theorem produces_of_stores {x : Stage ε ν} (h : x.stores = true) : x.produces = true := by
  cases x with
  | publishing v => rfl
  | memoizing v => rfl
  | _ => cases h

theorem produces_of_isComputing {x : Stage ε ν} (h : x.isComputing = true) :
    x.produces = true := by
  cases x with
  | computing => rfl
  | _ => cases h

end Stage

/-- A call between joining and leaving its flight. -/
structure Stake (ε ν : Type) where
  key : String
  lock : Nat
  stage : Stage ε ν

variable {β ε ν α : Type}

def Activity.stakes : Activity ε ν α → List (Stake ε ν)
  | running _ => []
  | joining _ => []
  | waiting c lock => [⟨c.key, lock, .waiting⟩]
  | checking c lock => [⟨c.key, lock, .checking⟩]
  | fetching c lock => [⟨c.key, lock, .fetching⟩]
  | publishing c lock v => [⟨c.key, lock, .publishing v⟩]
  | memoizing c lock v => [⟨c.key, lock, .memoizing v⟩]
  | unlocking c lock r => [⟨c.key, lock, .unlocking r⟩]
  | leaving c lock r => [⟨c.key, lock, .leaving r⟩]

def Calls.stakes : {γ α : Type} → Calls ε ν γ α → List (Stake ε ν)
  | _, _, .none => []
  | _, _, .computing c lock outer => ⟨c.key, lock, .computing⟩ :: outer.stakes

def Thread.stakes (t : Thread ε ν α) : List (Stake ε ν) := t.activity.stakes ++ t.calls.stakes

def Crew.stakes (w : Crew β ε ν α) : List (Stake ε ν) := w.threads.flatMap Thread.stakes

def Thread.failing? : Thread ε ν α → Option String
  | ⟨_, .running (.fail _), .computing c _ _⟩ => some c.key
  | _ => none

/-- What a step does to the stakes it touches and to what the threads share. -/
inductive Turn [Backend β] (failing? : Option String) (s : Shared β ν) :
    List (Stake ε ν) → List (Stake ε ν) → Shared β ν → Prop where
  | note (w : Warning) : Turn failing? s [] [] { s with store := s.store.warn w }
  | look (key : String) :
    Turn failing? s [] [] { s with store := (s.store.lookUp key).2 }
  | join (key : String) :
    Turn failing? s [] [⟨key, (s.store.join key).1, .waiting⟩]
      { s with store := (s.store.join key).2 }
  | take (key : String) (lock : Nat) (h : lock ∉ s.held) :
    Turn failing? s [⟨key, lock, .waiting⟩] [⟨key, lock, .checking⟩]
      { s with held := lock :: s.held }
  | hit (key : String) (lock : Nat) (v : ν)
    (h : (s.store.lookUp key).1 = some v) :
    Turn failing? s [⟨key, lock, .checking⟩] [⟨key, lock, .unlocking (.ok v)⟩]
      { s with store := (s.store.lookUp key).2 }
  | miss (key : String) (lock : Nat) (h : (s.store.lookUp key).1 = none) :
    Turn failing? s [⟨key, lock, .checking⟩] [⟨key, lock, .fetching⟩]
      { s with store := (s.store.lookUp key).2 }
  | fetched (key : String) (lock : Nat) (codec : Codec ν) (v : ν) :
    Turn failing? s [⟨key, lock, .fetching⟩] [⟨key, lock, .memoizing v⟩]
      { s with store := (s.store.fetch key codec).2 }
  | compute (key : String) (lock : Nat) (codec : Codec ν) :
    Turn failing? s [⟨key, lock, .fetching⟩] [⟨key, lock, .computing⟩]
      { s with store := (s.store.fetch key codec).2 }
  | computed (key : String) (lock : Nat) (v : ν) :
    Turn failing? s [⟨key, lock, .computing⟩] [⟨key, lock, .publishing v⟩]
      { s with computed := key :: s.computed }
  | raised (key : String) (lock : Nat) (e : Failure ε) (h : failing? = some key) :
    Turn failing? s [⟨key, lock, .computing⟩] [⟨key, lock, .unlocking (.error e)⟩] s
  | publish (key : String) (lock : Nat) (codec : Codec ν) (v : ν) :
    Turn failing? s [⟨key, lock, .publishing v⟩] [⟨key, lock, .memoizing v⟩]
      { s with store := s.store.publish key codec v }
  | memoize (key : String) (lock : Nat) (v : ν) :
    Turn failing? s [⟨key, lock, .memoizing v⟩]
      [⟨key, lock, .unlocking (s.store.memoize key v).1⟩]
      { s with store := (s.store.memoize (ε := ε) key v).2 }
  | unlock (key : String) (lock : Nat) (r : Result ε ν) :
    Turn failing? s [⟨key, lock, .unlocking r⟩] [⟨key, lock, .leaving r⟩]
      { s with held := s.held.erase lock }
  | leave (key : String) (lock : Nat) (r : Result ε ν) :
    Turn failing? s [⟨key, lock, .leaving r⟩] [] { s with store := s.store.leave key }

theorem Thread.step_fetching [Backend β] {γ : Type} (c : Call ε ν γ) (lock : Nat)
    (calls : Calls ε ν γ α) (s : Shared β ν) :
    Thread.step ⟨γ, .fetching c lock, calls⟩ s =
      some ((s.store.fetch c.key c.codec).1.elim ⟨ν, .running c.body, .computing c lock calls⟩
          fun v => ⟨γ, .memoizing c lock v, calls⟩,
        { s with store := (s.store.fetch c.key c.codec).2 }) := by
  simp only [Thread.step]
  rcases s.store.fetch c.key c.codec with ⟨_ | v, store⟩
  · rfl
  · rfl

theorem Thread.turn_of_step [Backend β] {t t' : Thread ε ν α} {s s' : Shared β ν}
    (h : t.step s = some (t', s')) :
    ∃ old new rest, t.stakes = old ++ rest ∧ t'.stakes = new ++ rest ∧
      Turn t.failing? s old new s' := by
  obtain ⟨inner, activity, calls⟩ := t
  cases activity with
  | running task =>
    cases task with
    | pure v =>
      cases calls with
      | none => cases h
      | computing c lock outer =>
        obtain ⟨rfl, rfl⟩ := Prod.mk.inj (Option.some.inj h)
        exact ⟨[_], [_], outer.stakes, rfl, rfl, .computed c.key lock v⟩
    | fail e =>
      cases calls with
      | none => cases h
      | computing c lock outer =>
        obtain ⟨rfl, rfl⟩ := Prod.mk.inj (Option.some.inj h)
        exact ⟨[_], [_], outer.stakes, rfl, rfl, .raised c.key lock e rfl⟩
    | note text next =>
      obtain ⟨rfl, rfl⟩ := Prod.mk.inj (Option.some.inj h)
      exact ⟨[], [], calls.stakes, rfl, rfl, .note (.note text)⟩
    | remember key codec body next =>
      simp only [Thread.step] at h
      obtain ⟨rfl, rfl⟩ := Prod.mk.inj (Option.some.inj h)
      refine ⟨[], [], calls.stakes, rfl, ?_, .look key⟩
      cases (s.store.lookUp key).1 <;> rfl
  | joining c =>
    obtain ⟨rfl, rfl⟩ := Prod.mk.inj (Option.some.inj h)
    exact ⟨[], [_], calls.stakes, rfl, rfl, .join c.key⟩
  | waiting c lock =>
    simp only [Thread.step] at h
    split at h
    · cases h
    · next hfree =>
      obtain ⟨rfl, rfl⟩ := Prod.mk.inj (Option.some.inj h)
      exact ⟨[_], [_], calls.stakes, rfl, rfl, .take c.key lock hfree⟩
  | checking c lock =>
    simp only [Thread.step] at h
    cases hfound : (s.store.lookUp c.key).1 with
    | some v =>
      rw [hfound] at h
      obtain ⟨rfl, rfl⟩ := Prod.mk.inj (Option.some.inj h)
      exact ⟨[_], [_], calls.stakes, rfl, rfl, .hit c.key lock v hfound⟩
    | none =>
      rw [hfound] at h
      obtain ⟨rfl, rfl⟩ := Prod.mk.inj (Option.some.inj h)
      exact ⟨[_], [_], calls.stakes, rfl, rfl, .miss c.key lock hfound⟩
  | fetching c lock =>
    rw [Thread.step_fetching] at h
    obtain ⟨rfl, rfl⟩ := Prod.mk.inj (Option.some.inj h)
    cases (s.store.fetch c.key c.codec).1 with
    | none => exact ⟨[_], [_], calls.stakes, rfl, rfl, .compute c.key lock c.codec⟩
    | some v => exact ⟨[_], [_], calls.stakes, rfl, rfl, .fetched c.key lock c.codec v⟩
  | publishing c lock v =>
    obtain ⟨rfl, rfl⟩ := Prod.mk.inj (Option.some.inj h)
    exact ⟨[_], [_], calls.stakes, rfl, rfl, .publish c.key lock c.codec v⟩
  | memoizing c lock v =>
    obtain ⟨rfl, rfl⟩ := Prod.mk.inj (Option.some.inj h)
    exact ⟨[_], [_], calls.stakes, rfl, rfl, .memoize c.key lock v⟩
  | unlocking c lock r =>
    obtain ⟨rfl, rfl⟩ := Prod.mk.inj (Option.some.inj h)
    exact ⟨[_], [_], calls.stakes, rfl, rfl, .unlock c.key lock r⟩
  | leaving c lock r =>
    obtain ⟨rfl, rfl⟩ := Prod.mk.inj (Option.some.inj h)
    exact ⟨[_], [], calls.stakes, rfl, rfl, .leave c.key lock r⟩

/-- What can happen next: a step of a thread, or time passes. -/
inductive Move where
  | step (i : Nat)
  | pass (seconds : Nat)

namespace Crew

theorem mem_stakes {w : Crew β ε ν α} {i : Nat} {t : Thread ε ν α} (ht : w.threads[i]? = some t)
    {x : Stake ε ν} (hx : x ∈ t.stakes) : x ∈ w.stakes :=
  List.mem_flatMap.mpr ⟨t, List.mem_of_getElem? ht, hx⟩

private theorem stakes_set {w : Crew β ε ν α} {i : Nat} {t : Thread ε ν α}
    (ht : w.threads[i]? = some t) (t' : Thread ε ν α) (shared : Shared β ν) :
    ∃ rest, w.stakes.Perm (t.stakes ++ rest) ∧
      (Crew.stakes ⟨w.threads.set i t', shared⟩).Perm (t'.stakes ++ rest) := by
  obtain ⟨hi, ht⟩ := List.getElem?_eq_some_iff.mp ht
  have hsplit : w.threads = w.threads.take i ++ t :: w.threads.drop (i + 1) := by
    rw [← ht, ← List.drop_eq_getElem_cons hi, List.take_append_drop]
  refine ⟨(w.threads.take i).flatMap Thread.stakes ++
    (w.threads.drop (i + 1)).flatMap Thread.stakes, ?_, ?_⟩
  · have hstakes : w.stakes = (w.threads.take i ++ t :: w.threads.drop (i + 1)).flatMap
        Thread.stakes := congrArg (List.flatMap Thread.stakes) hsplit
    rw [hstakes, List.flatMap_append, List.flatMap_cons]
    exact List.perm_append_comm_assoc _ _ _
  · unfold stakes
    rw [List.set_eq_take_append_cons_drop, if_pos hi, List.flatMap_append, List.flatMap_cons]
    exact List.perm_append_comm_assoc _ _ _

variable [Backend β]

def move (w : Crew β ε ν α) : Move → Crew β ε ν α
  | .step i => w.step i
  | .pass seconds => { w with shared := { w.shared with store := w.shared.store.advance seconds } }

def run (w : Crew β ε ν α) (moves : List Move) : Crew β ε ν α := moves.foldl move w

theorem runSchedule_eq_run (w : Crew β ε ν α) (schedule : List Nat) :
    w.runSchedule schedule = w.run (schedule.map .step) := by
  rw [run, List.foldl_map]
  rfl

theorem step_cases (w : Crew β ε ν α) (i : Nat) :
    w.step i = w ∨ ∃ t t' shared, w.threads[i]? = some t ∧
      t.step w.shared = some (t', shared) ∧ w.step i = ⟨w.threads.set i t', shared⟩ := by
  unfold step step?
  cases ht : w.threads[i]? with
  | none => exact .inl rfl
  | some t =>
    cases hstep : t.step w.shared with
    | none => exact .inl (by simp [hstep])
    | some next =>
      obtain ⟨t', shared⟩ := next
      exact .inr ⟨t, t', shared, rfl, hstep, by simp [hstep]⟩

/-- A step of a crew takes at most one turn. -/
theorem turn_of_step (w : Crew β ε ν α) (i : Nat) :
    w.step i = w ∨ ∃ t ∈ w.threads, ∃ old new rest, w.stakes.Perm (old ++ rest) ∧
      (w.step i).stakes.Perm (new ++ rest) ∧
      Turn t.failing? w.shared old new (w.step i).shared := by
  rcases w.step_cases i with hsame | ⟨t, t', shared, ht, hstep, heq⟩
  · exact .inl hsame
  · obtain ⟨old, new, rest, hold, hnew, hturn⟩ := t.turn_of_step hstep
    obtain ⟨others, hbefore, hafter⟩ := stakes_set ht t' shared
    rw [hold, List.append_assoc] at hbefore
    rw [hnew, List.append_assoc] at hafter
    exact .inr ⟨t, List.mem_of_getElem? ht, old, new, rest ++ others, hbefore, heq ▸ hafter,
      heq ▸ hturn⟩

end Crew
end FieldPlan.Cache
