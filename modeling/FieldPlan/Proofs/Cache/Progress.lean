import FieldPlan.Proofs.Cache.Locks
import FieldPlan.Proofs.Cache.Threads
/-!
# Progress

A thread that waits for the lock of a key may itself hold locks of the keys that it computes. When
every computation asks only for keys of lower ranks than its own, who holds an awaited lock awaits
at most a key of a lower rank. So no threads wait for each other in a circle, and one of them can
always step.
-/
namespace FieldPlan.Cache

variable {β ε ν α : Type}

namespace Task

/-- The task asks for keys of ranks below a bound, and what it computes for a key asks for keys of
ranks below that key's, whatever the answers are. -/
def Below (rank : String → Nat) : {α : Type} → Nat → Task ε ν α → Prop
  | _, _, .pure _ => True
  | _, _, .fail _ => True
  | _, n, .note _ next => next.Below rank n
  | _, n, .remember key _ body next =>
    rank key < n ∧ body.Below rank (rank key) ∧ ∀ r, (next r).Below rank n

variable {rank : String → Nat} {m n : Nat}

theorem Below.mono {t : Task ε ν α} (h : t.Below rank m) (hmn : m ≤ n) : t.Below rank n := by
  induction t with
  | pure a => trivial
  | fail e => trivial
  | note text next ih => exact ih h
  | remember key codec body next _ ih =>
    obtain ⟨hkey, hbody, hnext⟩ := h
    exact ⟨Nat.lt_of_lt_of_le hkey hmn, hbody, fun r => ih r (hnext r)⟩

theorem below_bind {γ : Type} {t : Task ε ν α} {f : α → Task ε ν γ} (ht : t.Below rank n)
    (hf : ∀ a, (f a).Below rank n) : (t.bind f).Below rank n := by
  induction t with
  | pure a => exact hf a
  | fail e => trivial
  | note text next ih => exact ih ht hf
  | remember key codec body next _ ih =>
    obtain ⟨hkey, hbody, hnext⟩ := ht
    exact ⟨hkey, hbody, fun r => ih r (hnext r) hf⟩

theorem below_ofResult (r : Result ε α) : (ofResult r : Task ε ν α).Below rank n := by
  cases r with
  | ok a => trivial
  | error e => trivial

theorem below_ofExcept (r : Except ε α) : (ofExcept r : Task ε ν α).Below rank n := by
  cases r with
  | ok a => trivial
  | error e => trivial

theorem below_cached {key : String} {codec : Codec ν} {body : Task ε ν ν} (hkey : rank key < n)
    (hbody : body.Below rank (rank key)) : (cached key codec body).Below rank n :=
  ⟨hkey, hbody, below_ofResult⟩

end Task

def Call.Below (rank : String → Nat) (n : Nat) (c : Call ε ν α) : Prop :=
  rank c.key < n ∧ c.body.Below rank (rank c.key) ∧ ∀ r, (c.next r).Below rank n

def Activity.Below (rank : String → Nat) (n : Nat) : Activity ε ν α → Prop
  | running t => t.Below rank n
  | joining c | waiting c _ | checking c _ | fetching c _ | publishing c _ _ | memoizing c _ _
  | unlocking c _ _ | leaving c _ _ => c.Below rank n

namespace Calls

/-- The bound for what is called inside these calls: the rank of the innermost one, or a bound for
all. -/
def bound (rank : String → Nat) (top : Nat) : {γ α : Type} → Calls ε ν γ α → Nat
  | _, _, .none => top
  | _, _, .computing c _ _ => rank c.key

def Below (rank : String → Nat) (top : Nat) : {γ α : Type} → Calls ε ν γ α → Prop
  | _, _, .none => True
  | _, _, .computing c _ outer => c.Below rank (outer.bound rank top) ∧ outer.Below rank top

theorem bound_le {rank : String → Nat} {top : Nat} {γ : Type} {calls : Calls ε ν γ α}
    (h : calls.Below rank top) {x : Stake ε ν} (hx : x ∈ calls.stakes) :
    calls.bound rank top ≤ rank x.key := by
  induction calls with
  | none => cases hx
  | computing c lock outer ih =>
    obtain ⟨hc, houter⟩ := h
    rcases List.mem_cons.mp hx with rfl | hx
    · exact Nat.le_refl _
    · exact Nat.le_trans (Nat.le_of_lt hc.1) (ih houter hx)

end Calls

namespace Thread

/-- What the thread does at any depth is below the rank of the key that it computes there. -/
structure Below (rank : String → Nat) (top : Nat) (t : Thread ε ν α) : Prop where
  activity : t.activity.Below rank (t.calls.bound rank top)
  calls : t.calls.Below rank top

variable {rank : String → Nat} {top : Nat}

theorem Below.step [Backend β] {t t' : Thread ε ν α} {s s' : Shared β ν} (h : t.Below rank top)
    (hstep : t.step s = some (t', s')) : t'.Below rank top := by
  obtain ⟨inner, activity, calls⟩ := t
  obtain ⟨hactivity, hcalls⟩ := h
  cases activity with
  | running task =>
    cases task with
    | pure v =>
      cases calls with
      | none => cases hstep
      | computing c lock outer =>
        obtain ⟨rfl, rfl⟩ := Prod.mk.inj (Option.some.inj hstep)
        exact ⟨hcalls.1, hcalls.2⟩
    | fail e =>
      cases calls with
      | none => cases hstep
      | computing c lock outer =>
        obtain ⟨rfl, rfl⟩ := Prod.mk.inj (Option.some.inj hstep)
        exact ⟨hcalls.1, hcalls.2⟩
    | note text next =>
      obtain ⟨rfl, rfl⟩ := Prod.mk.inj (Option.some.inj hstep)
      exact ⟨hactivity, hcalls⟩
    | remember key codec body next =>
      simp only [Thread.step] at hstep
      obtain ⟨rfl, rfl⟩ := Prod.mk.inj (Option.some.inj hstep)
      cases (s.store.lookUp key).1 with
      | none => exact ⟨hactivity, hcalls⟩
      | some v => exact ⟨hactivity.2.2 (.ok v), hcalls⟩
  | waiting c lock =>
    simp only [Thread.step] at hstep
    split at hstep
    · cases hstep
    · obtain ⟨rfl, rfl⟩ := Prod.mk.inj (Option.some.inj hstep)
      exact ⟨hactivity, hcalls⟩
  | checking c lock =>
    simp only [Thread.step] at hstep
    obtain ⟨rfl, rfl⟩ := Prod.mk.inj (Option.some.inj hstep)
    cases (s.store.lookUp c.key).1 with
    | none => exact ⟨hactivity, hcalls⟩
    | some v => exact ⟨hactivity, hcalls⟩
  | fetching c lock =>
    rw [step_fetching] at hstep
    obtain ⟨rfl, rfl⟩ := Prod.mk.inj (Option.some.inj hstep)
    cases (s.store.fetch c.key c.codec).1 with
    | none => exact ⟨hactivity.2.1, hactivity, hcalls⟩
    | some v => exact ⟨hactivity, hcalls⟩
  | leaving c lock r =>
    obtain ⟨rfl, rfl⟩ := Prod.mk.inj (Option.some.inj hstep)
    exact ⟨hactivity.2.2 r, hcalls⟩
  | _ =>
    obtain ⟨rfl, rfl⟩ := Prod.mk.inj (Option.some.inj hstep)
    exact ⟨hactivity, hcalls⟩

/-- The key and the lock that a thread waits for. -/
def awaited? : Thread ε ν α → Option (String × Nat)
  | ⟨_, .waiting c lock, _⟩ => some (c.key, lock)
  | _ => none

def Holds (t : Thread ε ν α) (lock : Nat) : Prop :=
  ∃ x ∈ t.stakes, x.stage.holds = true ∧ x.lock = lock

theorem mem_stakes_of_awaited? {t : Thread ε ν α} {key : String} {lock : Nat}
    (h : t.awaited? = some (key, lock)) : ⟨key, lock, .waiting⟩ ∈ t.stakes := by
  unfold awaited? at h
  split at h
  · obtain ⟨rfl, rfl⟩ := Prod.mk.inj (Option.some.inj h)
    exact List.mem_cons_self
  · cases h

theorem Below.rank_lt {t : Thread ε ν α} (h : t.Below rank top) {key : String} {lock : Nat}
    (hawaited : t.awaited? = some (key, lock)) {x : Stake ε ν} (hx : x ∈ t.stakes)
    (hholds : x.stage.holds = true) : rank key < rank x.key := by
  unfold awaited? at hawaited
  split at hawaited
  · next inner c lock' calls =>
    obtain ⟨rfl, rfl⟩ := Prod.mk.inj (Option.some.inj hawaited)
    rcases List.mem_cons.mp hx with rfl | hx
    · cases hholds
    · exact Nat.lt_of_lt_of_le h.activity.1 (Calls.bound_le h.calls hx)
  · cases hawaited

theorem step_eq_none [Backend β] {t : Thread ε ν α} {s : Shared β ν} (h : t.step s = none) :
    t.result?.isSome ∨ ∃ key lock, t.awaited? = some (key, lock) ∧ lock ∈ s.held := by
  obtain ⟨inner, activity, calls⟩ := t
  cases activity with
  | running task =>
    cases task with
    | pure v =>
      cases calls with
      | none => exact .inl rfl
      | computing c lock outer => cases h
    | fail e =>
      cases calls with
      | none => exact .inl rfl
      | computing c lock outer => cases h
    | note text next => cases h
    | remember key codec body next => cases h
  | waiting c lock =>
    by_cases hheld : lock ∈ s.held
    · exact .inr ⟨c.key, lock, rfl, hheld⟩
    · simp only [step, if_neg hheld] at h
      cases h
  | fetching c lock =>
    rw [step_fetching] at h
    cases h
  | _ => cases h

end Thread

namespace Crew

/-- A thread waits for a lock that another holds, or itself. -/
def WaitsFor (w : Crew β ε ν α) (i j : Nat) : Prop :=
  ∃ t u key lock, w.threads[i]? = some t ∧ w.threads[j]? = some u ∧
    t.awaited? = some (key, lock) ∧ u.Holds lock

theorem exists_holds_iff {w : Crew β ε ν α} {lock : Nat} :
    (∃ t ∈ w.threads, t.Holds lock) ↔ ∃ x ∈ w.stakes, x.stage.holds = true ∧ x.lock = lock := by
  constructor
  · rintro ⟨t, ht, x, hx, hholds⟩
    exact ⟨x, List.mem_flatMap.mpr ⟨t, ht, hx⟩, hholds⟩
  · rintro ⟨x, hx, hholds⟩
    obtain ⟨t, ht, hxt⟩ := List.mem_flatMap.mp hx
    exact ⟨t, ht, x, hxt, hholds⟩

/-- How far up the ranks a thread waits; a thread that does not wait is at the bottom. -/
def height (rank : String → Nat) (w : Crew β ε ν α) (i : Nat) : Nat :=
  ((w.threads[i]?.bind Thread.awaited?).map fun (key, _) => rank key + 1).getD 0

theorem below_start {rank : String → Nat} {top : Nat} {tasks : List (Task ε ν α)}
    (h : ∀ task ∈ tasks, task.Below rank top) (s : Store β ν) :
    ∀ t ∈ (start tasks s).threads, t.Below rank top := by
  intro t ht
  obtain ⟨task, htask, rfl⟩ := List.mem_map.mp ht
  exact ⟨h task htask, trivial⟩

/-- The threads stay below after any moves. -/
theorem below_run [Backend β] {rank : String → Nat} {top : Nat} {w : Crew β ε ν α}
    (h : ∀ t ∈ w.threads, t.Below rank top) (moves : List Move) :
    ∀ t ∈ (w.run moves).threads, t.Below rank top := by
  induction moves generalizing w with
  | nil => exact h
  | cons m moves ih =>
    refine ih fun t ht => ?_
    cases m with
    | pass seconds => exact h t ht
    | step i =>
      rcases w.step_cases i with hsame | ⟨u, u', shared, hu, hstep, heq⟩
      · rw [move, hsame] at ht
        exact h t ht
      · rw [move, heq] at ht
        rcases List.mem_or_eq_of_mem_set ht with ht | rfl
        · exact h t ht
        · exact (h u (List.mem_of_getElem? hu)).step hstep

variable {w : Crew β ε ν α} {rank : String → Nat} {top : Nat}

theorem height_lt (hord : Orderly w.stakes w.shared) (hapart : w.shared.store.LocksApart)
    (hbelow : ∀ t ∈ w.threads, t.Below rank top) {i j : Nat} (h : w.WaitsFor i j) :
    w.height rank j < w.height rank i := by
  obtain ⟨t, u, key, lock, ht, hu, hawaited, x, hx, hholds, hlock⟩ := h
  have hkey : x.key = key := hord.key_of_lock hapart (mem_stakes hu hx)
    (mem_stakes ht (Thread.mem_stakes_of_awaited? hawaited)) hlock
  unfold height
  rw [ht, hu, Option.bind_some, Option.bind_some, hawaited]
  cases hother : u.awaited? with
  | none => exact Nat.succ_pos _
  | some other =>
    have hless := (hbelow u (List.mem_of_getElem? hu)).rank_lt hother hx hholds
    rw [hkey] at hless
    exact Nat.succ_lt_succ hless

theorem not_circular (hord : Orderly w.stakes w.shared) (hapart : w.shared.store.LocksApart)
    (hbelow : ∀ t ∈ w.threads, t.Below rank top) (i : Nat) :
    ¬ Relation.TransGen w.WaitsFor i i := by
  have hless : ∀ j, Relation.TransGen w.WaitsFor i j → w.height rank j < w.height rank i := by
    intro j h
    induction h with
    | single h => exact height_lt hord hapart hbelow h
    | tail _ h ih => exact Nat.lt_trans (height_lt hord hapart hbelow h) ih
  exact fun h => Nat.lt_irrefl _ (hless i h)

/-- A thread that has not ended can step, or waits for another that has not ended. -/
theorem step?_or_waitsFor [Backend β] (hord : Orderly w.stakes w.shared) {i : Nat}
    {t : Thread ε ν α} (ht : w.threads[i]? = some t) (hresult : t.result? = none) :
    (w.step? i).isSome ∨ ∃ j u, w.threads[j]? = some u ∧ u.result? = none ∧ w.WaitsFor i j := by
  cases hstep : t.step w.shared with
  | some next =>
    refine .inl ?_
    simp [step?, ht, hstep]
  | none =>
    rcases Thread.step_eq_none hstep with hended | ⟨key, lock, hawaited, hheld⟩
    · rw [hresult] at hended
      cases hended
    · obtain ⟨x, hx, hholds, hlock⟩ := hord.mem_held_iff.mp hheld
      obtain ⟨u, hu, hxu⟩ := List.mem_flatMap.mp hx
      obtain ⟨j, hj⟩ := List.mem_iff_getElem?.mp hu
      refine .inr ⟨j, u, hj, ?_, t, u, key, lock, ht, hj, hawaited, x, hxu, hholds, hlock⟩
      -- a thread that has ended has no calls under way
      cases hr : u.result? with
      | none => rfl
      | some r =>
        rw [Thread.eq_of_result? hr] at hxu
        cases hxu

theorem exists_step [Backend β] (hord : Orderly w.stakes w.shared)
    (hapart : w.shared.store.LocksApart) (hbelow : ∀ t ∈ w.threads, t.Below rank top) {i : Nat}
    {t : Thread ε ν α} (ht : w.threads[i]? = some t) (hresult : t.result? = none) :
    ∃ j, (w.step? j).isSome := by
  induction hn : w.height rank i using Nat.strongRecOn generalizing i t with
  | ind n ih =>
    subst hn
    rcases step?_or_waitsFor hord ht hresult with hstep | ⟨j, u, hu, hunfinished, hwaits⟩
    · exact ⟨i, hstep⟩
    · exact ih _ (height_lt hord hapart hbelow hwaits) hu hunfinished rfl

end Crew
end FieldPlan.Cache
