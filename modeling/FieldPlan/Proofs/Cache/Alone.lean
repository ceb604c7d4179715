import FieldPlan.Proofs.Cache.Isolation
import FieldPlan.Proofs.Cache.Locks
/-!
# A thread alone

While no other thread moves, a thread whose keys are free gets through: its steps carry its task
out as `Task.run` does, and it ends with the locks held that were held before.
-/
namespace FieldPlan.Cache

variable {β ε ν α γ : Type}

/-- Some steps of a thread, one after the other. -/
inductive Thread.Advances [Backend β] : Thread ε ν α → Shared β ν → Thread ε ν α → Shared β ν → Prop
  | done (t : Thread ε ν α) (s : Shared β ν) : Advances t s t s
  | step {t t' t'' : Thread ε ν α} {s s' s'' : Shared β ν} (h : t.step s = some (t', s'))
    (hrest : Advances t' s' t'' s'') : Advances t s t'' s''

namespace Thread

variable [Backend β]

theorem Advances.trans {t t' t'' : Thread ε ν α} {s s' s'' : Shared β ν} (h : t.Advances s t' s')
    (h' : t'.Advances s' t'' s'') : t.Advances s t'' s'' := by
  induction h with
  | done t s => exact h'
  | step hstep _ ih => exact .step hstep (ih h')

variable {key : String} {codec : Codec ν} {body : Task ε ν ν} {next : Result ε ν → Task ε ν γ}
  {calls : Calls ε ν γ α} {s : Shared β ν}

theorem advances_unlocking (c : Call ε ν γ) (lock : Nat) (r : Result ε ν) (store : Store β ν)
    (held : List Nat) (computed : List String) :
    Advances ⟨γ, .unlocking c lock r, calls⟩ ⟨store, lock :: held, computed⟩
      ⟨γ, .running (c.next r), calls⟩ ⟨store.leave c.key, held, computed⟩ := by
  have hunlock : Thread.step ⟨γ, .unlocking c lock r, calls⟩ ⟨store, lock :: held, computed⟩ =
      some (⟨γ, .leaving c lock r, calls⟩, ⟨store, held, computed⟩) := by
    simp only [Thread.step, List.erase_cons_head]
  exact .step hunlock (.step rfl (.done _ _))

theorem advances_memoizing (c : Call ε ν γ) (lock : Nat) (v : ν) (store : Store β ν)
    (held : List Nat) (computed : List String) :
    Advances ⟨γ, .memoizing c lock v, calls⟩ ⟨store, lock :: held, computed⟩
      ⟨γ, .running (c.next (store.memoize c.key v).1), calls⟩
      ⟨(store.memoize (ε := ε) c.key v).2.leave c.key, held, computed⟩ :=
  .step rfl (advances_unlocking c lock _ _ held computed)

theorem advances_produce (c : Call ε ν γ) {lock : Nat} (hlock : lock ∉ s.held)
    (hbody : ∀ (s' : Shared β ν) (inner : Calls ε ν ν α),
      s'.store.flights = s.store.flights → s'.store.freshLock = s.store.freshLock →
      s'.held = lock :: s.held →
      ∃ computed, Advances ⟨ν, .running c.body, inner⟩ s'
        ⟨ν, .running (.ofResult (c.body.run s'.store).1), inner⟩
        ⟨(c.body.run s'.store).2, s'.held, computed⟩) :
    let out := s.store.produce c.key c.codec fun s => (((c.body.run s).1, ()), (c.body.run s).2)
    ∃ computed, Advances ⟨γ, .waiting c lock, calls⟩ s
      ⟨γ, .running (c.next out.1.1), calls⟩ ⟨out.2.leave c.key, s.held, computed⟩ := by
  intro out
  have htake : Thread.step ⟨γ, .waiting c lock, calls⟩ s =
      some (⟨γ, .checking c lock, calls⟩, ⟨s.store, lock :: s.held, s.computed⟩) := by
    simp only [Thread.step, if_neg hlock]
  cases hfound : (s.store.lookUp c.key).1 with
  | some v =>
    -- another call has memoized a value since this one looked
    have hout : out = ((.ok v, none), (s.store.lookUp c.key).2) := Store.produce_of_some hfound
    have hcheck : Thread.step ⟨γ, .checking c lock, calls⟩ ⟨s.store, lock :: s.held, s.computed⟩ =
        some (⟨γ, .unlocking c lock (.ok v), calls⟩,
          ⟨(s.store.lookUp c.key).2, lock :: s.held, s.computed⟩) := by
      simp only [Thread.step, hfound]
    rw [hout]
    exact ⟨s.computed, .step htake (.step hcheck (advances_unlocking c lock _ _ _ _))⟩
  | none =>
    have hcheck : Thread.step ⟨γ, .checking c lock, calls⟩ ⟨s.store, lock :: s.held, s.computed⟩ =
        some (⟨γ, .fetching c lock, calls⟩, ⟨s.store, lock :: s.held, s.computed⟩) := by
      simp only [Thread.step, Store.lookUp_of_none hfound]
    have hfetch := Thread.step_fetching c lock calls ⟨s.store, lock :: s.held, s.computed⟩
    cases hstored : (s.store.fetch c.key c.codec).1 with
    | some v =>
      have hout : out = _ := Store.produce_of_fetch hfound hstored
      rw [hstored] at hfetch
      rw [hout]
      exact ⟨s.computed, .step htake (.step hcheck (.step hfetch
        (advances_memoizing c lock v _ s.held s.computed)))⟩
    | none =>
      rw [hstored] at hfetch
      obtain ⟨computed, hcomputes⟩ := hbody
        ⟨(s.store.fetch c.key c.codec).2, lock :: s.held, s.computed⟩ (.computing c lock calls)
        (s.store.flights_fetch c.key c.codec) (s.store.freshLock_fetch c.key c.codec) rfl
      cases hresult : (c.body.run (s.store.fetch c.key c.codec).2).1 with
      | error e =>
        have hout : out = _ := Store.produce_of_error hfound hstored hresult
        rw [hresult] at hcomputes
        rw [hout]
        exact ⟨computed, .step htake (.step hcheck (.step hfetch (hcomputes.trans
          (.step rfl (advances_unlocking c lock _ _ s.held computed)))))⟩
      | ok v =>
        have hout : out = _ := Store.produce_of_ok hfound hstored hresult
        rw [hresult] at hcomputes
        rw [hout]
        exact ⟨c.key :: computed, .step htake (.step hcheck (.step hfetch (hcomputes.trans
          (.step rfl (.step rfl (advances_memoizing c lock v _ s.held _))))))⟩

theorem advances_remember (hlock : (s.store.join key).1 ∉ s.held)
    (hbody : ∀ (s' : Shared β ν) (inner : Calls ε ν ν α),
      s'.store.flights = (s.store.join key).2.flights →
      s'.store.freshLock = (s.store.join key).2.freshLock →
      s'.held = (s.store.join key).1 :: s.held →
      ∃ computed, Advances ⟨ν, .running body, inner⟩ s'
        ⟨ν, .running (.ofResult (body.run s'.store).1), inner⟩
        ⟨(body.run s'.store).2, s'.held, computed⟩) :
    let out := s.store.remember key codec fun s => (((body.run s).1, ()), (body.run s).2)
    ∃ computed, Advances ⟨γ, .running (.remember key codec body next), calls⟩ s
      ⟨γ, .running (next out.1.1), calls⟩ ⟨out.2, s.held, computed⟩ := by
  intro out
  cases hfound : (s.store.lookUp key).1 with
  | some v =>
    have hout : out = ((.ok v, none), (s.store.lookUp key).2) := Store.remember_of_some hfound
    have hstep : Thread.step ⟨γ, .running (.remember key codec body next), calls⟩ s =
        some (⟨γ, .running (next (.ok v)), calls⟩, { s with store := (s.store.lookUp key).2 }) := by
      simp only [Thread.step, hfound]
    rw [hout]
    exact ⟨s.computed, .step hstep (.done _ _)⟩
  | none =>
    let c : Call ε ν γ := ⟨key, codec, body, next⟩
    let joined : Shared β ν := { s with store := (s.store.join key).2 }
    let produced := joined.store.produce key codec fun s => (((body.run s).1, ()), (body.run s).2)
    have hlook : Thread.step ⟨γ, .running (.remember key codec body next), calls⟩ s =
        some (⟨γ, .joining c, calls⟩, s) := by
      simp only [Thread.step, Store.lookUp_of_none hfound, c]
    have hout : out = _ := Store.remember_of_none hfound
    have hproduces : ∃ computed, Advances ⟨γ, .waiting c (s.store.join key).1, calls⟩ joined
        ⟨γ, .running (next produced.1.1), calls⟩ ⟨produced.2.leave key, s.held, computed⟩ :=
      advances_produce c hlock hbody
    obtain ⟨computed, hproduces⟩ := hproduces
    rw [hout]
    exact ⟨computed, .step hlook (.step rfl hproduces)⟩

end Thread

/-- A task whose keys are free gets through. -/
theorem Task.Free.advances [Backend β] {busy : String → Prop} {t : Task ε ν γ} (h : t.Free busy)
    (calls : Calls ε ν γ α) (s : Shared β ν)
    (hbusy : ∀ key f, s.store.flights.get? key = some f → busy key)
    (hheld : ∀ lock ∈ s.held, lock < s.store.freshLock) :
    ∃ computed, Thread.Advances ⟨γ, .running t, calls⟩ s
      ⟨γ, .running (.ofResult (t.run s.store).1), calls⟩
      ⟨(t.run s.store).2, s.held, computed⟩ := by
  induction t generalizing busy s with
  | pure a => exact ⟨s.computed, .done _ _⟩
  | fail e => exact ⟨s.computed, .done _ _⟩
  | note text next ih =>
    obtain ⟨computed, hnext⟩ := ih h calls { s with store := s.store.warn (.note text) } hbusy hheld
    exact ⟨computed, .step rfl hnext⟩
  | remember key codec body next ihbody ihnext =>
    obtain ⟨hkey, hbody, hnext⟩ := h
    have hclosed : s.store.flights.get? key = none := by
      cases hf : s.store.flights.get? key with
      | none => rfl
      | some f => exact absurd (hbusy key f hf) hkey
    -- the flight is a new one, so its lock is not held yet
    have hlock : (s.store.join key).1 = s.store.freshLock := by
      rw [Store.join_lock, hclosed]
      rfl
    have hfresh : (s.store.join key).2.freshLock = s.store.freshLock + 1 := by
      unfold Store.join
      rw [hclosed]
    have hbelow : ∀ lock ∈ (s.store.join key).1 :: s.held,
        lock < (s.store.join key).2.freshLock := by
      rw [hlock, hfresh]
      intro lock hmem
      rcases List.mem_cons.mp hmem with rfl | hmem
      · exact Nat.lt_succ_self _
      · exact Nat.lt_succ_of_lt (hheld lock hmem)
    have hunheld : (s.store.join key).1 ∉ s.held := by
      rw [hlock]
      exact fun hmem => Nat.lt_irrefl _ (hheld _ hmem)
    let out := s.store.remember key codec fun s => (((body.run s).1, ()), (body.run s).2)
    obtain ⟨computed, hcall⟩ : ∃ computed,
        Thread.Advances ⟨_, .running (.remember key codec body next), calls⟩ s
          ⟨_, .running (next out.1.1), calls⟩ ⟨out.2, s.held, computed⟩ := by
      refine Thread.advances_remember hunheld fun s' inner hflights hs' hheld' => ?_
      refine ihbody hbody inner s' (Store.busy_join hbusy hflights) ?_
      rw [hheld', hs']
      exact hbelow
    obtain ⟨hflights, hkept⟩ : out.2.flights = s.store.flights ∧
        Kept (fun k => (k = key ∨ busy k) ∧ k ≠ key) s.store out.2 :=
      Store.kept_remember (fun f hf => absurd (hbusy key f hf) hkey) fun s' hs' =>
        hbody.run (Store.busy_join hbusy hs')
    obtain ⟨computed', hrest⟩ := ihnext out.1.1 (hnext _) calls ⟨out.2, s.held, computed⟩
      (by rw [hflights]; exact hbusy)
      fun lock hmem => Nat.lt_of_lt_of_le (hheld lock hmem) hkept.freshLock
    exact ⟨computed', hcall.trans hrest⟩

end FieldPlan.Cache
