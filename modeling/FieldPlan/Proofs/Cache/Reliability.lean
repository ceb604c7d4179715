import FieldPlan.Proofs.Cache.Alone
/-!
# Reliability

A call of `remember` answers from the memo, else from the backend, else by computing, and it fails
only as its computation does. Whatever the backend does, a call that fails leaves nothing under its
key, and one that answers leaves its answer in the memo for later calls.
-/
namespace FieldPlan.Cache

variable {β ε ν α : Type}

theorem Memo.value_of_valuesOf {m : Memo ν} {key : String} {v : ν} (h : m.valuesOf key = [v])
    {e : MemoEntry ν} (he : e ∈ m.entries) (hkey : e.key = key) : e.value = v := by
  have hmem : e.value ∈ m.valuesOf key := by
    refine List.mem_map_of_mem (List.mem_filter.mpr ⟨he, ?_⟩)
    simp [hkey]
  rw [h] at hmem
  exact List.mem_singleton.mp hmem

namespace Store

variable [Backend β]

def stored? (s : Store β ν) (key : String) (codec : Codec ν) : Option ν :=
  s.backend.bind fun b => (Backend.get b key).1.toOption.join.bind codec.decode

theorem fetch_fst (s : Store β ν) (key : String) (codec : Codec ν) :
    (s.fetch key codec).1 = s.stored? key codec := by
  unfold fetch stored?
  cases s.backend with
  | none => rfl
  | some b =>
    simp only [Option.bind_some]
    rcases Backend.get b key with ⟨cause | _ | text, b'⟩
    · rfl
    · rfl
    · simp only [Except.toOption, Option.join_some, Option.bind_some]
      cases codec.decode text with
      | none => rfl
      | some v => rfl

/-- A call of `remember` has been answered, the computation's report included if there was one. The
stores are the one whose flight the call has joined and the one it has left. -/
structure Answered (key : String) (codec : Codec ν) (body : Task ε ν ν) (s s' : Store β ν)
    (answer : Result ε ν × Option Unit) : Prop where
  /-- from the memo, else from the backend, else by computing -/
  result : answer.1 = ((s.lookUp key).1 <|> s.stored? key codec).elim
    (body.run (s.fetch key codec).2).1 .ok
  computed : answer.2.isSome ↔ (s.lookUp key).1 = none ∧ s.stored? key codec = none
  /-- nothing new under the key, neither in the memo nor in the backend -/
  failed : ∀ e, answer.1 = .error e → Kept (· = key) s s'
  memoized : ∀ v, answer.1 = .ok v → s'.memo.valuesOf key = [v]

/-- What callers may rely on once a call has been answered. -/
structure Reliable (key : String) (codec : Codec ν) (body : Task ε ν ν) (s s' : Store β ν)
    (answer : Result ε ν × Option Unit) : Prop extends Answered key codec body s s' answer where
  /-- a call fails exactly if it has to compute and the computation fails -/
  error_iff : ∀ e, answer.1 = .error e ↔ (s.lookUp key).1 = none ∧ s.stored? key codec = none ∧
    (body.run (s.fetch key codec).2).1 = .error e
  /-- as long as nothing else has been stored under the key and an entry of it is alive, the memo
  alone answers, and the same -/
  again : ∀ v, answer.1 = .ok v → ∀ later : Store β ν,
    (∀ e ∈ later.memo.entries, e.key = key → e ∈ s'.memo.entries) →
    (∃ e ∈ later.memo.entries, e.key = key ∧ later.memo.isLive later.now e = true) →
    ∀ {ι : Type} (codec' : Codec ν) (compute : Store β ν → (Result ε ν × ι) × Store β ν),
      later.remember key codec' compute = ((.ok v, none), (later.lookUp key).2)

namespace Answered

variable {key : String} {codec : Codec ν} {body : Task ε ν ν} {s s' : Store β ν}
  {answer : Result ε ν × Option Unit}

theorem reliable (h : Answered key codec body s s' answer) :
    Reliable key codec body s s' answer where
  toAnswered := h
  error_iff := by
    intro e
    rw [h.result]
    cases (s.lookUp key).1 with
    | some v => simp
    | none =>
      cases s.stored? key codec with
      | some v => simp
      | none => simp
  again := by
    intro v hv later hsame hlive ι codec' compute
    obtain ⟨e, he, hkey, hget⟩ := Memo.get?_of_live hlive
    have hvalue : e.value = v := Memo.value_of_valuesOf (h.memoized v hv) (hsame e he hkey) hkey
    have hfound : (later.lookUp key).1 = some v := by
      rw [← hvalue]
      exact hget
    exact remember_of_some hfound

theorem leave (h : Answered key codec body s s' answer) :
    Answered key codec body s (s'.leave key) answer where
  result := h.result
  computed := h.computed
  failed := by
    intro e he
    exact (h.failed e he).trans (.leave s' key)
  memoized := by
    rw [s'.memo_leave key]
    exact h.memoized

end Answered

variable {key : String} {codec : Codec ν} {body : Task ε ν ν} {s : Store β ν}

theorem answered_of_some {s' : Store β ν} {v : ν} (hfound : (s.lookUp key).1 = some v)
    (hmemo : s'.memo = (s.lookUp key).2.memo) :
    Answered key codec body s s' (.ok v, none) where
  result := by
    rw [hfound]
    rfl
  computed := by
    simp [hfound]
  failed := by
    intro e he
    cases he
  memoized := by
    intro v' hv'
    obtain rfl := Except.ok.inj hv'
    rw [hmemo]
    exact Memo.valuesOf_get? hfound

theorem answered_of_ok {s₁ : Store β ν} {v : ν} {report : Option Unit}
    (hroom : 1 ≤ s₁.memo.capacity)
    (hresult : ((s.lookUp key).1 <|> s.stored? key codec).elim
      (body.run (s.fetch key codec).2).1 .ok = .ok v)
    (hcomputed : report.isSome ↔ (s.lookUp key).1 = none ∧ s.stored? key codec = none) :
    Answered key codec body s (s₁.memoize (ε := ε) key v).2 ((s₁.memoize key v).1, report) := by
  obtain ⟨m, hm, -, hok, hstore⟩ := memoize_eq (ε := ε) hroom key v
  rw [hok, hstore]
  constructor
  · exact hresult.symm
  · exact hcomputed
  · intro e he
    cases he
  · intro v' hv'
    obtain rfl := Except.ok.inj hv'
    exact Memo.valuesOf_insert? hm

theorem answered_of_error {s' : Store β ν} {e : Failure ε} (hfound : (s.lookUp key).1 = none)
    (hstored : s.stored? key codec = none)
    (hresult : (body.run (s.fetch key codec).2).1 = .error e) (hkept : Kept (· = key) s s') :
    Answered key codec body s s' (.error e, some ()) where
  result := by
    rw [hfound, hstored]
    exact hresult.symm
  computed := by
    simp [hfound, hstored]
  failed := by
    intro _ _
    exact hkept
  memoized := by
    intro v hv
    cases hv

theorem answered_produce {busy : String → Prop} (hroom : 1 ≤ s.memo.capacity)
    (hbody : body.Free busy) (hkey : busy key)
    (hbusy : ∀ k f, s.flights.get? k = some f → busy k) :
    let out := s.produce key codec fun s => (((body.run s).1, ()), (body.run s).2)
    Answered key codec body s out.2 out.1 ∧ out.2.flights = s.flights ∧
      Kept (fun _ => False) s out.2 := by
  intro out
  have hcompute (s' : Store β ν) (hs' : s'.flights = s.flights) :
      Kept busy s' (body.run s').2 ∧ (body.run s').2.flights = s'.flights := by
    apply hbody.run
    rw [hs']
    exact hbusy
  obtain ⟨hflights, hkept, hfailed⟩ : out.2.flights = s.flights ∧ Kept _ s out.2 ∧ _ :=
    kept_produce hcompute
  refine ⟨?_, hflights, hkept.mono fun _ hk => hk.elim⟩
  cases hfound : (s.lookUp key).1 with
  | some v =>
    have hout : out = ((.ok v, none), (s.lookUp key).2) := produce_of_some hfound
    rw [hout]
    exact answered_of_some hfound rfl
  | none =>
    -- every value that is memoized below finds the capacity that the memo had
    have hfetch : Kept (fun _ => False) s (s.fetch key codec).2 := .fetch s key codec
    cases hstored : s.stored? key codec with
    | some v =>
      have hout : out = _ := produce_of_fetch hfound ((s.fetch_fst key codec).trans hstored)
      have hroom' : 1 ≤ (s.fetch key codec).2.memo.capacity := hfetch.capacity.symm ▸ hroom
      rw [hout]
      apply answered_of_ok hroom'
      · rw [hfound, hstored]
        rfl
      · simp [hstored]
    | none =>
      have hmiss : (s.fetch key codec).1 = none := (s.fetch_fst key codec).trans hstored
      cases hresult : (body.run (s.fetch key codec).2).1 with
      | error e =>
        have hout : out = _ := produce_of_error hfound hmiss hresult
        have hend : Kept (· = key) s out.2 := by
          have herror : out.1.1 = .error e := by rw [hout]
          exact (hfailed hroom e herror).mono fun k hk => hk ▸ hkey
        rw [hout] at hend ⊢
        exact answered_of_error hfound hstored hresult hend
      | ok v =>
        have hout : out = _ := produce_of_ok hfound hmiss hresult
        have hopen : (s.fetch key codec).2.flights = s.flights := s.flights_fetch key codec
        let s₁ := (body.run (s.fetch key codec).2).2
        have hbody : Kept (fun _ => False) (s.fetch key codec).2 s₁ :=
          (hcompute (s.fetch key codec).2 hopen).1.mono fun _ hk => hk.elim
        have hpublish : Kept (fun _ => False) s₁ (s₁.publish key codec v) := .publish s₁ id codec v
        have hcapacity := ((hfetch.trans hbody).trans hpublish).capacity
        rw [hout]
        apply answered_of_ok (hcapacity.symm ▸ hroom)
        · rw [hfound, hstored]
          exact hresult
        · simp [hfound, hstored]

theorem answered_remember (hroom : 1 ≤ s.memo.capacity)
    (hopened : ∀ f, s.flights.get? key = some f → 1 ≤ f.callers)
    (hbody : body.Free fun k => k = key ∨ (s.flights.get? k).isSome) :
    let out := s.remember key codec fun s => (((body.run s).1, ()), (body.run s).2)
    Answered key codec body (s.join key).2 out.2 out.1 ∧ out.2.flights = s.flights ∧
      Kept (fun _ => False) s out.2 := by
  intro out
  cases hfound : (s.lookUp key).1 with
  | some v =>
    have hout : out = ((.ok v, none), (s.lookUp key).2) := remember_of_some hfound
    have hmemo : (s.lookUp key).2.memo = ((s.join key).2.lookUp key).2.memo := by
      unfold join
      cases s.flights.get? key with
      | none => rfl
      | some f => rfl
    rw [hout]
    exact ⟨answered_of_some ((s.lookUp_join key).trans hfound) hmemo, rfl, .lookUp s key⟩
  | none =>
    have hout : out = _ := remember_of_none hfound
    have hjoin : Kept (fun _ => False) s (s.join key).2 := .join s key
    have hbusy (k : String) (f : Flight) (hf : s.flights.get? k = some f) :
        (s.flights.get? k).isSome := Option.isSome_of_eq_some hf
    obtain ⟨hanswered, hflights, hkept⟩ :
        Answered key codec body (s.join key).2 _ _ ∧ _ ∧ Kept _ (s.join key).2 _ :=
      answered_produce (hjoin.capacity.symm ▸ hroom) hbody (.inl rfl) (busy_join hbusy rfl)
    rw [hout]
    exact ⟨hanswered.leave, flights_leave_of_join hopened hflights,
      (hjoin.trans hkept).trans (.leave _ key)⟩

end Store

theorem Thread.Advances.run [Backend β] {t t' : Thread ε ν α} {s s' : Shared β ν}
    (h : t.Advances s t' s') {w : Crew β ε ν α} {i : Nat} (ht : w.threads[i]? = some t)
    (hs : w.shared = s) :
    ∃ n, w.run (List.replicate n (.step i)) = ⟨w.threads.set i t', s'⟩ := by
  induction h generalizing w with
  | done t s =>
    have hsame : w.threads.set i t = w.threads := by
      obtain ⟨hi, rfl⟩ := List.getElem?_eq_some_iff.mp ht
      exact List.set_getElem_self hi
    refine ⟨0, ?_⟩
    rw [hsame, ← hs]
    rfl
  | @step t t₁ t₂ s s₁ s₂ hstep _ ih =>
    obtain ⟨hi, -⟩ := List.getElem?_eq_some_iff.mp ht
    have hmove : w.move (.step i) = ⟨w.threads.set i t₁, s₁⟩ := by
      simp [Crew.move, Crew.step, Crew.step?, ht, hs, hstep]
    have ht₁ : (w.move (.step i)).threads[i]? = some t₁ := by
      simp [hmove, hi]
    obtain ⟨n, hrest⟩ := ih ht₁ (by rw [hmove])
    refine ⟨n + 1, ?_⟩
    rw [List.replicate_succ]
    show (w.move (.step i)).run _ = _
    rw [hrest, hmove, List.set_set]

namespace Crew

variable {w : Crew β ε ν α}

theorem held_lt (hord : Orderly w.stakes w.shared) (hapart : w.shared.store.LocksApart) :
    ∀ lock ∈ w.shared.held, lock < w.shared.store.freshLock := by
  intro lock hmem
  obtain ⟨x, hx, -, rfl⟩ := hord.mem_held_iff.mp hmem
  obtain ⟨f, hf, hlock⟩ := hord.lock x hx
  rw [← hlock]
  exact hapart.fresh x.key f hf

variable [Backend β]

/-- Moving alone, the thread at a position gets there. The locks that are held stay the same. -/
def Reaches (w : Crew β ε ν α) (i : Nat) (t : Thread ε ν α) (store : Store β ν) : Prop :=
  ∃ n computed, w.run (List.replicate n (.step i)) =
    ⟨w.threads.set i t, ⟨store, w.shared.held, computed⟩⟩

section Reaching

variable {i : Nat} {γ : Type} {calls : Calls ε ν γ α}

/-- A call that waits for a free lock gets its answer. -/
theorem reaches_of_waiting (hord : Orderly w.stakes w.shared)
    (hapart : w.shared.store.LocksApart) {c : Call ε ν γ} {lock : Nat}
    (ht : w.threads[i]? = some ⟨γ, .waiting c lock, calls⟩) (hfree : lock ∉ w.shared.held)
    (hbody : c.body.Free fun k => (w.shared.store.flights.get? k).isSome) :
    let out := w.shared.store.produce c.key c.codec fun s =>
      (((c.body.run s).1, ()), (c.body.run s).2)
    w.Reaches i ⟨γ, .running (c.next out.1.1), calls⟩ (out.2.leave c.key) := by
  intro out
  have hstake : ⟨c.key, lock, .waiting⟩ ∈ w.stakes :=
    mem_stakes ht List.mem_cons_self
  obtain ⟨f, hf, rfl⟩ := hord.lock _ hstake
  -- with the lock taken, flights opened by the computation get locks of their own
  have hheld : ∀ lock ∈ f.lock :: w.shared.held, lock < w.shared.store.freshLock := by
    intro lock hmem
    rcases List.mem_cons.mp hmem with rfl | hmem
    · exact hapart.fresh c.key f hf
    · exact held_lt hord hapart lock hmem
  obtain ⟨computed, hadvances⟩ : ∃ computed, Thread.Advances
      ⟨γ, .waiting c f.lock, calls⟩ w.shared
      ⟨γ, .running (c.next out.1.1), calls⟩ ⟨out.2.leave c.key, w.shared.held, computed⟩ := by
    refine Thread.advances_produce c hfree fun s' inner hflights hfresh hheld' => ?_
    refine hbody.advances inner s' (fun k g hg => ?_) ?_
    · rw [hflights] at hg
      simp [hg]
    · rw [hheld', hfresh]
      exact hheld
  obtain ⟨n, hrun⟩ := hadvances.run ht rfl
  exact ⟨n, computed, hrun⟩

theorem reaches_of_running (hord : Orderly w.stakes w.shared)
    (hapart : w.shared.store.LocksApart) {key : String} {codec : Codec ν} {body : Task ε ν ν}
    {next : Result ε ν → Task ε ν γ}
    (ht : w.threads[i]? = some ⟨γ, .running (.remember key codec body next), calls⟩)
    (hfree : ∀ f, w.shared.store.flights.get? key = some f → f.lock ∉ w.shared.held)
    (hbody : body.Free fun k => k = key ∨ (w.shared.store.flights.get? k).isSome) :
    let out := w.shared.store.remember key codec fun s => (((body.run s).1, ()), (body.run s).2)
    w.Reaches i ⟨γ, .running (next out.1.1), calls⟩ out.2 := by
  intro out
  let joined := w.shared.store.join key
  have hold : ∀ lock ∈ w.shared.held, lock < w.shared.store.freshLock := held_lt hord hapart
  -- a flight that is open is free by assumption, and a new one has a lock that no call holds
  have hlock : joined.1 ∉ w.shared.held := by
    have heq : joined.1 = _ := w.shared.store.join_lock key
    rw [heq]
    cases hf : w.shared.store.flights.get? key with
    | none => exact fun hmem => Nat.lt_irrefl _ (hold _ hmem)
    | some f => exact hfree f hf
  have hheld : ∀ lock ∈ joined.1 :: w.shared.held, lock < joined.2.freshLock := by
    intro lock hmem
    rcases List.mem_cons.mp hmem with rfl | hmem
    · have hget := w.shared.store.get?_join key key
      rw [if_pos rfl, ← Store.join_lock] at hget
      exact (hapart.join key).fresh key _ hget
    · have hjoin : Kept (fun _ => False) w.shared.store joined.2 := .join w.shared.store key
      exact Nat.lt_of_lt_of_le (hold lock hmem) hjoin.freshLock
  have hbusy (k : String) (f : Flight) (hf : w.shared.store.flights.get? k = some f) :
      (w.shared.store.flights.get? k).isSome := Option.isSome_of_eq_some hf
  obtain ⟨computed, hadvances⟩ : ∃ computed, Thread.Advances
      ⟨γ, .running (.remember key codec body next), calls⟩ w.shared
      ⟨γ, .running (next out.1.1), calls⟩ ⟨out.2, w.shared.held, computed⟩ := by
    refine Thread.advances_remember hlock fun s' inner hflights hfresh hheld' => ?_
    refine hbody.advances inner s' (Store.busy_join hbusy hflights) ?_
    rw [hheld', hfresh]
    exact hheld
  obtain ⟨n, hrun⟩ := hadvances.run ht rfl
  exact ⟨n, computed, hrun⟩

end Reaching

/-- A call of `remember` can be relied on in every state that threads can reach from an empty cache,
whatever the backend does. It leaves the flights as they were and the memo within its capacity, and
with its lock free it needs no other thread to get to its answer. So does a call that waits,
whatever has happened since it joined its flight. -/
theorem remember_reliable (tasks : List (Task ε ν α)) (backend : Option β) {capacity : Nat}
    (lifetime memoLifetime : Option Int) (hroom : 1 ≤ capacity) (moves : List Move) :
    let w := (start tasks (.start backend capacity lifetime memoLifetime)).run moves
    let s := w.shared.store
    s.memo.entries.length ≤ capacity ∧
    (∀ (key : String) (codec : Codec ν) (body : Task ε ν ν),
      body.Free (fun k => k = key ∨ (s.flights.get? k).isSome) →
      let out := s.remember key codec fun s => (((body.run s).1, ()), (body.run s).2)
      (s.join key).2.Reliable key codec body out.2 out.1 ∧ out.2.flights = s.flights ∧
      out.2.memo.entries.length ≤ capacity ∧
      ∀ (i : Nat) (γ : Type) (next : Result ε ν → Task ε ν γ) (calls : Calls ε ν γ α),
        w.threads[i]? = some ⟨γ, .running (.remember key codec body next), calls⟩ →
        (∀ f, s.flights.get? key = some f → f.lock ∉ w.shared.held) →
        w.Reaches i ⟨γ, .running (next out.1.1), calls⟩ out.2) ∧
    ∀ (i : Nat) (γ : Type) (c : Call ε ν γ) (lock : Nat) (calls : Calls ε ν γ α),
      w.threads[i]? = some ⟨γ, .waiting c lock, calls⟩ → lock ∉ w.shared.held →
      c.body.Free (fun k => (s.flights.get? k).isSome) →
      let out := s.produce c.key c.codec fun s => (((c.body.run s).1, ()), (c.body.run s).2)
      s.Reliable c.key c.codec c.body (out.2.leave c.key) out.1 ∧ out.2.flights = s.flights ∧
      out.2.memo.entries.length ≤ capacity ∧
      w.Reaches i ⟨γ, .running (c.next out.1.1), calls⟩ (out.2.leave c.key) := by
  intro w s
  let begun : Crew β ε ν α := start tasks (.start backend capacity lifetime memoLifetime)
  have hord : Orderly w.stakes w.shared :=
    orderly_run (orderly_start tasks backend capacity lifetime memoLifetime) moves
  have hapart : s.LocksApart :=
    locksApart_run (Store.locksApart_start backend capacity lifetime memoLifetime) moves
  have hheld : ∀ lock ∈ w.shared.held, lock < s.freshLock := held_lt hord hapart
  have hkept : Kept (fun _ => False) begun.shared.store s := begun.kept_run moves
  have hcapacity : s.memo.capacity = capacity := hkept.capacity
  have hbounded : s.memo.entries.length ≤ s.memo.capacity := hkept.bounded (Nat.zero_le _)
  have hbound {s' : Store β ν} (h : Kept (fun _ => False) s s') :
      s'.memo.entries.length ≤ capacity := by
    rw [← hcapacity, ← h.capacity]
    exact h.bounded hbounded
  refine ⟨hcapacity ▸ hbounded, ?_, ?_⟩
  · intro key codec body hbody out
    obtain ⟨hanswered, hflights, hafter⟩ :
        (s.join key).2.Answered key codec body out.2 out.1 ∧ out.2.flights = s.flights ∧ _ :=
      Store.answered_remember (hcapacity ▸ hroom) (hord.opened key) hbody
    refine ⟨hanswered.reliable, hflights, hbound hafter, fun i γ next calls ht hfree => ?_⟩
    exact reaches_of_running hord hapart ht hfree hbody
  · intro i γ c lock calls ht hlock hbody out
    have hstake : ⟨c.key, lock, .waiting⟩ ∈ w.stakes := mem_stakes ht List.mem_cons_self
    have hkey : (s.flights.get? c.key).isSome := (hord.isSome_flight c.key).mpr ⟨_, hstake, rfl⟩
    have hbusy (k : String) (f : Flight) (hf : s.flights.get? k = some f) :
        (s.flights.get? k).isSome := Option.isSome_of_eq_some hf
    obtain ⟨hanswered, hflights, hafter⟩ :
        s.Answered c.key c.codec c.body out.2 out.1 ∧ out.2.flights = s.flights ∧ _ :=
      Store.answered_produce (hcapacity ▸ hroom) hbody hkey hbusy
    exact ⟨hanswered.leave.reliable, hflights, hbound hafter,
      reaches_of_waiting hord hapart ht hlock hbody⟩

end Crew
namespace Outage

def numbers : Codec Nat := ⟨fun n => .ok n.repr, String.toNat?⟩

/-- The whole needs its part. -/
def whole : Task Unit Nat Nat :=
  .remember "part" numbers (.pure 2) fun r => .ofResult (r.map (· + 3))

def tasks : List (Task Unit Nat Nat) :=
  [.cached "other" numbers (.pure 1), .cached "whole" numbers whole]

def backend : SharedStore := .ofTexts [] true true

def crew : Crew SharedStore Unit Nat Nat :=
  (Crew.start tasks (.start (some backend) 2 none none)).run (List.replicate 5 (.step 0))

theorem whole_answers :
    1 ≤ 2 ∧ whole.Free (fun k => k = "whole" ∨ (crew.shared.store.flights.get? k).isSome) ∧
    crew.shared.store.flights.get? "other" = some ⟨0, 1⟩ ∧ crew.shared.held = [0] ∧
    let out := crew.shared.store.remember "whole" numbers
      fun s => (((whole.run s).1, ()), (whole.run s).2)
    out.1.1 = .ok 5 ∧ out.2.memo.valuesOf "whole" = [5] ∧
    out.2.flights = crew.shared.store.flights ∧
    crew.Reaches 1 (.start (.pure 5)) out.2 := by
  have hfree : whole.Free
      (fun k => k = "whole" ∨ (crew.shared.store.flights.get? k).isSome) := by
    refine ⟨by decide, trivial, fun r => ?_⟩
    cases r with
    | ok v => trivial
    | error e => trivial
  obtain ⟨-, hcall, -⟩ :=
    Crew.remember_reliable tasks (some backend) none none (show 1 ≤ 2 by decide)
      (List.replicate 5 (.step 0))
  obtain ⟨hreliable, hflights, -, hreaches⟩ := hcall "whole" numbers whole hfree
  refine ⟨by decide, hfree, by decide, by decide, rfl, hreliable.memoized 5 rfl, hflights, ?_⟩
  exact hreaches 1 Nat .ofResult .none rfl (by decide)

end Outage
end FieldPlan.Cache
