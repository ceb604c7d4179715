import FieldPlan.Proofs.Cache.Isolation
import FieldPlan.Proofs.Cache.Settlement
import FieldPlan.Proofs.Cache.Threads
/-!
# Single flight

However the steps of several threads interleave, the calls for a key share one flight, one of them
at a time is inside a computation, and nothing is left of the flight once all have ended. A value
that stays memoized is computed at most once, and is what every thread answers.
-/
namespace FieldPlan.Cache

variable {β ε ν α : Type}

/-- A thread that only asks for the value of a key: it has not called, or its first call is the one
for the key, or it has answered. -/
inductive Thread.Asks (key : String) (o : Option ν) : Thread ε ν ν → Prop where
  | begun (codec : Codec ν) (body : Task ε ν ν) : Asks key o (.start (.cached key codec body))
  | called {t : Thread ε ν ν} (c : Call ε ν ν) (hcall : t.outermost? = some c)
    (hkey : c.key = key) (hnext : c.next = Task.ofResult) : Asks key o t
  | answered (v : ν) (h : o = some v) : Asks key o (.start (.pure v))

namespace Thread.Asks

variable {key : String} {o o' : Option ν} {t t' : Thread ε ν ν} {s s' : Shared β ν}

theorem mono (h : t.Asks key o) (ho : o.isSome → o' = o) : t.Asks key o' := by
  cases h with
  | begun codec body => exact .begun codec body
  | called c hcall hkey hnext => exact .called c hcall hkey hnext
  | answered v h =>
    subst h
    exact .answered v (ho rfl)

theorem step [Backend β] {calls : List (Stake ε ν)} (h : t.Asks key o)
    (hsettled : Settled key o calls s) (hstakes : ∀ x ∈ t.stakes, x ∈ calls)
    (hstep : t.step s = some (t', s')) : t'.Asks key o := by
  cases h with
  | answered v h => cases hstep
  | begun codec body =>
    simp only [Thread.start, Task.cached, Thread.step] at hstep
    obtain ⟨rfl, rfl⟩ := Prod.mk.inj (Option.some.inj hstep)
    cases hlook : (s.store.lookUp key).1 with
    | none => exact .called ⟨key, codec, body, Task.ofResult⟩ rfl rfl rfl
    | some v =>
      obtain ⟨e, he, hkey, rfl⟩ := Memo.get?_mem hlook
      exact .answered e.value (hsettled.value e he hkey)
  | called c hcall hkey hnext =>
    rcases Thread.outermost?_of_step hstep hcall with hcall' | ⟨lock, r, rfl, rfl⟩
    · exact .called c hcall' hkey hnext
    · have hresult := hsettled.results _ (hstakes _ List.mem_cons_self) hkey r rfl
      obtain ⟨v, rfl, rfl⟩ := Option.map_eq_some_iff.mp hresult
      rw [hnext]
      exact .answered v rfl

theorem result (h : t.Asks key o) {r : Result ε ν} (hr : t.result? = some r) :
    o.map .ok = some r := by
  cases h with
  | begun codec body => cases hr
  | answered v h =>
    subst h
    exact hr
  | called c hcall hkey hnext =>
    rw [Thread.eq_of_result? hr] at hcall
    cases hcall

end Thread.Asks

instance (m : Memo ν) (key : String) : Decidable (m.Has key) :=
  inferInstanceAs (Decidable (∃ e ∈ m.entries, e.key = key))

/-- No entry of the key is dead, and no computation of the key is failing. -/
def Crew.Steady (key : String) (w : Crew β ε ν α) : Prop :=
  (∀ e ∈ w.shared.store.memo.entries, e.key = key →
    w.shared.store.memo.isLive w.shared.store.now e = true) ∧
  ∀ t ∈ w.threads, t.failing? ≠ some key

instance (key : String) (w : Crew β ε ν α) : Decidable (w.Steady key) :=
  inferInstanceAs (Decidable (_ ∧ _))

/-- Along the moves no entry of the key is lost or dies, and no computation of the key fails. -/
def Crew.Undisturbed [Backend β] (key : String) (w : Crew β ε ν α) : List Move → Prop
  | [] => w.Steady key
  | m :: moves => w.Steady key ∧
    (w.shared.store.memo.Has key → (w.move m).shared.store.memo.Has key) ∧
    (w.move m).Undisturbed key moves

instance Crew.decidableUndisturbed [Backend β] (key : String) : (w : Crew β ε ν α) →
    (moves : List Move) → Decidable (w.Undisturbed key moves)
  | w, [] => inferInstanceAs (Decidable (w.Steady key))
  | w, m :: moves =>
    have := Crew.decidableUndisturbed key (w.move m) moves
    inferInstanceAs (Decidable (w.Steady key ∧
      (w.shared.store.memo.Has key → (w.move m).shared.store.memo.Has key) ∧
      (w.move m).Undisturbed key moves))

namespace Crew

theorem settled_start (tasks : List (Task ε ν ν)) (backend : Option β) (capacity : Nat)
    (lifetime memoLifetime : Option Int) (key : String) :
    Settled key none (start tasks (.start backend capacity lifetime memoLifetime)).stakes
      (start tasks (.start backend capacity lifetime memoLifetime)).shared := by
  rw [stakes_start]
  exact
    { stored := fun ho => nomatch ho
      value := fun _ he => nomatch he
      idle := fun _ _ hx => nomatch hx
      results := fun _ hx => nomatch hx
      computed := Nat.le_refl 0 }

variable [Backend β] {w : Crew β ε ν ν} {key : String} {o : Option ν}

theorem settled_move (hord : Orderly w.stakes w.shared) (h : Settled key o w.stakes w.shared)
    (hroom : 1 ≤ w.shared.store.memo.capacity) (hsteady : w.Steady key) {m : Move}
    (hkept : w.shared.store.memo.Has key → (w.move m).shared.store.memo.Has key) :
    ∃ o', (o.isSome → o' = o) ∧ Settled key o' (w.move m).stakes (w.move m).shared := by
  cases m with
  | pass seconds => exact ⟨o, fun _ => rfl, h.of_memo (fun e he _ => he) hkept rfl⟩
  | step i =>
    rcases w.turn_of_step i with hsame | ⟨t, ht, old, new, rest, hold, hnew, hturn⟩
    · rw [move, hsame]
      exact ⟨o, fun _ => rfl, h⟩
    · obtain ⟨o', ho', h'⟩ := (h.perm hold).turn (hord.perm hold) hroom hsteady.1 hkept
        (hsteady.2 t ht) hturn
      exact ⟨o', ho', h'.perm hnew.symm⟩

theorem asks_move (h : Settled key o w.stakes w.shared) (m : Move) {i : Nat} {t : Thread ε ν ν}
    (ht : w.threads[i]? = some t) (hasks : t.Asks key o) :
    ∃ t', (w.move m).threads[i]? = some t' ∧ t'.Asks key o := by
  cases m with
  | pass seconds => exact ⟨t, ht, hasks⟩
  | step j =>
    rcases w.step_cases j with hsame | ⟨u, u', shared, hu, hstep, heq⟩
    · rw [move, hsame]
      exact ⟨t, ht, hasks⟩
    · rw [move, heq]
      by_cases hij : j = i
      · subst hij
        rw [hu] at ht
        obtain rfl := Option.some.inj ht
        refine ⟨u', List.getElem?_set_self' .. |>.trans (by rw [hu]; rfl), hasks.step h ?_ hstep⟩
        exact fun x hx => List.mem_flatMap.mpr ⟨u, List.mem_of_getElem? hu, hx⟩
      · exact ⟨t, (List.getElem?_set_ne hij).trans ht, hasks⟩

/-- Undisturbed moves may settle the key, but never change its value, and all that ask for it get
that value. -/
theorem settled_run (hord : Orderly w.stakes w.shared) (h : Settled key o w.stakes w.shared)
    (hroom : 1 ≤ w.shared.store.memo.capacity) {moves : List Move}
    (hundisturbed : w.Undisturbed key moves) :
    ∃ o', (o.isSome → o' = o) ∧ Settled key o' (w.run moves).stakes (w.run moves).shared ∧
      ∀ (i : Nat) (t : Thread ε ν ν), w.threads[i]? = some t → t.Asks key o →
        ∃ t', (w.run moves).threads[i]? = some t' ∧ t'.Asks key o' := by
  induction moves generalizing w o with
  | nil => exact ⟨o, fun _ => rfl, h, fun i t ht hasks => ⟨t, ht, hasks⟩⟩
  | cons m moves ih =>
    obtain ⟨hsteady, hkept, hrest⟩ := hundisturbed
    obtain ⟨o₁, ho₁, h₁⟩ := settled_move hord h hroom hsteady hkept
    obtain ⟨o₂, ho₂, h₂, hasks₂⟩ := ih (orderly_move hord m) h₁
      ((w.kept_move m).capacity.symm ▸ hroom) hrest
    refine ⟨o₂, fun ho => ?_, h₂, fun i t ht hasks => ?_⟩
    · rw [ho₂ (ho₁ ho ▸ ho), ho₁ ho]
    · obtain ⟨t₁, ht₁, hasks₁⟩ := asks_move h m ht hasks
      exact hasks₂ i t₁ ht₁ (hasks₁.mono ho₁)

/-- Single flight of the calls for a key, in every state that threads can reach from an empty
cache. -/
theorem single_flight (tasks : List (Task ε ν ν)) (backend : Option β) {capacity : Nat}
    (lifetime memoLifetime : Option Int) (hroom : 1 ≤ capacity) (moves : List Move)
    (key : String) :
    let begun := start tasks (.start backend capacity lifetime memoLifetime)
    let w := begun.run moves
    ((w.shared.store.flights.get? key).isSome ↔ ∃ t ∈ w.threads, t.isIn key = true) ∧
    (∀ f, w.shared.store.flights.get? key = some f →
      f.callers = w.stakes.countP (·.key == key) ∧
      ((∀ task ∈ tasks, task.IsFlat) → f.callers = w.threads.countP (·.isIn key)) ∧
      ∀ t ∈ w.threads, ∀ x ∈ t.stakes, x.key = key → x.lock = f.lock) ∧
    w.threads.countP (·.computes key) ≤ 1 ∧
    (begun.Undisturbed key moves →
      w.shared.computed.count key ≤ 1 ∧
      ∃ o : Option ν, ∀ (i : Nat) (codec : Codec ν) (body : Task ε ν ν) (r : Result ε ν),
        tasks[i]? = some (Task.cached key codec body) → w.results?[i]? = some (some r) →
        o.map .ok = some r) ∧
    ((∀ r ∈ w.results?, r.isSome = true) → w.shared.store.flights = []) := by
  intro begun w
  have hbegun : Orderly begun.stakes begun.shared :=
    orderly_start tasks backend capacity lifetime memoLifetime
  have hw : Orderly w.stakes w.shared := orderly_run hbegun moves
  refine ⟨(hw.isSome_flight key).trans exists_isIn.symm, fun f hf => ?_, ?_, fun hundisturbed => ?_,
    fun hended => ?_⟩
  · have hcallers : f.callers = w.stakes.countP (·.key == key) := by
      have hcallers := hw.callers key
      rwa [hf] at hcallers
    refine ⟨hcallers, fun hflat => ?_, fun t ht x hx hkey => ?_⟩
    · have hthreads : ∀ t ∈ w.threads, t.IsFlat := isFlat_run (isFlat_start hflat _) moves
      rw [hcallers]
      exact (countP_any (fun t ht => (hthreads t ht).length_stakes_le_one) _).symm
    · obtain ⟨g, hg, hlock⟩ := hw.lock x (List.mem_flatMap.mpr ⟨t, ht, hx⟩)
      rw [hkey, hf] at hg
      obtain rfl := Option.some.inj hg
      exact hlock.symm
  · -- who computes holds the lock
    refine Nat.le_trans (w.countP_any_le _) (Nat.le_trans (List.countP_mono_left fun x _ hx => ?_)
      (hw.countP_holds_le_one key))
    obtain ⟨hkey, hcomputing⟩ := Bool.and_eq_true_iff.mp hx
    rw [hkey, Stage.holds_of_produces (Stage.produces_of_isComputing hcomputing)]
    rfl
  · have hnone := settled_start tasks backend capacity lifetime memoLifetime key
    obtain ⟨o, -, hsettled, hasks⟩ := settled_run hbegun hnone hroom hundisturbed
    refine ⟨hsettled.count_computed_le_one hw, o, fun i codec body r htask hr => ?_⟩
    have ht : begun.threads[i]? = some (.start (.cached key codec body)) := by
      rw [show begun.threads = tasks.map Thread.start from rfl, List.getElem?_map, htask]
      rfl
    obtain ⟨t, ht, hasked⟩ := hasks i _ ht (.begun codec body)
    rw [results?, List.getElem?_map, ht] at hr
    exact hasked.result (Option.some.inj hr)
  · have hnone := hw
    rw [stakes_eq_nil hended] at hnone
    exact hnone.flights_eq_nil

end Crew

namespace Twins

def numbers : Codec Nat := ⟨fun n => .ok n.repr, String.toNat?⟩

def tasks : List (Task Unit Nat Nat) :=
  [.cached "answer" numbers (.pure 1), .cached "answer" numbers (.pure 2)]

def backend : SharedStore := .ofTexts [] false false

/-- Both look in vain and join the flight; the second waits until the first has left it. -/
def moves : List Move :=
  [.step 0, .step 1, .step 0, .step 1] ++ List.replicate 8 (.step 0) ++
    .pass 5 :: List.replicate 4 (.step 1)

theorem second_answers_first :
    1 ≤ 1 ∧
    (∀ task ∈ tasks, task.IsFlat) ∧
    (Crew.start tasks (.start (some backend) 1 none none)).Undisturbed "answer" moves ∧
    ((Crew.start tasks (.start (some backend) 1 none none)).run moves).shared.computed.count
      "answer" ≤ 1 ∧
    ((Crew.start tasks (.start (some backend) 1 none none)).run moves).results? =
      [some (.ok 1), some (.ok 1)] ∧
    ((Crew.start tasks (.start (some backend) 1 none none)).run moves).shared.store.flights =
      [] := by
  have hflat : ∀ task ∈ tasks, task.IsFlat := by
    intro task htask
    rcases List.mem_cons.mp htask with rfl | htask
    · exact ⟨trivial, fun r => by cases r <;> trivial⟩
    · obtain rfl := List.mem_singleton.mp htask
      exact ⟨trivial, fun r => by cases r <;> trivial⟩
  have hundisturbed :
      (Crew.start tasks (.start (some backend) 1 none none)).Undisturbed "answer" moves := by
    decide
  obtain ⟨-, -, -, hsettled, hclosed⟩ :=
    Crew.single_flight tasks (some backend) none none (Nat.le_refl 1) moves "answer"
  refine ⟨Nat.le_refl 1, hflat, hundisturbed, (hsettled hundisturbed).1, rfl, hclosed ?_⟩
  decide

end Twins
end FieldPlan.Cache
