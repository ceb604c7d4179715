import FieldPlan.Proofs.Cache.Turns
/-!
# Threads

What a thread keeps from step to step: the call that it has begun with, until it is answered; and
no more than one call under way, if the computations of its tasks remember nothing themselves.
-/
namespace FieldPlan.Cache

variable {β ε ν α : Type}

def Activity.call? : Activity ε ν α → Option (Call ε ν α)
  | running _ => none
  | joining c | waiting c _ | checking c _ | fetching c _ | publishing c _ _ | memoizing c _ _
  | unlocking c _ _ | leaving c _ _ => some c

def Calls.outermost? : {γ α : Type} → Calls ε ν γ α → Option (Call ε ν γ) → Option (Call ε ν α)
  | _, _, .none, c? => c?
  | _, _, .computing c _ outer, _ => outer.outermost? (some c)

namespace Thread

theorem eq_of_result? {t : Thread ε ν α} {r : Result ε α} (h : t.result? = some r) :
    t = .start (.ofResult r) := by
  unfold result? at h
  split at h
  · obtain rfl := Option.some.inj h
    rfl
  · obtain rfl := Option.some.inj h
    rfl
  · cases h

def outermost? (t : Thread ε ν α) : Option (Call ε ν α) := t.calls.outermost? t.activity.call?

theorem outermost?_of_step [Backend β] {t t' : Thread ε ν α} {s s' : Shared β ν} {c : Call ε ν α}
    (hstep : t.step s = some (t', s')) (h : t.outermost? = some c) :
    t'.outermost? = some c ∨
      ∃ lock r, t = ⟨α, .leaving c lock r, .none⟩ ∧ t' = ⟨α, .running (c.next r), .none⟩ := by
  obtain ⟨inner, activity, calls⟩ := t
  cases activity with
  | running task =>
    cases calls with
    | none => cases h
    | computing d lock outer =>
      cases task with
      | pure v =>
        obtain ⟨rfl, rfl⟩ := Prod.mk.inj (Option.some.inj hstep)
        exact .inl h
      | fail e =>
        obtain ⟨rfl, rfl⟩ := Prod.mk.inj (Option.some.inj hstep)
        exact .inl h
      | note text next =>
        obtain ⟨rfl, rfl⟩ := Prod.mk.inj (Option.some.inj hstep)
        exact .inl h
      | remember key codec body next =>
        obtain ⟨rfl, rfl⟩ := Prod.mk.inj (Option.some.inj hstep)
        exact .inl h
  | waiting d lock =>
    simp only [step] at hstep
    split at hstep
    · cases hstep
    · obtain ⟨rfl, rfl⟩ := Prod.mk.inj (Option.some.inj hstep)
      exact .inl h
  | checking d lock =>
    simp only [step] at hstep
    obtain ⟨rfl, rfl⟩ := Prod.mk.inj (Option.some.inj hstep)
    cases (s.store.lookUp d.key).1 with
    | none => exact .inl h
    | some v => exact .inl h
  | fetching d lock =>
    rw [step_fetching] at hstep
    obtain ⟨rfl, rfl⟩ := Prod.mk.inj (Option.some.inj hstep)
    cases (s.store.fetch d.key d.codec).1 with
    | none => exact .inl h
    | some v => exact .inl h
  | leaving d lock r =>
    obtain ⟨rfl, rfl⟩ := Prod.mk.inj (Option.some.inj hstep)
    cases calls with
    | none =>
      obtain rfl := Option.some.inj h
      exact .inr ⟨lock, r, rfl, rfl⟩
    | computing e outerLock outer => exact .inl h
  | _ =>
    obtain ⟨rfl, rfl⟩ := Prod.mk.inj (Option.some.inj hstep)
    exact .inl h

end Thread

namespace Task

def IsQuiet : {α : Type} → Task ε ν α → Prop
  | _, .pure _ => True
  | _, .fail _ => True
  | _, .note _ next => next.IsQuiet
  | _, .remember _ _ _ _ => False

/-- What the task remembers are computations that remember nothing. -/
def IsFlat : {α : Type} → Task ε ν α → Prop
  | _, .pure _ => True
  | _, .fail _ => True
  | _, .note _ next => next.IsFlat
  | _, .remember _ _ body next => body.IsQuiet ∧ ∀ r, (next r).IsFlat

end Task

/-- The computation of the call remembers nothing, and what follows is flat. -/
def Call.IsFlat (c : Call ε ν α) : Prop := c.body.IsQuiet ∧ ∀ r, (c.next r).IsFlat

/-- A thread of a flat task, with at most one call under way. -/
inductive Thread.IsFlat : Thread ε ν α → Prop where
  | running (task : Task ε ν α) (h : task.IsFlat) : IsFlat ⟨α, .running task, .none⟩
  | calling (activity : Activity ε ν α) (c : Call ε ν α) (hcall : activity.call? = some c)
    (h : c.IsFlat) : IsFlat ⟨α, activity, .none⟩
  | computing (task : Task ε ν ν) (htask : task.IsQuiet) (c : Call ε ν α) (lock : Nat)
    (h : c.IsFlat) : IsFlat ⟨ν, .running task, .computing c lock .none⟩

namespace Thread.IsFlat

theorem step [Backend β] {t t' : Thread ε ν α} {s s' : Shared β ν} (h : t.IsFlat)
    (hstep : t.step s = some (t', s')) : t'.IsFlat := by
  cases h with
  | running task htask =>
    cases task with
    | pure v => cases hstep
    | fail e => cases hstep
    | note text next =>
      obtain ⟨rfl, rfl⟩ := Prod.mk.inj (Option.some.inj hstep)
      exact .running next htask
    | remember key codec body next =>
      simp only [Thread.step] at hstep
      obtain ⟨rfl, rfl⟩ := Prod.mk.inj (Option.some.inj hstep)
      cases (s.store.lookUp key).1 with
      | none => exact .calling _ _ rfl htask
      | some v => exact .running _ (htask.2 (.ok v))
  | computing task htask c lock hc =>
    cases task with
    | pure v =>
      obtain ⟨rfl, rfl⟩ := Prod.mk.inj (Option.some.inj hstep)
      exact .calling _ c rfl hc
    | fail e =>
      obtain ⟨rfl, rfl⟩ := Prod.mk.inj (Option.some.inj hstep)
      exact .calling _ c rfl hc
    | note text next =>
      obtain ⟨rfl, rfl⟩ := Prod.mk.inj (Option.some.inj hstep)
      exact .computing next htask c lock hc
    | remember key codec body next => exact absurd htask id
  | calling activity c hcall hc =>
    cases activity with
    | running task => cases hcall
    | waiting d lock =>
      simp only [Thread.step] at hstep
      split at hstep
      · cases hstep
      · obtain ⟨rfl, rfl⟩ := Prod.mk.inj (Option.some.inj hstep)
        exact .calling _ c hcall hc
    | checking d lock =>
      simp only [Thread.step] at hstep
      obtain ⟨rfl, rfl⟩ := Prod.mk.inj (Option.some.inj hstep)
      refine .calling _ c ?_ hc
      cases (s.store.lookUp d.key).1 with
      | none => exact hcall
      | some v => exact hcall
    | fetching d lock =>
      obtain rfl := Option.some.inj hcall
      rw [step_fetching] at hstep
      obtain ⟨rfl, rfl⟩ := Prod.mk.inj (Option.some.inj hstep)
      cases (s.store.fetch d.key d.codec).1 with
      | none => exact .computing d.body hc.1 d lock hc
      | some v => exact .calling _ d rfl hc
    | leaving d lock r =>
      obtain rfl := Option.some.inj hcall
      obtain ⟨rfl, rfl⟩ := Prod.mk.inj (Option.some.inj hstep)
      exact .running _ (hc.2 r)
    | _ =>
      obtain ⟨rfl, rfl⟩ := Prod.mk.inj (Option.some.inj hstep)
      exact .calling _ c hcall hc

theorem length_stakes_le_one {t : Thread ε ν α} (h : t.IsFlat) : t.stakes.length ≤ 1 := by
  cases h with
  | running task htask => exact Nat.zero_le 1
  | computing task htask c lock hc => exact Nat.le_refl 1
  | calling activity c hcall hc =>
    cases activity with
    | running task => exact Nat.zero_le 1
    | joining d => exact Nat.zero_le 1
    | _ => exact Nat.le_refl 1

end Thread.IsFlat

theorem Crew.isFlat_start {tasks : List (Task ε ν α)} (h : ∀ task ∈ tasks, task.IsFlat)
    (s : Store β ν) : ∀ t ∈ (start tasks s).threads, t.IsFlat := by
  intro t ht
  obtain ⟨task, htask, rfl⟩ := List.mem_map.mp ht
  exact .running task (h task htask)

theorem Crew.isFlat_run [Backend β] {w : Crew β ε ν α} (h : ∀ t ∈ w.threads, t.IsFlat)
    (moves : List Move) : ∀ t ∈ (w.run moves).threads, t.IsFlat := by
  induction moves generalizing w with
  | nil => exact h
  | cons m moves ih =>
    refine ih fun t ht => ?_
    cases m with
    | pass seconds => exact h t ht
    | step i =>
      rcases w.step_cases i with hsame | ⟨u, u', shared, hu, hstep, heq⟩
      · rw [move, hsame] at ht
        exact h t ht
      · rw [move, heq] at ht
        rcases List.mem_or_eq_of_mem_set ht with ht | rfl
        · exact h t ht
        · exact (h u (List.mem_of_getElem? hu)).step hstep

theorem Crew.stakes_eq_nil {w : Crew β ε ν α} (h : ∀ r ∈ w.results?, r.isSome = true) :
    w.stakes = [] := by
  refine List.flatMap_eq_nil_iff.mpr fun t ht => ?_
  obtain ⟨r, hr⟩ := Option.isSome_iff_exists.mp (h t.result? (List.mem_map_of_mem ht))
  rw [Thread.eq_of_result? hr]
  rfl

def Thread.isIn (t : Thread ε ν α) (key : String) : Bool := t.stakes.any (·.key == key)

def Thread.computes (t : Thread ε ν α) (key : String) : Bool :=
  t.stakes.any fun x => x.key == key && x.stage.isComputing

namespace Crew

theorem exists_isIn {w : Crew β ε ν α} {key : String} :
    (∃ t ∈ w.threads, t.isIn key = true) ↔ ∃ x ∈ w.stakes, x.key = key := by
  constructor
  · rintro ⟨t, ht, hin⟩
    obtain ⟨x, hxt, hkey⟩ := List.any_eq_true.mp hin
    exact ⟨x, List.mem_flatMap.mpr ⟨t, ht, hxt⟩, beq_iff_eq.mp hkey⟩
  · rintro ⟨x, hx, hkey⟩
    obtain ⟨t, ht, hxt⟩ := List.mem_flatMap.mp hx
    exact ⟨t, ht, List.any_eq_true.mpr ⟨x, hxt, beq_iff_eq.mpr hkey⟩⟩

theorem countP_any_le (w : Crew β ε ν α) (p : Stake ε ν → Bool) :
    w.threads.countP (fun t => t.stakes.any p) ≤ w.stakes.countP p := by
  obtain ⟨threads, shared⟩ := w
  induction threads with
  | nil => exact Nat.le_refl 0
  | cons t threads ih =>
    have hfirst : (if t.stakes.any p then 1 else 0) ≤ t.stakes.countP p := by
      by_cases hany : t.stakes.any p = true
      · rw [if_pos hany]
        obtain ⟨x, hx, hp⟩ := List.any_eq_true.mp hany
        exact List.countP_pos_iff.mpr ⟨x, hx, hp⟩
      · rw [if_neg hany]
        exact Nat.zero_le _
    have hboth := Nat.add_le_add ih hfirst
    rw [List.countP_cons, stakes, List.flatMap_cons, List.countP_append,
      Nat.add_comm (t.stakes.countP p)]
    exact hboth

/-- If no thread has more than one call under way, there are as many threads as calls. -/
theorem countP_any {w : Crew β ε ν α} (h : ∀ t ∈ w.threads, t.stakes.length ≤ 1)
    (p : Stake ε ν → Bool) : w.threads.countP (fun t => t.stakes.any p) = w.stakes.countP p := by
  obtain ⟨threads, shared⟩ := w
  induction threads with
  | nil => rfl
  | cons t threads ih =>
    have hfirst : (if t.stakes.any p then 1 else 0) = t.stakes.countP p := by
      have hlength := h t List.mem_cons_self
      match t.stakes, hlength with
      | [], _ => rfl
      | [x], _ => rw [List.countP_singleton, List.any_cons, List.any_nil, Bool.or_false]
    have hrest := ih fun u hu => h u (List.mem_cons_of_mem t hu)
    rw [List.countP_cons, hrest, hfirst, stakes, stakes, List.flatMap_cons, List.countP_append,
      Nat.add_comm]

end Crew
end FieldPlan.Cache
