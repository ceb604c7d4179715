import FieldPlan.Proofs.Cache.Transparency
import FieldPlan.Proofs.Cache.Turns
import FieldPlan.Proofs.Entries
/-!
# Flights

A flight is open as long as calls have a stake in it. It counts them, they all go by its lock, and a
lock that is held is held by one of them.
-/
namespace FieldPlan.Cache

variable {β ε ν α : Type}

namespace Store

theorem get?_join (s : Store β ν) (key other : String) : (s.join key).2.flights.get? other =
    if other = key then
      some ⟨(s.flights.get? key).elim s.freshLock (·.lock),
        (s.flights.get? key).elim 0 (·.callers) + 1⟩
    else s.flights.get? other := by
  unfold join
  cases hf : s.flights.get? key <;> simp [Entries.get?_set]

theorem join_lock (s : Store β ν) (key : String) :
    (s.join key).1 = (s.flights.get? key).elim s.freshLock (·.lock) := by
  unfold join
  cases s.flights.get? key <;> rfl

theorem join_eq (s : Store β ν) (key : String) :
    ∃ flights freshLock, (s.join key).2 = { s with flights, freshLock } := by
  unfold join
  cases s.flights.get? key with
  | none => exact ⟨_, _, rfl⟩
  | some f => exact ⟨_, s.freshLock, rfl⟩

theorem memo_join (s : Store β ν) (key : String) : (s.join key).2.memo = s.memo := by
  obtain ⟨flights, freshLock, hstore⟩ := s.join_eq key
  rw [hstore]

theorem get?_leave (s : Store β ν) (key other : String) : (s.leave key).flights.get? other =
    if other = key then
      (s.flights.get? key).bind fun f =>
        if f.callers ≤ 1 then none else some { f with callers := f.callers - 1 }
    else s.flights.get? other := by
  unfold leave
  cases hf : s.flights.get? key with
  | none =>
    by_cases ho : other = key
    · simp [ho, hf]
    · simp [ho]
  | some f =>
    by_cases hlast : f.callers ≤ 1
    · simp [hlast, Entries.get?_erase]
    · simp [hlast, Entries.get?_set]

theorem leave_eq (s : Store β ν) (key : String) :
    ∃ flights, s.leave key = { s with flights } := by
  unfold leave
  cases s.flights.get? key with
  | none => exact ⟨s.flights, rfl⟩
  | some f =>
    by_cases hlast : f.callers ≤ 1
    · exact ⟨_, if_pos hlast⟩
    · exact ⟨_, if_neg hlast⟩

theorem memo_leave (s : Store β ν) (key : String) : (s.leave key).memo = s.memo := by
  obtain ⟨flights, hstore⟩ := s.leave_eq key
  rw [hstore]

theorem fetch_eq [Backend β] (s : Store β ν) (key : String) (codec : Codec ν) :
    ∃ backend log, (s.fetch key codec).2 = { s with backend, log } := by
  unfold fetch
  cases s.backend with
  | none => exact ⟨s.backend, s.log, rfl⟩
  | some b =>
    dsimp only
    rcases Backend.get b key with ⟨cause | _ | text, b'⟩
    · exact ⟨_, _, rfl⟩
    · exact ⟨_, s.log, rfl⟩
    · dsimp only
      cases codec.decode text with
      | some v => exact ⟨_, s.log, rfl⟩
      | none => exact ⟨_, _, rfl⟩

theorem memo_fetch [Backend β] (s : Store β ν) (key : String) (codec : Codec ν) :
    (s.fetch key codec).2.memo = s.memo := by
  obtain ⟨backend, log, hstore⟩ := s.fetch_eq key codec
  rw [hstore]

theorem flights_fetch [Backend β] (s : Store β ν) (key : String) (codec : Codec ν) :
    (s.fetch key codec).2.flights = s.flights := by
  obtain ⟨backend, log, hstore⟩ := s.fetch_eq key codec
  rw [hstore]

theorem freshLock_fetch [Backend β] (s : Store β ν) (key : String) (codec : Codec ν) :
    (s.fetch key codec).2.freshLock = s.freshLock := by
  obtain ⟨backend, log, hstore⟩ := s.fetch_eq key codec
  rw [hstore]

theorem publish_eq [Backend β] (s : Store β ν) (key : String) (codec : Codec ν) (v : ν) :
    ∃ backend log, s.publish key codec v = { s with backend, log } := by
  unfold publish
  cases s.backend with
  | none => exact ⟨s.backend, s.log, rfl⟩
  | some b =>
    dsimp only
    cases codec.encode v with
    | error cause => exact ⟨s.backend, _, rfl⟩
    | ok text =>
      dsimp only
      rcases Backend.set b key text s.lifetime with ⟨cause | _, b'⟩
      · exact ⟨_, _, rfl⟩
      · exact ⟨_, s.log, rfl⟩

theorem memo_publish [Backend β] (s : Store β ν) (key : String) (codec : Codec ν) (v : ν) :
    (s.publish key codec v).memo = s.memo := by
  obtain ⟨backend, log, hstore⟩ := s.publish_eq key codec v
  rw [hstore]

theorem flights_publish [Backend β] (s : Store β ν) (key : String) (codec : Codec ν) (v : ν) :
    (s.publish key codec v).flights = s.flights := by
  obtain ⟨backend, log, hstore⟩ := s.publish_eq key codec v
  rw [hstore]

theorem freshLock_publish [Backend β] (s : Store β ν) (key : String) (codec : Codec ν) (v : ν) :
    (s.publish key codec v).freshLock = s.freshLock := by
  obtain ⟨backend, log, hstore⟩ := s.publish_eq key codec v
  rw [hstore]

theorem memoize_store (s : Store β ν) (key : String) (v : ν) :
    ∃ m, (s.memoize (ε := ε) key v).2 = { s with memo := m } ∧ m.capacity = s.memo.capacity := by
  unfold memoize
  cases hm : s.memo.insert? s.now key v with
  | none => exact ⟨s.memo, rfl, rfl⟩
  | some m => exact ⟨m, rfl, Memo.insert?_capacity hm⟩

theorem memoize_eq {s : Store β ν} (h : 1 ≤ s.memo.capacity) (key : String) (v : ν) :
    ∃ m, s.memo.insert? s.now key v = some m ∧ m.capacity = s.memo.capacity ∧
      (s.memoize (ε := ε) key v).1 = .ok v ∧
      (s.memoize (ε := ε) key v).2 = { s with memo := m } := by
  obtain ⟨m, hm, hcapacity⟩ := Memo.insert?_isSome s.now key v h
  refine ⟨m, hm, hcapacity, ?_, ?_⟩ <;> simp [memoize, hm]

end Store

/-- The flights are those of the calls under way, and the locks that are held are held by them. -/
structure Orderly (calls : List (Stake ε ν)) (s : Shared β ν) : Prop where
  callers : ∀ key, (s.store.flights.get? key).elim 0 (·.callers) = calls.countP (·.key == key)
  opened : ∀ key f, s.store.flights.get? key = some f → 1 ≤ f.callers
  lock : ∀ x ∈ calls, ∃ f, s.store.flights.get? x.key = some f ∧ f.lock = x.lock
  held : ∀ lock, s.held.count lock = calls.countP fun x => x.stage.holds && x.lock == lock
  once : ∀ lock, s.held.count lock ≤ 1

namespace Orderly

variable {calls rest : List (Stake ε ν)} {s s' : Shared β ν}

theorem perm {other : List (Stake ε ν)} (h : Orderly calls s) (hperm : calls.Perm other) :
    Orderly other s where
  callers key := (h.callers key).trans (hperm.countP_eq _)
  opened := h.opened
  lock x hx := h.lock x (hperm.mem_iff.mpr hx)
  held lock := (h.held lock).trans (hperm.countP_eq _)
  once := h.once

theorem of_eq (h : Orderly calls s) (hflights : s'.store.flights = s.store.flights)
    (hheld : s'.held = s.held) : Orderly calls s' where
  callers := hflights ▸ h.callers
  opened := hflights ▸ h.opened
  lock := hflights ▸ h.lock
  held := hheld ▸ h.held
  once := hheld ▸ h.once

theorem advance {key : String} {lock : Nat} {a b : Stage ε ν}
    (h : Orderly (⟨key, lock, a⟩ :: rest) s) (hholds : b.holds = a.holds) :
    Orderly (⟨key, lock, b⟩ :: rest) s where
  callers other := by
    rw [h.callers, List.countP_cons, List.countP_cons]
  opened := h.opened
  lock x hx := by
    rcases List.mem_cons.mp hx with rfl | hx
    · exact h.lock ⟨key, lock, a⟩ List.mem_cons_self
    · exact h.lock x (List.mem_cons_of_mem _ hx)
  held other := by
    rw [h.held, List.countP_cons, List.countP_cons, hholds]
  once := h.once

theorem join (h : Orderly rest s) (key : String) :
    Orderly (⟨key, (s.store.join key).1, .waiting⟩ :: rest)
      { s with store := (s.store.join key).2 } where
  callers other := by
    have hcallers := h.callers other
    rw [Store.get?_join, List.countP_cons]
    by_cases hother : other = key
    · subst hother
      rw [if_pos rfl, Option.elim_some, beq_self_eq_true, if_pos rfl, hcallers]
    · have hkey : (key == other) = false := beq_false_of_ne (Ne.symm hother)
      rw [if_neg hother, hcallers]
      simp [hkey]
  opened other f hf := by
    rw [Store.get?_join] at hf
    by_cases hother : other = key
    · rw [if_pos hother] at hf
      obtain rfl := Option.some.inj hf
      exact Nat.le_add_left 1 _
    · rw [if_neg hother] at hf
      exact h.opened other f hf
  lock x hx := by
    rcases List.mem_cons.mp hx with rfl | hx
    · exact ⟨_, by rw [Store.get?_join, if_pos rfl], (Store.join_lock s.store key).symm⟩
    · obtain ⟨f, hf, hlock⟩ := h.lock x hx
      rw [Store.get?_join]
      by_cases hkey : x.key = key
      · rw [if_pos hkey]
        rw [hkey] at hf
        exact ⟨_, rfl, by rw [hf, ← hlock]; rfl⟩
      · rw [if_neg hkey]
        exact ⟨f, hf, hlock⟩
  held lock := by
    rw [List.countP_cons]
    exact h.held lock
  once := h.once

theorem take {key : String} {lock : Nat} (h : Orderly (⟨key, lock, .waiting⟩ :: rest) s)
    (hfree : lock ∉ s.held) :
    Orderly (⟨key, lock, .checking⟩ :: rest) { s with held := lock :: s.held } where
  callers other := by
    rw [h.callers, List.countP_cons, List.countP_cons]
  opened := h.opened
  lock x hx := by
    rcases List.mem_cons.mp hx with rfl | hx
    · exact h.lock ⟨key, lock, .waiting⟩ List.mem_cons_self
    · exact h.lock x (List.mem_cons_of_mem _ hx)
  held other := by
    have hheld := h.held other
    rw [List.countP_cons] at hheld
    rw [List.count_cons, List.countP_cons, hheld]
    rfl
  once other := by
    rw [List.count_cons]
    by_cases hother : lock = other
    · rw [← hother, List.count_eq_zero_of_not_mem hfree, beq_self_eq_true]
      exact Nat.le_refl 1
    · rw [beq_false_of_ne hother]
      exact h.once other

theorem unlock {key : String} {lock : Nat} {a b : Stage ε ν}
    (h : Orderly (⟨key, lock, a⟩ :: rest) s) (ha : a.holds = true) (hb : b.holds = false) :
    Orderly (⟨key, lock, b⟩ :: rest) { s with held := s.held.erase lock } where
  callers other := by
    rw [h.callers, List.countP_cons, List.countP_cons]
  opened := h.opened
  lock x hx := by
    rcases List.mem_cons.mp hx with rfl | hx
    · exact h.lock ⟨key, lock, a⟩ List.mem_cons_self
    · exact h.lock x (List.mem_cons_of_mem _ hx)
  held other := by
    have hheld := h.held other
    rw [List.countP_cons, ha] at hheld
    rw [List.countP_cons, hb, List.count_erase, hheld]
    simp
  once other := Nat.le_trans (List.erase_sublist.count_le other) (h.once other)

theorem leave {key : String} {lock : Nat} {a : Stage ε ν}
    (h : Orderly (⟨key, lock, a⟩ :: rest) s) (ha : a.holds = false) :
    Orderly rest { s with store := s.store.leave key } where
  callers other := by
    have hcallers := h.callers other
    rw [List.countP_cons] at hcallers
    rw [Store.get?_leave]
    by_cases hother : other = key
    · subst hother
      obtain ⟨f, hf, -⟩ := h.lock _ List.mem_cons_self
      dsimp only at hf
      rw [hf, beq_self_eq_true, if_pos rfl, Option.elim_some] at hcallers
      rw [if_pos rfl, hf, Option.bind_some]
      by_cases hlast : f.callers ≤ 1
      · rw [if_pos hlast, Option.elim_none]
        omega
      · rw [if_neg hlast]
        exact Nat.sub_eq_of_eq_add hcallers
    · rw [beq_false_of_ne (Ne.symm hother)] at hcallers
      rw [if_neg hother]
      exact hcallers
  opened other f hf := by
    rw [Store.get?_leave] at hf
    by_cases hother : other = key
    · rw [if_pos hother] at hf
      obtain ⟨g, -, hg⟩ := Option.bind_eq_some_iff.mp hf
      by_cases hlast : g.callers ≤ 1
      · rw [if_pos hlast] at hg
        cases hg
      · rw [if_neg hlast] at hg
        obtain rfl := Option.some.inj hg
        dsimp only
        omega
    · rw [if_neg hother] at hf
      exact h.opened other f hf
  lock x hx := by
    obtain ⟨f, hf, hlock⟩ := h.lock x (List.mem_cons_of_mem _ hx)
    rw [Store.get?_leave]
    by_cases hkey : x.key = key
    · -- the flight stays open, since `x` is still in it
      have hcallers := h.callers key
      have hrest : 0 < rest.countP (·.key == key) :=
        List.countP_pos_iff.mpr ⟨x, hx, beq_iff_eq.mpr hkey⟩
      rw [hkey] at hf
      rw [List.countP_cons, hf, beq_self_eq_true, if_pos rfl, Option.elim_some] at hcallers
      have hlast : ¬ f.callers ≤ 1 := by omega
      rw [if_pos hkey, hf, Option.bind_some, if_neg hlast]
      exact ⟨_, rfl, hlock⟩
    · rw [if_neg hkey]
      exact ⟨f, hf, hlock⟩
  held other := by
    have hheld := h.held other
    rw [List.countP_cons, ha] at hheld
    exact hheld
  once := h.once

/-- Every turn leaves the flights and the locks in order. -/
theorem turn [Backend β] {failing? : Option String} {old new : List (Stake ε ν)}
    (h : Orderly (old ++ rest) s) (hturn : Turn failing? s old new s') :
    Orderly (new ++ rest) s' := by
  cases hturn with
  | note w => exact h.of_eq rfl rfl
  | look key => exact h.of_eq rfl rfl
  | join key => exact h.join key
  | take key lock hfree => exact h.take hfree
  | hit key lock v => exact .advance (h.of_eq rfl rfl) rfl
  | miss key lock => exact .advance (h.of_eq rfl rfl) rfl
  | fetched key lock codec v =>
    exact .advance (h.of_eq (s.store.flights_fetch key codec) rfl) rfl
  | compute key lock codec =>
    exact .advance (h.of_eq (s.store.flights_fetch key codec) rfl) rfl
  | computed key lock v => exact .advance (h.of_eq rfl rfl) rfl
  | raised key lock e hfails => exact h.advance rfl
  | publish key lock codec v =>
    exact .advance (h.of_eq (s.store.flights_publish key codec v) rfl) rfl
  | memoize key lock v =>
    obtain ⟨m, hstore, -⟩ := s.store.memoize_store (ε := ε) key v
    rw [hstore]
    exact .advance (h.of_eq rfl rfl) rfl
  | unlock key lock r => exact h.unlock rfl rfl
  | leave key lock r => exact h.leave rfl

theorem flights_eq_nil (h : Orderly ([] : List (Stake ε ν)) s) : s.store.flights = [] := by
  cases hflights : s.store.flights with
  | nil => rfl
  | cons e es =>
    have hfirst : s.store.flights.get? e.1 = some e.2 := by
      rw [hflights]
      exact List.lookup_cons_self
    have hcallers := h.callers e.1
    have hopened := h.opened e.1 e.2 hfirst
    rw [hfirst, Option.elim_some, List.countP_nil] at hcallers
    omega

theorem isSome_flight (h : Orderly calls s) (key : String) :
    (s.store.flights.get? key).isSome ↔ ∃ x ∈ calls, x.key = key := by
  constructor
  · intro hsome
    obtain ⟨f, hf⟩ := Option.isSome_iff_exists.mp hsome
    have hcallers := h.callers key
    have hopened := h.opened key f hf
    rw [hf, Option.elim_some] at hcallers
    obtain ⟨x, hx, hkey⟩ := List.countP_pos_iff.mp (show 0 < calls.countP (·.key == key) by omega)
    exact ⟨x, hx, beq_iff_eq.mp hkey⟩
  · rintro ⟨x, hx, rfl⟩
    obtain ⟨f, hf, -⟩ := h.lock x hx
    rw [hf]
    rfl

/-- At most one call for a key holds its lock. -/
theorem countP_holds_le_one (h : Orderly calls s) (key : String) :
    calls.countP (fun x => x.key == key && x.stage.holds) ≤ 1 := by
  cases hf : s.store.flights.get? key with
  | none =>
    have hcallers := h.callers key
    rw [hf, Option.elim_none] at hcallers
    have hbound : calls.countP (·.key == key) ≤ 1 := by omega
    exact Nat.le_trans (List.countP_mono_left fun x _ hx => (Bool.and_eq_true_iff.mp hx).1) hbound
  | some f =>
    have hbound := h.held f.lock ▸ h.once f.lock
    refine Nat.le_trans (List.countP_mono_left fun x hx hkey => ?_) hbound
    rw [Bool.and_eq_true_iff, beq_iff_eq] at hkey
    obtain ⟨g, hg, hlock⟩ := h.lock x hx
    rw [hkey.1, hf] at hg
    obtain rfl := Option.some.inj hg
    simp [hkey.2, hlock]

theorem not_holds_of_holds {x y : Stake ε ν} (h : Orderly (x :: rest) s)
    (hx : x.stage.holds = true) (hy : y ∈ rest) (hkey : y.key = x.key) :
    y.stage.holds = false := by
  have hone := h.countP_holds_le_one x.key
  rw [List.countP_cons, hx, beq_self_eq_true, Bool.true_and, if_pos rfl] at hone
  have hnone : rest.countP (fun z => z.key == x.key && z.stage.holds) = 0 := by omega
  have hyholds := List.countP_eq_zero.mp hnone y hy
  rw [hkey, beq_self_eq_true, Bool.true_and] at hyholds
  exact Bool.eq_false_iff.mpr hyholds

end Orderly

namespace Crew

theorem stakes_start (tasks : List (Task ε ν α)) (s : Store β ν) : (start tasks s).stakes = [] := by
  refine List.flatMap_eq_nil_iff.mpr fun t ht => ?_
  obtain ⟨task, -, rfl⟩ := List.mem_map.mp ht
  rfl

theorem orderly_start (tasks : List (Task ε ν α)) (backend : Option β) (capacity : Nat)
    (lifetime memoLifetime : Option Int) :
    Orderly (start tasks (.start backend capacity lifetime memoLifetime)).stakes
      (start tasks (.start backend capacity lifetime memoLifetime)).shared := by
  rw [stakes_start]
  exact
    { callers := fun _ => rfl
      opened := fun _ _ hf => nomatch hf
      lock := fun _ hx => nomatch hx
      held := fun _ => rfl
      once := fun _ => Nat.zero_le 1 }

variable [Backend β] {w : Crew β ε ν α}

theorem orderly_move (h : Orderly w.stakes w.shared) (m : Move) :
    Orderly (w.move m).stakes (w.move m).shared := by
  cases m with
  | pass seconds => exact h.of_eq rfl rfl
  | step i =>
    rcases w.turn_of_step i with hsame | ⟨t, -, old, new, rest, hold, hnew, hturn⟩
    · rw [move, hsame]
      exact h
    · exact ((h.perm hold).turn hturn).perm hnew.symm

theorem orderly_run (h : Orderly w.stakes w.shared) (moves : List Move) :
    Orderly (w.run moves).stakes (w.run moves).shared := by
  induction moves generalizing w with
  | nil => exact h
  | cons m moves ih => exact ih (orderly_move h m)

end Crew
end FieldPlan.Cache
