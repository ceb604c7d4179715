import FieldPlan.Proofs.Cache.Flights
/-!
# Locks

Flights that are open at the same time have different locks, so a lock that is held tells the key of
the call that holds it.
-/
namespace FieldPlan.Cache

variable {β ε ν α : Type}

/-- Every lock belongs to one flight, and the next one to none. -/
structure Store.LocksApart (s : Store β ν) : Prop where
  fresh : ∀ key f, s.flights.get? key = some f → f.lock < s.freshLock
  apart : ∀ key other f g, s.flights.get? key = some f → s.flights.get? other = some g →
    f.lock = g.lock → key = other

namespace Store

variable {s s' : Store β ν}

theorem locksApart_start (backend : Option β) (capacity : Nat)
    (lifetime memoLifetime : Option Int) :
    (start backend capacity lifetime memoLifetime : Store β ν).LocksApart where
  fresh := fun _ _ hf => nomatch hf
  apart := fun _ _ _ _ hf => nomatch hf

namespace LocksApart

theorem of_eq (h : s.LocksApart) (hflights : s'.flights = s.flights)
    (hfresh : s'.freshLock = s.freshLock) : s'.LocksApart where
  fresh := by
    rw [hflights, hfresh]
    exact h.fresh
  apart := by
    rw [hflights]
    exact h.apart

theorem of_subset (h : s.LocksApart) (hfresh : s'.freshLock = s.freshLock)
    (hlocks : ∀ key f, s'.flights.get? key = some f →
      ∃ g, s.flights.get? key = some g ∧ g.lock = f.lock) : s'.LocksApart where
  fresh key f hf := by
    obtain ⟨g, hg, hlock⟩ := hlocks key f hf
    have hless := h.fresh key g hg
    omega
  apart key other f g hf hg hsame := by
    obtain ⟨f', hf', hflock⟩ := hlocks key f hf
    obtain ⟨g', hg', hglock⟩ := hlocks other g hg
    exact h.apart key other f' g' hf' hg' (by rw [hflock, hglock, hsame])

theorem join (h : s.LocksApart) (key : String) : (s.join key).2.LocksApart := by
  cases hopen : s.flights.get? key with
  | some f =>
    -- the flight is open already and keeps its lock
    have hfresh : (s.join key).2.freshLock = s.freshLock := by
      unfold Store.join
      rw [hopen]
    refine h.of_subset hfresh fun other g hg => ?_
    rw [get?_join, hopen] at hg
    by_cases hother : other = key
    · rw [if_pos hother] at hg
      obtain rfl := Option.some.inj hg
      exact ⟨f, hother ▸ hopen, rfl⟩
    · rw [if_neg hother] at hg
      exact ⟨g, hg, rfl⟩
  | none =>
    have hfresh : (s.join key).2.freshLock = s.freshLock + 1 := by
      unfold Store.join
      rw [hopen]
    have hcases : ∀ other g, (s.join key).2.flights.get? other = some g →
        other = key ∧ g.lock = s.freshLock ∨
          s.flights.get? other = some g ∧ g.lock < s.freshLock := by
      intro other g hg
      rw [get?_join, hopen] at hg
      by_cases hother : other = key
      · rw [if_pos hother] at hg
        obtain rfl := Option.some.inj hg
        exact .inl ⟨hother, rfl⟩
      · rw [if_neg hother] at hg
        exact .inr ⟨hg, h.fresh other g hg⟩
    constructor
    · intro other g hg
      rcases hcases other g hg with ⟨-, hlock⟩ | ⟨-, hlock⟩ <;> omega
    · intro first second f g hf hg hsame
      rcases hcases first f hf with ⟨hfirst, hf⟩ | ⟨hf, hfless⟩
      · rcases hcases second g hg with ⟨hsecond, -⟩ | ⟨-, hgless⟩
        · rw [hfirst, hsecond]
        · omega
      · rcases hcases second g hg with ⟨-, hglock⟩ | ⟨hg, -⟩
        · omega
        · exact h.apart first second f g hf hg hsame

theorem leave (h : s.LocksApart) (key : String) : (s.leave key).LocksApart := by
  have hfresh : (s.leave key).freshLock = s.freshLock := by
    obtain ⟨flights, hstore⟩ := s.leave_eq key
    rw [hstore]
  refine h.of_subset hfresh fun other g hg => ?_
  rw [get?_leave] at hg
  by_cases hother : other = key
  · rw [if_pos hother] at hg
    obtain ⟨f, hf, hg⟩ := Option.bind_eq_some_iff.mp hg
    by_cases hlast : f.callers ≤ 1
    · rw [if_pos hlast] at hg
      cases hg
    · rw [if_neg hlast] at hg
      obtain rfl := Option.some.inj hg
      exact ⟨f, hother ▸ hf, rfl⟩
  · rw [if_neg hother] at hg
    exact ⟨g, hg, rfl⟩

theorem turn [Backend β] {failing? : Option String} {old new : List (Stake ε ν)}
    {s s' : Shared β ν} (h : s.store.LocksApart) (hturn : Turn failing? s old new s') :
    s'.store.LocksApart := by
  cases hturn with
  | join key => exact h.join key
  | leave key lock r => exact h.leave key
  | fetched key lock codec v =>
    exact h.of_eq (s.store.flights_fetch key codec) (s.store.freshLock_fetch key codec)
  | compute key lock codec =>
    exact h.of_eq (s.store.flights_fetch key codec) (s.store.freshLock_fetch key codec)
  | publish key lock codec v =>
    exact h.of_eq (s.store.flights_publish key codec v) (s.store.freshLock_publish key codec v)
  | memoize key lock v =>
    obtain ⟨m, hstore, -⟩ := s.store.memoize_store (ε := ε) key v
    rw [hstore]
    exact h.of_eq rfl rfl
  | _ => exact h.of_eq rfl rfl

end LocksApart
end Store

theorem Orderly.key_of_lock {calls : List (Stake ε ν)} {s : Shared β ν} (h : Orderly calls s)
    (hapart : s.store.LocksApart) {x y : Stake ε ν} (hx : x ∈ calls) (hy : y ∈ calls)
    (hlock : x.lock = y.lock) : x.key = y.key := by
  obtain ⟨f, hf, hfx⟩ := h.lock x hx
  obtain ⟨g, hg, hgy⟩ := h.lock y hy
  exact hapart.apart x.key y.key f g hf hg (by rw [hfx, hgy, hlock])

theorem Orderly.mem_held_iff {calls : List (Stake ε ν)} {s : Shared β ν} (h : Orderly calls s)
    {lock : Nat} : lock ∈ s.held ↔ ∃ x ∈ calls, x.stage.holds = true ∧ x.lock = lock := by
  have hheld := h.held lock
  constructor
  · intro hmem
    have hpos : 0 < calls.countP fun x => x.stage.holds && x.lock == lock :=
      hheld ▸ List.count_pos_iff.mpr hmem
    obtain ⟨x, hx, hholds⟩ := List.countP_pos_iff.mp hpos
    rw [Bool.and_eq_true, beq_iff_eq] at hholds
    exact ⟨x, hx, hholds⟩
  · rintro ⟨x, hx, hholds, hlock⟩
    refine List.count_pos_iff.mp (hheld ▸ List.countP_pos_iff.mpr ⟨x, hx, ?_⟩)
    rw [hholds, hlock, beq_self_eq_true]
    rfl

namespace Crew

variable [Backend β] {w : Crew β ε ν α}

theorem locksApart_move (h : w.shared.store.LocksApart) (m : Move) :
    (w.move m).shared.store.LocksApart := by
  cases m with
  | pass seconds => exact h.of_eq rfl rfl
  | step i =>
    rcases w.turn_of_step i with hsame | ⟨t, -, old, new, rest, -, -, hturn⟩
    · rw [move, hsame]
      exact h
    · exact h.turn hturn

/-- The locks are apart after any moves. -/
theorem locksApart_run (h : w.shared.store.LocksApart) (moves : List Move) :
    (w.run moves).shared.store.LocksApart := by
  induction moves generalizing w with
  | nil => exact h
  | cons m moves ih => exact ih (locksApart_move h m)

end Crew
end FieldPlan.Cache
