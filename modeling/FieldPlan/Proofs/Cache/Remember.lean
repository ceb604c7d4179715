import FieldPlan.Proofs.Cache.Flights
/-!
# Remembering, case by case

What a call does that meets no other: the memo answers, or the backend does, or the computation.
-/
namespace FieldPlan.Cache.Store

variable {β ε ν ι : Type} {s : Store β ν} {key : String}

theorem lookUp_of_none (h : (s.lookUp key).1 = none) : s.lookUp key = (none, s) := by
  unfold lookUp Memo.get? at h ⊢
  cases hfind : s.memo.find? s.now key with
  | none => rfl
  | some e =>
    rw [hfind] at h
    cases h

theorem lookUp_join (s : Store β ν) (key : String) :
    ((s.join key).2.lookUp key).1 = (s.lookUp key).1 := by
  unfold join
  cases s.flights.get? key with
  | none => rfl
  | some f => rfl

variable [Backend β] {codec : Codec ν} {compute : Store β ν → (Result ε ν × ι) × Store β ν}

theorem produce_of_some {v : ν} (h : (s.lookUp key).1 = some v) :
    s.produce key codec compute = ((.ok v, none), (s.lookUp key).2) := by
  unfold produce
  revert h
  rcases s.lookUp key with ⟨found, s₁⟩
  rintro rfl
  rfl

theorem produce_of_fetch {v : ν} (h : (s.lookUp key).1 = none)
    (hfetch : (s.fetch key codec).1 = some v) :
    s.produce key codec compute =
      ((((s.fetch key codec).2.memoize key v).1, none),
        ((s.fetch key codec).2.memoize (ε := ε) key v).2) := by
  unfold produce
  rw [lookUp_of_none h]
  dsimp only
  revert hfetch
  rcases s.fetch key codec with ⟨found, s₁⟩
  rintro rfl
  rfl

theorem produce_of_error {e : Failure ε} (h : (s.lookUp key).1 = none)
    (hfetch : (s.fetch key codec).1 = none)
    (hcompute : (compute (s.fetch key codec).2).1.1 = .error e) :
    s.produce key codec compute =
      ((.error e, some (compute (s.fetch key codec).2).1.2),
        (compute (s.fetch key codec).2).2) := by
  unfold produce
  rw [lookUp_of_none h]
  dsimp only
  revert hfetch hcompute
  rcases s.fetch key codec with ⟨found, s₁⟩
  rintro rfl hcompute
  dsimp only at hcompute ⊢
  revert hcompute
  rcases compute s₁ with ⟨⟨r, report⟩, s₂⟩
  rintro rfl
  rfl

theorem produce_of_ok {v : ν} (h : (s.lookUp key).1 = none)
    (hfetch : (s.fetch key codec).1 = none)
    (hcompute : (compute (s.fetch key codec).2).1.1 = .ok v) :
    s.produce key codec compute =
      let s' := (compute (s.fetch key codec).2).2.publish key codec v
      (((s'.memoize key v).1, some (compute (s.fetch key codec).2).1.2),
        (s'.memoize (ε := ε) key v).2) := by
  unfold produce
  rw [lookUp_of_none h]
  dsimp only
  revert hfetch hcompute
  rcases s.fetch key codec with ⟨found, s₁⟩
  rintro rfl hcompute
  dsimp only at hcompute ⊢
  revert hcompute
  rcases compute s₁ with ⟨⟨r, report⟩, s₂⟩
  rintro rfl
  rfl

theorem remember_of_some {v : ν} (h : (s.lookUp key).1 = some v) :
    s.remember key codec compute = ((.ok v, none), (s.lookUp key).2) := by
  unfold remember
  revert h
  rcases s.lookUp key with ⟨found, s₁⟩
  rintro rfl
  rfl

theorem remember_of_none (h : (s.lookUp key).1 = none) :
    s.remember key codec compute =
      (((s.join key).2.produce key codec compute).1,
        ((s.join key).2.produce key codec compute).2.leave key) := by
  unfold remember
  rw [lookUp_of_none h]

/-- An error of a call is one of its computation. -/
theorem remember_raises {e : ε} (h : (s.remember key codec compute).1.1 = .error (.raised e)) :
    ∃ s', (compute s').1.1 = .error (.raised e) := by
  have hmemoize (s : Store β ν) (v : ν) : (s.memoize key v).1 ≠ .error (.raised e) := by
    intro hraised
    unfold memoize at hraised
    split at hraised <;> cases hraised
  cases hfound : (s.lookUp key).1 with
  | some v =>
    rw [remember_of_some hfound] at h
    cases h
  | none =>
    rw [remember_of_none hfound] at h
    have hmiss : ((s.join key).2.lookUp key).1 = none := (s.lookUp_join key).trans hfound
    cases hfetch : ((s.join key).2.fetch key codec).1 with
    | some v =>
      rw [produce_of_fetch hmiss hfetch] at h
      exact absurd h (hmemoize _ v)
    | none =>
      cases hcompute : (compute ((s.join key).2.fetch key codec).2).1.1 with
      | error e' =>
        rw [produce_of_error hmiss hfetch hcompute] at h
        exact ⟨_, hcompute.trans h⟩
      | ok v =>
        rw [produce_of_ok hmiss hfetch hcompute] at h
        exact absurd h (hmemoize _ v)

end FieldPlan.Cache.Store
