import FieldPlan.Proofs.Cache.Flights
/-!
# Settlement

The value of a key is settled once it is in the memo. As long as it stays there and no computation
of the key fails, no call for the key produces another value, and every call answers this one.
-/
namespace FieldPlan.Cache

variable {β ε ν α : Type}

namespace Memo

def Has (m : Memo ν) (key : String) : Prop := ∃ e ∈ m.entries, e.key = key

theorem get?_isSome_of_has {m : Memo ν} {now : Int} {key : String} (h : m.Has key)
    (hlive : ∀ e ∈ m.entries, e.key = key → m.isLive now e = true) :
    (m.get? now key).1.isSome := by
  obtain ⟨e, he, hkey⟩ := h
  obtain ⟨found, -, -, hget⟩ := get?_of_live ⟨e, he, hkey, hlive e he hkey⟩
  rw [hget]
  rfl

theorem mem_insert? {m m' : Memo ν} {now : Int} {key : String} {value : ν}
    (h : m.insert? now key value = some m') : ⟨key, value, now⟩ ∈ m'.entries := by
  unfold insert? at h
  split at h
  · cases h
  · obtain rfl := Option.some.inj h
    exact List.mem_append_right _ List.mem_cons_self

end Memo

/-- The value of a key: none before it is settled. A computation that has ended before that is one
whose value is still on its way to the memo. -/
structure Settled (key : String) (o : Option ν) (calls : List (Stake ε ν)) (s : Shared β ν) :
    Prop where
  stored : o.isSome → s.store.memo.Has key
  value : ∀ e ∈ s.store.memo.entries, e.key = key → o = some e.value
  idle : o.isSome → ∀ x ∈ calls, x.key = key → x.stage.produces = false
  results : ∀ x ∈ calls, x.key = key → ∀ r, x.stage.result? = some r → o.map .ok = some r
  computed : s.computed.count key ≤
    if o.isSome then 1 else calls.countP fun x => x.key == key && x.stage.stores

namespace Settled

variable {key : String} {o : Option ν} {calls rest : List (Stake ε ν)} {s s' : Shared β ν}

theorem perm {other : List (Stake ε ν)} (h : Settled key o calls s) (hperm : calls.Perm other) :
    Settled key o other s where
  stored := h.stored
  value := h.value
  idle ho x hx := h.idle ho x (hperm.mem_iff.mpr hx)
  results x hx := h.results x (hperm.mem_iff.mpr hx)
  computed := by
    rw [← hperm.countP_eq]
    exact h.computed

theorem of_memo (h : Settled key o calls s)
    (hmemo : ∀ e ∈ s'.store.memo.entries, e.key = key → e ∈ s.store.memo.entries)
    (hkept : s.store.memo.Has key → s'.store.memo.Has key)
    (hcomputed : s'.computed.count key = s.computed.count key) : Settled key o calls s' where
  stored ho := hkept (h.stored ho)
  value e he hkey := h.value e (hmemo e he hkey) hkey
  idle := h.idle
  results := h.results
  computed := hcomputed ▸ h.computed

theorem unsettled {x : Stake ε ν} (h : Settled key o calls s) (hx : x ∈ calls)
    (hkey : x.key = key) (hproduces : x.stage.produces = true) : o = none := by
  cases o with
  | none => rfl
  | some v =>
    have hidle := h.idle rfl x hx hkey
    rw [hproduces] at hidle
    cases hidle

theorem join (h : Settled key o rest s) (k : String) (lock : Nat) :
    Settled key o (⟨k, lock, .waiting⟩ :: rest) s where
  stored := h.stored
  value := h.value
  idle ho x hx hkey := by
    rcases List.mem_cons.mp hx with rfl | hx
    · rfl
    · exact h.idle ho x hx hkey
  results x hx hkey r hr := by
    rcases List.mem_cons.mp hx with rfl | hx
    · cases hr
    · exact h.results x hx hkey r hr
  computed := by
    rw [List.countP_cons]
    simpa [Stage.stores] using h.computed

theorem leave {k : String} {lock : Nat} {r : Result ε ν}
    (h : Settled key o (⟨k, lock, .leaving r⟩ :: rest) s) : Settled key o rest s where
  stored := h.stored
  value := h.value
  idle ho x hx := h.idle ho x (List.mem_cons_of_mem _ hx)
  results x hx := h.results x (List.mem_cons_of_mem _ hx)
  computed := by
    have hcomputed := h.computed
    rw [List.countP_cons] at hcomputed
    simpa [Stage.stores] using hcomputed

theorem advance {k : String} {lock : Nat} {a b : Stage ε ν}
    (h : Settled key o (⟨k, lock, a⟩ :: rest) s)
    (hidle : k = key → o.isSome → b.produces = false)
    (hresult : k = key → ∀ r, b.result? = some r → o.map .ok = some r)
    (hstores : k = key → a.stores = true → b.stores = true) :
    Settled key o (⟨k, lock, b⟩ :: rest) s where
  stored := h.stored
  value := h.value
  idle ho x hx hkey := by
    rcases List.mem_cons.mp hx with rfl | hx
    · exact hidle hkey ho
    · exact h.idle ho x (List.mem_cons_of_mem _ hx) hkey
  results x hx hkey r hr := by
    rcases List.mem_cons.mp hx with rfl | hx
    · exact hresult hkey r hr
    · exact h.results x (List.mem_cons_of_mem _ hx) hkey r hr
  computed := by
    have hcomputed := h.computed
    cases o with
    | some v => exact hcomputed
    | none =>
      refine Nat.le_trans hcomputed ?_
      rw [List.countP_cons, List.countP_cons]
      refine Nat.add_le_add_left ?_ _
      by_cases hstored : (k == key && a.stores) = true
      · obtain ⟨hkey, ha⟩ := Bool.and_eq_true_iff.mp hstored
        exact Nat.le_of_eq (by rw [hkey, hstores (beq_iff_eq.mp hkey) ha, ha])
      · rw [if_neg hstored]
        exact Nat.zero_le _

theorem produce {k : String} {lock : Nat} {a b : Stage ε ν}
    (h : Settled key o (⟨k, lock, a⟩ :: rest) s) (ha : a.produces = true)
    (hresult : b.result? = none) (hstores : a.stores = true → b.stores = true) :
    Settled key o (⟨k, lock, b⟩ :: rest) s := by
  refine h.advance ?_ ?_ fun _ => hstores
  · rintro rfl ho
    rw [h.unsettled List.mem_cons_self rfl ha] at ho
    cases ho
  · intro _ r hr
    rw [hresult] at hr
    cases hr

theorem countP_stores {x : Stake ε ν} (hord : Orderly (x :: rest) s) (hkey : x.key = key)
    (hproduces : x.stage.produces = true) :
    rest.countP (fun y => y.key == key && y.stage.stores) = 0 := by
  refine List.countP_eq_zero.mpr fun y hy hstored => ?_
  obtain ⟨hykey, hstores⟩ := Bool.and_eq_true_iff.mp hstored
  have hnot := hord.not_holds_of_holds (Stage.holds_of_produces hproduces) hy
    ((beq_iff_eq.mp hykey).trans hkey.symm)
  rw [Stage.holds_of_produces (Stage.produces_of_stores hstores)] at hnot
  cases hnot

theorem compute {lock : Nat} {v : ν} (h : Settled key o (⟨key, lock, .computing⟩ :: rest) s)
    (hord : Orderly (⟨key, lock, .computing⟩ :: rest) s) :
    Settled key o (⟨key, lock, .publishing v⟩ :: rest)
      { s with computed := key :: s.computed } where
  stored := h.stored
  value := h.value
  idle ho := by
    rw [h.unsettled List.mem_cons_self rfl rfl] at ho
    cases ho
  results x hx hkey r hr := by
    rcases List.mem_cons.mp hx with rfl | hx
    · cases hr
    · exact h.results x (List.mem_cons_of_mem _ hx) hkey r hr
  computed := by
    have hcomputed := h.computed
    have hrest := countP_stores hord rfl rfl
    rw [h.unsettled List.mem_cons_self rfl rfl] at hcomputed ⊢
    rw [List.countP_cons, hrest] at hcomputed
    rw [List.countP_cons, hrest, List.count_cons_self]
    simpa [Stage.stores] using hcomputed

theorem memoize {lock : Nat} {v : ν} {m : Memo ν}
    (h : Settled key o (⟨key, lock, .memoizing v⟩ :: rest) s)
    (hord : Orderly (⟨key, lock, .memoizing v⟩ :: rest) s)
    (hm : s.store.memo.insert? s.store.now key v = some m) :
    Settled key (some v) (⟨key, lock, .unlocking (.ok v)⟩ :: rest)
      { s with store := { s.store with memo := m } } := by
  obtain rfl := h.unsettled List.mem_cons_self rfl rfl
  exact
    { stored := fun _ => ⟨_, Memo.mem_insert? hm, rfl⟩
      value := by
        intro e he hkey
        rcases Memo.mem_insert?_entries hm he with he | rfl
        · cases h.value e he hkey
        · rfl
      idle := by
        intro _ x hx hkey
        rcases List.mem_cons.mp hx with rfl | hx
        · rfl
        · cases hproduces : x.stage.produces with
          | false => rfl
          | true =>
            have hnot := hord.not_holds_of_holds rfl hx hkey
            rw [Stage.holds_of_produces hproduces] at hnot
            cases hnot
      results := by
        intro x hx hkey r hr
        rcases List.mem_cons.mp hx with rfl | hx
        · exact hr
        · cases h.results x (List.mem_cons_of_mem _ hx) hkey r hr
      computed := by
        have hcomputed := h.computed
        rw [List.countP_cons, countP_stores hord rfl rfl] at hcomputed
        simpa [Stage.stores] using hcomputed }

/-- A turn may settle the key, but never changes its value. -/
theorem turn [Backend β] {failing? : Option String} {old new : List (Stake ε ν)}
    (h : Settled key o (old ++ rest) s) (hord : Orderly (old ++ rest) s)
    (hroom : 1 ≤ s.store.memo.capacity)
    (hlive : ∀ e ∈ s.store.memo.entries, e.key = key → s.store.memo.isLive s.store.now e = true)
    (hkept : s.store.memo.Has key → s'.store.memo.Has key) (hfails : failing? ≠ some key)
    (hturn : Turn failing? s old new s') :
    ∃ o', (o.isSome → o' = o) ∧ Settled key o' (new ++ rest) s' := by
  cases hturn with
  | note w => exact ⟨o, fun _ => rfl, h.of_memo (fun e he _ => he) hkept rfl⟩
  | look k =>
    exact ⟨o, fun _ => rfl, h.of_memo (fun e he _ => Memo.mem_get?_entries he) hkept rfl⟩
  | join k =>
    refine ⟨o, fun _ => rfl, (h.join k _).of_memo (fun e he _ => ?_) hkept rfl⟩
    rwa [Store.memo_join] at he
  | take k lock hfree =>
    refine ⟨o, fun _ => rfl, .advance (h.of_memo (fun e he _ => he) hkept rfl) ?_ ?_ ?_⟩
    · exact fun _ _ => rfl
    · exact fun _ r hr => nomatch hr
    · exact fun _ ha => nomatch ha
  | hit k lock v hfound =>
    refine ⟨o, fun _ => rfl,
      .advance (h.of_memo (fun e he _ => Memo.mem_get?_entries he) hkept rfl) ?_ ?_ ?_⟩
    · exact fun _ _ => rfl
    · rintro rfl r hr
      obtain ⟨e, he, hkey, rfl⟩ := Memo.get?_mem hfound
      rw [h.value e he hkey]
      exact hr
    · exact fun _ ha => nomatch ha
  | miss k lock hfound =>
    refine ⟨o, fun _ => rfl,
      .advance (h.of_memo (fun e he _ => Memo.mem_get?_entries he) hkept rfl) ?_ ?_ ?_⟩
    · rintro rfl ho
      have hsome := Memo.get?_isSome_of_has (h.stored ho) hlive
      rw [show (s.store.memo.get? s.store.now k).1 = none from hfound] at hsome
      cases hsome
    · exact fun _ r hr => nomatch hr
    · exact fun _ ha => nomatch ha
  | fetched k lock codec v =>
    obtain ⟨backend, log, hstore⟩ := s.store.fetch_eq k codec
    rw [hstore] at hkept ⊢
    exact ⟨o, fun _ => rfl, .produce (h.of_memo (fun e he _ => he) hkept rfl) rfl rfl (nomatch ·)⟩
  | compute k lock codec =>
    obtain ⟨backend, log, hstore⟩ := s.store.fetch_eq k codec
    rw [hstore] at hkept ⊢
    exact ⟨o, fun _ => rfl, .produce (h.of_memo (fun e he _ => he) hkept rfl) rfl rfl (nomatch ·)⟩
  | computed k lock v =>
    by_cases hk : k = key
    · subst hk
      exact ⟨o, fun _ => rfl, h.compute hord⟩
    · have hcount : (k :: s.computed).count key = s.computed.count key :=
        List.count_cons_of_ne hk
      refine ⟨o, fun _ => rfl, .advance (h.of_memo (fun e he _ => he) hkept hcount) ?_ ?_ ?_⟩
      · exact fun hkey => absurd hkey hk
      · exact fun hkey => absurd hkey hk
      · exact fun _ ha => nomatch ha
  | raised k lock e hraised =>
    have hk : k ≠ key := fun hkey => hfails (hkey ▸ hraised)
    refine ⟨o, fun _ => rfl, h.advance ?_ ?_ ?_⟩
    · exact fun _ _ => rfl
    · exact fun hkey => absurd hkey hk
    · exact fun _ ha => nomatch ha
  | publish k lock codec v =>
    obtain ⟨backend, log, hstore⟩ := s.store.publish_eq k codec v
    rw [hstore] at hkept ⊢
    exact ⟨o, fun _ => rfl, .produce (h.of_memo (fun e he _ => he) hkept rfl) rfl rfl fun _ => rfl⟩
  | memoize k lock v =>
    obtain ⟨m, hm, -, hanswer, hstore⟩ := Store.memoize_eq (ε := ε) hroom k v
    rw [hanswer, hstore]
    rw [hstore] at hkept
    by_cases hk : k = key
    · subst hk
      refine ⟨some v, fun ho => ?_, h.memoize hord hm⟩
      rw [h.unsettled List.mem_cons_self rfl rfl] at ho
      cases ho
    · have hmemo : ∀ e ∈ m.entries, e.key = key → e ∈ s.store.memo.entries := by
        intro e he hkey
        rcases Memo.mem_insert?_entries hm he with he | rfl
        · exact he
        · exact absurd hkey hk
      refine ⟨o, fun _ => rfl, .advance (h.of_memo hmemo hkept rfl) ?_ ?_ ?_⟩
      · exact fun _ _ => rfl
      · exact fun hkey => absurd hkey hk
      · exact fun hkey => absurd hkey hk
  | unlock k lock r =>
    refine ⟨o, fun _ => rfl, .advance (h.of_memo (fun e he _ => he) hkept rfl) ?_ ?_ ?_⟩
    · exact fun _ _ => rfl
    · rintro rfl r' hr
      exact h.results _ List.mem_cons_self rfl r' hr
    · exact fun _ ha => nomatch ha
  | leave k lock r =>
    refine ⟨o, fun _ => rfl, h.leave.of_memo (fun e he _ => ?_) hkept rfl⟩
    rwa [Store.memo_leave] at he

/-- The computation of the key has ended at most once. -/
theorem count_computed_le_one (h : Settled key o calls s) (hord : Orderly calls s) :
    s.computed.count key ≤ 1 := by
  have hcomputed := h.computed
  cases o with
  | some v => exact hcomputed
  | none =>
    refine Nat.le_trans hcomputed (Nat.le_trans (List.countP_mono_left fun x _ hx => ?_)
      (hord.countP_holds_le_one key))
    obtain ⟨hkey, hstores⟩ := Bool.and_eq_true_iff.mp hx
    rw [hkey, Stage.holds_of_produces (Stage.produces_of_stores hstores)]
    rfl

end Settled
end FieldPlan.Cache
