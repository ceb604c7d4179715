import FieldPlan.Proofs.Cache.Flights
import FieldPlan.Settings
/-!
# Expiry

Whatever several threads do, what a memo answers for a key is what was stored last under it, and it
is younger than the lifetime in force. A lifetime of zero is no bound: a memo takes it for none.
-/
namespace FieldPlan.Cache

variable {β ε ν α : Type}

namespace Memo

theorem live_of_get? {m : Memo ν} {now : Int} {key : String} {v : ν}
    (h : (m.get? now key).1 = some v) :
    ∃ e ∈ m.entries, e.key = key ∧ e.value = v ∧ m.isLive now e = true := by
  unfold get? at h
  cases hfind : m.find? now key with
  | none => simp [hfind] at h
  | some e =>
    obtain ⟨hkey, hlive, hmem⟩ := find?_key hfind
    have hvalue : e.value = v := by simpa [hfind] using h
    exact ⟨e, hmem, hkey, hvalue, hlive⟩

@[simp] theorem get?_lifetime (m : Memo ν) (now : Int) (key : String) :
    (m.get? now key).2.lifetime = m.lifetime := by
  unfold get?
  split <;> rfl

theorem insert?_lifetime {m m' : Memo ν} {now : Int} {key : String} {value : ν}
    (h : m.insert? now key value = some m') : m'.lifetime = m.lifetime := by
  unfold insert? at h
  split at h
  · cases h
  · obtain rfl := Option.some.inj h
    rfl

theorem insert?_entries_cases {m m' : Memo ν} {now : Int} {key : String} {value : ν}
    (h : m.insert? now key value = some m') {e : MemoEntry ν} (he : e ∈ m'.entries) :
    e = ⟨key, value, now⟩ ∨ (e ∈ m.entries ∧ e.key ≠ key) := by
  unfold insert? at h
  split at h
  · cases h
  · obtain rfl := Option.some.inj h
    rcases List.mem_append.mp he with he | he
    · have hkept := (List.mem_filter.mp (List.mem_of_mem_drop he)).1
      right
      simpa [without] using hkept
    · left
      exact List.mem_singleton.mp he

/-- An entry that is live under a lifetime is younger than it, unless the lifetime is zero. -/
theorem lt_of_isLive {m : Memo ν} {lifetime : Option Int} {now : Int} {e : MemoEntry ν}
    (hlifetime : m.lifetime = lifetime.filter (· != 0)) (h : m.isLive now e = true) {l : Int}
    (hl : lifetime = some l) (hzero : l ≠ 0) : now < e.storedAt + l := by
  have hkept : m.lifetime = some l := by simp [hlifetime, hl, hzero]
  simpa [isLive, hkept] using h

end Memo

/-- The key that the next step of a thread looks up in the memo. -/
def Thread.asked? : Thread ε ν α → Option String
  | ⟨_, .running (.remember key _ _ _), _⟩ => some key
  | ⟨_, .checking c _, _⟩ => some c.key
  | _ => none

/-- The value that the next step of a thread puts into the memo, behind its key. -/
def Thread.memoizes? : Thread ε ν α → Option (String × ν)
  | ⟨_, .memoizing c _ v, _⟩ => some (c.key, v)
  | _ => none

/-- What a step does to the memo. -/
inductive Thread.OnMemo (s : Store β ν) : Option (String × ν) → Memo ν → Prop where
  | untouched : OnMemo s none s.memo
  | asked (key : String) : OnMemo s none (s.memo.get? s.now key).2
  | stored (key : String) (v : ν) (m : Memo ν) (h : s.memo.insert? s.now key v = some m) :
    OnMemo s (some (key, v)) m
  | refused (key : String) (v : ν) (h : s.memo.insert? s.now key v = none) :
    OnMemo s (some (key, v)) s.memo

theorem Thread.onMemo_of_step [Backend β] {t t' : Thread ε ν α} {s s' : Shared β ν}
    (h : t.step s = some (t', s')) :
    s'.store.now = s.store.now ∧ OnMemo s.store t.memoizes? s'.store.memo := by
  obtain ⟨inner, activity, calls⟩ := t
  cases activity with
  | running task =>
    cases task with
    | pure v =>
      cases calls with
      | none => cases h
      | computing c lock outer =>
        obtain ⟨-, rfl⟩ := Prod.mk.inj (Option.some.inj h)
        exact ⟨rfl, .untouched⟩
    | fail e =>
      cases calls with
      | none => cases h
      | computing c lock outer =>
        obtain ⟨-, rfl⟩ := Prod.mk.inj (Option.some.inj h)
        exact ⟨rfl, .untouched⟩
    | note text next =>
      obtain ⟨-, rfl⟩ := Prod.mk.inj (Option.some.inj h)
      exact ⟨rfl, .untouched⟩
    | remember key codec body next =>
      obtain ⟨-, rfl⟩ := Prod.mk.inj (Option.some.inj h)
      exact ⟨rfl, .asked key⟩
  | joining c =>
    obtain ⟨-, rfl⟩ := Prod.mk.inj (Option.some.inj h)
    obtain ⟨flights, freshLock, hstore⟩ := s.store.join_eq c.key
    change (s.store.join c.key).2.now = _ ∧ OnMemo s.store none (s.store.join c.key).2.memo
    rw [hstore]
    exact ⟨rfl, .untouched⟩
  | waiting c lock =>
    simp only [Thread.step] at h
    split at h
    · cases h
    · obtain ⟨-, rfl⟩ := Prod.mk.inj (Option.some.inj h)
      exact ⟨rfl, .untouched⟩
  | checking c lock =>
    obtain ⟨-, rfl⟩ := Prod.mk.inj (Option.some.inj h)
    exact ⟨rfl, .asked c.key⟩
  | fetching c lock =>
    rw [Thread.step_fetching] at h
    obtain ⟨-, rfl⟩ := Prod.mk.inj (Option.some.inj h)
    obtain ⟨backend, log, hstore⟩ := s.store.fetch_eq c.key c.codec
    dsimp only
    rw [hstore]
    exact ⟨rfl, .untouched⟩
  | publishing c lock v =>
    obtain ⟨-, rfl⟩ := Prod.mk.inj (Option.some.inj h)
    obtain ⟨backend, log, hstore⟩ := s.store.publish_eq c.key c.codec v
    dsimp only
    rw [hstore]
    exact ⟨rfl, .untouched⟩
  | memoizing c lock v =>
    obtain ⟨-, rfl⟩ := Prod.mk.inj (Option.some.inj h)
    dsimp only [Store.memoize]
    cases hm : s.store.memo.insert? s.store.now c.key v with
    | none => exact ⟨rfl, .refused c.key v hm⟩
    | some m => exact ⟨rfl, .stored c.key v m hm⟩
  | unlocking c lock r =>
    obtain ⟨-, rfl⟩ := Prod.mk.inj (Option.some.inj h)
    exact ⟨rfl, .untouched⟩
  | leaving c lock r =>
    obtain ⟨-, rfl⟩ := Prod.mk.inj (Option.some.inj h)
    obtain ⟨flights, hstore⟩ := s.store.leave_eq c.key
    dsimp only
    rw [hstore]
    exact ⟨rfl, .untouched⟩

theorem Thread.memoizes?_of_stuck [Backend β] {t : Thread ε ν α} {s : Shared β ν}
    (h : t.step s = none) : t.memoizes? = none := by
  obtain ⟨inner, activity, calls⟩ := t
  cases activity with
  | memoizing c lock v => cases h
  | _ => rfl

def lastUnder (entries : List (MemoEntry ν)) (key : String) : Option (MemoEntry ν) :=
  (entries.filter (·.key == key)).getLast?

theorem lastUnder_concat_self (entries : List (MemoEntry ν)) (e : MemoEntry ν) :
    lastUnder (entries ++ [e]) e.key = some e := by
  simp [lastUnder]

theorem lastUnder_concat_of_ne (entries : List (MemoEntry ν)) {e : MemoEntry ν} {key : String}
    (h : key ≠ e.key) : lastUnder (entries ++ [e]) key = lastUnder entries key := by
  simp [lastUnder, Ne.symm h]

namespace Crew

def served? (w : Crew β ε ν α) (i : Nat) : Option (String × ν) :=
  (w.threads[i]?.bind Thread.asked?).bind fun key =>
    (w.shared.store.lookUp key).1.map (key, ·)

/-- The entry that a move adds to the memo. -/
def stored? (w : Crew β ε ν α) : Move → Option (MemoEntry ν)
  | .pass _ => none
  | .step i => (w.threads[i]?.bind Thread.memoizes?).bind fun (key, v) =>
    (w.shared.store.memo.insert? w.shared.store.now key v).map fun _ =>
      ⟨key, v, w.shared.store.now⟩

def stores [Backend β] (w : Crew β ε ν α) : List Move → List (MemoEntry ν)
  | [] => []
  | m :: moves => (w.stored? m).toList ++ (w.move m).stores moves

/-- The memo recalls of some entries, stored one after the other, no more than the last one of each
key. -/
structure Recalls (w : Crew β ε ν α) (entries : List (MemoEntry ν)) (lifetime : Option Int) :
    Prop where
  lifetime : w.shared.store.memo.lifetime = lifetime
  last : ∀ e ∈ w.shared.store.memo.entries, lastUnder entries e.key = some e
  past : ∀ e ∈ w.shared.store.memo.entries, e.storedAt ≤ w.shared.store.now

namespace Recalls

variable [Backend β] {w : Crew β ε ν α} {entries : List (MemoEntry ν)} {lifetime : Option Int}

omit [Backend β] in
theorem of_fewer (h : w.Recalls entries lifetime) {w' : Crew β ε ν α}
    (hlifetime : w'.shared.store.memo.lifetime = w.shared.store.memo.lifetime)
    (hsub : ∀ e ∈ w'.shared.store.memo.entries, e ∈ w.shared.store.memo.entries)
    (hnow : w.shared.store.now ≤ w'.shared.store.now) : w'.Recalls entries lifetime where
  lifetime := hlifetime.trans h.lifetime
  last e he := h.last e (hsub e he)
  past e he := Int.le_trans (h.past e (hsub e he)) hnow

theorem of_idle (h : w.Recalls entries lifetime) {i : Nat} (hstay : w.step i = w)
    (hidle : w.threads[i]?.bind Thread.memoizes? = none) :
    (w.step i).Recalls (entries ++ (w.stored? (.step i)).toList) lifetime := by
  simpa [stored?, hidle, hstay] using h

omit [Backend β] in
theorem of_onMemo (h : w.Recalls entries lifetime) {i : Nat} {t : Thread ε ν α}
    (ht : w.threads[i]? = some t) {w' : Crew β ε ν α}
    (hnow : w'.shared.store.now = w.shared.store.now)
    (hmemo : Thread.OnMemo w.shared.store t.memoizes? w'.shared.store.memo) :
    w'.Recalls (entries ++ (w.stored? (.step i)).toList) lifetime := by
  generalize hm : w'.shared.store.memo = m at hmemo
  generalize hstores : t.memoizes? = stores at hmemo
  cases hmemo with
  | untouched =>
    have hnone : w.stored? (.step i) = none := by simp [stored?, ht, hstores]
    simp only [hnone, Option.toList_none, List.append_nil]
    exact h.of_fewer (by rw [hm]) (fun e he => hm ▸ he) (Int.le_of_eq hnow.symm)
  | asked key =>
    have hnone : w.stored? (.step i) = none := by simp [stored?, ht, hstores]
    simp only [hnone, Option.toList_none, List.append_nil]
    refine h.of_fewer (by simp [hm]) (fun e he => ?_) (Int.le_of_eq hnow.symm)
    rw [hm] at he
    exact Memo.mem_get?_entries he
  | refused key v hinsert =>
    have hnone : w.stored? (.step i) = none := by simp [stored?, ht, hstores, hinsert]
    simp only [hnone, Option.toList_none, List.append_nil]
    exact h.of_fewer (by rw [hm]) (fun e he => hm ▸ he) (Int.le_of_eq hnow.symm)
  | stored key v _ hinsert =>
    have hnew : w.stored? (.step i) = some ⟨key, v, w.shared.store.now⟩ := by
      simp [stored?, ht, hstores, hinsert]
    simp only [hnew, Option.toList_some]
    constructor
    · rw [hm, Memo.insert?_lifetime hinsert]
      exact h.lifetime
    · intro e he
      rw [hm] at he
      rcases Memo.insert?_entries_cases hinsert he with rfl | ⟨he, hother⟩
      · apply lastUnder_concat_self
      · rw [lastUnder_concat_of_ne entries hother]
        exact h.last e he
    · intro e he
      rw [hm] at he
      rw [hnow]
      rcases Memo.insert?_entries_cases hinsert he with rfl | ⟨he, -⟩
      · apply Int.le_refl
      · exact h.past e he

theorem step (h : w.Recalls entries lifetime) (i : Nat) :
    (w.step i).Recalls (entries ++ (w.stored? (.step i)).toList) lifetime := by
  cases ht : w.threads[i]? with
  | none =>
    apply h.of_idle
    · simp [Crew.step, step?, ht]
    · simp [ht]
  | some t =>
    cases hstep : t.step w.shared with
    | none =>
      apply h.of_idle
      · simp [Crew.step, step?, ht, hstep]
      · simpa [ht] using Thread.memoizes?_of_stuck hstep
    | some next =>
      obtain ⟨t', shared⟩ := next
      have hnext : w.step i = ⟨w.threads.set i t', shared⟩ := by
        simp [Crew.step, step?, ht, hstep]
      obtain ⟨hnow, hmemo⟩ := Thread.onMemo_of_step hstep
      rw [hnext]
      exact h.of_onMemo ht hnow hmemo

theorem move (h : w.Recalls entries lifetime) (m : Move) :
    (w.move m).Recalls (entries ++ (w.stored? m).toList) lifetime := by
  cases m with
  | step i => exact h.step i
  | pass seconds =>
    simp only [stored?, Option.toList_none, List.append_nil]
    refine h.of_fewer rfl (fun _ he => he) ?_
    simp only [Crew.move, Store.advance]
    omega

theorem run (h : w.Recalls entries lifetime) (moves : List Move) :
    (w.run moves).Recalls (entries ++ w.stores moves) lifetime := by
  induction moves generalizing w entries with
  | nil => simpa [stores, Crew.run] using h
  | cons m moves ih =>
    have hfirst := h.move m
    have hrest := ih hfirst
    rw [List.append_assoc] at hrest
    exact hrest

end Recalls

theorem recalls_start (tasks : List (Task ε ν α)) (backend : Option β) (capacity : Nat)
    (lifetime memoLifetime : Option Int) :
    (start tasks (.start backend capacity lifetime memoLifetime)).Recalls []
      (memoLifetime.filter (· != 0)) := by
  constructor
  · rfl
  · intro e he
    cases he
  · intro e he
    cases he

theorem get?_of_served {w : Crew β ε ν α} {i : Nat} {key : String} {v : ν}
    (h : w.served? i = some (key, v)) :
    (w.shared.store.memo.get? w.shared.store.now key).1 = some v := by
  obtain ⟨asked, -, hserved⟩ := Option.bind_eq_some_iff.mp h
  obtain ⟨found, hfound, hpair⟩ := Option.map_eq_some_iff.mp hserved
  obtain ⟨rfl, rfl⟩ := Prod.mk.inj hpair
  exact hfound

/-- Whatever moves threads make against a cache that starts empty: what a thread is served from the
memo was stored under its key, nothing was stored under the key since, and a lifetime that is in
force, given or inherited, has not passed. -/
theorem served_within_lifetime [Backend β] (tasks : List (Task ε ν α)) (backend : Option β)
    (capacity : Nat) (lifetime memoLifetime : Option Int) (moves : List Move) {i : Nat}
    {key : String} {v : ν} :
    let inForce := Settings.effectiveMemoLifetime memoLifetime lifetime
    let begun := start tasks (.start backend capacity lifetime inForce)
    let w := begun.run moves
    w.served? i = some (key, v) →
    ∃ time, lastUnder (begun.stores moves) key = some ⟨key, v, time⟩ ∧
      time ≤ w.shared.store.now ∧
      ∀ l, inForce = some l → l ≠ 0 → w.shared.store.now < time + l := by
  intro inForce begun w hserved
  have hrecalls : w.Recalls (begun.stores moves) (inForce.filter (· != 0)) := by
    have hbegun := recalls_start tasks backend capacity lifetime inForce
    simpa using hbegun.run moves
  obtain ⟨⟨k, value, time⟩, hmem, rfl, rfl, hlive⟩ := Memo.live_of_get? (get?_of_served hserved)
  refine ⟨time, hrecalls.last _ hmem, hrecalls.past _ hmem, ?_⟩
  intro l hl hzero
  exact Memo.lt_of_isLive hrecalls.lifetime hlive hl hzero

end Crew

namespace Minute

def tasks : List (Task Unit Nat Nat) :=
  [1, 2, 3].map fun n => .cached "answer" ⟨fun n => .ok n.repr, String.toNat?⟩ (.pure n)

def begun (lifetime memoLifetime : Option Int) : Crew SharedStore Unit Nat Nat :=
  .start tasks (.start none 8 lifetime (Settings.effectiveMemoLifetime memoLifetime lifetime))

def firstAnswer : List Move := List.replicate 10 (.step 0) ++ [.pass 60]

def secondAnswer : List Move := firstAnswer ++ List.replicate 10 (.step 1) ++ [.pass 59]

/-- With an inherited lifetime of a minute the second thread computes anew, and the third is served
what the second has stored. -/
theorem served_second_answer :
    ((begun (some 60) none).run secondAnswer).served? 2 = some ("answer", 2) ∧
    ((begun (some 60) none).run secondAnswer).shared.store.now = 119 ∧
    ∃ time, lastUnder ((begun (some 60) none).stores secondAnswer) "answer" =
        some ⟨"answer", 2, time⟩ ∧ time ≤ 119 ∧ 119 < time + 60 := by
  have hserved : ((begun (some 60) none).run secondAnswer).served? 2 = some ("answer", 2) := by
    decide
  have hnow : ((begun (some 60) none).run secondAnswer).shared.store.now = 119 := by decide
  obtain ⟨time, hlast, hpast, hfresh⟩ :=
    Crew.served_within_lifetime tasks none 8 (some 60) none secondAnswer hserved
  have hfresh : 119 < time + 60 := hnow ▸ hfresh 60 rfl (by decide)
  exact ⟨hserved, hnow, time, hlast, hnow ▸ hpast, hfresh⟩

/-- With a lifetime of zero the second thread is still served what was stored a minute ago. -/
theorem served_after_zero_lifetime :
    Settings.effectiveMemoLifetime (some 0) none = some 0 ∧
    ((begun none (some 0)).run firstAnswer).served? 1 = some ("answer", 1) ∧
    lastUnder ((begun none (some 0)).stores firstAnswer) "answer" = some ⟨"answer", 1, 0⟩ ∧
    ((begun none (some 0)).run firstAnswer).shared.store.now = 60 ∧ ¬ (60 : Int) < 0 + 0 := by
  refine ⟨rfl, ?_, rfl, ?_, ?_⟩
  · decide
  · decide
  · decide

end Minute
end FieldPlan.Cache
