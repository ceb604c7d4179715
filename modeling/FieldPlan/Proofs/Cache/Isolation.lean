import FieldPlan.Proofs.Cache.Remember
/-!
# Isolation

What a task leaves alone when it remembers nothing under busy keys, those of calls under way: it
adds no entry for them to the memo and writes none of them to the backend. The flights are in the
end what they were, and the memo keeps to its capacity.
-/
namespace FieldPlan.Cache

variable {β ε ν α ι : Type}

/-- A backend from another by reads of any keys, and by writes of keys of a kind. -/
inductive Touched [Backend β] (P : String → Prop) (b : β) : β → Prop where
  | same : Touched P b b
  | read {b' : β} (h : Touched P b b') (key : String) : Touched P b (Backend.get b' key).2
  | write {b' : β} (h : Touched P b b') (key text : String) (lifetime : Option Int)
    (hkey : P key) : Touched P b (Backend.set b' key text lifetime).2

namespace Touched

variable [Backend β] {P Q : String → Prop} {b b' b'' : β}

theorem mono (h : Touched P b b') (hPQ : ∀ key, P key → Q key) : Touched Q b b' := by
  induction h with
  | same => exact .same
  | read _ key ih => exact .read ih key
  | write _ key text lifetime hkey ih => exact .write ih key text lifetime (hPQ key hkey)

theorem trans (h : Touched P b b') (h' : Touched P b' b'') : Touched P b b'' := by
  induction h' with
  | same => exact h
  | read _ key ih => exact .read ih key
  | write _ key text lifetime hkey ih => exact .write ih key text lifetime hkey

theorem texts_get? {b b' : SharedStore} (h : Touched P b b') {key : String} (hkey : ¬ P key) :
    b'.texts.get? key = b.texts.get? key := by
  induction h with
  | same => rfl
  | read _ _ ih => exact ih
  | @write b' _ k text lifetime hk ih =>
    rcases SharedStore.texts_set_cases b' k text lifetime with hsame | hset
    · exact (congrArg (Entries.get? · key) hsame).trans ih
    · have hne : key ≠ k := fun heq => hkey (heq ▸ hk)
      refine (congrArg (Entries.get? · key) hset).trans ?_
      rw [Entries.get?_set, if_neg hne]
      exact ih

end Touched

namespace Memo

theorem length_get?_le (m : Memo ν) (now : Int) (key : String) :
    (m.get? now key).2.entries.length ≤ m.entries.length := by
  unfold get?
  cases hfind : m.find? now key with
  | none => exact Nat.le_refl _
  | some e =>
    obtain ⟨hkey, -, hmem⟩ := find?_key hfind
    have hless : (m.without key).length < m.entries.length :=
      List.length_filter_lt_length_iff_exists.mpr ⟨e, hmem, by simp [hkey]⟩
    rw [List.length_append, List.length_singleton]
    exact hless

def valuesOf (m : Memo ν) (key : String) : List ν :=
  (m.entries.filter (·.key == key)).map (·.value)

theorem valuesOf_single {m : Memo ν} {key : String} {kept : List (MemoEntry ν)}
    {e : MemoEntry ν} (h : m.entries = kept ++ [e]) (hkept : ∀ x ∈ kept, x.key ≠ key)
    (he : e.key = key) : m.valuesOf key = [e.value] := by
  have hnone : kept.filter (·.key == key) = [] :=
    List.filter_eq_nil_iff.mpr fun x hx => by simp [hkept x hx]
  rw [valuesOf, h, List.filter_append, hnone, List.nil_append,
    List.filter_cons_of_pos (by simp [he])]
  rfl

theorem valuesOf_get? {m : Memo ν} {now : Int} {key : String} {v : ν}
    (h : (m.get? now key).1 = some v) : (m.get? now key).2.valuesOf key = [v] := by
  unfold get? at h ⊢
  cases hfind : m.find? now key with
  | none =>
    rw [hfind] at h
    cases h
  | some e =>
    rw [hfind] at h
    obtain rfl := Option.some.inj h
    have hothers : ∀ x ∈ m.without key, x.key ≠ key := by
      intro x hx
      simpa using (List.mem_filter.mp hx).2
    exact valuesOf_single (m := { m with entries := m.without key ++ [e] }) rfl hothers
      (find?_key hfind).1

theorem valuesOf_insert? {m m' : Memo ν} {now : Int} {key : String} {v : ν}
    (h : m.insert? now key v = some m') : m'.valuesOf key = [v] := by
  unfold insert? at h
  split at h
  · cases h
  · have hentries : m'.entries = ((m.without key).filter (m.isLive now)).drop
        (((m.without key).filter (m.isLive now)).length + 1 - m.capacity) ++ [⟨key, v, now⟩] := by
      rw [← Option.some.inj h]
    refine valuesOf_single hentries (fun x hx => ?_) rfl
    have hlive := (List.mem_filter.mp (List.mem_of_mem_drop hx)).1
    simpa using (List.mem_filter.mp hlive).2

end Memo

/-- A store later on, with nothing new for the busy keys. -/
structure Kept [Backend β] (busy : String → Prop) (s s' : Store β ν) : Prop where
  capacity : s'.memo.capacity = s.memo.capacity
  bounded : s.memo.entries.length ≤ s.memo.capacity → s'.memo.entries.length ≤ s'.memo.capacity
  entries : ∀ e ∈ s'.memo.entries, busy e.key → e ∈ s.memo.entries
  backend : Option.Rel (Touched fun key => ¬ busy key) s.backend s'.backend
  freshLock : s.freshLock ≤ s'.freshLock

namespace Kept

variable [Backend β] {busy busy' : String → Prop} {s s' s'' : Store β ν} {key : String}

theorem refl (s : Store β ν) : Kept busy s s where
  capacity := rfl
  bounded := id
  entries := fun _ he _ => he
  backend := by
    cases s.backend with
    | none => exact .none
    | some b => exact .some .same
  freshLock := Nat.le_refl _

theorem trans (h : Kept busy s s') (h' : Kept busy s' s'') : Kept busy s s'' where
  capacity := h'.capacity.trans h.capacity
  bounded := fun hs => h'.bounded (h.bounded hs)
  entries := fun e he hbusy => h.entries e (h'.entries e he hbusy) hbusy
  backend := by
    have hfirst := h.backend
    have hsecond := h'.backend
    generalize s.backend = b, s'.backend = b', s''.backend = b'' at hfirst hsecond ⊢
    cases hfirst with
    | none =>
      cases hsecond with
      | none => exact .none
    | some hfirst =>
      cases hsecond with
      | some hsecond => exact .some (hfirst.trans hsecond)
  freshLock := Nat.le_trans h.freshLock h'.freshLock

theorem mono (h : Kept busy s s') (hbusy : ∀ key, busy' key → busy key) : Kept busy' s s' where
  capacity := h.capacity
  bounded := h.bounded
  entries := fun e he hkey => h.entries e he (hbusy e.key hkey)
  backend := by
    have hbackend := h.backend
    generalize s.backend = b, s'.backend = b' at hbackend ⊢
    cases hbackend with
    | none => exact .none
    | some htouched =>
      exact .some (htouched.mono fun key hnot hkey => hnot (hbusy key hkey))
  freshLock := h.freshLock

theorem of_memo (hmemo : s'.memo = s.memo)
    (hbackend : Option.Rel (Touched fun key => ¬ busy key) s.backend s'.backend)
    (hfresh : s.freshLock ≤ s'.freshLock) : Kept busy s s' where
  capacity := congrArg Memo.capacity hmemo
  bounded := by
    rw [hmemo]
    exact id
  entries := by
    rw [hmemo]
    exact fun _ he _ => he
  backend := hbackend
  freshLock := hfresh

theorem of_eq (hmemo : s'.memo = s.memo) (hbackend : s'.backend = s.backend)
    (hfresh : s.freshLock ≤ s'.freshLock) : Kept busy s s' := by
  refine of_memo hmemo ?_ hfresh
  rw [hbackend]
  exact (refl s).backend

theorem lookUp (s : Store β ν) (key : String) : Kept busy s (s.lookUp key).2 where
  capacity := Memo.get?_capacity _ _ _
  bounded := fun hs => by
    have hlength := Memo.length_get?_le s.memo s.now key
    have hcapacity := Memo.get?_capacity s.memo s.now key
    exact Nat.le_trans hlength (hcapacity ▸ hs)
  entries := fun e he _ => Memo.mem_get?_entries he
  backend := (refl s).backend
  freshLock := Nat.le_refl _

theorem join (s : Store β ν) (key : String) : Kept busy s (s.join key).2 := by
  refine of_eq (s.memo_join key) ?_ ?_
  · unfold Store.join
    cases s.flights.get? key <;> rfl
  · unfold Store.join
    cases s.flights.get? key with
    | none => exact Nat.le_succ _
    | some f => exact Nat.le_refl _

theorem leave (s : Store β ν) (key : String) : Kept busy s (s.leave key) := by
  obtain ⟨flights, hstore⟩ := s.leave_eq key
  rw [hstore]
  exact of_eq rfl rfl (Nat.le_refl _)

theorem fetch (s : Store β ν) (key : String) (codec : Codec ν) :
    Kept busy s (s.fetch key codec).2 := by
  refine of_memo (s.memo_fetch key codec) ?_ (Nat.le_of_eq (s.freshLock_fetch key codec).symm)
  unfold Store.fetch
  cases hbackend : s.backend with
  | none =>
    dsimp only
    rw [hbackend]
    exact .none
  | some b =>
    have hread : Touched (fun key => ¬ busy key) b (Backend.get b key).2 := .read .same key
    revert hread
    dsimp only
    rcases Backend.get b key with ⟨cause | _ | text, b'⟩ <;> intro hread
    · exact .some hread
    · exact .some hread
    · dsimp only
      cases codec.decode text with
      | some v => exact .some hread
      | none => exact .some hread

theorem publish (s : Store β ν) (hkey : ¬ busy key) (codec : Codec ν) (v : ν) :
    Kept busy s (s.publish key codec v) := by
  refine of_memo (s.memo_publish key codec v) ?_
    (Nat.le_of_eq (s.freshLock_publish key codec v).symm)
  unfold Store.publish
  cases hbackend : s.backend with
  | none =>
    dsimp only
    rw [hbackend]
    exact .none
  | some b =>
    dsimp only
    cases codec.encode v with
    | error cause =>
      show Option.Rel _ _ s.backend
      rw [hbackend]
      exact .some .same
    | ok text =>
      have hwrite : Touched (fun key => ¬ busy key) b (Backend.set b key text s.lifetime).2 :=
        .write .same key text s.lifetime hkey
      revert hwrite
      dsimp only
      rcases Backend.set b key text s.lifetime with ⟨cause | _, b'⟩ <;> intro hwrite
      · exact .some hwrite
      · exact .some hwrite

theorem memoize (s : Store β ν) (hkey : ¬ busy key) (v : ν) :
    Kept busy s (s.memoize (ε := ε) key v).2 := by
  unfold Store.memoize
  cases hm : s.memo.insert? s.now key v with
  | none => exact refl s
  | some m =>
    have hcapacity := Memo.insert?_capacity hm
    refine ⟨hcapacity, fun _ => Memo.length_insert?_le hm, fun e he hbusy => ?_, (refl s).backend,
      Nat.le_refl _⟩
    rcases Memo.mem_insert?_entries hm he with he | rfl
    · exact he
    · exact absurd hbusy hkey

end Kept

theorem Turn.kept [Backend β] {failing? : Option String} {old new : List (Stake ε ν)}
    {s s' : Shared β ν} (h : Turn failing? s old new s') :
    Kept (fun _ => False) s.store s'.store := by
  cases h with
  | look key => exact .lookUp s.store key
  | join key => exact .join s.store key
  | hit key lock v => exact .lookUp s.store key
  | miss key lock => exact .lookUp s.store key
  | fetched key lock codec v => exact .fetch s.store key codec
  | compute key lock codec => exact .fetch s.store key codec
  | publish key lock codec v => exact .publish s.store id codec v
  | memoize key lock v => exact .memoize s.store id v
  | leave key lock r => exact .leave s.store key
  | _ => exact .of_eq rfl rfl (Nat.le_refl _)

namespace Crew

variable [Backend β]

theorem kept_move (w : Crew β ε ν α) (m : Move) :
    Kept (fun _ => False) w.shared.store (w.move m).shared.store := by
  cases m with
  | pass seconds => exact .of_eq rfl rfl (Nat.le_refl _)
  | step i =>
    rcases w.turn_of_step i with hsame | ⟨t, -, old, new, rest, -, -, hturn⟩
    · rw [move, hsame]
      exact .refl _
    · exact hturn.kept

theorem kept_run (w : Crew β ε ν α) (moves : List Move) :
    Kept (fun _ => False) w.shared.store (w.run moves).shared.store := by
  induction moves generalizing w with
  | nil => exact .refl _
  | cons m moves ih =>
    have hfirst := w.kept_move m
    exact hfirst.trans (ih (w.move m))

end Crew

namespace Store

theorem busy_join {busy : String → Prop} {s s' : Store β ν} {key : String}
    (hbusy : ∀ k f, s.flights.get? k = some f → busy k)
    (h : s'.flights = (s.join key).2.flights) (k : String) (f : Flight)
    (hf : s'.flights.get? k = some f) : k = key ∨ busy k := by
  rw [h, get?_join] at hf
  by_cases hk : k = key
  · exact .inl hk
  · rw [if_neg hk] at hf
    exact .inr (hbusy k f hf)

theorem flights_leave_of_join {s s' : Store β ν} {key : String}
    (hopened : ∀ f, s.flights.get? key = some f → 1 ≤ f.callers)
    (h : s'.flights = (s.join key).2.flights) : (s'.leave key).flights = s.flights := by
  have hget : s'.flights.get? key = (s.join key).2.flights.get? key :=
    congrArg (Entries.get? · key) h
  unfold leave
  cases hopen : s.flights.get? key with
  | none =>
    have hflights : s'.flights = s.flights.set key ⟨s.freshLock, 1⟩ := by
      rw [h]
      unfold join
      rw [hopen]
    rw [get?_join, if_pos rfl, hopen] at hget
    rw [hget]
    show s'.flights.erase key = s.flights
    rw [hflights]
    exact Entries.erase_set_of_get? hopen _
  | some f =>
    have hflights : s'.flights = s.flights.set key { f with callers := f.callers + 1 } := by
      rw [h]
      unfold join
      rw [hopen]
    have hcallers := hopened f hopen
    rw [get?_join, if_pos rfl, hopen] at hget
    rw [hget]
    dsimp only [Option.elim_some]
    rw [if_neg (by omega)]
    show s'.flights.set key { f with callers := f.callers + 1 - 1 } = s.flights
    rw [hflights]
    exact Entries.set_set_of_get? hopen _

variable [Backend β] {busy : String → Prop} {s : Store β ν} {key : String} {codec : Codec ν}
  {compute : Store β ν → (Result ε ν × ι) × Store β ν}

/-- What producing a value leaves alone: all that its computation does, but for the key itself. If
it fails, the key too. -/
theorem kept_produce
    (hcompute : ∀ s', s'.flights = s.flights →
      Kept busy s' (compute s').2 ∧ (compute s').2.flights = s'.flights) :
    (s.produce key codec compute).2.flights = s.flights ∧
      Kept (fun k => busy k ∧ k ≠ key) s (s.produce key codec compute).2 ∧
      (1 ≤ s.memo.capacity → ∀ e, (s.produce key codec compute).1.1 = .error e →
        Kept busy s (s.produce key codec compute).2) := by
  have hidle : ¬ (busy key ∧ key ≠ key) := fun h => h.2 rfl
  have hweak {s' : Store β ν} (h : Kept busy s s') : Kept (fun k => busy k ∧ k ≠ key) s s' :=
    h.mono fun _ hk => hk.1
  -- a value that is there needs memoizing only, which cannot fail
  have hfinish (s₁ : Store β ν) (v : ν) (hflights : s₁.flights = s.flights)
      (hkept : Kept (fun k => busy k ∧ k ≠ key) s s₁) :
      (s₁.memoize (ε := ε) key v).2.flights = s.flights ∧
        Kept (fun k => busy k ∧ k ≠ key) s (s₁.memoize (ε := ε) key v).2 ∧
        (1 ≤ s.memo.capacity → ∀ e, (s₁.memoize (ε := ε) key v).1 ≠ .error e) := by
    obtain ⟨m, hstore, -⟩ := s₁.memoize_store (ε := ε) key v
    refine ⟨?_, hkept.trans (.memoize s₁ hidle v), fun hroom e he => ?_⟩
    · rw [hstore]
      exact hflights
    · obtain ⟨-, -, -, hok, -⟩ := memoize_eq (ε := ε) (hkept.capacity.symm ▸ hroom) key v
      rw [hok] at he
      cases he
  have hopen : (s.fetch key codec).2.flights = s.flights := s.flights_fetch key codec
  have hfetch : Kept busy s (s.fetch key codec).2 := .fetch s key codec
  cases hfound : (s.lookUp key).1 with
  | some v =>
    rw [produce_of_some hfound]
    exact ⟨rfl, .lookUp s key, fun _ e he => nomatch he⟩
  | none =>
    cases hstored : (s.fetch key codec).1 with
    | some v =>
      rw [produce_of_fetch hfound hstored]
      obtain ⟨hflights, hkept, hok⟩ := hfinish _ v hopen (hweak hfetch)
      exact ⟨hflights, hkept, fun hroom e he => absurd he (hok hroom e)⟩
    | none =>
      obtain ⟨hcomputed, hsame⟩ := hcompute (s.fetch key codec).2 hopen
      cases hresult : (compute (s.fetch key codec).2).1.1 with
      | error e =>
        rw [produce_of_error hfound hstored hresult]
        have hkept := hfetch.trans hcomputed
        exact ⟨hsame.trans hopen, hweak hkept, fun _ _ _ => hkept⟩
      | ok v =>
        rw [produce_of_ok hfound hstored hresult]
        have hpublish := (hweak (hfetch.trans hcomputed)).trans (.publish _ hidle codec v)
        have hflights : ((compute (s.fetch key codec).2).2.publish key codec v).flights =
            s.flights := by
          rw [flights_publish, hsame, hopen]
        obtain ⟨hflights, hkept, hok⟩ := hfinish _ v hflights hpublish
        exact ⟨hflights, hkept, fun hroom e he => absurd he (hok hroom e)⟩

theorem kept_remember (hopened : ∀ f, s.flights.get? key = some f → 1 ≤ f.callers)
    (hcompute : ∀ s', s'.flights = (s.join key).2.flights →
      Kept busy s' (compute s').2 ∧ (compute s').2.flights = s'.flights) :
    (s.remember key codec compute).2.flights = s.flights ∧
      Kept (fun k => busy k ∧ k ≠ key) s (s.remember key codec compute).2 := by
  cases hfound : (s.lookUp key).1 with
  | some v =>
    rw [remember_of_some hfound]
    exact ⟨rfl, .lookUp s key⟩
  | none =>
    rw [remember_of_none hfound]
    obtain ⟨hflights, hkept, -⟩ :
        ((s.join key).2.produce key codec compute).2.flights = _ ∧ Kept _ _ _ ∧ _ :=
      kept_produce hcompute
    have hjoin : Kept (fun k => busy k ∧ k ≠ key) s (s.join key).2 := .join s key
    exact ⟨flights_leave_of_join hopened hflights, (hjoin.trans hkept).trans (.leave _ key)⟩

end Store

namespace Task

/-- The task remembers nothing under busy keys, nor under the keys it is computing. -/
def Free : {α : Type} → (String → Prop) → Task ε ν α → Prop
  | _, _, .pure _ => True
  | _, _, .fail _ => True
  | _, busy, .note _ next => next.Free busy
  | _, busy, .remember key _ body next =>
    ¬ busy key ∧ body.Free (fun k => k = key ∨ busy k) ∧ ∀ r, (next r).Free busy

/-- A task leaves busy keys alone and the flights as they were. -/
theorem Free.run [Backend β] {busy : String → Prop} {t : Task ε ν α} (h : t.Free busy)
    {s : Store β ν} (hbusy : ∀ key f, s.flights.get? key = some f → busy key) :
    Kept busy s (t.run s).2 ∧ (t.run s).2.flights = s.flights := by
  induction t generalizing busy s with
  | pure a => exact ⟨.refl s, rfl⟩
  | fail e => exact ⟨.refl s, rfl⟩
  | note text next ih =>
    have hwarn : Kept busy s (s.warn (.note text)) := .of_eq rfl rfl (Nat.le_refl _)
    obtain ⟨hkept, hflights⟩ := ih h (s := s.warn (.note text)) hbusy
    exact ⟨hwarn.trans hkept, hflights⟩
  | remember key codec body next ihbody ihnext =>
    obtain ⟨hkey, hbody, hnext⟩ := h
    let compute (s : Store β ν) : (Result ε ν × Unit) × Store β ν :=
      (((body.run s).1, ()), (body.run s).2)
    have hcompute (s' : Store β ν) (hs' : s'.flights = (s.join key).2.flights) :
        Kept (fun k => k = key ∨ busy k) s' (compute s').2 ∧
          (compute s').2.flights = s'.flights := by
      apply ihbody hbody
      exact Store.busy_join hbusy hs'
    obtain ⟨hflights, hkept⟩ :
        (s.remember key codec compute).2.flights = s.flights ∧ Kept _ s _ :=
      Store.kept_remember (fun f hf => absurd (hbusy key f hf) hkey) hcompute
    have hbusy' : ∀ k f, (s.remember key codec compute).2.flights.get? k = some f → busy k := by
      rw [hflights]
      exact hbusy
    obtain ⟨hrest, hsame⟩ := ihnext (s.remember key codec compute).1.1 (hnext _) hbusy'
    refine ⟨Kept.trans (hkept.mono fun k hk => ⟨.inr hk, ?_⟩) hrest, hsame.trans hflights⟩
    rintro rfl
    exact hkey hk

end Task
end FieldPlan.Cache
