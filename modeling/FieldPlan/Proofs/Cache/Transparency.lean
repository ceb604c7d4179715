import FieldPlan.Cache.Task
/-!
# Transparency of the cache

A legend says which codec a key is used with and what computing the key anew gives. A store is
faithful to a legend when nothing in its memo or its backend can be read as any other value. Tasks
that use their keys as the legend says keep a store faithful, and they answer what they would
answer without a store.
-/
namespace FieldPlan.Cache

variable {ε ν : Type}

/-- The codec of a key, and the outcome of the computation that is remembered under it. -/
abbrev Legend (ε ν : Type) := String → Option (Codec ν × Result ε ν)

/-- What the codecs of a legend write is read back as the value that was written. -/
def Legend.Lossless (L : Legend ε ν) : Prop :=
  ∀ key codec v text, L key = some (codec, .ok v) → codec.encode v = .ok text →
    codec.decode text = some v

/-- The task remembers under each key what the legend says of it. -/
def Task.Follows (L : Legend ε ν) : {α : Type} → Task ε ν α → Prop
  | _, .pure _ => True
  | _, .fail _ => True
  | _, .note _ next => next.Follows L
  | _, .remember key codec body next =>
    L key = some (codec, body.eval) ∧ body.Follows L ∧ (next body.eval).Follows L

namespace Task

theorem follows_bind {L : Legend ε ν} {α γ : Type} (t : Task ε ν α) (f : α → Task ε ν γ)
    (ht : t.Follows L) (hf : ∀ a, t.eval = .ok a → (f a).Follows L) : (t.bind f).Follows L := by
  induction t with
  | pure a => exact hf a rfl
  | fail e => trivial
  | note text next ih => exact ih f ht hf
  | remember key codec body next _ ih => exact ⟨ht.1, ht.2.1, ih _ f ht.2.2 hf⟩

theorem follows_ofExcept {L : Legend ε ν} {α : Type} (r : Except ε α) :
    (ofExcept r : Task ε ν α).Follows L := by
  cases r <;> trivial

theorem follows_ofResult {L : Legend ε ν} {α : Type} (r : Result ε α) :
    (ofResult r : Task ε ν α).Follows L := by
  cases r <;> trivial

theorem follows_cached {L : Legend ε ν} {key : String} {codec : Codec ν} {body : Task ε ν ν}
    (hkey : L key = some (codec, body.eval)) (hbody : body.Follows L) :
    (cached key codec body).Follows L :=
  ⟨hkey, hbody, follows_ofResult _⟩

theorem eval_ofResult {α : Type} (r : Result ε α) : (ofResult r : Task ε ν α).eval = r := by
  cases r <;> rfl

theorem eval_cached (key : String) (codec : Codec ν) (body : Task ε ν ν) :
    (cached key codec body).eval = body.eval :=
  eval_ofResult body.eval

end Task

namespace SharedStore

theorem texts_of_get {b : SharedStore} {key text : String}
    (h : (b.get key).1 = .ok (some text)) : b.texts.get? key = some text := by
  unfold get at h
  by_cases hfails : b.failsRead = true
  · rw [if_pos hfails] at h
    cases h
  · rw [if_neg hfails] at h
    exact Except.ok.inj h

theorem texts_set_cases (b : SharedStore) (key text : String) (lifetime : Option Int) :
    (b.set key text lifetime).2.texts = b.texts ∨
      (b.set key text lifetime).2.texts = b.texts.set key text := by
  unfold set
  by_cases hfails : b.failsWrite = true
  · exact .inl (by simp [hfails])
  · exact .inr (by simp [hfails])

end SharedStore

namespace Memo

theorem mem_get?_entries {m : Memo ν} {now : Int} {key : String} {e : MemoEntry ν}
    (h : e ∈ (m.get? now key).2.entries) : e ∈ m.entries := by
  unfold get? at h
  split at h
  · next found hfound =>
    rcases List.mem_append.mp h with h | h
    · exact (List.mem_filter.mp h).1
    · rw [List.mem_singleton.mp h]
      exact (find?_key hfound).2.2
  · exact h

theorem get?_mem {m : Memo ν} {now : Int} {key : String} {v : ν}
    (h : (m.get? now key).1 = some v) : ∃ e ∈ m.entries, e.key = key ∧ e.value = v := by
  unfold get? at h
  split at h
  · next found hfound =>
    have hf := find?_key hfound
    exact ⟨found, hf.2.2, hf.1, Option.some.inj h⟩
  · cases h

theorem get?_of_live {m : Memo ν} {now : Int} {key : String}
    (h : ∃ e ∈ m.entries, e.key = key ∧ m.isLive now e = true) :
    ∃ e ∈ m.entries, e.key = key ∧ (m.get? now key).1 = some e.value := by
  obtain ⟨e, he, hkey, hlive⟩ := h
  have hfound : (m.find? now key).isSome := by
    refine List.find?_isSome.mpr ⟨e, he, ?_⟩
    simp [hkey, hlive]
  obtain ⟨found, hfind⟩ := Option.isSome_iff_exists.mp hfound
  refine ⟨found, (find?_key hfind).2.2, (find?_key hfind).1, ?_⟩
  simp [get?, hfind]

@[simp] theorem get?_capacity (m : Memo ν) (now : Int) (key : String) :
    (m.get? now key).2.capacity = m.capacity := by
  unfold get?
  split <;> rfl

theorem mem_insert?_entries {m m' : Memo ν} {now : Int} {key : String} {value : ν}
    (h : m.insert? now key value = some m') {e : MemoEntry ν} (he : e ∈ m'.entries) :
    e ∈ m.entries ∨ e = ⟨key, value, now⟩ := by
  unfold insert? at h
  split at h
  · cases h
  · obtain rfl := Option.some.inj h
    rcases List.mem_append.mp he with he | he
    · have hkept := (List.mem_filter.mp (List.mem_of_mem_drop he)).1
      exact .inl (List.mem_filter.mp hkept).1
    · exact .inr (List.mem_singleton.mp he)

theorem insert?_capacity {m m' : Memo ν} {now : Int} {key : String} {value : ν}
    (h : m.insert? now key value = some m') : m'.capacity = m.capacity := by
  unfold insert? at h
  split at h
  · cases h
  · obtain rfl := Option.some.inj h
    rfl

theorem insert?_isSome {m : Memo ν} (now : Int) (key : String) (value : ν)
    (h : 1 ≤ m.capacity) : ∃ m', m.insert? now key value = some m' ∧ m'.capacity = m.capacity := by
  have hc : m.capacity ≠ 0 := by omega
  simp only [insert?, hc, if_false]
  exact ⟨_, rfl, rfl⟩

end Memo

namespace Store

/-- Neither the memo nor the backend holds anything that a key's use could take for a value other
than the one that computing the key gives; and the memo has room. -/
structure Faithful (L : Legend ε ν) (s : Store SharedStore ν) : Prop where
  memo : ∀ e ∈ s.memo.entries, ∀ codec r, L e.key = some (codec, r) → r = .ok e.value
  backend : ∀ b, s.backend = some b → ∀ key text, b.texts.get? key = some text →
    ∀ codec r v, L key = some (codec, r) → codec.decode text = some v → r = .ok v
  room : 1 ≤ s.memo.capacity

variable {L : Legend ε ν} {s : Store SharedStore ν}

theorem Faithful.of_eq {s' : Store SharedStore ν} (h : s.Faithful L) (hm : s'.memo = s.memo)
    (hb : s'.backend = s.backend) : s'.Faithful L :=
  ⟨hm ▸ h.memo, hb ▸ h.backend, hm ▸ h.room⟩

theorem Faithful.warn (h : s.Faithful L) (w : Warning) : (s.warn w).Faithful L :=
  h.of_eq rfl rfl

theorem Faithful.join (h : s.Faithful L) (key : String) : (s.join key).2.Faithful L := by
  unfold Store.join
  split <;> exact h.of_eq rfl rfl

theorem Faithful.leave (h : s.Faithful L) (key : String) : (s.leave key).Faithful L := by
  unfold Store.leave
  split
  · split <;> exact h.of_eq rfl rfl
  · exact h

theorem Faithful.lookUp (h : s.Faithful L) (key : String) : (s.lookUp key).2.Faithful L where
  memo e he := h.memo e (Memo.mem_get?_entries he)
  backend := h.backend
  room := (Memo.get?_capacity s.memo s.now key).symm ▸ h.room

theorem Faithful.lookUp_eq (h : s.Faithful L) {key : String} {codec : Codec ν} {r : Result ε ν}
    (hkey : L key = some (codec, r)) {v : ν} (hv : (s.lookUp key).1 = some v) : r = .ok v := by
  obtain ⟨e, he, rfl, rfl⟩ := Memo.get?_mem hv
  exact h.memo e he codec r hkey

theorem Faithful.of_backend (h : s.Faithful L) {b : SharedStore} (hb : s.backend = some b)
    (b' : SharedStore)
    (hsound : ∀ key text, b'.texts.get? key = some text → b.texts.get? key = some text ∨
      ∀ codec r v, L key = some (codec, r) → codec.decode text = some v → r = .ok v) :
    ({ s with backend := some b' } : Store SharedStore ν).Faithful L := by
  refine ⟨h.memo, ?_, h.room⟩
  rintro _ ⟨⟩ key text htext
  rcases hsound key text htext with hold | hnew
  · exact h.backend b hb key text hold
  · exact hnew

theorem Faithful.fetch (h : s.Faithful L) {key : String} {codec : Codec ν} {r : Result ε ν}
    (hkey : L key = some (codec, r)) :
    (s.fetch key codec).2.Faithful L ∧ ∀ v, (s.fetch key codec).1 = some v → r = .ok v := by
  unfold Store.fetch
  cases hb : s.backend with
  | none => exact ⟨h, fun v hv => nomatch hv⟩
  | some b =>
    have hread := h.of_backend hb (b.get key).2 (fun k text ht => .inl ht)
    have hanswer : ∀ text, (b.get key).1 = .ok (some text) →
        b.texts.get? key = some text := fun text ht => SharedStore.texts_of_get ht
    simp only [Backend.get]
    rcases hget : b.get key with ⟨cause | _ | text, b'⟩ <;> rw [hget] at hread hanswer
    · exact ⟨hread.warn _, fun v hv => nomatch hv⟩
    · exact ⟨hread, fun v hv => nomatch hv⟩
    · have htext := hanswer text rfl
      simp only
      cases hv : codec.decode text with
      | none => exact ⟨hread.warn _, fun v hv => nomatch hv⟩
      | some v =>
        refine ⟨hread, ?_⟩
        rintro _ ⟨⟩
        exact h.backend b hb key text htext codec r v hkey hv

theorem Faithful.publish (hL : L.Lossless) (h : s.Faithful L) {key : String} {codec : Codec ν}
    {v : ν} (hkey : L key = some (codec, .ok v)) : (s.publish key codec v).Faithful L := by
  unfold Store.publish
  cases hb : s.backend with
  | none => exact h
  | some b =>
    cases henc : codec.encode v with
    | error cause => exact h.warn _
    | ok text =>
      have hwritten := h.of_backend hb (b.set key text s.lifetime).2 (by
        intro k t ht
        rcases SharedStore.texts_set_cases b key text s.lifetime with hsame | hset
        · exact .inl (hsame ▸ ht)
        · by_cases hk : k = key
          · subst hk
            refine .inr fun codec' r w hlegend hdecode => ?_
            obtain ⟨rfl, rfl⟩ := Prod.mk.inj (Option.some.inj (hkey.symm.trans hlegend))
            have htext : text = t := by
              rw [hset, Entries.get?_set, if_pos rfl] at ht
              exact Option.some.inj ht
            rw [← htext, hL k codec v text hkey henc] at hdecode
            exact congrArg Except.ok (Option.some.inj hdecode)
          · rw [hset, Entries.get?_set, if_neg hk] at ht
            exact .inl ht)
      simp only [Backend.set]
      rcases hset : b.set key text s.lifetime with ⟨cause | _, b'⟩ <;> rw [hset] at hwritten
      · exact hwritten.warn _
      · exact hwritten

theorem Faithful.memoize (h : s.Faithful L) {key : String} {codec : Codec ν} {v : ν}
    (hkey : L key = some (codec, .ok v)) :
    (s.memoize (ε := ε) key v).1 = .ok v ∧ (s.memoize (ε := ε) key v).2.Faithful L := by
  obtain ⟨m, hm, hcap⟩ := Memo.insert?_isSome s.now key v h.room
  have hfaithful : ({ s with memo := m } : Store SharedStore ν).Faithful L := by
    refine ⟨?_, h.backend, hcap ▸ h.room⟩
    intro e he codec' r hr
    rcases Memo.mem_insert?_entries hm he with he | rfl
    · exact h.memo e he codec' r hr
    · exact (Prod.mk.inj (Option.some.inj (hr.symm.trans hkey))).2
  simp only [Store.memoize, hm]
  exact ⟨trivial, hfaithful⟩

theorem Faithful.produce {ι : Type} (hL : L.Lossless) (h : s.Faithful L) {key : String}
    {codec : Codec ν} {r : Result ε ν} (hkey : L key = some (codec, r))
    (compute : Store SharedStore ν → (Result ε ν × ι) × Store SharedStore ν)
    (hcompute : ∀ s, s.Faithful L → (compute s).1.1 = r ∧ (compute s).2.Faithful L) :
    (s.produce key codec compute).1.1 = r ∧ (s.produce key codec compute).2.Faithful L := by
  have hlookUp := h.lookUp key
  have hfound := fun v => h.lookUp_eq hkey (v := v)
  unfold Store.produce
  revert hlookUp hfound
  rcases s.lookUp key with ⟨_ | v, s₁⟩ <;> intro h₁ hv₁
  · have hfetch := h₁.fetch hkey
    revert hfetch
    simp only
    rcases s₁.fetch key codec with ⟨_ | v, s₂⟩ <;> rintro ⟨h₂, hv₂⟩
    · have hc := hcompute s₂ h₂
      revert hc
      simp only
      rcases compute s₂ with ⟨⟨e | v, report⟩, s₃⟩ <;> rintro ⟨hr, h₃⟩
      · exact ⟨hr, h₃⟩
      · have hval : L key = some (codec, .ok v) := by rw [hkey, ← hr]
        have hm := (h₃.publish hL hval).memoize hval
        exact ⟨hm.1.trans hr, hm.2⟩
    · have hr := hv₂ v rfl
      have hm := h₂.memoize (hr ▸ hkey : L key = some (codec, .ok v))
      exact ⟨hm.1.trans hr.symm, hm.2⟩
  · exact ⟨(hv₁ v rfl).symm, h₁⟩

theorem Faithful.remember {ι : Type} (hL : L.Lossless) (h : s.Faithful L) {key : String}
    {codec : Codec ν} {r : Result ε ν} (hkey : L key = some (codec, r))
    (compute : Store SharedStore ν → (Result ε ν × ι) × Store SharedStore ν)
    (hcompute : ∀ s, s.Faithful L → (compute s).1.1 = r ∧ (compute s).2.Faithful L) :
    (s.remember key codec compute).1.1 = r ∧ (s.remember key codec compute).2.Faithful L := by
  have hlookUp := h.lookUp key
  have hfound := fun v => h.lookUp_eq hkey (v := v)
  unfold Store.remember
  revert hlookUp hfound
  rcases s.lookUp key with ⟨_ | v, s₁⟩ <;> intro h₁ hv₁
  · have hp := (h₁.join key).produce hL hkey compute hcompute
    exact ⟨hp.1, hp.2.leave key⟩
  · exact ⟨(hv₁ v rfl).symm, h₁⟩

end Store

/-- A task against a faithful store answers what it answers without a store, and leaves the store
faithful. -/
theorem Task.run_eq_eval {L : Legend ε ν} (hL : L.Lossless) {α : Type} (t : Task ε ν α)
    (ht : t.Follows L) (s : Store SharedStore ν) (hs : s.Faithful L) :
    (t.run s).1 = t.eval ∧ (t.run s).2.Faithful L := by
  induction t generalizing s with
  | pure a => exact ⟨rfl, hs⟩
  | fail e => exact ⟨rfl, hs⟩
  | note text next ih => exact ih ht _ (hs.warn _)
  | remember key codec body next ihbody ihnext =>
    have hcall := hs.remember hL ht.1 (fun s => (((body.run s).1, ()), (body.run s).2))
      (fun s hs => ihbody ht.2.1 s hs)
    have hnext := ihnext _ ht.2.2 _ hcall.2
    simp only [Task.run, Task.eval]
    rw [hcall.1]
    exact hnext

end FieldPlan.Cache
