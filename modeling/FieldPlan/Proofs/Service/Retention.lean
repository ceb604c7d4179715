import FieldPlan.Proofs.Service.Sharing
/-!
# What a fleet retains

A key is held as long as a process or the backend has something under it. A call adds only keys that
its task does not leave alone, and nothing else that happens to a fleet adds any, except for damage
to the backend. So however many requests that need the same are made, by whatever processes, they
leave one plan behind.
-/
namespace FieldPlan

open Cache

namespace Fleet

/-- A process has a value for the key in its memo, or the backend has a text for it. -/
def Holds (f : Fleet) (key : String) : Prop :=
  (∃ i, ∃ e ∈ (f.processes i).memo.entries, e.key = key) ∨
    ∃ b text, f.backend = some b ∧ b.texts.get? key = some text

def Idle (f : Fleet) : Prop := ∀ i, (f.processes i).flights = []

variable {s : Service} {f : Fleet} {busy : String → Prop} {key : String}

theorem start_idle (s : Service) (backend : Option SharedStore) : (start s backend).Idle :=
  fun _ => rfl

theorem Idle.put (h : f.Idle) (i : Nat) {t : Store SharedStore Metadata} (ht : t.flights = []) :
    (f.put i t).Idle := by
  intro j
  unfold Fleet.put
  dsimp only
  split
  · exact ht
  · exact h j

theorem Holds.of_put {i : Nat} {t : Store SharedStore Metadata} (hkept : Kept busy (f.view i) t)
    (hkey : busy key) (h : (f.put i t).Holds key) : f.Holds key := by
  rcases h with ⟨j, e, he, rfl⟩ | ⟨b', text, hb', htext⟩
  · refine .inl ?_
    unfold Fleet.put at he
    dsimp only at he
    split at he
    · exact ⟨i, e, hkept.entries e he hkey, rfl⟩
    · exact ⟨j, e, he, rfl⟩
  · refine .inr ?_
    have hbackend : Option.Rel (Touched fun key => ¬ busy key) f.backend t.backend := hkept.backend
    rw [show t.backend = some b' from hb'] at hbackend
    cases hb : f.backend with
    | none =>
      rw [hb] at hbackend
      cases hbackend
    | some b =>
      rw [hb] at hbackend
      cases hbackend with
      | some htouched =>
        exact ⟨b, text, rfl, (htouched.texts_get? fun hnot => hnot hkey).symm.trans htext⟩

theorem Holds.of_texts {change : SharedStore → SharedStore}
    (hchange : ∀ b text, (change b).texts.get? key = some text → b.texts.get? key = some text)
    (h : ({ f with backend := f.backend.map change } : Fleet).Holds key) : f.Holds key := by
  rcases h with hmemo | ⟨b', text, hb', htext⟩
  · exact .inl hmemo
  · obtain ⟨b, hb, rfl⟩ := Option.map_eq_some_iff.mp hb'
    exact .inr ⟨b, text, hb, hchange b text htext⟩

variable [Room]

/-- The key is put into the backend from outside. -/
def IsPlanted (events : List Event) (key : String) : Prop :=
  ∃ text h, Event.damage key text h ∈ events

theorem step_leaves (busy : String → Prop) (hidle : f.Idle) (e : Event)
    (hcall : ∀ i c, e = .call i c → (c.task s).Leaves busy (f.view i)) :
    (f.step s e).2.Idle ∧
      ∀ key, busy key → (f.step s e).2.Holds key → f.Holds key ∨ IsPlanted [e] key := by
  cases e with
  | call i c =>
    obtain ⟨hkept, hflights⟩ := hcall i c rfl
    exact ⟨hidle.put i hflights, fun key hkey h => .inl (h.of_put hkept hkey)⟩
  | pass seconds => exact ⟨hidle, fun key _ h => .inl h⟩
  | evict i k =>
    have hkept : Kept busy (f.view i)
        { f.view i with memo := { (f.view i).memo with entries := (f.view i).memo.without k } } :=
      { Kept.refl (f.view i) with
        bounded := Nat.le_trans (List.length_filter_le _ _)
        entries := fun e he _ => (List.mem_filter.mp he).1 }
    exact ⟨hidle.put i (hidle i), fun key hkey h => .inl (h.of_put hkept hkey)⟩
  | fail reading writing =>
    refine ⟨hidle, fun key _ h => .inl (h.of_texts fun b text htext => ?_)⟩
    rwa [SharedStore.setFailures] at htext
  | lose k =>
    refine ⟨hidle, fun key _ h => .inl (h.of_texts fun b text htext => ?_)⟩
    rw [SharedStore.delete, Entries.get?_erase] at htext
    split at htext
    · cases htext
    · exact htext
  | damage k text hunreadable =>
    refine ⟨hidle, fun key _ h => ?_⟩
    by_cases hkey : key = k
    · subst hkey
      exact .inr ⟨text, hunreadable, List.mem_singleton.mpr rfl⟩
    · refine .inl (h.of_texts fun b t htext => ?_)
      rwa [SharedStore.put, Entries.get?_set, if_neg hkey] at htext
  | restart i =>
    have hkept : Kept busy (f.view i) (f.view i).restart :=
      { Kept.refl (f.view i) with
        bounded := fun _ => Nat.zero_le _
        entries := fun e he _ => absurd he List.not_mem_nil }
    exact ⟨hidle.put i rfl, fun key hkey h => .inl (h.of_put hkept hkey)⟩

/-- A whole run adds no key that all of its calls leave alone. -/
theorem run_leaves (busy : String → Prop) {qs : List Question}
    (hfaithful : f.Faithful (s.legend qs)) (hidle : f.Idle) (events : List Event)
    (hcalls : ∀ c ∈ events.filterMap Event.call?, (c.task s).Follows (s.legend qs) ∧
      ∀ store : Store SharedStore Metadata, store.Faithful (s.legend qs) → store.flights = [] →
        (c.task s).Leaves busy store) :
    (run s events f).2.Faithful (s.legend qs) ∧ (run s events f).2.Idle ∧
      ∀ key, busy key → (run s events f).2.Holds key → f.Holds key ∨ IsPlanted events key := by
  induction events generalizing f with
  | nil => exact ⟨hfaithful, hidle, fun key _ h => .inl h⟩
  | cons e rest ih =>
    have hfirst : ∀ c, e.call? = some c → c ∈ (e :: rest).filterMap Event.call? := fun c hc =>
      List.mem_filterMap.mpr ⟨e, List.mem_cons_self, hc⟩
    obtain ⟨-, hfaithful'⟩ := step_faithful hfaithful e fun c hc => (hcalls c (hfirst c hc)).1
    obtain ⟨hidle', hstep⟩ := step_leaves busy hidle e fun i c he =>
      (hcalls c (hfirst c (he ▸ rfl))).2 _ (hfaithful i) (hidle i)
    obtain ⟨hlast, hended, hrest⟩ := ih hfaithful' hidle' fun c hc => by
      obtain ⟨e', he', hc⟩ := List.mem_filterMap.mp hc
      exact hcalls c (List.mem_filterMap.mpr ⟨e', List.mem_cons_of_mem e he', hc⟩)
    refine ⟨hlast, hended, fun key hkey h => ?_⟩
    rcases hrest key hkey h with h | ⟨text, hunreadable, hmem⟩
    · rcases hstep key hkey h with h | ⟨text, hunreadable, hmem⟩
      · exact .inl h
      · exact .inr ⟨text, hunreadable, List.mem_cons.mpr (.inl (List.mem_singleton.mp hmem))⟩
    · exact .inr ⟨text, hunreadable, List.mem_cons_of_mem e hmem⟩

end Fleet

def Event.questions [Room] (s : Service) (events : List Event) : List Question :=
  (events.filterMap Event.call?).flatMap fun c => c.questions s

theorem Event.distinguishes_questions [Room] {s : Service} {events : List Event}
    (h : ∀ p ∈ Event.payloads s events, ∀ q ∈ Event.payloads s events,
      signature p = signature q → p = q) : s.Distinguishes (Event.questions s events) := by
  have hmem {q : Question} (hq : q ∈ Event.questions s events) :
      q.payload s ∈ Event.payloads s events := by
    obtain ⟨c, hc, hq⟩ := List.mem_flatMap.mp hq
    exact List.mem_flatMap.mpr ⟨c, hc, List.mem_map_of_mem hq⟩
  refine ⟨fun q hq => ?_, fun p hp q hq => h _ (hmem hp) _ (hmem hq)⟩
  obtain ⟨c, -, hq⟩ := List.mem_flatMap.mp hq
  exact Call.registered_of_mem_questions hq

theorem Fleet.holds_of_plansLike [Room] {s : Service} {r : ResourceSchema} {fields : List String}
    {nested : Entries (Option (List String))} (hkeys : nested.keys.Nodup)
    {backend : Option SharedStore} (hempty : ∀ b, backend = some b → b.texts = [])
    {prior events : List Event}
    (hsignature : ∀ p ∈ Event.payloads s (prior ++ events),
      ∀ q ∈ Event.payloads s (prior ++ events), signature p = signature q → p = q)
    (hlike : ∀ c ∈ events.filterMap Event.call?, c.PlansLike s r fields nested) {key : String}
    (hkey : s.IsPlanKey key)
    (h : (run s events (run s prior (start s backend)).2).2.Holds key) :
    (run s prior (start s backend)).2.Holds key ∨ key = s.requestKey r fields nested ∨
      IsPlanted events key := by
  have hqs := Event.distinguishes_questions hsignature
  have hisIn {c : Call} (hc : c ∈ (prior ++ events).filterMap Event.call?) :
      ∀ q ∈ c.questions s, q.IsIn s (s.legend (Event.questions s (prior ++ events))) :=
    fun q hq => hqs.isIn (List.mem_flatMap.mpr ⟨c, hc, hq⟩)
  have hprior {c : Call} (hc : c ∈ prior.filterMap Event.call?) :
      c ∈ (prior ++ events).filterMap Event.call? := by
    rw [List.filterMap_append]
    exact List.mem_append_left _ hc
  have hevents {c : Call} (hc : c ∈ events.filterMap Event.call?) :
      c ∈ (prior ++ events).filterMap Event.call? := by
    rw [List.filterMap_append]
    exact List.mem_append_right _ hc
  -- of the calls before it only matters that they end
  obtain ⟨hfaithful, hidle, -⟩ := run_leaves (fun _ => False) (start_faithful s _ hempty)
    (start_idle s backend) prior fun c hc =>
      ⟨Call.task_follows (hisIn (hprior hc)), fun store _ hidle =>
        Task.Free.leaves ((s.below_call c).free.mono fun _ h => h.elim) hidle⟩
  obtain ⟨-, -, hheld⟩ := run_leaves (s.OtherPlan (s.requestKey r fields nested))
    hfaithful hidle events fun c hc =>
      ⟨Call.task_follows (hisIn (hevents hc)), fun store hstore hidle =>
        Call.leaves_of_plansLike (s.legend_lossless _) (hlike c hc) hkeys (hisIn (hevents hc))
          hstore hidle⟩
  by_cases hplanned : key = s.requestKey r fields nested
  · exact .inr (.inl hplanned)
  · exact (hheld key ⟨hkey, hplanned⟩ h).imp_right .inr

/-- Resolve calls that name the same ask for one key. Compile calls that need the same ask for the
key of one plan, and slight differences do not change what is needed. So, as long as no two payloads
share a signature, any number of such calls, made by any processes in whatever state, leave at most
one plan behind that was not there. -/
theorem Service.requests_share_entries [Room] (s : Service) {ref ref' : ResourceRef} {r : ResourceSchema}
    (hr : s.catalog.schemaOf ref = .ok r) (hr' : s.catalog.schemaOf ref' = .ok r) :
    (∀ requested requested' excluded excluded',
      r.SameRequest s.settings.order requested requested' →
      (∀ n, r.declares n → (n ∈ excluded ↔ n ∈ excluded')) →
      ((Call.resolve ref requested excluded).task s).asked =
          [s.resolutionKey r requested excluded] ∧
        ((Call.resolve ref' requested' excluded').task s).asked =
          [s.resolutionKey r requested excluded]) ∧
    (∀ fields nested fields' nested', nested.keys.Nodup → nested'.keys.Nodup →
      s.SamePlan r fields nested fields' nested' → ∀ key, s.IsPlanKey key →
        (key ∈ ((Call.compile ref fields nested).task s).asked ↔
          key = s.requestKey r fields nested) ∧
        (key ∈ ((Call.compile ref' fields' nested').task s).asked ↔
          key = s.requestKey r fields nested)) ∧
    (∀ fields nested fields' nested', s.SlightlyDifferent r fields nested fields' nested' →
      s.SamePlan r fields nested fields' nested') ∧
    ∀ (backend : Option SharedStore) (prior events : List Event) (fields : List String)
      (nested : Entries (Option (List String))),
      (∀ b, backend = some b → b.texts = []) → nested.keys.Nodup →
      (∀ p ∈ Event.payloads s (prior ++ events), ∀ q ∈ Event.payloads s (prior ++ events),
        signature p = signature q → p = q) →
      (∀ c ∈ events.filterMap Event.call?, c.PlansLike s r fields nested) →
      let before := (Fleet.run s prior (Fleet.start s backend)).2
      ∀ key, s.IsPlanKey key → (Fleet.run s events before).2.Holds key →
        before.Holds key ∨ key = s.requestKey r fields nested ∨ Fleet.IsPlanted events key := by
  refine ⟨fun requested requested' excluded excluded' hsame hexcluded => ?_,
    fun fields nested fields' nested' hkeys hkeys' hsame key hkey => ?_,
    fun fields nested fields' nested' h => h.samePlan, ?_⟩
  · refine ⟨Call.asked_resolve hr requested excluded, ?_⟩
    rw [Call.asked_resolve hr', resolutionKey_congr hsame hexcluded]
  · refine ⟨Call.mem_asked_compile hr fields nested hkey, ?_⟩
    rw [Call.mem_asked_compile hr' fields' nested' hkey, hsame.requestKey_eq hkeys hkeys']
  · intro backend prior events fields nested hempty hkeys hsignature hlike before key hkey h
    exact Fleet.holds_of_plansLike hkeys hempty hsignature hlike hkey h

namespace Posts

attribute [local instance] Room.usual

/-- Two processes are asked for the same plan, the second one with an unknown name, a repetition and
a request for a type that is not registered. -/
def requests : List Event := [
  .call 0 (.compile (.named "post") ["author", "id"] []),
  .call 1 (.compile (.named "post") ["id", "ghost", "author", "id"] [("spirit", some ["id"])])]

private theorem slightlyDifferent : service.SlightlyDifferent post ["author", "id"] []
    ["id", "ghost", "author", "id"] [("spirit", some ["id"])] where
  fields := by
    intro n hn
    have hghost : n ≠ "ghost" := by
      rintro rfl
      exact absurd hn (by decide)
    simp only [List.mem_cons, List.not_mem_nil, or_false, hghost, false_or]
    grind
  nested := by
    intro type child _ hchild
    have htype : type ≠ "spirit" := by
      rintro rfl
      cases hchild
    rw [Entries.get?_cons, if_neg htype]
    trivial

private theorem mem_payloads_requests {p : Json} (h : p ∈ Event.payloads service requests) :
    p = resolution ∨ p = plan := by
  have hfields (r : ResourceSchema) : (Question.fields r none []).payload service = resolution := by
    rw [Question.payload, ResourceSchema.knownExclusions_nil]
    rfl
  have hplan (r : ResourceSchema) : (Question.plan r ["author", "id"] []).payload service = plan :=
    rfl
  have hplanned : Service.plannedFields post ["id", "ghost", "author", "id"] = ["author", "id"] :=
    (Service.plannedFields_congr slightlyDifferent.fields).symm.trans plannedFields_post
  have hreach : "spirit" ∉ service.catalog.reachable post.type := fun h =>
    absurd (Catalog.mem_types_of_mem_reachable h) (by decide)
  have hchosen : service.chosenNested post.type [("spirit", some ["id"])] = [] := by
    simp [Service.chosenNested, hreach]
  have hcall (fields : List String) (nested : Entries (Option (List String))) :
      (Call.compile (.named "post") fields nested).questions service =
        service.compileQuestions post fields nested := rfl
  have hfirst : service.compileQuestions post ["author", "id"] [] =
      [.fields post none [], .fields user none [], .plan post ["author", "id"] []] := by
    rw [Service.compileQuestions, plannedFields_post]
    simp [service, Catalog.types, Registry.types, Catalog.find?, Registry.find?, post, user,
      Service.chosenNested, Entries.sorted]
  have hsecond : service.compileQuestions post ["id", "ghost", "author", "id"]
      [("spirit", some ["id"])] =
      [.fields post none [], .fields user none [], .plan post ["author", "id"] []] := by
    rw [Service.compileQuestions, hplanned, hchosen]
    simp [service, Catalog.types, Registry.types, Catalog.find?, Registry.find?, post, user,
      Entries.sorted]
  simp only [Event.payloads, requests, Event.call?, List.filterMap_cons, List.filterMap_nil,
    List.flatMap_cons, List.flatMap_nil, hcall, hfirst, hsecond, List.map_cons, List.map_nil,
    hfields, hplan, List.mem_append, List.mem_cons, List.not_mem_nil, or_false] at h
  grind

/-- Both leave the same plan behind, and no other. -/
theorem requests_share_a_plan :
    service.catalog.schemaOf (.named "post") = .ok post ∧
      service.SlightlyDifferent post ["author", "id"] []
        ["id", "ghost", "author", "id"] [("spirit", some ["id"])] ∧
      ∀ key, service.IsPlanKey key →
        (Fleet.run service requests
          (Fleet.start service (some (SharedStore.ofTexts [] false false)))).2.Holds key →
        key = service.requestKey post ["author", "id"] [] := by
  have hpost : service.catalog.schemaOf (.named "post") = .ok post := rfl
  refine ⟨hpost, slightlyDifferent, fun key hkey h => ?_⟩
  obtain ⟨-, -, hsame, hrun⟩ := service.requests_share_entries hpost hpost
  have hempty : ∀ b, some (SharedStore.ofTexts [] false false) = some b → b.texts = [] := by
    rintro _ ⟨⟩
    rfl
  have hsignature : ∀ p ∈ Event.payloads service ([] ++ requests),
      ∀ q ∈ Event.payloads service ([] ++ requests), signature p = signature q → p = q := by
    intro p hp q hq h
    rcases mem_payloads_requests hp with rfl | rfl
    · rcases mem_payloads_requests hq with rfl | rfl
      · rfl
      · exact absurd h signature_ne
    · rcases mem_payloads_requests hq with rfl | rfl
      · exact absurd h.symm signature_ne
      · rfl
  have hlike : ∀ c ∈ requests.filterMap Event.call?,
      c.PlansLike service post ["author", "id"] [] := by
    intro c hc
    simp only [requests, Event.call?, List.filterMap_cons, List.filterMap_nil, List.mem_cons,
      List.not_mem_nil, or_false] at hc
    rcases hc with rfl | rfl
    · exact ⟨hpost, List.nodup_nil, fun n _ => Iff.rfl, fun type child _ _ n => Iff.rfl⟩
    · exact ⟨hpost, List.pairwise_singleton _ _, hsame _ _ _ _ slightlyDifferent⟩
  rcases hrun _ [] requests _ [] hempty List.nodup_nil hsignature hlike key hkey h with
    h | h | ⟨text, _, h⟩
  · rcases h with ⟨i, e, he, -⟩ | ⟨b, _, hb, htext⟩
    · cases he
    · rw [hempty b hb] at htext
      cases htext
  · exact h
  · simp [requests] at h

end Posts
end FieldPlan
