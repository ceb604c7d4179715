import FieldPlan.Proofs.Service.Questions
/-!
# Transparency of the service

Processes of one service share a backend. They are called in any order, while time passes, memos
lose entries, the backend fails and recovers, its texts get lost or damaged, and processes start
over. No call can tell: each is answered as by a new process without a backend.
-/
namespace FieldPlan

open Cache

inductive Call where
  | resolve (ref : ResourceRef) (requested : Option (List String)) (excluded : List String)
  | compile (ref : ResourceRef) (fields : List String) (nested : Entries (Option (List String)))
  | plan (ref : ResourceRef) (query : Option Query)

inductive Answer where
  | fields (names : List Json)
  | plan (p : LoadPlan)

namespace Service

def newStore (s : Service) (backend : Option SharedStore) : Store SharedStore Metadata :=
  Store.start backend s.settings.memoCapacity s.settings.storeLifetime
    (Settings.effectiveMemoLifetime s.settings.memoLifetime s.settings.storeLifetime)

end Service

namespace Call

def ref : Call → ResourceRef
  | resolve ref _ _ => ref
  | compile ref _ _ => ref
  | plan ref _ => ref

variable [Room]

def perform (s : Service) (r : ResourceSchema) : Call → Work Answer
  | resolve _ requested excluded =>
    .bind (s.resolveData r requested excluded) fun names => .pure (.fields names)
  | compile _ fields nested => .bind (s.compile r fields nested) fun p => .pure (.plan p)
  | plan _ query => .bind ((s.withQuery query).planFor r) fun p => .pure (.plan p)

def task (s : Service) (c : Call) : Work Answer := .bind (s.schema c.ref) fun r => c.perform s r

def fresh (s : Service) (c : Call) : Result ServiceError Answer :=
  ((c.task s).run (s.newStore none)).1

/-- The questions that a call about a resource may put to the cache. -/
def questionsOn (s : Service) (r : ResourceSchema) : Call → List Question
  | resolve _ requested excluded => [.fields r requested excluded]
  | compile _ fields nested => s.compileQuestions r fields nested
  | plan _ query =>
    let s := s.withQuery query
    .fields r (s.requestedFields r) [] ::
      s.compileQuestions r (s.shownFields r (s.requestedFields r) []) s.nestedRequests

def questions (s : Service) (c : Call) : List Question :=
  match s.catalog.schemaOf c.ref with
  | .ok r => c.questionsOn s r
  | .error _ => []

variable {s : Service}

omit [Room] in
theorem registered_of_mem_questions {c : Call} {q : Question} (h : q ∈ c.questions s) :
    s.catalog.find? q.resource.type = some q.resource := by
  unfold questions at h
  cases hr : s.catalog.schemaOf c.ref with
  | error e =>
    rw [hr] at h
    cases h
  | ok r =>
    rw [hr] at h
    have hroot := Catalog.find?_of_schemaOf hr
    have hcompile {fields : List String} {nested : Entries (Option (List String))}
        (h : q ∈ s.compileQuestions r fields nested) :
        s.catalog.find? q.resource.type = some q.resource := by
      simp only [Service.compileQuestions, List.mem_append, List.mem_map, List.mem_filterMap,
        Option.map_eq_some_iff, List.mem_singleton] at h
      rcases h with (⟨r', ⟨type, -, hr'⟩, rfl⟩ | ⟨e, -, r', hr', rfl⟩) | rfl
      · exact (Catalog.type_of_find? hr').symm ▸ hr'
      · exact (Catalog.type_of_find? hr').symm ▸ hr'
      · exact hroot
    cases c with
    | resolve ref requested excluded =>
      obtain rfl := List.mem_singleton.mp h
      exact hroot
    | compile ref fields nested => exact hcompile h
    | plan ref query =>
      rcases List.mem_cons.mp h with rfl | h
      · exact hroot
      · exact hcompile h

theorem task_follows {L : Legend ServiceError Metadata} {c : Call}
    (h : ∀ q ∈ c.questions s, q.IsIn s L) : (c.task s).Follows L := by
  refine Task.follows_bind _ _ (Service.follows_ofResource _) fun r hr => ?_
  have hschema : s.catalog.schemaOf c.ref = .ok r := by
    rw [Service.schema, Work.eval_ofResource] at hr
    revert hr
    cases s.catalog.schemaOf c.ref with
    | error e => exact fun hr => nomatch hr
    | ok r' => exact fun hr => congrArg Except.ok (Except.ok.inj hr)
  rw [questions, hschema] at h
  cases c with
  | resolve ref requested excluded =>
    have hfields := Service.follows_resolveData (h _ (List.mem_singleton.mpr rfl))
    exact Task.follows_bind _ _ hfields fun _ _ => trivial
  | compile ref fields nested =>
    exact Task.follows_bind _ _ (Service.follows_compile h) fun _ _ => trivial
  | plan ref query =>
    have hplan : ((s.withQuery query).planFor r).Follows L := by
      have hfields := Service.follows_resolve (s := s.withQuery query) (h _ List.mem_cons_self)
      refine Task.follows_bind _ _ hfields fun fields hf => ?_
      rw [Service.resolveFields, Service.eval_resolve] at hf
      obtain rfl := Except.ok.inj hf
      have hcompile := Service.follows_compile (s := s.withQuery query)
        fun q hq => h q (List.mem_cons_of_mem _ hq)
      exact Task.follows_bind _ _ hcompile fun _ _ => trivial
    exact Task.follows_bind _ _ hplan fun _ _ => trivial

end Call

/-- What happens to the processes of a service and their backend. -/
inductive Event [Room] where
  | call (process : Nat) (c : Call)
  /-- time passes for everyone -/
  | pass (seconds : Nat)
  /-- a memo drops what it has for a key -/
  | evict (process : Nat) (key : String)
  /-- from now on the backend fails, or does not fail, to read and to write -/
  | fail (reading writing : Bool)
  /-- the backend has no text for a key any more -/
  | lose (key : String)
  /-- the backend has a text for a key that nobody can read -/
  | damage (key text : String) (h : (Json.read text).toOption = none)
  /-- a process starts over with an empty memo -/
  | restart (process : Nat)

def Event.call? [Room] : Event → Option Call
  | call _ c => some c
  | _ => none

/-- Processes that share a backend. -/
structure Fleet where
  processes : Nat → Store SharedStore Metadata
  backend : Option SharedStore

namespace Fleet

def start (s : Service) (backend : Option SharedStore) : Fleet :=
  ⟨fun _ => s.newStore backend, backend⟩

def view (f : Fleet) (i : Nat) : Store SharedStore Metadata :=
  { f.processes i with backend := f.backend }

def put (f : Fleet) (i : Nat) (t : Store SharedStore Metadata) : Fleet :=
  ⟨fun j => if j = i then t else f.processes j, t.backend⟩

def step [Room] (s : Service) (f : Fleet) : Event → Option (Result ServiceError Answer) × Fleet
  | .call i c =>
    let (answer, t) := (c.task s).run (f.view i)
    (some answer, f.put i t)
  | .pass seconds => (none, { f with processes := fun i => (f.processes i).advance seconds })
  | .evict i key =>
    let t := f.view i
    (none, f.put i { t with memo := { t.memo with entries := t.memo.without key } })
  | .fail reading writing =>
    (none, { f with backend := f.backend.map fun b => b.setFailures reading writing })
  | .lose key => (none, { f with backend := f.backend.map fun b => b.delete key })
  | .damage key text _ => (none, { f with backend := f.backend.map fun b => b.put key text })
  | .restart i => (none, f.put i (f.view i).restart)

def run [Room] (s : Service) : List Event → Fleet → List (Result ServiceError Answer) × Fleet
  | [], f => ([], f)
  | e :: rest, f =>
    let (answer, f) := f.step s e
    let (answers, f) := run s rest f
    (answer.toList ++ answers, f)

def Faithful (L : Legend ServiceError Metadata) (f : Fleet) : Prop := ∀ i, (f.view i).Faithful L

variable {L : Legend ServiceError Metadata} {s : Service} {f : Fleet}

theorem Faithful.put (h : f.Faithful L) (i : Nat) {t : Store SharedStore Metadata}
    (ht : t.Faithful L) : (f.put i t).Faithful L := by
  intro j
  unfold Fleet.put Fleet.view
  by_cases hj : j = i
  · simp only [hj, if_true]
    exact ht.of_eq rfl rfl
  · simp only [hj, if_false]
    exact ⟨(h j).memo, ht.backend, (h j).room⟩

/-- Only the texts of a backend matter, and only those that can be read. -/
theorem Faithful.of_texts [Room] (h : f.Faithful L) (change : SharedStore → SharedStore)
    (hchange : ∀ b key text, (change b).texts.get? key = some text →
      b.texts.get? key = some text ∨ (Json.read text).toOption = none)
    (hL : ∀ key codec r, L key = some (codec, r) →
      codec = Metadata.dataCodec ∨ codec = Metadata.planCodec) :
    ({ f with backend := f.backend.map change } : Fleet).Faithful L := by
  intro i
  refine ⟨(h i).memo, ?_, (h i).room⟩
  intro b hb key text htext codec r v hkey hdecode
  obtain ⟨b', hb', rfl⟩ := Option.map_eq_some_iff.mp hb
  rcases hchange b' key text htext with hold | hunreadable
  · exact (h i).backend b' hb' key text hold codec r v hkey hdecode
  · have hnone := Metadata.decode_of_unreadable hunreadable
    rcases hL key codec r hkey with rfl | rfl
    · rw [hnone.1] at hdecode
      cases hdecode
    · rw [hnone.2] at hdecode
      cases hdecode

theorem start_faithful (s : Service) (L : Legend ServiceError Metadata)
    {backend : Option SharedStore} (h : ∀ b, backend = some b → b.texts = []) :
    (start s backend).Faithful L := by
  intro i
  refine ⟨fun e he => (nomatch he), ?_, s.settings.one_le_memoCapacity⟩
  intro b hb key text htext
  rw [h b hb] at htext
  cases htext

end Fleet

theorem Service.legend_codec [Room] {s : Service} {qs : List Question} {key : String}
    {codec : Codec Metadata} {r : Result ServiceError Metadata}
    (h : s.legend qs key = some (codec, r)) :
    codec = Metadata.dataCodec ∨ codec = Metadata.planCodec := by
  obtain ⟨q, -, hq⟩ := Option.map_eq_some_iff.mp h
  obtain ⟨rfl, -⟩ := Prod.mk.inj hq
  cases q with
  | fields => exact .inl rfl
  | plan => exact .inr rfl

namespace Fleet

variable {s : Service} {f : Fleet} {qs : List Question}

/-- Whatever happens, the fleet stays faithful, and a call is answered without the cache. -/
theorem step_faithful [Room] (h : f.Faithful (s.legend qs)) (e : Event)
    (hcall : ∀ c, e.call? = some c → (c.task s).Follows (s.legend qs)) :
    (f.step s e).1 = e.call?.map (fun c => (c.task s).eval) ∧
      (f.step s e).2.Faithful (s.legend qs) := by
  have htexts := fun change hchange =>
    h.of_texts change hchange fun _ _ _ hkey => Service.legend_codec hkey
  cases e with
  | call i c =>
    have hrun := (c.task s).run_eq_eval (s.legend_lossless qs) (hcall c rfl) (f.view i) (h i)
    exact ⟨congrArg some hrun.1, h.put i hrun.2⟩
  | pass seconds => exact ⟨rfl, fun i => (h i).of_eq rfl rfl⟩
  | evict i key =>
    refine ⟨rfl, h.put i ⟨?_, (h i).backend, (h i).room⟩⟩
    intro e he
    exact (h i).memo e (List.mem_filter.mp he).1
  | fail reading writing => exact ⟨rfl, htexts _ fun b key text htext => .inl htext⟩
  | lose key =>
    refine ⟨rfl, htexts _ fun b k text htext => .inl ?_⟩
    rw [SharedStore.delete, Entries.get?_erase] at htext
    split at htext
    · cases htext
    · exact htext
  | damage key text hunreadable =>
    refine ⟨rfl, htexts _ fun b k t htext => ?_⟩
    rw [SharedStore.put, Entries.get?_set] at htext
    split at htext
    · exact .inr (Option.some.inj htext ▸ hunreadable)
    · exact .inl htext
  | restart i => exact ⟨rfl, h.put i ⟨fun e he => (nomatch he), (h i).backend, (h i).room⟩⟩

theorem run_faithful [Room] (h : f.Faithful (s.legend qs)) (events : List Event)
    (hcalls : ∀ c ∈ events.filterMap Event.call?, (c.task s).Follows (s.legend qs)) :
    (run s events f).1 = (events.filterMap Event.call?).map fun c => (c.task s).eval := by
  induction events generalizing f with
  | nil => rfl
  | cons e rest ih =>
    have hstep := step_faithful h e fun c hc =>
      hcalls c (List.mem_filterMap.mpr ⟨e, List.mem_cons_self, hc⟩)
    have hrest := ih hstep.2 fun c hc => by
      obtain ⟨e', he', hc⟩ := List.mem_filterMap.mp hc
      exact hcalls c (List.mem_filterMap.mpr ⟨e', List.mem_cons_of_mem _ he', hc⟩)
    simp only [run, hstep.1, hrest]
    cases hc : e.call? <;> simp [hc]

end Fleet

/-- The payloads that the calls among some events may sign. -/
def Event.payloads [Room] (s : Service) (events : List Event) : List Json :=
  (events.filterMap Event.call?).flatMap fun c => (c.questions s).map (·.payload s)

/-- As long as no two payloads of a run share a signature, every call of every process is answered,
or fails, as it would by itself in a new process without a backend. -/
theorem Fleet.answers_eq_fresh [Room] (s : Service) (backend : Option SharedStore)
    (hempty : ∀ b, backend = some b → b.texts = []) (events : List Event)
    (hsignature : ∀ p ∈ Event.payloads s events, ∀ q ∈ Event.payloads s events,
      signature p = signature q → p = q) :
    (Fleet.run s events (Fleet.start s backend)).1 =
      (events.filterMap Event.call?).map fun c => c.fresh s := by
  let qs := (events.filterMap Event.call?).flatMap fun c => c.questions s
  have hmem {p : Question} (hp : p ∈ qs) : p.payload s ∈ Event.payloads s events := by
    obtain ⟨c, hc, hp⟩ := List.mem_flatMap.mp hp
    exact List.mem_flatMap.mpr ⟨c, hc, List.mem_map_of_mem hp⟩
  have hqs : s.Distinguishes qs := by
    refine ⟨?_, fun p hp q hq => hsignature _ (hmem hp) _ (hmem hq)⟩
    intro q hq
    obtain ⟨c, -, hq⟩ := List.mem_flatMap.mp hq
    exact Call.registered_of_mem_questions hq
  have hcalls : ∀ c ∈ events.filterMap Event.call?, (c.task s).Follows (s.legend qs) := by
    intro c hc
    exact Call.task_follows fun q hq => hqs.isIn (List.mem_flatMap.mpr ⟨c, hc, hq⟩)
  rw [Fleet.run_faithful (Fleet.start_faithful s _ hempty) events hcalls]
  refine List.map_congr_left fun c hc => ?_
  have hnone : ∀ b, (none : Option SharedStore) = some b → b.texts = [] := by simp
  have hnew : (s.newStore none).Faithful (s.legend qs) := Fleet.start_faithful s _ hnone 0
  exact ((c.task s).run_eq_eval (s.legend_lossless qs) (hcalls c hc) _ hnew).1.symm

namespace Posts

attribute [local instance] Room.usual

def post : ResourceSchema where
  type := "post"
  fields := [⟨"author", .relation ⟨"author", some "user", none, none, none, false⟩, []⟩,
    ⟨"id", .scalar "id", []⟩]
  defaults := ["author", "id"]
  fixed := []
  model := none

def user : ResourceSchema where
  type := "user"
  fields := [⟨"id", .scalar "id", []⟩]
  defaults := ["id"]
  fixed := []
  model := none

def service : Service where
  catalog := ⟨⟨[post, user], [], [], true⟩, rfl, rfl⟩
  settings := default
  query := none

/-- A backend that fails and has a text damaged between the calls of two processes. -/
def events : List Event := [
  .call 0 (.plan (.named "post") none), .fail true false, .call 1 (.plan (.named "post") none),
  .damage "resourcekit" "?" (by decide), .fail false false, .restart 0,
  .call 0 (.resolve (.named "user") none [])]

def resolution : Json := resolutionPayload .declaration none []

def plan : Json := planPayload ["author", "id"] []

private theorem canonicalText_resolution : resolution.canonicalText =
    "\x7b\"excluded\":[],\"requested\":null,\"strategy\":\"declaration\"\x7d" := by
  have hsorted : resolution.sortKeys = .object [("excluded", .array []), ("requested", .null),
      ("strategy", .string "declaration")] := by
    simp [resolution, resolutionPayload, namesPayload, Json.sortKeys, Json.sortKeysEntries,
      Json.sortKeysItems, Json.ofStrings, FieldOrder.name, Entries.sorted, List.mergeSort,
      List.MergeSort.Internal.splitInTwo]
  rw [Json.canonicalText, hsorted]
  decide +kernel

private theorem canonicalText_plan : plan.canonicalText =
    "\x7b\"fields\":[\"author\",\"id\"],\"nested\":\x7b\x7d\x7d" := by
  have hsorted : plan.sortKeys = plan := by
    simp [plan, planPayload, Json.sortKeys, Json.sortKeysEntries, Json.sortKeysItems,
      Json.ofStrings, Entries.sorted, List.mergeSort, List.MergeSort.Internal.splitInTwo]
  rw [Json.canonicalText, hsorted]
  decide +kernel

theorem signature_ne : signature resolution ≠ signature plan := by
  rw [signature, signature, canonicalText_resolution, canonicalText_plan]
  decide +kernel

theorem plannedFields_post :
    Service.plannedFields post ["author", "id"] = ["author", "id"] := by
  have hdeclared : (unique ["author", "id"]).filter post.declares = ["author", "id"] := by decide
  rw [Service.plannedFields, hdeclared]
  simp [sortNames, List.mergeSort, List.MergeSort.Internal.splitInTwo]

private theorem mem_payloads {p : Json} (h : p ∈ Event.payloads service events) :
    p = resolution ∨ p = plan := by
  have hexcluded (r : ResourceSchema) : r.knownExclusions [] = [] := by
    simp [ResourceSchema.knownExclusions, unique, sortNames]
  have hfields (r : ResourceSchema) : (Question.fields r none []).payload service = resolution := by
    rw [Question.payload, hexcluded]
    rfl
  have hshown : service.shownFields post none [] = ["author", "id"] := by
    rw [Service.shownFields, hexcluded]
    decide
  have hpost : (Call.plan (.named "post") none).questions service =
      .fields post none [] :: service.compileQuestions post (service.shownFields post none []) [] :=
    rfl
  have hcompile : service.compileQuestions post ["author", "id"] [] =
      [.fields post none [], .fields user none [], .plan post ["author", "id"] []] := by
    rw [Service.compileQuestions, plannedFields_post]
    simp [service, Catalog.types, Registry.types, Catalog.find?, Registry.find?, post, user,
      Service.chosenNested, Entries.sorted]
  have huser : (Call.resolve (.named "user") none []).questions service = [.fields user none []] :=
    rfl
  have hplan (r : ResourceSchema) : (Question.plan r ["author", "id"] []).payload service = plan :=
    rfl
  simp only [Event.payloads, events, Event.call?, List.filterMap_cons, List.filterMap_nil,
    List.flatMap_cons, List.flatMap_nil, hpost, hshown, hcompile, huser, List.map_cons,
    List.map_nil, hfields, hplan, List.mem_append, List.mem_cons, List.not_mem_nil, or_false] at h
  grind

theorem answered_afresh :
    (∀ b, some (SharedStore.ofTexts [] false false) = some b → b.texts = []) ∧
      (∀ p ∈ Event.payloads service events, ∀ q ∈ Event.payloads service events,
        signature p = signature q → p = q) ∧
      (Fleet.run service events
        (Fleet.start service (some (SharedStore.ofTexts [] false false)))).1 =
          (events.filterMap Event.call?).map fun c => c.fresh service := by
  have hempty : ∀ b, some (SharedStore.ofTexts [] false false) = some b → b.texts = [] := by
    rintro _ ⟨⟩
    rfl
  have hsignature : ∀ p ∈ Event.payloads service events, ∀ q ∈ Event.payloads service events,
      signature p = signature q → p = q := by
    intro p hp q hq h
    rcases mem_payloads hp with rfl | rfl
    · rcases mem_payloads hq with rfl | rfl
      · rfl
      · exact absurd h signature_ne
    · rcases mem_payloads hq with rfl | rfl
      · exact absurd h.symm signature_ne
      · rfl
  exact ⟨hempty, hsignature, Fleet.answers_eq_fresh service _ hempty events hsignature⟩

end Posts
end FieldPlan
