import FieldPlan.Proofs.Cache.Asked
import FieldPlan.Proofs.Service.Progress
import FieldPlan.Proofs.Service.Serialization
/-!
# Requests that share an entry

Requests that mean the same ask the cache under the same keys: resolutions where what counts of the
request is the same, plans where the fields are the same and everything that can be reached shows
the same. A call leaves the keys of all plans but its own alone.
-/
namespace FieldPlan

open Cache

namespace ResourceSchema

/-- Two requests that name the same, in whatever way the order counts: unknown names are left out,
and so are repetitions. -/
def SameRequest (r : ResourceSchema) (order : FieldOrder) :
    Option (List String) → Option (List String) → Prop
  | none, none => True
  | some a, some b =>
    match order with
    | .declaration => ∀ n, n ∈ r.knownRequest a ↔ n ∈ r.knownRequest b
    | .requested => unique (r.knownRequest a) = unique (r.knownRequest b)
  | _, _ => False

variable {r : ResourceSchema}

theorem SameRequest.namesPayload_eq {order : FieldOrder} {a b : Option (List String)}
    (h : r.SameRequest order a b) :
    namesPayload (order == .requested) (a.map r.knownRequest) =
      namesPayload (order == .requested) (b.map r.knownRequest) := by
  cases a with
  | none =>
    cases b with
    | none => rfl
    | some b => exact h.elim
  | some a =>
    cases b with
    | none => exact h.elim
    | some b =>
      cases order with
      | declaration => exact congrArg some (sortNames_unique_congr h)
      | requested => exact congrArg some h

theorem sortNames_declared_congr {a b : List String}
    (h : ∀ n, r.declares n → (n ∈ a ↔ n ∈ b)) :
    sortNames ((unique a).filter r.declares) = sortNames ((unique b).filter r.declares) := by
  rw [← unique_filter, ← unique_filter]
  refine sortNames_unique_congr fun n => ?_
  rw [List.mem_filter, List.mem_filter]
  exact and_congr_left fun hn => h n hn

end ResourceSchema

namespace Service

variable {s : Service} {r : ResourceSchema}

theorem resolutionKey_congr {requested requested' : Option (List String)}
    {excluded excluded' : List String} (h : r.SameRequest s.settings.order requested requested')
    (hexcluded : ∀ n, r.declares n → (n ∈ excluded ↔ n ∈ excluded')) :
    s.resolutionKey r requested excluded = s.resolutionKey r requested' excluded' := by
  have hknown : r.knownExclusions excluded = r.knownExclusions excluded' :=
    ResourceSchema.sortNames_declared_congr hexcluded
  rw [resolutionKey, resolutionKey, resolutionPayload, resolutionPayload, h.namesPayload_eq, hknown]

theorem shownFields_congr {requested requested' : Option (List String)} {excluded : List String}
    (h : r.SameRequest s.settings.order requested requested') :
    s.shownFields r requested excluded = s.shownFields r requested' excluded := by
  refine ResourceSchema.resolve_eq_of_payload ?_
  rw [resolutionPayload, resolutionPayload, h.namesPayload_eq]

theorem asked_resolveData [Room] (r : ResourceSchema) (requested : Option (List String))
    (excluded : List String) :
    (s.resolveData r requested excluded).asked = [s.resolutionKey r requested excluded] := by
  rw [resolveData, Work.cachedNames, Work.cachedData, Task.asked_bind, Task.asked_bind,
    Task.asked_cached]
  rfl

def IsPlanKey (s : Service) (key : String) : Prop :=
  ∃ type sig, key = Template.plan.fill s.settings.keyPrefix [type, sig]

theorem isPlanKey_planKey (s : Service) (r : ResourceSchema) (names : List String)
    (nested : Selection) : s.IsPlanKey (s.planKey r names nested) :=
  ⟨r.type, signature (planPayload names nested), rfl⟩

theorem rank_of_isPlanKey {key : String} (h : s.IsPlanKey key) : s.rank key = 1 := if_pos h

/-- Two requests for plans that need the same: the same declared fields, and of every resource below
the same fields shown, where no request means the defaults. -/
structure SamePlan (s : Service) (r : ResourceSchema) (fields : List String)
    (nested : Entries (Option (List String))) (fields' : List String)
    (nested' : Entries (Option (List String))) : Prop where
  fields : ∀ n, r.declares n → (n ∈ fields ↔ n ∈ fields')
  nested : ∀ type child, s.catalog.Reaches r.type type → s.catalog.find? type = some child →
    ∀ n, n ∈ s.shownFields child (nested.get? type).join [] ↔
      n ∈ s.shownFields child (nested'.get? type).join []

/-- Two requests that differ in unknown names, in the order and the repetition of the fields, and in
what they ask of the root, of types out of reach and of unregistered ones, and in nothing else. -/
structure SlightlyDifferent (s : Service) (r : ResourceSchema) (fields : List String)
    (nested : Entries (Option (List String))) (fields' : List String)
    (nested' : Entries (Option (List String))) : Prop where
  fields : ∀ n, r.declares n → (n ∈ fields ↔ n ∈ fields')
  nested : ∀ type child, s.catalog.Reaches r.type type → s.catalog.find? type = some child →
    child.SameRequest s.settings.order (nested.get? type).join (nested'.get? type).join

theorem SlightlyDifferent.samePlan {fields fields' : List String}
    {nested nested' : Entries (Option (List String))}
    (h : s.SlightlyDifferent r fields nested fields' nested') :
    s.SamePlan r fields nested fields' nested' where
  fields := h.fields
  nested type child hreach hchild n := by
    rw [shownFields_congr (h.nested type child hreach hchild)]

/-- The key under which the plan for a request is remembered. -/
def requestKey (s : Service) (r : ResourceSchema) (fields : List String)
    (nested : Entries (Option (List String))) : String :=
  s.planKey r (plannedFields r fields) (s.chosenNested r.type nested).sorted

theorem plannedFields_congr {fields fields' : List String}
    (h : ∀ n, r.declares n → (n ∈ fields ↔ n ∈ fields')) :
    plannedFields r fields = plannedFields r fields' :=
  ResourceSchema.sortNames_declared_congr h

theorem childChoice_none (s : Service) (type : String) : s.childChoice type none = none := by
  unfold childChoice
  cases s.catalog.find? type with
  | none => rfl
  | some r => simp

theorem get?_chosenNested_of_mem {root type : String} (h : type ∈ s.catalog.reachable root)
    {nested : Entries (Option (List String))} (hkeys : nested.keys.Nodup) :
    (s.chosenNested root nested).get? type = s.childChoice type (nested.get? type).join := by
  rw [get?_chosenNested h hkeys]
  cases nested.get? type with
  | none => exact (s.childChoice_none type).symm
  | some requested => rfl

theorem get?_chosenNested_of_notMem {root type : String}
    (h : type ∉ s.catalog.reachable root) (nested : Entries (Option (List String))) :
    (s.chosenNested root nested).get? type = none := by
  refine Entries.get?_eq_none.mpr fun hkey => h ?_
  obtain ⟨⟨t, names⟩, he, rfl⟩ := List.mem_map.mp hkey
  obtain ⟨⟨t', requested⟩, -, hchosen⟩ := List.mem_filterMap.mp he
  dsimp only at hchosen
  split at hchosen
  · next hreach =>
    obtain ⟨_, -, heq⟩ := Option.map_eq_some_iff.mp hchosen
    exact (Prod.mk.inj heq).1 ▸ hreach
  · cases hchosen

theorem SamePlan.requestKey_eq {fields fields' : List String}
    {nested nested' : Entries (Option (List String))}
    (h : s.SamePlan r fields nested fields' nested') (hkeys : nested.keys.Nodup)
    (hkeys' : nested'.keys.Nodup) :
    s.requestKey r fields nested = s.requestKey r fields' nested' := by
  have hnested :
      (s.chosenNested r.type nested).sorted = (s.chosenNested r.type nested').sorted := by
    refine Entries.sorted_congr (nodup_keys_chosenNested hkeys) (nodup_keys_chosenNested hkeys')
      fun type => ?_
    by_cases hreach : type ∈ s.catalog.reachable r.type
    · rw [get?_chosenNested_of_mem hreach hkeys, get?_chosenNested_of_mem hreach hkeys']
      unfold childChoice
      cases hchild : s.catalog.find? type with
      | none => rfl
      | some child =>
        have hshown := h.nested type child (Catalog.mem_reachable_iff.mp hreach) hchild
        simp only [Option.bind_some, sortNames_unique_congr hshown]
    · rw [get?_chosenNested_of_notMem hreach, get?_chosenNested_of_notMem hreach]
  rw [requestKey, requestKey, plannedFields_congr h.fields, hnested]

theorem asked_cachedPlan [Room] (key : String) (body : Work LoadPlan) :
    (Work.cachedPlan key body).asked = key :: body.asked := by
  rw [Work.cachedPlan, Task.asked_bind, Task.asked_cached, Task.asked_bind, Task.eval_cached,
    Task.eval_bind]
  cases body.eval with
  | error e => simp
  | ok p => simp [Task.asked, Task.eval]

/-- Compiling asks for the key of one plan. -/
theorem mem_asked_compile [Room] (fields : List String) (nested : Entries (Option (List String)))
    {key : String} (hkey : s.IsPlanKey key) :
    key ∈ (s.compile r fields nested).asked ↔ key = s.requestKey r fields nested := by
  have hlow {α : Type} {t : Work α} (h : t.Below s.rank 1) : key ∉ t.asked := by
    intro hmem
    have hrank := h.rank_lt_of_mem_asked hmem
    rw [rank_of_isPlanKey hkey] at hrank
    exact absurd hrank (Nat.lt_irrefl 1)
  rw [compile, Task.asked_bind, eval_resolveNested]
  simp only [asked_cachedPlan, List.mem_append, List.mem_cons,
    hlow (s.below_resolveNested r.type nested), hlow (s.below_build _ r _), false_or, or_false]
  rfl

/-- Keys of plans other than the one. -/
def OtherPlan (s : Service) (planned key : String) : Prop := s.IsPlanKey key ∧ key ≠ planned

section Runs

variable {L : Legend ServiceError Metadata} {store : Store SharedStore Metadata} {planned : String}

theorem leaves_of_below {α : Type} {t : Work α} (h : t.Below s.rank 1)
    (hidle : store.flights = []) : t.Leaves (s.OtherPlan planned) store := by
  refine Task.Free.leaves (h.free.mono fun key hkey => ?_) hidle
  exact Nat.le_of_eq (rank_of_isPlanKey hkey.1).symm

theorem leaves_cachedPlan [Room] {body : Work LoadPlan} (hplanned : s.IsPlanKey planned)
    (hbody : body.Below s.rank 1) (hidle : store.flights = []) :
    (Work.cachedPlan planned body).Leaves (s.OtherPlan planned) store := by
  refine Task.Free.leaves (Task.free_bind ⟨fun h => h.2 rfl, ?_, fun r => ?_⟩ fun m => ?_) hidle
  · refine Task.free_bind (hbody.free.mono fun key hkey => ?_) fun p => trivial
    refine Nat.le_of_eq (rank_of_isPlanKey ?_).symm
    exact hkey.elim (fun heq => heq ▸ hplanned) (·.1)
  · cases r <;> trivial
  · cases m <;> trivial

/-- As long as the cache is right, compiling a request leaves no plan behind but its own. -/
theorem leaves_compile [Room] (hL : L.Lossless) {fields : List String}
    {nested : Entries (Option (List String))}
    (h : ∀ q ∈ s.compileQuestions r fields nested, q.IsIn s L) (hstore : store.Faithful L)
    (hidle : store.flights = []) :
    (s.compile r fields nested).Leaves (s.OtherPlan (s.requestKey r fields nested)) store := by
  have hfollows : (s.resolveNested r.type nested).Follows L :=
    follows_resolveNested
      (fun type child hchild => h _ (mem_compileQuestions_defaults hchild r fields nested))
      (fun e he child hchild => h _ (mem_compileQuestions_nested he hchild r fields))
  have hnested : (s.resolveNested r.type nested).Leaves
      (s.OtherPlan (s.requestKey r fields nested)) store :=
    leaves_of_below (s.below_resolveNested r.type nested) hidle
  refine hnested.bind fun chosen hchosen => ?_
  -- a wrong selection for a child would end in another plan
  rw [(Task.run_eq_eval hL _ hfollows store hstore).1, eval_resolveNested] at hchosen
  obtain rfl := Except.ok.inj hchosen
  exact leaves_cachedPlan (s.isPlanKey_planKey r _ _) (s.below_build _ r _) hnested.2

end Runs

end Service

namespace Call

variable {s : Service} {r : ResourceSchema} {fields : List String}
  {nested : Entries (Option (List String))}

/-- A call that plans, if anything, what a request needs. -/
def PlansLike (s : Service) (r : ResourceSchema) (fields : List String)
    (nested : Entries (Option (List String))) : Call → Prop
  | resolve .. => True
  | compile ref fields' nested' =>
    s.catalog.schemaOf ref = .ok r ∧ nested'.keys.Nodup ∧
      s.SamePlan r fields nested fields' nested'
  | plan ref query =>
    let s := s.withQuery query
    s.catalog.schemaOf ref = .ok r ∧
      s.SamePlan r fields nested (s.shownFields r (s.requestedFields r) []) s.nestedRequests

variable [Room]

theorem task_of_schemaOf {c : Call} (hr : s.catalog.schemaOf c.ref = .ok r) :
    c.task s = c.perform s r := by
  rw [task, Service.schema, hr]
  rfl

theorem asked_resolve {ref : ResourceRef} (hr : s.catalog.schemaOf ref = .ok r)
    (requested : Option (List String)) (excluded : List String) :
    ((resolve ref requested excluded).task s).asked =
      [s.resolutionKey r requested excluded] := by
  rw [task_of_schemaOf hr, perform, Task.asked_bind, Service.asked_resolveData,
    Service.eval_resolveData]
  rfl

theorem mem_asked_compile {ref : ResourceRef} (hr : s.catalog.schemaOf ref = .ok r)
    (fields : List String) (nested : Entries (Option (List String))) {key : String}
    (hkey : s.IsPlanKey key) :
    key ∈ ((compile ref fields nested).task s).asked ↔ key = s.requestKey r fields nested := by
  rw [← Service.mem_asked_compile fields nested hkey, task_of_schemaOf hr, perform,
    Task.asked_bind]
  cases (s.compile r fields nested).eval <;> simp [Task.asked]

variable {L : Legend ServiceError Metadata} {store : Store SharedStore Metadata}

theorem leaves_of_plansLike (hL : L.Lossless) {c : Call} (h : c.PlansLike s r fields nested)
    (hkeys : nested.keys.Nodup) (hquestions : ∀ q ∈ c.questions s, q.IsIn s L)
    (hstore : store.Faithful L) (hidle : store.flights = []) :
    (c.task s).Leaves (s.OtherPlan (s.requestKey r fields nested)) store := by
  cases c with
  | resolve ref requested excluded =>
    refine Service.leaves_of_below (Task.below_bind (s.below_ofResource _) fun r => ?_) hidle
    exact Task.below_bind (s.below_resolveData r requested excluded) fun names => trivial
  | compile ref fields' nested' =>
    obtain ⟨hr, hkeys', hsame⟩ := h
    have hr : s.catalog.schemaOf (compile ref fields' nested').ref = .ok r := hr
    rw [questions, hr] at hquestions
    rw [task_of_schemaOf hr, hsame.requestKey_eq hkeys hkeys']
    have hcompile := Service.leaves_compile hL hquestions hstore hidle
    exact hcompile.bind fun p _ => .pure _ hcompile.2
  | plan ref query =>
    obtain ⟨hr, hsame⟩ := h
    have hr : s.catalog.schemaOf (plan ref query).ref = .ok r := hr
    rw [questions, hr] at hquestions
    rw [task_of_schemaOf hr]
    let s' := s.withQuery query
    let shown := s'.shownFields r (s'.requestedFields r) []
    have hkey : s.requestKey r fields nested = s'.requestKey r shown s'.nestedRequests :=
      Service.SamePlan.requestKey_eq (s := s') hsame hkeys s'.nodup_keys_nestedRequests
    have hfields : (s'.resolveFields r []).Follows L :=
      Service.follows_resolve (s := s') (hquestions _ List.mem_cons_self)
    have hresolve : (s'.resolveFields r []).Leaves
        (s'.OtherPlan (s'.requestKey r shown s'.nestedRequests)) store :=
      Service.leaves_of_below (s'.below_resolve r (s'.requestedFields r) []) hidle
    have hresolved := Task.run_eq_eval hL _ hfields store hstore
    have hplan : (s'.planFor r).Leaves
        (s'.OtherPlan (s'.requestKey r shown s'.nestedRequests)) store := by
      refine hresolve.bind fun names hnames => ?_
      rw [hresolved.1, Service.eval_resolveFields] at hnames
      obtain rfl := Except.ok.inj hnames
      have hcompile := Service.leaves_compile (s := s') hL
        (fun q hq => hquestions q (List.mem_cons_of_mem _ hq)) hresolved.2 hresolve.2
      exact hcompile.bind fun p _ => .pure _ hcompile.2
    rw [hkey]
    exact hplan.bind fun p _ => .pure _ hplan.2

end Call
end FieldPlan
