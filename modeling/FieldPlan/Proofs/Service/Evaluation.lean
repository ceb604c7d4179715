import FieldPlan.Proofs.Cache.Transparency
import FieldPlan.Proofs.Names
import FieldPlan.Proofs.Plan.Contributions
import FieldPlan.Proofs.Plan.Reach
import FieldPlan.Service
/-!
# What a service answers without a cache

The tasks of a service as plain functions of the catalog, the settings and the request. They fail
only where a resource is not registered or a plan cannot be built.
-/
namespace FieldPlan

open Cache

namespace Json

theorem eraseDupsBy_strings (ns : List String) :
    (ns.map string).eraseDupsBy same = (unique ns).map string := by
  cases ns with
  | nil => rfl
  | cons n ns =>
    have hrest := eraseDupsBy_strings (ns.filter fun m => !m == n)
    have hfilter : (ns.map string).filter (fun j => same j (string n) = false) =
        (ns.filter fun m => !m == n).map string := by
      rw [List.filter_map]
      congr 1
      refine List.filter_congr fun m _ => ?_
      simp [same]
    rw [List.map_cons, List.eraseDupsBy_cons, hfilter, hrest, unique_cons, List.map_cons]
termination_by ns.length
decreasing_by exact Nat.lt_succ_of_le (List.length_filter_le _ _)

theorem ascending_strings (ns : List String) : ∃ js, ascending (ns.map string) = .ok js := by
  have hpairs (pairs : List (Json × Json)) (h : ∀ p ∈ pairs, ∃ b, less p.2 p.1 = .ok b) :
      ∃ bs, pairs.mapM (fun p => less p.2 p.1) = .ok bs := by
    induction pairs with
    | nil => exact ⟨[], rfl⟩
    | cons p pairs ih =>
      obtain ⟨b, hb⟩ := h p List.mem_cons_self
      obtain ⟨bs, hbs⟩ := ih fun q hq => h q (List.mem_cons_of_mem p hq)
      exact ⟨b :: bs, by simp only [List.mapM_cons, hb, hbs]; rfl⟩
  obtain ⟨bs, hbs⟩ := hpairs ((ns.map string).zip ((ns.map string).drop 1)) (by
    intro p hp
    obtain ⟨m, -, hm⟩ := List.mem_map.mp (List.of_mem_zip hp).1
    obtain ⟨n, -, hn⟩ := List.mem_map.mp (List.mem_of_mem_drop (List.of_mem_zip hp).2)
    rw [← hm, ← hn]
    exact ⟨_, rfl⟩)
  exact ⟨_, by rw [ascending, hbs]; rfl⟩

end Json

namespace Work

theorem eval_ofResource {α : Type} (r : Except ResourceError α) :
    (ofResource r).eval = r.mapError fun e => .raised (.resource e) := by
  cases r <;> rfl

theorem eval_ofModel {α : Type} (r : Except ModelError α) :
    (ofModel r).eval = r.mapError fun e => .raised (.model e) := by
  cases r <;> rfl

theorem eval_cachedData [Room] (key : String) (body : Work Json) :
    (cachedData key body).eval = body.eval := by
  rw [cachedData, Task.eval_bind, Task.eval_cached, Task.eval_bind]
  cases body.eval <;> rfl

theorem eval_cachedPlan [Room] (key : String) (body : Work LoadPlan) :
    (cachedPlan key body).eval = body.eval := by
  rw [cachedPlan, Task.eval_bind, Task.eval_cached, Task.eval_bind]
  cases body.eval <;> rfl

theorem eval_cachedNames [Room] (key : String) (ns : List String) :
    (cachedNames key ns).eval = .ok (ns.map Json.string) := by
  rw [cachedNames, Task.eval_bind, eval_cachedData]
  rfl

theorem names_strings (ns : List String) : names (ns.map Json.string) = .pure ns := by
  have hplain : (ns.map Json.string).any Json.isCollection = false := by
    rw [List.any_map, List.any_eq_false]
    intro n _
    exact Bool.false_ne_true
  have hstrings : (ns.map Json.string).filterMap Json.string? = ns := by
    rw [List.filterMap_map]
    exact List.filterMap_some
  rw [names, hplain, hstrings]
  rfl

theorem sortedNames_strings (ns : List String) :
    sortedNames (ns.map Json.string) = .pure (sortNames (unique ns)) := by
  have hplain : (ns.map Json.string).any Json.isCollection = false := by
    rw [List.any_map, List.any_eq_false]
    intro n _
    exact Bool.false_ne_true
  obtain ⟨js, hjs⟩ := Json.ascending_strings (unique ns)
  rw [sortedNames, Json.distinct?, hplain, if_neg Bool.false_ne_true, Json.eraseDupsBy_strings,
    Option.map_some, hjs, names_strings]
  rfl

end Work

theorem ResourceSchema.knownExclusions_nil (r : ResourceSchema) : r.knownExclusions [] = [] := by
  simp [knownExclusions, unique, sortNames]

namespace Service

variable (s : Service)

/-- The fields to show of a resource. -/
def shownFields (r : ResourceSchema) (requested : Option (List String)) (excluded : List String) :
    List String :=
  r.resolve s.settings (requested.map r.knownRequest) (r.knownExclusions excluded)

def defaultFields (type : String) : List String :=
  (s.catalog.find? type).elim [] fun r => s.shownFields r none []

/-- The fields to plan below a relation. -/
def childFields (nested : Selection) (f : Field) (type : String) : List String :=
  match f.relation?.bind (·.pinned) with
  | some names => names
  | none => (nested.get? type).getD (s.defaultFields type)

/-- The fields requested of a child, unless they are its defaults. -/
def childChoice (type : String) (requested : Option (List String)) : Option (List String) :=
  (s.catalog.find? type).bind fun r =>
    let chosen := sortNames (unique (s.shownFields r requested []))
    if chosen = sortNames (unique (s.shownFields r none [])) then none else some chosen

/-- The requests that can make a difference below a root. -/
def chosenNested (root : String) (nested : Entries (Option (List String))) : Selection :=
  nested.filterMap fun (type, requested) =>
    if type ∈ s.catalog.reachable root then
      (s.childChoice type requested).map fun names => (type, names)
    else none

/-- The requests for embedded types under the current request. -/
def nestedRequests (s : Service) : Entries (Option (List String)) :=
  ((s.query.map Query.scopedFields).getD []).map fun (type, names) => (type, some names)

variable {s}

variable [Room]

theorem eval_resolveData (r : ResourceSchema) (requested : Option (List String))
    (excluded : List String) :
    (s.resolveData r requested excluded).eval =
      .ok ((s.shownFields r requested excluded).map Json.string) :=
  Work.eval_cachedNames _ _

theorem eval_resolve (r : ResourceSchema) (requested : Option (List String))
    (excluded : List String) :
    (s.resolve r requested excluded).eval = .ok (s.shownFields r requested excluded) := by
  rw [resolve, Task.eval_bind, eval_resolveData]
  simp only [Work.names_strings]
  rfl

theorem eval_resolveSorted (r : ResourceSchema) (requested : Option (List String)) :
    (s.resolveSorted r requested).eval =
      .ok (sortNames (unique (s.shownFields r requested []))) := by
  rw [resolveSorted, Task.eval_bind, eval_resolveData]
  simp only [Work.sortedNames_strings]
  rfl

theorem eval_defaultsOf {type : String} (h : type ∈ s.catalog.types) :
    (s.defaultsOf type).eval = .ok (s.defaultFields type) := by
  obtain ⟨r, hr⟩ := Catalog.exists_of_mem_types h
  rw [defaultsOf, Task.eval_bind, Work.eval_ofResource, Catalog.schema_of_find? hr]
  simp only [mapError_ok, eval_resolve, defaultFields, hr, Option.elim_some]

theorem eval_childSelection {type : String} (h : type ∈ s.catalog.types)
    (requested : Option (List String)) :
    (s.childSelection type requested).eval = .ok (s.childChoice type requested) := by
  obtain ⟨r, hr⟩ := Catalog.exists_of_mem_types h
  rw [childSelection, Task.eval_bind, Work.eval_ofResource, Catalog.schema_of_find? hr]
  simp only [mapError_ok, Task.eval_bind, eval_resolveSorted, childChoice, hr, Option.bind_some]
  rfl

theorem eval_resolveNested (root : String) (nested : Entries (Option (List String))) :
    (s.resolveNested root nested).eval = .ok (s.chosenNested root nested) := by
  induction nested with
  | nil => rfl
  | cons e rest ih =>
    obtain ⟨type, requested⟩ := e
    by_cases hreach : type ∈ s.catalog.reachable root
    · have htype := Catalog.mem_types_of_mem_reachable hreach
      rw [resolveNested, if_pos hreach, Task.eval_bind, eval_childSelection htype]
      simp only [Task.eval_bind, ih]
      cases hchoice : s.childChoice type requested with
      | none => simp [chosenNested, hreach, hchoice, Task.eval]
      | some names => simp [chosenNested, hreach, hchoice, Task.eval]
    · rw [resolveNested, if_neg hreach, ih]
      simp [chosenNested, hreach]

theorem follows_walk (nested : Selection) : (s.walk nested).Follows (s.childFields nested) := by
  intro f type htype
  unfold Walk.childFields childFields
  cases f.relation?.bind (·.pinned) with
  | some names => rfl
  | none =>
    change (match nested.get? type with
      | some names => .pure names
      | none => s.defaultsOf type : Work (List String)).eval = _
    cases nested.get? type with
    | some names => rfl
    | none => exact eval_defaultsOf htype

/-- The plan for the named fields of a resource and the selections below it. -/
def builtPlan (s : Service) (nested : Selection) (r : ResourceSchema) (names : List String) :
    Except PlanError LoadPlan :=
  (LoadPlan.empty.addAll s.settings.maxDepth
    (s.catalog.collect (s.childFields nested) [r.type] r "" names)).map LoadPlan.sorted

theorem eval_build (nested : Selection) (r : ResourceSchema) (names : List String) :
    ((s.walk nested).build r names).eval =
      (s.builtPlan nested r names).mapError fun e => .raised (.plan e) :=
  Walk.eval_build (follows_walk nested) r names

theorem distinctKeys_of_builtPlan {nested : Selection} {r : ResourceSchema} {names : List String}
    {p : LoadPlan} (h : s.builtPlan nested r names = .ok p) : p.DistinctKeys :=
  Walk.distinctKeys_of_eval_build (follows_walk nested) (by rw [eval_build, h]; rfl)

omit [Room] in
theorem mem_plannedFields {r : ResourceSchema} {fields : List String} {n : String} :
    n ∈ plannedFields r fields ↔ n ∈ fields ∧ r.declares n := by
  rw [plannedFields, mem_sortNames, List.mem_filter, mem_unique]

theorem eval_compile (r : ResourceSchema) (fields : List String)
    (nested : Entries (Option (List String))) :
    (s.compile r fields nested).eval =
      (s.builtPlan (s.chosenNested r.type nested).sorted r (plannedFields r fields)).mapError
        fun e => .raised (.plan e) := by
  rw [compile, Task.eval_bind, eval_resolveNested]
  simp only [Work.eval_cachedPlan, eval_build]

theorem eval_compile_eq_ok {r : ResourceSchema} {fields : List String}
    {nested : Entries (Option (List String))} {p : LoadPlan} :
    (s.compile r fields nested).eval = .ok p ↔
      s.builtPlan (s.chosenNested r.type nested).sorted r (plannedFields r fields) = .ok p := by
  rw [eval_compile]
  cases s.builtPlan (s.chosenNested r.type nested).sorted r (plannedFields r fields) with
  | error e => exact ⟨fun h => (nomatch h), fun h => (nomatch h)⟩
  | ok q => simp [mapError_ok]

end Service
end FieldPlan
