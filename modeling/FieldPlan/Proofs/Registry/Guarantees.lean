import FieldPlan.Model.Declared
import FieldPlan.Proofs.Cache.Remember
import FieldPlan.Proofs.Registry.LookUp
/-!
# What a built registry guarantees

Resolving and compiling can fail, for a plan can be too deep and what the cache holds can be of the
wrong shape. But from a registered type on, and on whatever store, they never fail because a schema
or a field is missing.
-/
namespace FieldPlan

open Cache

namespace Cache

variable {β ε ν α : Type}

namespace Task

/-- The task never raises such an error, whatever it is answered without one. -/
def Spares (bad : ε → Prop) : {α : Type} → Task ε ν α → Prop
  | _, .pure _ => True
  | _, .fail e => ∀ x, e = .raised x → ¬ bad x
  | _, .note _ next => next.Spares bad
  | _, .remember _ _ body next =>
    body.Spares bad ∧
      ∀ r : Result ε ν, (∀ x, r = .error (.raised x) → ¬ bad x) → (next r).Spares bad

variable {bad : ε → Prop}

theorem spares_bind {γ : Type} {t : Task ε ν α} {f : α → Task ε ν γ} (ht : t.Spares bad)
    (hf : ∀ a, (f a).Spares bad) : (t.bind f).Spares bad := by
  induction t with
  | pure a => exact hf a
  | fail e => exact ht
  | note text next ih => exact ih ht hf
  | remember key codec body next _ ih =>
    obtain ⟨hbody, hnext⟩ := ht
    exact ⟨hbody, fun r hr => ih r (hnext r hr) hf⟩

theorem spares_raise {e : ε} (h : ¬ bad e) : (raise e : Task ε ν α).Spares bad := by
  rintro x hx
  obtain rfl := Failure.raised.inj hx
  exact h

theorem spares_ofExcept {r : Except ε α} (h : ∀ e, r = .error e → ¬ bad e) :
    (ofExcept r : Task ε ν α).Spares bad := by
  cases r with
  | ok a => trivial
  | error e => exact spares_raise (h e rfl)

theorem spares_cached {key : String} {codec : Codec ν} {body : Task ε ν ν}
    (h : body.Spares bad) : (cached key codec body).Spares bad := by
  refine ⟨h, fun r hr => ?_⟩
  cases r with
  | ok v => trivial
  | error e =>
    rintro x rfl
    exact hr x rfl

theorem Spares.run [Backend β] {t : Task ε ν α} (h : t.Spares bad) (s : Store β ν) :
    ∀ e, (t.run s).1 = .error (.raised e) → ¬ bad e := by
  induction t generalizing s with
  | pure a => exact fun e he => nomatch he
  | fail e => exact fun x hx => h x (Except.error.inj hx)
  | note text next ih => exact ih h _
  | remember key codec body next ihbody ihnext =>
    obtain ⟨hbody, hnext⟩ := h
    refine ihnext _ (hnext _ fun x hx => ?_) _
    obtain ⟨s', hs'⟩ := Store.remember_raises hx
    exact ihbody hbody s' x hs'

end Task
end Cache

/-- A schema or a field was looked up in vain. -/
def ServiceError.IsLookUp : ServiceError → Prop
  | resource _ | undeclared .. => True
  | _ => False

namespace Service

variable (s : Service)

theorem spares_names (js : List Json) : (Work.names js).Spares ServiceError.IsLookUp := by
  unfold Work.names
  split
  · exact Task.spares_raise id
  · trivial

variable [Room]

theorem spares_resolveData (r : ResourceSchema) (requested : Option (List String))
    (excluded : List String) :
    (s.resolveData r requested excluded).Spares ServiceError.IsLookUp := by
  refine Task.spares_bind (Task.spares_bind (Task.spares_cached trivial) fun m => ?_) fun j => ?_
  · cases m <;> trivial
  · unfold Work.members
    split
    · trivial
    · exact Task.spares_raise id

theorem spares_resolve (r : ResourceSchema) (requested : Option (List String))
    (excluded : List String) : (s.resolve r requested excluded).Spares ServiceError.IsLookUp :=
  Task.spares_bind (s.spares_resolveData r requested excluded) spares_names

theorem spares_resolveSorted (r : ResourceSchema) (requested : Option (List String)) :
    (s.resolveSorted r requested).Spares ServiceError.IsLookUp := by
  refine Task.spares_bind (s.spares_resolveData r requested []) fun js => ?_
  unfold Work.sortedNames
  split
  · exact Task.spares_bind (spares_names js) fun _ => trivial
  · exact Task.spares_raise id

omit [Room] in
theorem spares_schema {ref : ResourceRef} {t : String} (ht : ref.type = .ok t)
    (hmem : t ∈ s.catalog.types) : (s.schema ref).Spares ServiceError.IsLookUp := by
  obtain ⟨r, hr⟩ := Catalog.exists_of_mem_types hmem
  have hschema : s.catalog.schemaOf ref = .ok r := by
    rw [Catalog.schemaOf, ht]
    exact Catalog.schema_of_find? hr
  rw [schema, hschema]
  trivial

theorem spares_defaultsOf {type : String} (h : type ∈ s.catalog.types) :
    (s.defaultsOf type).Spares ServiceError.IsLookUp := by
  have hschema : (s.schema (.named type)).Spares ServiceError.IsLookUp := s.spares_schema rfl h
  exact Task.spares_bind hschema fun r => s.spares_resolve r none []

theorem spares_childSelection {type : String} (h : type ∈ s.catalog.types)
    (requested : Option (List String)) :
    (s.childSelection type requested).Spares ServiceError.IsLookUp := by
  have hschema : (s.schema (.named type)).Spares ServiceError.IsLookUp := s.spares_schema rfl h
  refine Task.spares_bind hschema fun r => ?_
  refine Task.spares_bind (s.spares_resolveSorted r requested) fun chosen => ?_
  exact Task.spares_bind (s.spares_resolveSorted r none) fun _ => trivial

theorem spares_resolveNested (root : String) (nested : Entries (Option (List String))) :
    (s.resolveNested root nested).Spares ServiceError.IsLookUp := by
  induction nested with
  | nil => trivial
  | cons e rest ih =>
    unfold resolveNested
    split
    · next hreachable =>
      have htype := Catalog.mem_types_of_mem_reachable hreachable
      refine Task.spares_bind (s.spares_childSelection htype e.2) fun chosen => ?_
      exact Task.spares_bind ih fun _ => trivial
    · exact ih

end Service

/-- The walk asks for the defaults of registered types only. -/
theorem Walk.spares_visit {w : Walk}
    (h : ∀ type ∈ w.catalog.types, (w.defaults type).Spares ServiceError.IsLookUp)
    (ancestors : List String) (s : ResourceSchema) (path : String) (names : List String)
    (p : LoadPlan) : (w.visit ancestors s path names p).Spares ServiceError.IsLookUp := by
  have hchild : ∀ f, ∀ type ∈ w.catalog.types,
      (w.childFields f type).Spares ServiceError.IsLookUp := by
    intro f type htype
    unfold childFields
    split
    · trivial
    · split
      · trivial
      · exact h type htype
  have hplan {α : Type} (r : Except PlanError α) :
      (Work.ofPlan r).Spares ServiceError.IsLookUp := by
    refine Task.spares_ofExcept fun e he => ?_
    cases r with
    | ok a => cases he
    | error e' =>
      obtain rfl := Except.error.inj he
      exact id
  fun_induction Walk.visit w ancestors s path names p with
  | case1 => trivial
  | case2 ancestors s path name rest p hget ih => exact ih
  | case3 ancestors s path name rest p f hget ihrest ihchild =>
    refine Task.spares_bind (hplan _) fun q => ?_
    cases w.catalog.child? ancestors f with
    | none => exact ihrest q
    | some child =>
      refine Task.spares_bind (hchild f child.1.type child.2.1) fun names => ?_
      exact Task.spares_bind (ihchild q child names) fun q => ihrest q

namespace Service

variable (s : Service)

theorem spares_compile [Room] (r : ResourceSchema) (fields : List String)
    (nested : Entries (Option (List String))) :
    (s.compile r fields nested).Spares ServiceError.IsLookUp := by
  refine Task.spares_bind (s.spares_resolveNested r.type nested) fun chosen => ?_
  refine Task.spares_bind (Task.spares_cached ?_) fun m => ?_
  · have hvisit := Walk.spares_visit (w := s.walk chosen.sorted) (fun _ => s.spares_defaultsOf)
    exact Task.spares_bind (Task.spares_bind (hvisit _ _ _ _ _) fun _ => trivial) fun _ => trivial
  · cases m with
    | plan p => trivial
    | data j => exact Task.spares_raise id

end Service

/-- Neither resolving a registered resource nor compiling a plan for it fails because a schema or a
field is missing, whatever the store holds. -/
def Catalog.Complete (c : Catalog) : Prop :=
  ∀ [Room] (settings : Settings) (query : Option Query) (ref : ResourceRef) (t : String),
    ref.type = .ok t → t ∈ c.types → let s : Service := ⟨c, settings, query⟩
    ∀ {β : Type} [Backend β] (store : Store β Metadata) (e : ServiceError),
      (∀ requested excluded,
        (((s.schema ref).bind fun r => s.resolveByLookUp r requested excluded).run store).1 =
          .error (.raised e) → ¬ e.IsLookUp) ∧
      ∀ fields nested,
        (((s.schema ref).bind fun r => s.compileByLookUp r fields nested).run store).1 =
          .error (.raised e) → ¬ e.IsLookUp

theorem Catalog.complete (c : Catalog) (hvalid : c.registry.Valid) : c.Complete := by
  intro _ settings query ref t ht hmem s β _ store e
  obtain ⟨root, hroot⟩ := Catalog.exists_of_mem_types hmem
  have hfind : s.catalog.find? root.type = some root := Catalog.type_of_find? hroot ▸ hroot
  have hfound : s.schema ref = .pure root := by
    rw [Service.schema, Catalog.schemaOf, ht]
    show Work.ofResource (s.catalog.schema t) = _
    rw [Catalog.schema_of_find? hroot]
    rfl
  rw [hfound]
  refine ⟨fun requested excluded => ?_, fun fields nested => ?_⟩
  · show ((s.resolveByLookUp root requested excluded).run store).1 = _ → _
    rw [Service.resolveByLookUp_eq hfind]
    exact (s.spares_resolve root requested excluded).run store e
  · show ((s.compileByLookUp root fields nested).run store).1 = _ → _
    rw [s.compileByLookUp_eq hvalid (List.mem_of_find?_eq_some hroot)]
    exact (s.spares_compile root fields nested).run store e

namespace Registry

/-- What can be relied on at every moment of a registry's life. -/
structure Lifecycle (r : Registry) : Prop where
  succeeds : ∀ op : Operation, (op.perform.on r).1 = .ok () ↔ op.Admitted r
  stores : ∀ op : Operation, (op.perform.on r).1 = .ok () → op.Stores r (op.perform.on r).2
  fails : ∀ (op : Operation) (e : ResourceError), (op.perform.on r).1 = .error e →
    (op.perform.on r).2.schemas = r.schemas ∧ (op.perform.on r).2.classes = r.classes ∧
    (op.perform.on r).2.constraints = r.constraints ∧
    (op = .build → (op.perform.on r).2.isBuilt = false)
  /-- what was registered is found from then on -/
  found : ∀ (op : Operation) (s : ResourceSchema), op.schema? = some s →
    (op.perform.on r).1 = .ok () → ∀ more, ((op.perform.on r).2.after more).find? s.type = some s
  className : ∀ (d : ResourceDeclaration) (s : ResourceSchema), d.schema = .ok s →
    ((Operation.register d).perform.on r).1 = .ok () → ∀ more,
    (((Operation.register d).perform.on r).2.after more).className? (.named s.type) =
      .ok (some d.identity.className)
  kept : ∀ more, (r.after more).Extends r
  sealed : r.isBuilt = true →
    (∀ op : Operation, op.isRegistration = true →
      op.perform.on r = (.error (.schema [.alreadyBuilt]), r)) ∧
    ∀ more, r.after more = r
  schema : ∀ s ∈ r.schemas, r.find? s.type = some s ∧ s.names.Nodup ∧
    (∀ name ∈ s.defaults, ∃ f, s.get? name = some f ∧ f.isAggregate = false) ∧
    (r.isBuilt = true → ∀ ref, ref.type = .ok s.type → (Action.schema ref).on r = (.ok s, r))
  sound : r.isBuilt = true →
    r.Sound ∧ ∃ c : Catalog, Action.catalog.on r = (.ok c, r) ∧ c.registry = r ∧ c.Complete
  builds : r.isBuilt = false → r.Sound →
    Operation.build.perform.on r = (.ok (), { r with isBuilt := true })

theorem on_catalog {r : Registry} (hbuilt : r.isBuilt = true) (hfaults : r.faults = []) :
    Action.catalog.on r = (.ok ⟨r, hbuilt, hfaults⟩, r) := by
  unfold Action.catalog
  rw [Action.on_bind, Action.on_build, if_pos hbuilt]
  dsimp only
  rw [Action.on_get_bind, dif_pos ⟨hbuilt, hfaults⟩]
  rfl

/-- Whatever is done to a registry from the start on, it is as it should be. -/
theorem lifecycle (ops : List Operation) : (Registry.empty.after ops).Lifecycle := by
  have hvalid : (Registry.empty.after ops).Valid := Valid.empty.after ops
  generalize Registry.empty.after ops = r at hvalid
  exact
    { succeeds := fun op => Operation.perform_eq_ok_iff
      stores := fun op => Operation.stores_of_ok
      fails := fun op e he => by
        obtain ⟨isBuilt, hstate, hbuild⟩ := Operation.perform_eq_error he
        rw [hstate]
        exact ⟨rfl, rfl, rfl, hbuild⟩
      found := fun op s => find?_of_registered hvalid
      className := fun d s => className?_of_registered hvalid
      kept := extends_after r
      sealed := fun hbuilt =>
        ⟨fun op => Operation.registration_of_isBuilt hbuilt, after_of_isBuilt hbuilt⟩
      schema := fun s hs => by
        obtain ⟨_, _, _, _, _, hbuild⟩ := hvalid.declared s hs
        refine ⟨hvalid.find?_type hs, ResourceSchema.nodup_names_of_build hbuild,
          fun name => ResourceSchema.default_of_build hbuild, fun hbuilt ref href => ?_⟩
        rw [Action.on_schema, Action.on_build, if_pos hbuilt]
        dsimp only
        rw [href]
        dsimp only
        rw [hvalid.find?_type hs]
      sound := fun hbuilt => by
        have hfaults := hvalid.sound hbuilt
        exact ⟨faults_eq_nil_iff.mp hfaults, ⟨r, hbuilt, hfaults⟩, on_catalog hbuilt hfaults, rfl,
          Catalog.complete _ hvalid⟩
      builds := fun _ hsound => on_build_of_sound (.inr hsound) }

end Registry

namespace Gazette

open Registry

def reporter : ResourceDeclaration where
  identity := ⟨"ReporterResource", none⟩
  fields := some [⟨.scalar, "name", none, []⟩]
  excluded := []
  defaults := some ["name"]
  fixed := []
  model := none

/-- Names its author, who must be an active reporter. -/
def report : ResourceDeclaration where
  identity := ⟨"ReportResource", none⟩
  fields := some [⟨.scalar, "title", none, []⟩,
    ⟨.relation (some (.declared reporter.identity)) none false (some ["name"]) (some "active"),
      "author", none, []⟩]
  excluded := []
  defaults := some ["title", "author"]
  fixed := []
  model := none

def reportSchema : ResourceSchema where
  type := "report"
  fields := [⟨"title", .scalar "title", []⟩,
    ⟨"author", .relation ⟨"author", some "reporter", none, some ["name"], some "active", false⟩, []⟩]
  defaults := ["title", "author"]
  fixed := []
  model := none

def isActive : Constraint := .comparing "state" .equal (.text "active")

def complete : List Operation :=
  [.register report, .registerConstraint "active" isActive, .register reporter]

/-- A report is registered before the reporters are. It is found from then on, registered once, and
without the reporters the registry is not built. -/
theorem reports_registered :
    (Registry.empty.after complete).types = ["report", "reporter"] ∧
    (∀ more, (Registry.empty.after (complete ++ more)).find? "report" = some reportSchema) ∧
    ((Operation.register report).perform.on (Registry.empty.after complete)).1 =
      .error (.schema [.registeredTwice "report"]) ∧
    (∃ e, (Operation.build.perform.on (Registry.empty.after [.register report])).1 = .error e) ∧
    (Registry.empty.after (complete ++ [.build])).Sound ∧
    ∀ more, Registry.empty.after (complete ++ .build :: more) =
      Registry.empty.after (complete ++ [.build]) := by
  refine ⟨rfl, fun more => ?_, rfl, ?_, ?_, ?_⟩
  · exact (Registry.lifecycle []).found (.register report) reportSchema rfl rfl
      (complete.tail ++ more)
  · exact ⟨_, rfl⟩
  · exact ((Registry.lifecycle (complete ++ [.build])).sound rfl).1
  · exact ((Registry.lifecycle (complete ++ [.build])).sealed rfl).2

end Gazette
end FieldPlan
