import FieldPlan.Service
/-!
# Plans by look-ups

How a plan is compiled when every resource is looked up by its type, and every default by its name,
at the moment it is needed: each look-up may find nothing. `Service.compile` is the same without
these failures, which a catalog rules out.
-/
namespace FieldPlan

def ResourceSchema.lookUp (s : ResourceSchema) (name : String) : Except ServiceError Field :=
  match s.get? name with
  | some f => .ok f
  | none => .error (.undeclared s.type name)

namespace Catalog

def lookUp (c : Catalog) (type : String) : Except ServiceError ResourceSchema :=
  (c.schema type).mapError .resource

def lookUpColumn (c : Catalog) (r : RelationField) (accessor : String) :
    Except ServiceError String :=
  match r.target with
  | none => .ok accessor
  | some t => do
    let s ← c.lookUp t
    return (((s.get? accessor).bind Field.source?).filter (· != "")).getD accessor

def lookUpDefaults (c : Catalog) (type : String) : Except ServiceError (List String) := do
  let s ← c.lookUp type
  let fields ← s.defaults.mapM s.lookUp
  return unique (fields.filterMap Field.column?)

/-- The load of a relation met below these ancestors. -/
def lookUpLoad (c : Catalog) (ancestors : List String) (r : RelationField) :
    Except ServiceError RelationLoad :=
  let base : RelationLoad := { resource := r.target, constraint := r.constraint, many := r.many }
  match r.accessor, r.target with
  | some accessor, _ => do return { base with columns := some [← c.lookUpColumn r accessor] }
  | none, none => .ok base
  | none, some t =>
    if t ∈ ancestors then do
      return { base with columns := some (← c.lookUpDefaults t), cyclic := true }
    else .ok base

/-- What a field adds at a path beside its extras. -/
def lookUpContributions (c : Catalog) (ancestors : List String) (path : String) (f : Field) :
    Except ServiceError (List Contribution) :=
  match f.body with
  | .relation r => do
    return [.load (joinPath path r.source) (← c.lookUpLoad ancestors r)]
  | .aggregate a => .ok [.aggregate (joinPath path f.name) (a.load path)]
  | _ => .ok []

/-- The resource that a field leads on to. -/
def lookUpChild (c : Catalog) (ancestors : List String) (f : Field) :
    Except ServiceError
      (Option { s : ResourceSchema // s.type ∈ c.types ∧ s.type ∉ ancestors }) :=
  match f.embedded? with
  | none => .ok none
  | some t =>
    if t ∈ ancestors then .ok none
    else (c.lookUp t).map fun _ => c.child? ancestors f

/-- The types that the relations of the registered resources embed. -/
def embedded (c : Catalog) : List String :=
  c.registry.schemas.flatMap fun s => s.fields.filterMap Field.embedded?

/-- The types that a resource adds to those seen. -/
def unseen (root : String) (seen : List String) (s : ResourceSchema) : List String :=
  unique ((s.fields.filterMap Field.embedded?).filter fun t => t ≠ root ∧ t ∉ seen)

theorem mem_unseen {root : String} {seen : List String} {s : ResourceSchema} {t : String} :
    t ∈ unseen root seen s ↔ t ∈ s.fields.filterMap Field.embedded? ∧ t ≠ root ∧ t ∉ seen := by
  simp [unseen, unique]

theorem length_filter_notMem_lt {types seen more : List String} {t : String} (ht : t ∈ types)
    (hseen : t ∉ seen) (hmore : t ∈ more) :
    (types.filter (· ∉ more ++ seen)).length < (types.filter (· ∉ seen)).length := by
  have hfilter : types.filter (· ∉ more ++ seen) =
      (types.filter (· ∉ seen)).filter (· ∉ more) := by
    rw [List.filter_filter]
    refine List.filter_congr fun u _ => ?_
    simp [not_or]
  rw [hfilter]
  exact List.length_filter_lt_length_iff_exists.mpr ⟨t, by simp [ht, hseen], by simp [hmore]⟩

/-- All types that can be reached from those seen and those pending. -/
def lookUpReach (c : Catalog) (root : String) (seen : List String) :
    List String → Except ServiceError (List String)
  | [] => .ok seen
  | type :: pending =>
    match _hs : c.find? type with
    | none => .error (.resource (.unregistered type))
    | some s =>
      match _hnew : unseen root seen s with
      | [] => c.lookUpReach root seen pending
      | t :: ts => c.lookUpReach root (t :: ts ++ seen) (t :: ts ++ pending)
termination_by pending => ((c.embedded.filter (· ∉ seen)).length, pending.length)
decreasing_by
  · exact Prod.Lex.right _ (by simp)
  · apply Prod.Lex.left
    have ht := mem_unseen.mp (_hnew ▸ List.mem_cons_self : t ∈ unseen root seen s)
    have hembedded : t ∈ c.embedded :=
      List.mem_flatMap.mpr ⟨s, List.mem_of_find?_eq_some _hs, ht.1⟩
    exact length_filter_notMem_lt hembedded ht.2.2 List.mem_cons_self

def lookUpReachable (c : Catalog) (root : String) : Except ServiceError (List String) :=
  c.lookUpReach root [] [root]

end Catalog

namespace Walk

/-- Adds to a plan what the named fields of a resource need at a path below these ancestors. -/
def visitByLookUp (w : Walk) (ancestors : List String) (s : ResourceSchema) (path : String) :
    List String → LoadPlan → Work LoadPlan
  | [], p => .pure p
  | name :: rest, p =>
    match s.get? name with
    | none => w.visitByLookUp ancestors s path rest p
    | some f =>
      let extras := f.extras.map fun extra => Contribution.load (joinPath path extra) {}
      .bind (Work.ofPlan (p.addAll w.maxDepth extras)) fun p =>
        .bind (.ofExcept (w.catalog.lookUpContributions ancestors path f)) fun cs =>
          .bind (Work.ofPlan (p.addAll w.maxDepth cs)) fun p =>
            .bind (.ofExcept (w.catalog.lookUpChild ancestors f)) fun child =>
              match child with
              | none => w.visitByLookUp ancestors s path rest p
              | some child =>
                .bind (w.childFields f child.1.type) fun names =>
                  .bind (w.visitByLookUp (child.1.type :: ancestors) child.1
                      (joinPath path (f.source?.getD "")) names p) fun p =>
                    w.visitByLookUp ancestors s path rest p
termination_by names => ((w.catalog.unvisited ancestors).length, names.length)
decreasing_by
  · exact Prod.Lex.right _ (by simp)
  · exact Prod.Lex.right _ (by simp)
  · exact Prod.Lex.left _ _ (Catalog.length_unvisited_cons child.2.1 child.2.2)
  · exact Prod.Lex.right _ (by simp)

def buildByLookUp (w : Walk) (type : String) (names : List String) : Work LoadPlan :=
  .bind (.ofExcept (w.catalog.lookUp type)) fun s =>
    .bind (w.visitByLookUp [type] s "" names .empty) fun p => .pure p.sorted

end Walk

namespace Service

variable [Room]

/-- The fields to show of a resource; the fixed ones are looked up while they are computed. -/
def resolveDataByLookUp (s : Service) (r : ResourceSchema) (requested : Option (List String))
    (excluded : List String) : Work (List Json) :=
  let names (found : ResourceSchema) : Json := Json.ofStrings
    ({ r with fixed := found.fixed }.resolve s.settings (requested.map r.knownRequest)
      (r.knownExclusions excluded))
  .bind (Work.cachedData (s.resolutionKey r requested excluded)
    (.bind (.ofExcept (s.catalog.lookUp r.type)) fun found => .pure (names found))) Work.members

def resolveByLookUp (s : Service) (r : ResourceSchema) (requested : Option (List String))
    (excluded : List String) : Work (List String) :=
  .bind (s.resolveDataByLookUp r requested excluded) Work.names

def defaultsByLookUp (s : Service) (type : String) : Work (List String) :=
  .bind (.ofExcept (s.catalog.lookUp type)) fun r => s.resolveByLookUp r none []

/-- The fields requested of one child, unless they are its defaults. -/
def childByLookUp (s : Service) (type : String) (requested : Option (List String)) :
    Work (Option (List String)) :=
  .bind (.ofExcept (s.catalog.lookUp type)) fun r =>
    .bind (.bind (s.resolveDataByLookUp r requested []) Work.sortedNames) fun chosen =>
      .bind (.bind (s.resolveDataByLookUp r none []) Work.sortedNames) fun defaults =>
        .pure (if chosen = defaults then none else some chosen)

/-- The requests for these types that do not come down to the defaults. -/
def resolveAmong (s : Service) (reachable : List String) :
    Entries (Option (List String)) → Work Selection
  | [] => .pure []
  | (type, requested) :: rest =>
    if type ∈ reachable then
      .bind (s.childByLookUp type requested) fun chosen =>
        .bind (s.resolveAmong reachable rest) fun others =>
          .pure ((chosen.map fun names => (type, names)).toList ++ others)
    else s.resolveAmong reachable rest

def compileByLookUp (s : Service) (r : ResourceSchema) (fields : List String)
    (nested : Entries (Option (List String))) : Work LoadPlan :=
  let names := plannedFields r fields
  .bind (.ofExcept (s.catalog.lookUpReachable r.type)) fun reachable =>
    .bind (s.resolveAmong reachable nested) fun nested =>
      let nested := nested.sorted
      let walk : Walk := { s.walk nested with defaults := s.defaultsByLookUp }
      Work.cachedPlan (s.planKey r names nested) (walk.buildByLookUp r.type names)

end Service
end FieldPlan
