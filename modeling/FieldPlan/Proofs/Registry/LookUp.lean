import FieldPlan.LookUp
import FieldPlan.Proofs.Plan.Reach
import FieldPlan.Proofs.Registry.Lifecycle
/-!
# Look-ups in a built registry

In a catalog whose schemas come from declarations every look-up of the planner finds something: it
leads to a target, which is registered, or to a default, which is declared. So compiling a plan by
look-ups is compiling it, and neither resolving nor compiling fails for want of a schema or a field.
-/
namespace FieldPlan

theorem ResourceSchema.mapM_lookUp {s : ResourceSchema} {names : List String}
    (h : ∀ name ∈ names, ∃ f, s.get? name = some f) :
    names.mapM s.lookUp = .ok (names.filterMap s.get?) := by
  induction names with
  | nil => rfl
  | cons name rest ih =>
    obtain ⟨f, hf⟩ := h name List.mem_cons_self
    have hname : s.lookUp name = .ok f := by
      rw [lookUp, hf]
    rw [List.mapM_cons, hname, ih fun n hn => h n (List.mem_cons_of_mem _ hn),
      List.filterMap_cons, hf]
    rfl

namespace Catalog

variable {c : Catalog} {ancestors : List String}

theorem lookUp_eq {t : String} {s : ResourceSchema} (h : c.find? t = some s) :
    c.lookUp t = .ok s := by
  rw [lookUp, schema_of_find? h]
  rfl

theorem sound (c : Catalog) : c.registry.Sound := Registry.faults_eq_nil_iff.mp c.faults_eq_nil

theorem lookUpColumn_eq {rel : RelationField} (h : ∀ t, rel.target = some t → t ∈ c.types)
    (accessor : String) : c.lookUpColumn rel accessor = .ok (c.accessorColumn rel accessor) := by
  unfold lookUpColumn accessorColumn
  cases htarget : rel.target with
  | none => rfl
  | some t =>
    obtain ⟨s, hs⟩ := exists_of_mem_types (h t htarget)
    dsimp only [Option.bind_some]
    rw [lookUp_eq hs, hs]
    rfl

theorem lookUpDefaults_eq (hvalid : c.registry.Valid) {t : String} (h : t ∈ c.types) :
    c.lookUpDefaults t = .ok (c.defaultColumns t) := by
  obtain ⟨s, hs⟩ := exists_of_mem_types h
  obtain ⟨_, _, _, _, _, hbuild⟩ := hvalid.declared s (List.mem_of_find?_eq_some hs)
  have hdeclared : ∀ name ∈ s.defaults, ∃ f, s.get? name = some f := by
    intro name hname
    obtain ⟨f, hf, -⟩ := ResourceSchema.default_of_build hbuild hname
    exact ⟨f, hf⟩
  unfold lookUpDefaults defaultColumns
  rw [lookUp_eq hs, hs]
  show (s.defaults.mapM s.lookUp >>= _) = _
  rw [ResourceSchema.mapM_lookUp hdeclared]
  show Except.ok (unique ((s.defaults.filterMap s.get?).filterMap Field.column?)) = _
  rw [List.filterMap_filterMap]

theorem lookUpLoad_eq (hvalid : c.registry.Valid) {rel : RelationField}
    (h : ∀ t, rel.target = some t → t ∈ c.types) :
    c.lookUpLoad ancestors rel = .ok (c.relationLoad ancestors rel) := by
  unfold lookUpLoad relationLoad
  cases haccessor : rel.accessor with
  | some accessor =>
    dsimp only
    rw [lookUpColumn_eq h]
    rfl
  | none =>
    cases htarget : rel.target with
    | none => rfl
    | some t =>
      dsimp only
      by_cases habove : t ∈ ancestors
      · rw [if_pos habove, if_pos habove, lookUpDefaults_eq hvalid (h t htarget)]
        rfl
      · rw [if_neg habove, if_neg habove]

theorem lookUpContributions_eq (hvalid : c.registry.Valid) {f : Field}
    (h : ∀ rel, f.body = .relation rel → ∀ t, rel.target = some t → t ∈ c.types)
    (ancestors : List String) (path : String) :
    ∃ cs, c.lookUpContributions ancestors path f = .ok cs ∧
      c.contributions ancestors path f =
        (f.extras.map fun extra => .load (joinPath path extra) {}) ++ cs := by
  unfold lookUpContributions contributions
  cases hbody : f.body with
  | relation rel =>
    dsimp only
    rw [lookUpLoad_eq hvalid (h rel hbody)]
    exact ⟨_, rfl, rfl⟩
  | aggregate a => exact ⟨_, rfl, rfl⟩
  | _ => exact ⟨_, rfl, rfl⟩

theorem lookUpChild_eq {f : Field} (h : ∀ t, f.embedded? = some t → t ∈ c.types) :
    c.lookUpChild ancestors f = .ok (c.child? ancestors f) := by
  unfold lookUpChild
  cases hembedded : f.embedded? with
  | none =>
    rw [child?, hembedded]
  | some t =>
    dsimp only
    by_cases habove : t ∈ ancestors
    · rw [if_pos habove]
      cases hchild : c.child? ancestors f with
      | none => rfl
      | some child =>
        obtain ⟨rel, hbody, haccessor, htarget, -⟩ := child?_eq_some.mp hchild
        have hsame := Field.embedded?_eq_some.mpr ⟨rel, hbody, haccessor, htarget⟩
        obtain rfl := Option.some.inj (hembedded.symm.trans hsame)
        exact absurd habove child.2.2
    · obtain ⟨s, hs⟩ := exists_of_mem_types (h t hembedded)
      rw [if_neg habove, lookUp_eq hs]
      rfl

theorem mem_types_of_embedded {s : ResourceSchema} (hs : s ∈ c.registry.schemas) {t : String}
    (ht : t ∈ s.fields.filterMap Field.embedded?) : t ∈ c.types := by
  obtain ⟨f, hf, hembedded⟩ := List.mem_filterMap.mp ht
  obtain ⟨rel, hbody, -, htarget⟩ := Field.embedded?_eq_some.mp hembedded
  exact c.sound.target s hs f hf rel hbody t htarget

theorem unseen_eq {s : ResourceSchema} {t : String} (hs : c.find? t = some s) (root : String)
    (seen : List String) : unseen root seen s = c.newTargets root seen t := by
  unfold unseen newTargets targets
  rw [hs]
  refine congrArg unique (List.filter_congr fun u hu => ?_)
  have htypes := mem_types_of_embedded (List.mem_of_find?_eq_some hs) hu
  simp [htypes]

theorem lookUpReach_eq (root : String) (seen pending : List String)
    (h : ∀ t ∈ pending, t ∈ c.types) :
    c.lookUpReach root seen pending = .ok (c.reach root seen pending) := by
  fun_induction Catalog.reach c root seen pending with
  | case1 seen => rw [lookUpReach]
  | case2 seen type pending hnew ih =>
    obtain ⟨s, hs⟩ := exists_of_mem_types (h type List.mem_cons_self)
    rw [← unseen_eq hs] at hnew
    rw [lookUpReach, ← ih fun t ht => h t (List.mem_cons_of_mem _ ht)]
    split
    · next hnone =>
      rw [hs] at hnone
      cases hnone
    · next s' hs' =>
      rw [hs] at hs'
      obtain rfl := Option.some.inj hs'
      split
      · rfl
      · next hsome =>
        rw [hnew] at hsome
        cases hsome
  | case3 seen type pending t ts hnew ih =>
    obtain ⟨s, hs⟩ := exists_of_mem_types (h type List.mem_cons_self)
    have hnext : ∀ u ∈ t :: ts ++ pending, u ∈ c.types := by
      intro u hu
      rcases List.mem_append.mp hu with hu | hu
      · exact (mem_newTargets.mp (hnew ▸ hu)).2.1
      · exact h u (List.mem_cons_of_mem _ hu)
    rw [← unseen_eq hs] at hnew
    rw [lookUpReach, ← ih hnext]
    split
    · next hnone =>
      rw [hs] at hnone
      cases hnone
    · next s' hs' =>
      rw [hs] at hs'
      obtain rfl := Option.some.inj hs'
      split
      · next hnone =>
        rw [hnew] at hnone
        cases hnone
      · next t' ts' hsome =>
        rw [hnew] at hsome
        obtain ⟨rfl, rfl⟩ := List.cons.inj hsome
        rfl

theorem lookUpReachable_eq {root : String} (h : root ∈ c.types) :
    c.lookUpReachable root = .ok (c.reachable root) :=
  lookUpReach_eq root [] [root] fun _ ht => List.mem_singleton.mp ht ▸ h

end Catalog

theorem LoadPlan.bind_addAll (maxDepth : Nat) (p : LoadPlan) (cs ds : List Contribution)
    (f : LoadPlan → Work LoadPlan) :
    Cache.Task.bind (Work.ofPlan (p.addAll maxDepth (cs ++ ds))) f =
      .bind (Work.ofPlan (p.addAll maxDepth cs)) fun q =>
        .bind (Work.ofPlan (q.addAll maxDepth ds)) f := by
  rw [addAll_append]
  cases p.addAll maxDepth cs with
  | error e => rfl
  | ok q => rfl

/-- In a catalog of declared schemas the walk by look-ups is the walk. -/
theorem Walk.visitByLookUp_eq {w : Walk} (hvalid : w.catalog.registry.Valid)
    (ancestors : List String) {s : ResourceSchema} (hs : s ∈ w.catalog.registry.schemas)
    (path : String) (names : List String) (p : LoadPlan) :
    w.visitByLookUp ancestors s path names p = w.visit ancestors s path names p := by
  fun_induction Walk.visit w ancestors s path names p with
  | case1 => rw [visitByLookUp]
  | case2 ancestors s path name rest p hget ih =>
    rw [visitByLookUp, hget]
    exact ih hs
  | case3 ancestors s path name rest p f hget ihrest ihchild =>
    have hf : f ∈ s.fields := List.mem_of_find?_eq_some hget
    have htarget := w.catalog.sound.target s hs f hf
    obtain ⟨cs, hcs, hcontributions⟩ :=
      Catalog.lookUpContributions_eq hvalid htarget ancestors path
    have hchild : w.catalog.lookUpChild ancestors f = .ok (w.catalog.child? ancestors f) := by
      refine Catalog.lookUpChild_eq fun t ht => ?_
      obtain ⟨rel, hbody, -, hrel⟩ := Field.embedded?_eq_some.mp ht
      exact htarget rel hbody t hrel
    rw [visitByLookUp, hget]
    dsimp only
    rw [hcontributions, LoadPlan.bind_addAll, hcs, hchild]
    refine congrArg (Cache.Task.bind _) (funext fun p => ?_)
    show Cache.Task.bind (Work.ofPlan (p.addAll w.maxDepth cs)) _ = _
    refine congrArg (Cache.Task.bind _) (funext fun q => ?_)
    cases hnext : w.catalog.child? ancestors f with
    | none => exact ihrest q hs
    | some child =>
      obtain ⟨rel, -, -, -, hfind⟩ := Catalog.child?_eq_some.mp hnext
      show Cache.Task.bind (w.childFields f child.1.type) _ = .bind (w.childFields f child.1.type) _
      refine congrArg (Cache.Task.bind _) (funext fun names => ?_)
      rw [ihchild q child names (List.mem_of_find?_eq_some hfind)]
      exact congrArg (Cache.Task.bind _) (funext fun q => ihrest q hs)

namespace Service

variable {s : Service}

variable [Room]

theorem resolveDataByLookUp_eq {r : ResourceSchema} (h : s.catalog.find? r.type = some r)
    (requested : Option (List String)) (excluded : List String) :
    s.resolveDataByLookUp r requested excluded = s.resolveData r requested excluded := by
  unfold resolveDataByLookUp
  rw [Catalog.lookUp_eq h]
  rfl

theorem resolveByLookUp_eq {r : ResourceSchema} (h : s.catalog.find? r.type = some r)
    (requested : Option (List String)) (excluded : List String) :
    s.resolveByLookUp r requested excluded = s.resolve r requested excluded := by
  rw [resolveByLookUp, resolveDataByLookUp_eq h]
  rfl

theorem defaultsByLookUp_eq (type : String) : s.defaultsByLookUp type = s.defaultsOf type := by
  unfold defaultsByLookUp defaultsOf Catalog.lookUp Catalog.schema
  cases hfind : s.catalog.find? type with
  | none => rfl
  | some r =>
    have hr : s.catalog.find? r.type = some r := Catalog.type_of_find? hfind ▸ hfind
    exact resolveByLookUp_eq hr none []

theorem childByLookUp_eq (type : String) (requested : Option (List String)) :
    s.childByLookUp type requested = s.childSelection type requested := by
  unfold childByLookUp childSelection Catalog.lookUp Catalog.schema
  cases hfind : s.catalog.find? type with
  | none => rfl
  | some r =>
    have hr : s.catalog.find? r.type = some r := Catalog.type_of_find? hfind ▸ hfind
    show Cache.Task.bind (.bind (s.resolveDataByLookUp r requested []) _) _ = _
    rw [resolveDataByLookUp_eq hr, resolveDataByLookUp_eq hr]
    rfl

theorem resolveAmong_reachable (root : String) (nested : Entries (Option (List String))) :
    s.resolveAmong (s.catalog.reachable root) nested = s.resolveNested root nested := by
  induction nested with
  | nil => rfl
  | cons e rest ih => rw [resolveAmong, resolveNested, childByLookUp_eq, ih]

theorem walkByLookUp_eq (nested : Selection) :
    { s.walk nested with defaults := s.defaultsByLookUp } = s.walk nested := by
  rw [funext s.defaultsByLookUp_eq]
  rfl

theorem compileByLookUp_eq (hvalid : s.catalog.registry.Valid) {r : ResourceSchema}
    (hr : r ∈ s.catalog.registry.schemas) (fields : List String)
    (nested : Entries (Option (List String))) :
    s.compileByLookUp r fields nested = s.compile r fields nested := by
  have hfind : s.catalog.find? r.type = some r := hvalid.find?_type hr
  have hbuild (nested : Selection) (names : List String) :
      (s.walk nested).buildByLookUp r.type names = (s.walk nested).build r names := by
    have hroot : (s.walk nested).catalog.lookUp r.type = .ok r := Catalog.lookUp_eq hfind
    have hvisit := Walk.visitByLookUp_eq (w := s.walk nested) hvalid [r.type] hr "" names .empty
    rw [Walk.buildByLookUp, hroot]
    show Cache.Task.bind ((s.walk nested).visitByLookUp [r.type] r "" names .empty) _ = _
    rw [hvisit]
    rfl
  unfold compileByLookUp compile
  rw [Catalog.lookUpReachable_eq (Catalog.mem_types_of_find? hfind)]
  show Cache.Task.bind (s.resolveAmong _ nested) _ = _
  rw [resolveAmong_reachable]
  refine congrArg (Cache.Task.bind _) (funext fun chosen => ?_)
  dsimp only
  rw [walkByLookUp_eq, hbuild]

end Service
end FieldPlan
