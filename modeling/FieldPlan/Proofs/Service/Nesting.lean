import FieldPlan.Proofs.Plan.Bracketing
import FieldPlan.Proofs.Plan.Nesting
import FieldPlan.Proofs.Service.Rules
/-!
# How plans nest

A relation path goes from a resource through relations to other resources, each of a type that has
not been met on the way. So it is no longer than there are registered types, however these refer to
each other, and ends where a type is met again.
-/
namespace FieldPlan

/-- The relationships behind relation fields have names, without dots. -/
def Catalog.PlainSources (c : Catalog) : Prop :=
  ∀ r ∈ c.registry.schemas, ∀ f ∈ r.fields, ∀ rel ∈ f.relation?, IsSegment rel.source

instance (c : Catalog) : Decidable c.PlainSources :=
  inferInstanceAs (Decidable
    (∀ r ∈ c.registry.schemas, ∀ f ∈ r.fields, ∀ rel ∈ f.relation?, IsSegment rel.source))

theorem Catalog.PlainSources.isSegment {c : Catalog} (h : c.PlainSources) {r : ResourceSchema}
    (hr : c.find? r.type = some r) {name : String} {f : Field} (hfield : r.get? name = some f)
    {rel : RelationField} (hbody : f.body = .relation rel) : IsSegment rel.source := by
  refine h r (List.mem_of_find?_eq_some hr) f (List.mem_of_find?_eq_some hfield) rel ?_
  rw [Field.relation?, hbody]
  rfl

theorem RelationLoad.Sums.resource_eq {m l : RelationLoad} {P : RelationLoad → Prop} {t : String}
    (h : m.Sums P) (hnamed : ∀ k, P k → k.resource ≠ some "") (hl : P l)
    (ht : l.resource = some t) : m.resource = some t := by
  have hgiven := (h.resource t).mpr ⟨l, hl, by rw [given_eq_self (hnamed l hl), ht]⟩
  rwa [h.given_resource hnamed] at hgiven

namespace LoadPlan

theorem exists_of_tooDeep {maxDepth limit : Nat} {p : LoadPlan} {cs : List Contribution}
    {path : String} (h : p.addAll maxDepth cs = .error (.tooDeep path limit)) :
    ∃ l, .load path l ∈ cs ∧ maxDepth < pathDepth path := by
  induction cs generalizing p with
  | nil => cases h
  | cons c cs ih =>
    rw [addAll_cons] at h
    cases hadd : p.add maxDepth c with
    | ok q =>
      rw [hadd] at h
      obtain ⟨l, hl, hdeep⟩ := ih h
      exact ⟨l, List.mem_cons_of_mem c hl, hdeep⟩
    | error e =>
      rw [hadd] at h
      obtain rfl := Except.error.inj h
      cases c with
      | aggregate key a => cases hadd
      | load place l =>
        simp only [add, addLoad] at hadd
        split at hadd
        · next hdeep =>
          obtain ⟨rfl, -⟩ := PlanError.tooDeep.inj (Except.error.inj hadd)
          exact ⟨l, List.mem_cons_self, hdeep⟩
        · split at hadd
          · cases hadd
          · next there _ =>
            cases hmerge : there.merge l place with
            | ok m => rw [hmerge] at hadd; cases hadd
            | error e =>
              rw [hmerge] at hadd
              obtain rfl := Except.error.inj hadd
              obtain ⟨x, y, hconflict | hconflict⟩ := RelationLoad.merge_error hmerge
              · cases hconflict
              · cases hconflict

end LoadPlan

namespace Service

/-- The relation paths: through which sources the named fields of a resource below these ancestors
lead to which targets, and what the last relation loads. -/
inductive Relates (s : Service) (nested : Selection) :
    List String → ResourceSchema → List String → List String → List String → RelationLoad →
      Prop where
  /-- every relation loads what it relates to -/
  | here {ancestors : List String} {r : ResourceSchema} {names : List String} {name : String}
      {f : Field} {rel : RelationField} (hname : name ∈ names) (hfield : r.get? name = some f)
      (hbody : f.body = .relation rel) :
      Relates s nested ancestors r names [rel.source] [] (s.catalog.relationLoad ancestors rel)
  /-- a relation that embeds a resource not met before leads on to the fields of that resource -/
  | through {ancestors : List String} {r : ResourceSchema} {names : List String} {name : String}
      {f : Field} {rel : RelationField} {target : String} {child : ResourceSchema}
      {sources targets : List String} {l : RelationLoad} (hname : name ∈ names)
      (hfield : r.get? name = some f) (hbody : f.body = .relation rel)
      (haccessor : rel.accessor = none) (htarget : rel.target = some target)
      (hbelow : target ∉ ancestors) (hchild : s.catalog.find? target = some child)
      (hrest : Relates s nested (target :: ancestors) child
        ((rel.pinned.or (nested.get? target)).getD (s.defaultFields target)) sources targets l) :
      Relates s nested ancestors r names (rel.source :: sources) (target :: targets) l

variable {s : Service} {nested : Selection} {ancestors : List String} {r : ResourceSchema}
  {names sources targets : List String} {path : String} {l : RelationLoad}

theorem Relates.length_sources (h : s.Relates nested ancestors r names sources targets l) :
    sources.length = targets.length + 1 := by
  induction h with
  | here => rfl
  | through _ _ _ _ _ _ _ _ ih => rw [List.length_cons, ih, List.length_cons]

theorem Relates.isSegment (hplain : s.catalog.PlainSources) (hr : s.catalog.find? r.type = some r)
    (h : s.Relates nested ancestors r names sources targets l) : ∀ n ∈ sources, IsSegment n := by
  induction h with
  | here _ hfield hbody =>
    intro n hn
    exact List.mem_singleton.mp hn ▸ hplain.isSegment hr hfield hbody
  | through _ hfield hbody _ _ _ hchild _ ih =>
    have htype := Catalog.type_of_find? hchild
    exact List.forall_mem_cons.mpr
      ⟨hplain.isSegment hr hfield hbody, ih (htype.symm ▸ hchild)⟩

/-- What a relation path loads is contributed at the path that joins its sources. -/
theorem Relates.contributes (h : s.Relates nested ancestors r names sources targets l)
    (path : String) :
    s.Contributes nested ancestors r path names (sources.foldl joinPath path) l := by
  induction h generalizing path with
  | here hname hfield hbody =>
    refine contributes_of_mem_collect (Catalog.mem_collect.mpr ⟨_, hname, _, hfield, .inl ?_⟩)
    exact Catalog.load_mem_contributions.mpr (.inr ⟨_, hbody, rfl, rfl⟩)
  | through hname hfield hbody haccessor htarget hbelow hchild _ ih =>
    exact .deeper hname hfield hbody haccessor htarget hbelow hchild (ih _)

/-- Whatever is contributed comes along a relation path, unless it is an extra. -/
theorem Contributes.relates_or_extra {place : String}
    (h : s.Contributes nested ancestors r path names place l)
    (hr : s.catalog.find? r.type = some r) :
    (∃ sources targets, s.Relates nested ancestors r names sources targets l ∧
        place = sources.foldl joinPath path) ∨
      l = {} ∧ ∃ r' ∈ s.catalog.registry.schemas, ∃ f ∈ r'.fields, f.extras ≠ [] := by
  have hhere {ancestors : List String} {r : ResourceSchema} {path : String} {names : List String}
      {name : String} {f : Field} {rel : RelationField} (hname : name ∈ names)
      (hfield : r.get? name = some f) (hbody : f.body = .relation rel) {l : RelationLoad}
      (hl : s.catalog.relationLoad ancestors rel = l) :
      ∃ sources targets, s.Relates nested ancestors r names sources targets l ∧
        joinPath path rel.source = sources.foldl joinPath path :=
    ⟨[rel.source], [], hl ▸ .here hname hfield hbody, rfl⟩
  induction h with
  | extra _ hfield hextra =>
    refine .inr ⟨rfl, _, List.mem_of_find?_eq_some hr, _, List.mem_of_find?_eq_some hfield, ?_⟩
    exact List.ne_nil_of_mem hextra
  | accessor hname hfield hbody haccessor =>
    exact .inl (hhere hname hfield hbody (by simp [Catalog.relationLoad, haccessor]))
  | untargeted hname hfield hbody haccessor htarget =>
    exact .inl (hhere hname hfield hbody (by simp [Catalog.relationLoad, haccessor, htarget]))
  | cyclic hname hfield hbody haccessor htarget habove =>
    exact .inl (hhere hname hfield hbody
      (by simp [Catalog.relationLoad, haccessor, htarget, habove]))
  | full hname hfield hbody haccessor htarget hbelow =>
    exact .inl (hhere hname hfield hbody
      (by simp [Catalog.relationLoad, haccessor, htarget, hbelow]))
  | deeper hname hfield hbody haccessor htarget hbelow hchild _ ih =>
    have htype := Catalog.type_of_find? hchild
    rcases ih (htype.symm ▸ hchild) with ⟨sources, targets, hrest, hplace⟩ | hextra
    · exact .inl ⟨_, _, .through hname hfield hbody haccessor htarget hbelow hchild hrest, hplace⟩
    · exact .inr hextra

theorem Relates.nodup (h : s.Relates nested ancestors r names sources targets l)
    (hdistinct : ancestors.Nodup) : (targets.reverse ++ ancestors).Nodup := by
  induction h with
  | here => simpa using hdistinct
  | through _ _ _ _ _ hbelow _ _ ih =>
    have hrest := ih (List.nodup_cons.mpr ⟨hbelow, hdistinct⟩)
    rwa [List.reverse_cons, List.append_assoc, List.singleton_append]

theorem Relates.targets_registered (h : s.Relates nested ancestors r names sources targets l) :
    ∀ t ∈ targets, t ∈ s.catalog.types := by
  induction h with
  | here => exact fun _ ht => nomatch ht
  | through _ _ _ _ _ _ hchild _ ih =>
    exact List.forall_mem_cons.mpr ⟨Catalog.mem_types_of_find? hchild, ih⟩

theorem Relates.distinct (h : s.Relates nested [r.type] r names sources targets l) :
    (r.type :: targets).Nodup := by
  have hnodup := h.nodup (List.nodup_cons.mpr ⟨List.not_mem_nil, List.nodup_nil⟩)
  have hperm : (targets.reverse ++ [r.type]).Perm (r.type :: targets) :=
    List.perm_append_comm.trans ((List.reverse_perm targets).cons r.type)
  exact hperm.nodup_iff.mp hnodup

theorem Relates.registered (h : s.Relates nested [r.type] r names sources targets l)
    (hr : s.catalog.find? r.type = some r) : ∀ t ∈ r.type :: targets, t ∈ s.catalog.types :=
  List.forall_mem_cons.mpr ⟨Catalog.mem_types_of_find? hr, h.targets_registered⟩

/-- There are no more relations on a path than there are types. -/
theorem Relates.length_le_size (h : s.Relates nested [r.type] r names sources targets l)
    (hr : s.catalog.find? r.type = some r) : sources.length ≤ s.catalog.size := by
  rw [h.length_sources]
  exact Catalog.length_le_size h.distinct (h.registered hr)

theorem Relates.above (h : s.Relates nested ancestors r names sources targets l) {i : Nat}
    (hi : i < targets.length) :
    ∃ k, s.Relates nested ancestors r names (sources.take (i + 1)) (targets.take i) k ∧
      k.resource = some targets[i] ∧ k.columns = none ∧ k.cyclic = false := by
  induction h generalizing i with
  | here => exact absurd hi (Nat.not_lt_zero i)
  | @through ancestors _ _ _ _ rel _ _ _ _ _ hname hfield hbody haccessor htarget hbelow hchild _
      ih =>
    cases i with
    | zero =>
      refine ⟨s.catalog.relationLoad ancestors rel, .here hname hfield hbody, ?_⟩
      simp [Catalog.relationLoad, haccessor, htarget, hbelow]
    | succ i =>
      obtain ⟨k, hk, hload⟩ := ih (Nat.lt_of_succ_lt_succ hi)
      exact ⟨k, .through hname hfield hbody haccessor htarget hbelow hchild hk, hload⟩

theorem Relates.of_cyclic (h : s.Relates nested ancestors r names sources targets l)
    (hcyclic : l.cyclic = true) :
    l.columns ≠ none ∧ ∃ t, (t ∈ targets ∨ t ∈ ancestors) ∧ l.resource = some t := by
  induction h with
  | here =>
    obtain ⟨hcolumns, t, ht, hresource⟩ := Catalog.relationLoad_of_cyclic hcyclic
    exact ⟨hcolumns, t, .inr ht, hresource⟩
  | through _ _ _ _ _ _ _ _ ih =>
    obtain ⟨hcolumns, t, ht, hresource⟩ := ih hcyclic
    refine ⟨hcolumns, t, ?_, hresource⟩
    rw [List.mem_cons] at ht ⊢
    tauto

/-- The relation paths that compiling the given fields of a resource follows. -/
def RelationPath (s : Service) (r : ResourceSchema) (fields : List String)
    (requests : Entries (Option (List String))) : List String → List String → RelationLoad → Prop :=
  s.Relates (s.chosenNested r.type requests).sorted [r.type] r (plannedFields r fields)

/-- A plan loads what stands on a relation path in full, and each time of another type. -/
structure NestsAlong (s : Service) (p : LoadPlan) (root : String) (sources targets : List String) :
    Prop where
  segments : segments (pathOf sources) = sources
  length : sources.length = targets.length + 1
  entry : ∃ m, p.relations.get? (pathOf sources) = some m
  above : ∀ (i : Nat) (hi : i < targets.length), ∃ m,
    p.relations.get? (pathOf (sources.take (i + 1))) = some m ∧ m.columns = none ∧
      m.cyclic = false ∧ ("" ∉ s.catalog.types → m.resource = some targets[i])
  distinct : (root :: targets).Nodup
  registered : ∀ t ∈ root :: targets, t ∈ s.catalog.types
  short : sources.length ≤ s.catalog.size

section Built

variable {p : LoadPlan} {m : RelationLoad}

theorem nestsAlong (hplain : s.catalog.PlainSources) (hr : s.catalog.find? r.type = some r)
    (h : s.builtPlan nested r names = .ok p)
    (hpath : s.Relates nested [r.type] r names sources targets l) :
    s.NestsAlong p r.type sources targets := by
  refine ⟨segments_pathOf (hpath.isSegment hplain hr), hpath.length_sources,
    exists_get? h (hpath.contributes ""), fun i hi => ?_, hpath.distinct, hpath.registered hr,
    hpath.length_le_size hr⟩
  obtain ⟨k, hk, hresource, hcolumns, hcyclic⟩ := hpath.above hi
  have hneeds : s.Needs nested r names (pathOf (sources.take (i + 1))) k := hk.contributes ""
  obtain ⟨m, hm⟩ := exists_get? h hneeds
  have hsums := sums_of_get? h hm
  refine ⟨m, hm, hsums.full.mpr ⟨k, hneeds, hcolumns⟩, ?_, fun hempty => ?_⟩
  · cases hmc : m.cyclic with
    | false => rfl
    | true => exact absurd (hsums.cyclic.mp hmc k hneeds) (by simp [hcyclic])
  · refine hsums.resource_eq (fun j hj => ?_) hneeds hresource
    exact resource_ne_empty hempty hr hj

theorem cyclic_ends (hr : s.catalog.find? r.type = some r) (hl : s.Needs nested r names path l)
    (hcyclic : l.cyclic = true) :
    l.columns ≠ none ∧ ∃ sources targets, s.Relates nested [r.type] r names sources targets l ∧
      path = pathOf sources ∧ ∃ t ∈ r.type :: targets, l.resource = some t := by
  rcases hl.relates_or_extra hr with ⟨sources, targets, hpath, rfl⟩ | ⟨rfl, -⟩
  · obtain ⟨hcolumns, t, ht, hresource⟩ := hpath.of_cyclic hcyclic
    refine ⟨hcolumns, sources, targets, hpath, rfl, t, ?_, hresource⟩
    rw [List.mem_cons]
    exact ht.symm.imp_left List.mem_singleton.mp
  · cases hcyclic

theorem nothing_below_cyclic (hplain : s.catalog.PlainSources)
    (hr : s.catalog.find? r.type = some r) (h : s.builtPlan nested r names = .ok p)
    (hm : p.relations.get? path = some m) (hcyclic : m.cyclic = true)
    (hpath : s.Relates nested [r.type] r names sources targets l)
    (hbelow : segments path <+: sources) : sources = segments path := by
  have hsums := sums_of_get? h hm
  obtain ⟨k, hk, -⟩ := hsums.resource_mem
  obtain ⟨-, above, _, habove, rfl, -⟩ := cyclic_ends hr hk (hsums.cyclic.mp hcyclic k hk)
  rw [segments_pathOf (habove.isSegment hplain hr)] at hbelow ⊢
  -- otherwise the cyclic load would be one of those in full above the end of the longer path
  have hnests := nestsAlong hplain hr h hpath
  by_contra hne
  have hshorter : above.length < sources.length :=
    Nat.lt_of_le_of_ne hbelow.length_le fun heq => hne (hbelow.eq_of_length heq).symm
  have hlength := habove.length_sources
  obtain ⟨n, hn, -, hfull, -⟩ := hnests.above (above.length - 1) (by
    have := hnests.length
    omega)
  have htake : sources.take (above.length - 1 + 1) = above := by
    rw [Nat.sub_add_cancel (by omega)]
    exact (List.prefix_iff_eq_take.mp hbelow).symm
  rw [htake, hm] at hn
  rw [← Option.some.inj hn, hcyclic] at hfull
  cases hfull

end Built

theorem exists_of_compile_tooDeep [Room] {fields : List String}
    {requests : Entries (Option (List String))} {limit : Nat}
    (h : (s.compile r fields requests).eval = .error (.raised (.plan (.tooDeep path limit)))) :
    ∃ l, s.Needs (s.chosenNested r.type requests).sorted r (plannedFields r fields) path l ∧
      s.settings.maxDepth < pathDepth path := by
  rw [eval_compile] at h
  unfold builtPlan at h
  cases hadd : LoadPlan.empty.addAll s.settings.maxDepth (s.catalog.collect
      (s.childFields (s.chosenNested r.type requests).sorted) [r.type] r ""
      (plannedFields r fields)) with
  | ok q => rw [hadd] at h; cases h
  | error e =>
    rw [hadd] at h
    cases h
    obtain ⟨l, hl, hlong⟩ := LoadPlan.exists_of_tooDeep hadd
    exact ⟨l, contributes_of_mem_collect hl, hlong⟩

/-- However resources refer to each other, a walk ends: it enters no more levels than there are
types, with any limit to the depth of paths. In a plan each relation path goes through full loads of
different types, which are resources of their entries as long as no type is named by the empty text,
and a cyclic load is a projection on a type met above, with no relation path below. So no path is
too deep if paths may be as long as there are types and no field has extras. -/
theorem compile_nests [Room] (hplain : s.catalog.PlainSources) {ref : ResourceRef}
    (hr : s.catalog.schemaOf ref = .ok r) (fields : List String)
    (requests : Entries (Option (List String))) :
    (∀ nested names, ∃ cs,
      (∀ levels, s.catalog.size ≤ levels →
        s.catalog.collectWithin (s.childFields nested) levels [r.type] r "" names = some cs) ∧
      ∀ limit p, ({ s.walk nested with maxDepth := limit }.visit [r.type] r "" names p).eval =
        (p.addAll limit cs).mapError fun e => .raised (.plan e)) ∧
    (∀ p, (s.compile r fields requests).eval = .ok p →
      (∀ sources targets l, s.RelationPath r fields requests sources targets l →
        s.NestsAlong p r.type sources targets) ∧
      ∀ path m, p.relations.get? path = some m → m.cyclic = true →
        m.columns ≠ none ∧
        (∃ sources targets l, s.RelationPath r fields requests sources targets l ∧
          path = pathOf sources ∧ ∃ t ∈ r.type :: targets, m.resource = some t) ∧
        ∀ sources targets l, s.RelationPath r fields requests sources targets l →
          segments path <+: sources → sources = segments path) ∧
    ((∀ r' ∈ s.catalog.registry.schemas, ∀ f ∈ r'.fields, f.extras = []) →
      s.catalog.size ≤ s.settings.maxDepth →
      ∀ path limit, (s.compile r fields requests).eval ≠
        .error (.raised (.plan (.tooDeep path limit)))) := by
  have hfind := Catalog.find?_of_schemaOf hr
  have hroot : [r.type].Nodup := List.nodup_cons.mpr ⟨List.not_mem_nil, List.nodup_nil⟩
  refine ⟨fun nested names => ?_, fun p hp => ?_, fun hextras hsize path limit hdeep => ?_⟩
  · have hfollows (limit : Nat) :
        ({ s.walk nested with maxDepth := limit } : Walk).Follows (s.childFields nested) :=
      follows_walk nested
    refine ⟨s.catalog.collect (s.childFields nested) [r.type] r "" names, fun levels hlevels => ?_,
      fun limit p => Walk.eval_visit (hfollows limit) [r.type] r "" names p⟩
    refine Catalog.collectWithin_eq_some hroot ?_ (Nat.lt_succ_of_le hlevels) names
    intro t ht
    exact List.mem_singleton.mp ht ▸ Catalog.mem_types_of_find? hfind
  · have hbuilt := eval_compile_eq_ok.mp hp
    refine ⟨fun sources targets l hpath => nestsAlong hplain hfind hbuilt hpath,
      fun path m hm hcyclic => ⟨fun hfull => ?_, ?_, fun sources targets l hpath hbelow =>
        nothing_below_cyclic hplain hfind hbuilt hm hcyclic hpath hbelow⟩⟩
    · have hsums := sums_of_get? hbuilt hm
      obtain ⟨l, hl, hcolumns⟩ := hsums.full.mp hfull
      exact (cyclic_ends hfind hl (hsums.cyclic.mp hcyclic l hl)).1 hcolumns
    · have hsums := sums_of_get? hbuilt hm
      obtain ⟨l, hl, hresource⟩ := hsums.resource_mem
      obtain ⟨-, sources, targets, hpath, hplace, t, ht, hlt⟩ :=
        cyclic_ends hfind hl (hsums.cyclic.mp hcyclic l hl)
      exact ⟨sources, targets, l, hpath, hplace, t, ht, hresource ▸ hlt⟩
  · obtain ⟨l, hl, hlong⟩ := exists_of_compile_tooDeep hdeep
    rcases hl.relates_or_extra hfind with ⟨sources, targets, hpath, rfl⟩ | ⟨-, r', hr', f, hf, hne⟩
    · have hne : sources ≠ [] := List.ne_nil_of_length_eq_add_one hpath.length_sources
      have hdepth : pathDepth (sources.foldl joinPath "") = sources.length :=
        pathDepth_pathOf hne (hpath.isSegment hplain hfind)
      have hshort := hpath.length_le_size hfind
      omega
    · exact hne (hextras r' hr' f hf)

end Service

namespace Authors

attribute [local instance] Room.usual

def posts : RelationField := ⟨"posts", some "post", none, some ["author"], none, true⟩

def writer : RelationField := ⟨"author", some "author", none, none, none, false⟩

def author : ResourceSchema where
  type := "author"
  fields := [⟨"name", .scalar "name", []⟩, ⟨"posts", .relation posts, []⟩]
  defaults := ["name"]
  fixed := []
  model := none

def post : ResourceSchema where
  type := "post"
  fields := [⟨"author", .relation writer, []⟩]
  defaults := ["author"]
  fixed := []
  model := none

def service : Service where
  catalog := ⟨⟨[author, post], [], [], true⟩, rfl, rfl⟩
  settings := default
  query := none

def plan : LoadPlan where
  relations := [("posts", { resource := some "post", many := true }),
    ("posts.author", { resource := some "author", columns := some ["name"], cyclic := true })]
  aggregates := []

private theorem get?_posts : author.get? "posts" = some ⟨"posts", .relation posts, []⟩ := rfl

private theorem get?_writer : post.get? "author" = some ⟨"author", .relation writer, []⟩ := rfl

theorem compile_author : (service.compile author ["posts"] []).eval = .ok plan := by
  have hplanned : Service.plannedFields author ["posts"] = ["posts"] := List.mergeSort_singleton _
  have hcollect (children : Field → String → List String)
      (hchildren : ∀ f, f.relation?.bind (·.pinned) = some ["author"] →
        children f "post" = ["author"]) :
      service.catalog.collect children ["author"] author "" ["posts"] =
        [.load "posts" { resource := some "post", many := true },
          .load "posts.author"
            { resource := some "author", columns := some ["name"], cyclic := true }] := by
    have hbelow := hchildren ⟨"posts", .relation posts, []⟩ rfl
    have hposts : service.catalog.contributions ["author"] "" ⟨"posts", .relation posts, []⟩ =
        [.load "posts" { resource := some "post", many := true }] := by decide
    have hwriter : service.catalog.contributions ["post", "author"] "posts"
        ⟨"author", .relation writer, []⟩ = [.load "posts.author"
          { resource := some "author", columns := some ["name"], cyclic := true }] := by decide
    have hchild : service.catalog.child? ["author"] ⟨"posts", .relation posts, []⟩ =
        some ⟨post, by decide, by decide⟩ := rfl
    have hmet : service.catalog.child? ["post", "author"] ⟨"author", .relation writer, []⟩ =
        none := rfl
    have hpath : joinPath "" ((⟨"posts", .relation posts, []⟩ : Field).source?.getD "") =
        "posts" := rfl
    have htype : post.type = "post" := rfl
    simp only [Catalog.collect, get?_posts, hposts, hchild, hpath, htype, hbelow, get?_writer,
      hwriter, hmet, List.append_nil, List.cons_append, List.nil_append]
  have hadd : LoadPlan.empty.addAll service.settings.maxDepth
      [.load "posts" { resource := some "post", many := true }, .load "posts.author"
        { resource := some "author", columns := some ["name"], cyclic := true }] = .ok plan := by
    decide
  have hsorted : plan.sorted = plan := by
    simp [LoadPlan.sorted, plan, Entries.sorted, List.mergeSort,
      List.MergeSort.Internal.splitInTwo]
  rw [Service.eval_compile_eq_ok, hplanned, Service.builtPlan,
    show [author.type] = ["author"] from rfl, hcollect _ fun f hf => by
      rw [Service.childFields, hf], hadd]
  exact congrArg Except.ok hsorted

/-- From an author through the posts to an author again is a path as long as there are types. -/
theorem nests : service.catalog.PlainSources ∧
    service.catalog.schemaOf (.named "author") = .ok author ∧ service.catalog.size = 2 ∧
    (service.compile author ["posts"] []).eval = .ok plan ∧
    (service.NestsAlong plan "author" ["posts", "author"] ["post"]) ∧
    ∀ path limit, (service.compile author ["posts"] []).eval ≠
      .error (.raised (.plan (.tooDeep path limit))) := by
  have hplain : service.catalog.PlainSources := by decide
  have hschema : service.catalog.schemaOf (.named "author") = .ok author := rfl
  obtain ⟨-, hplan, hdeep⟩ := Service.compile_nests hplain hschema ["posts"] []
  have hplanned : "posts" ∈ Service.plannedFields author ["posts"] :=
    mem_sortNames.mpr List.mem_cons_self
  have hmet : service.Relates (service.chosenNested author.type []).sorted ["post", "author"] post
      ["author"] [writer.source] [] (service.catalog.relationLoad ["post", "author"] writer) :=
    .here List.mem_cons_self get?_writer rfl
  have hpath : service.Relates (service.chosenNested author.type []).sorted ["author"] author
      (Service.plannedFields author ["posts"]) [posts.source, writer.source] ["post"]
      (service.catalog.relationLoad ["post", "author"] writer) :=
    .through hplanned get?_posts rfl rfl rfl (by decide) rfl hmet
  exact ⟨hplain, hschema, rfl, compile_author, (hplan plan compile_author).1 _ _ _ hpath,
    hdeep (by decide) (by decide)⟩

end Authors

namespace Albums

attribute [local instance] Room.usual

/-- The art on the cover of an album is of the type that the empty text names, that on its label of
none. -/
def cover : RelationField := ⟨"art", some "", none, some ["painter"], none, false⟩

def label : RelationField := ⟨"art", none, none, none, none, false⟩

def painter : RelationField := ⟨"painter", none, none, none, none, false⟩

def album : ResourceSchema where
  type := "album"
  fields := [⟨"cover", .relation cover, []⟩, ⟨"label", .relation label, []⟩]
  defaults := ["cover", "label"]
  fixed := []
  model := none

def art : ResourceSchema where
  type := ""
  fields := [⟨"painter", .relation painter, []⟩]
  defaults := ["painter"]
  fixed := []
  model := none

def service : Service where
  catalog := ⟨⟨[art, album], [], [], true⟩, rfl, rfl⟩
  settings := default
  query := none

private theorem get?_cover : album.get? "cover" = some ⟨"cover", .relation cover, []⟩ := rfl

private theorem get?_label : album.get? "label" = some ⟨"label", .relation label, []⟩ := rfl

private theorem get?_painter : art.get? "painter" = some ⟨"painter", .relation painter, []⟩ := rfl

def plan : LoadPlan := ⟨[("art", {}), ("art.painter", {})], []⟩

private theorem compile_album : (service.compile album ["cover", "label"] []).eval = .ok plan := by
  have hplanned : Service.plannedFields album ["cover", "label"] = ["cover", "label"] := by
    have hdeclared : (unique ["cover", "label"]).filter album.declares = ["cover", "label"] := by
      decide
    rw [Service.plannedFields, hdeclared]
    simp [sortNames, List.mergeSort, List.MergeSort.Internal.splitInTwo]
  have hcollect (children : Field → String → List String)
      (hchildren : ∀ f, f.relation?.bind (·.pinned) = some ["painter"] →
        children f "" = ["painter"]) :
      service.catalog.collect children ["album"] album "" ["cover", "label"] =
        [.load "art" { resource := some "" }, .load "art.painter" {}, .load "art" {}] := by
    have hbelow := hchildren ⟨"cover", .relation cover, []⟩ rfl
    have hcover : service.catalog.contributions ["album"] "" ⟨"cover", .relation cover, []⟩ =
        [.load "art" { resource := some "" }] := by decide
    have hlabel : service.catalog.contributions ["album"] "" ⟨"label", .relation label, []⟩ =
        [.load "art" {}] := by decide
    have hpainter : service.catalog.contributions ["", "album"] "art"
        ⟨"painter", .relation painter, []⟩ = [.load "art.painter" {}] := by decide
    have hchild : service.catalog.child? ["album"] ⟨"cover", .relation cover, []⟩ =
        some ⟨art, by decide, by decide⟩ := rfl
    have hlast : service.catalog.child? ["album"] ⟨"label", .relation label, []⟩ = none := rfl
    have hend : service.catalog.child? ["", "album"] ⟨"painter", .relation painter, []⟩ = none :=
      rfl
    have hpath : joinPath "" ((⟨"cover", .relation cover, []⟩ : Field).source?.getD "") = "art" :=
      rfl
    have htype : art.type = "" := rfl
    simp only [Catalog.collect, get?_cover, get?_label, get?_painter, hcover, hlabel, hpainter,
      hchild, hlast, hend, hpath, htype, hbelow, List.append_nil, List.cons_append,
      List.nil_append]
  have hadd : LoadPlan.empty.addAll service.settings.maxDepth [.load "art" { resource := some "" },
      .load "art.painter" {}, .load "art" {}] = .ok plan := by
    decide
  have hsorted : plan.sorted = plan := by
    simp [LoadPlan.sorted, plan, Entries.sorted, List.mergeSort,
      List.MergeSort.Internal.splitInTwo]
  rw [Service.eval_compile_eq_ok, hplanned, Service.builtPlan,
    show [album.type] = ["album"] from rfl, hcollect _ fun f hf => by
      rw [Service.childFields, hf], hadd]
  exact congrArg Except.ok hsorted

/-- The painter of the art on a cover is loaded, but the entry of the art has no resource. -/
theorem art_without_resource :
    service.catalog.PlainSources ∧ service.catalog.schemaOf (.named "album") = .ok album ∧
    ¬ ∀ p, (service.compile album ["cover", "label"] []).eval = .ok p →
      ∀ sources targets l, service.RelationPath album ["cover", "label"] [] sources targets l →
        ∀ i < targets.length, ∃ m, p.relations.get? (pathOf (sources.take (i + 1))) = some m ∧
          m.resource ≠ none := by
  have hplain : service.catalog.PlainSources := by decide
  have hplanned : "cover" ∈ Service.plannedFields album ["cover", "label"] :=
    mem_sortNames.mpr (by decide)
  have hpainter : service.Relates (service.chosenNested album.type []).sorted ["", "album"] art
      ["painter"] [painter.source] [] (service.catalog.relationLoad ["", "album"] painter) :=
    .here List.mem_cons_self get?_painter rfl
  have hpath : service.Relates (service.chosenNested album.type []).sorted ["album"] album
      (Service.plannedFields album ["cover", "label"]) [cover.source, painter.source] [""]
      (service.catalog.relationLoad ["", "album"] painter) :=
    .through hplanned get?_cover rfl rfl rfl (by decide) rfl hpainter
  refine ⟨hplain, rfl, fun h => ?_⟩
  obtain ⟨m, hm, hresource⟩ := h plan compile_album _ _ _ hpath 0 (by decide)
  have hentry : plan.relations.get? "art" = some {} := rfl
  obtain rfl := Option.some.inj (hentry.symm.trans hm)
  exact hresource rfl

end Albums
end FieldPlan
