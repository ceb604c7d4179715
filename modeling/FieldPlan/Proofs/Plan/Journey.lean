import FieldPlan.Proofs.Plan.Search
/-!
# Where walks go

A journey is a walk carried out against a store, together with the types that it goes on to on its
way, whether it ends well or not. Whatever fields are given, pinned, requested or shown by default,
these types are among those that a search from the root finds; so the walk looks up the requests
for no others.
-/
namespace FieldPlan

open Cache

/-- The types that are gone on to, in their order, and the outcome against a store. -/
structure Journey (β α : Type) where
  types : List String
  outcome : Result ServiceError α × Store β Metadata

namespace Journey

variable {β α γ : Type}

def bind (j : Journey β α) (f : α → Store β Metadata → Journey β γ) : Journey β γ :=
  match j.outcome with
  | (.ok a, store) => ⟨j.types ++ (f a store).types, (f a store).outcome⟩
  | (.error e, store) => ⟨j.types, .error e, store⟩

theorem mem_types_bind {j : Journey β α} {f : α → Store β Metadata → Journey β γ} {t : String}
    (h : t ∈ (j.bind f).types) : t ∈ j.types ∨ ∃ a store, t ∈ (f a store).types := by
  obtain ⟨types, e | a, store⟩ := j
  · exact .inl h
  · exact (List.mem_append.mp h).imp_right fun h => ⟨a, store, h⟩

theorem outcome_bind [Backend β] {j : Journey β α} {f : α → Store β Metadata → Journey β γ}
    {task : Work α} {next : α → Work γ} {store : Store β Metadata}
    (hj : j.outcome = task.run store)
    (hf : ∀ a store, (f a store).outcome = (next a).run store) :
    (j.bind f).outcome = (task.bind next).run store := by
  rw [Task.run_bind, ← hj]
  obtain ⟨types, e | a, store⟩ := j
  · rfl
  · exact hf a store

end Journey

namespace Walk

variable {β : Type} [Backend β]

/-- The walk against a store. A type is noted where its fields are asked for, that is, before the
walk looks for a request for it and before it goes on to it. -/
def journey (w : Walk) (ancestors : List String) (s : ResourceSchema) (path : String) :
    List String → LoadPlan → Store β Metadata → Journey β LoadPlan
  | [], p, store => ⟨[], .ok p, store⟩
  | name :: rest, p, store =>
    match s.get? name with
    | none => w.journey ancestors s path rest p store
    | some f =>
      Journey.bind ⟨[], (Work.ofPlan
          (p.addAll w.maxDepth (w.catalog.contributions ancestors path f))).run store⟩
        fun p store =>
          match w.catalog.child? ancestors f with
          | none => w.journey ancestors s path rest p store
          | some child =>
            Journey.bind ⟨[child.1.type], (w.childFields f child.1.type).run store⟩
              fun names store =>
                Journey.bind (w.journey (child.1.type :: ancestors) child.1
                    (joinPath path (f.source?.getD "")) names p store)
                  fun p store => w.journey ancestors s path rest p store
termination_by names => ((w.catalog.unvisited ancestors).length, names.length)
decreasing_by
  · exact Prod.Lex.right _ (by simp)
  · exact Prod.Lex.right _ (by simp)
  · exact Prod.Lex.left _ _ (Catalog.length_unvisited_cons child.2.1 child.2.2)
  · exact Prod.Lex.right _ (by simp)

/-- A journey ends as the walk does, and leaves the same behind. -/
theorem outcome_journey (w : Walk) (ancestors : List String) (s : ResourceSchema) (path : String)
    (names : List String) (p : LoadPlan) (store : Store β Metadata) :
    (w.journey ancestors s path names p store).outcome =
      (w.visit ancestors s path names p).run store := by
  fun_induction Walk.visit w ancestors s path names p generalizing store with
  | case1 ancestors s path p =>
    rw [journey]
    rfl
  | case2 ancestors s path name rest p hget ih =>
    rw [journey, hget]
    exact ih store
  | case3 ancestors s path name rest p f hget ihrest ihchild =>
    rw [journey, hget]
    refine Journey.outcome_bind rfl fun q store => ?_
    cases w.catalog.child? ancestors f with
    | none => exact ihrest q store
    | some child =>
      refine Journey.outcome_bind rfl fun names store => ?_
      exact Journey.outcome_bind (ihchild q child names store) fun q store => ihrest q store

variable {w : Walk} {root : String} {ancestors : List String} {s : ResourceSchema}

/-- A walk below a root goes on to no types but those that the root reaches. -/
theorem reaches_of_mem_journey (hs : w.catalog.find? s.type = some s)
    (hplace : s.type = root ∨ w.catalog.Reaches root s.type) (hroot : root ∈ ancestors)
    (path : String) (names : List String) (p : LoadPlan) (store : Store β Metadata) {t : String}
    (h : t ∈ (w.journey ancestors s path names p store).types) : w.catalog.Reaches root t := by
  -- on its way down the walk stands at types that are reached, with the root above them
  fun_induction Walk.journey w ancestors s path names p store with
  | case1 => cases h
  | case2 ancestors s path name rest p store hget ih => exact ih hs hplace hroot h
  | case3 ancestors s path name rest p store f hget ihrest ihchild =>
    rcases Journey.mem_types_bind h with h | ⟨q, store, h⟩
    · cases h
    cases hchild : w.catalog.child? ancestors f with
    | none =>
      rw [hchild] at h
      exact ihrest q store hs hplace hroot h
    | some child =>
      rw [hchild] at h
      have hreaches := Catalog.Reaches.of_child hs hplace hroot hget hchild
      obtain ⟨-, -, -, -, hfind⟩ := Catalog.child?_eq_some.mp hchild
      rcases Journey.mem_types_bind h with h | ⟨names, store, h⟩
      · exact List.mem_singleton.mp h ▸ hreaches
      · rcases Journey.mem_types_bind h with h | ⟨q, store, h⟩
        · exact ihchild _ _ _ _ hfind (.inr hreaches) (List.mem_cons_of_mem _ hroot) h
        · exact ihrest q store hs hplace hroot h

theorem visit_congr {nested : Selection}
    (hnested : ∀ t, w.catalog.Reaches root t → nested.get? t = w.nested.get? t)
    (hs : w.catalog.find? s.type = some s)
    (hplace : s.type = root ∨ w.catalog.Reaches root s.type) (hroot : root ∈ ancestors)
    (path : String) (names : List String) (p : LoadPlan) :
    ({ w with nested } : Walk).visit ancestors s path names p =
      w.visit ancestors s path names p := by
  have hfields (f : Field) (t : String) (ht : w.catalog.Reaches root t) :
      ({ w with nested } : Walk).childFields f t = w.childFields f t := by
    unfold childFields
    rw [hnested t ht]
  fun_induction Walk.visit w ancestors s path names p with
  | case1 => rw [visit]
  | case2 ancestors s path name rest p hget ih =>
    rw [visit, hget]
    exact ih hs hplace hroot
  | case3 ancestors s path name rest p f hget ihrest ihchild =>
    rw [visit, hget]
    dsimp only
    refine congrArg (Cache.Task.bind _) (funext fun q => ?_)
    cases hchild : w.catalog.child? ancestors f with
    | none => exact ihrest q hs hplace hroot
    | some child =>
      have hreaches := Catalog.Reaches.of_child hs hplace hroot hget hchild
      obtain ⟨-, -, -, -, hfind⟩ := Catalog.child?_eq_some.mp hchild
      dsimp only
      rw [hfields f child.1.type hreaches]
      refine congrArg (Cache.Task.bind _) (funext fun names => ?_)
      rw [ihchild q child names hfind (.inr hreaches) (List.mem_cons_of_mem _ hroot)]
      exact congrArg (Cache.Task.bind _) (funext fun q => ihrest q hs hplace hroot)

end Walk

namespace Catalog

/-- From a registered root, a search that looks every type up ends after no more rounds than there
are registered types. It has found exactly the types besides the root that relations with a target
and no accessor lead to, which are the reachable ones. Whatever a walk from the root goes by, it
goes on to these types only, and is the same walk under requests that differ for others. -/
theorem search_spans_walks (c : Catalog) {root : String} {r : ResourceSchema}
    (hr : c.find? root = some r) :
    ∃ found : List String,
      (Search.start root).rounds c root c.size = .ok ⟨found, []⟩ ∧
      (∀ t, t ∈ found ↔ t ≠ root ∧ Relation.TransGen c.Embeds root t) ∧
      (∀ t, t ∈ found ↔ t ∈ c.reachable root) ∧
      ∀ w : Walk, w.catalog = c → ∀ (names : List String) (p : LoadPlan),
        (∀ {β : Type} [Backend β] (store : Store β Metadata),
          (w.journey [root] r "" names p store).outcome =
              (w.visit [root] r "" names p).run store ∧
            ∀ t ∈ (w.journey [root] r "" names p store).types, t ∈ found) ∧
        ∀ nested : Selection, (∀ t ∈ found, nested.get? t = w.nested.get? t) →
          ({ w with nested } : Walk).visit [root] r "" names p = w.visit [root] r "" names p := by
  obtain rfl := type_of_find? hr
  obtain ⟨found, hrounds, hend⟩ := (Search.IsBelow.start c r.type).rounds
    (mem_types_of_find? hr) (n := c.size) (by simp [Search.start])
  have hfound (t : String) : t ∈ found ↔ c.Reaches r.type t := hend.mem_seen_iff
  refine ⟨found, hrounds, fun t => (hfound t).trans reaches_iff,
    fun t => (hfound t).trans mem_reachable_iff.symm, ?_⟩
  rintro w rfl names p
  refine ⟨fun store => ⟨w.outcome_journey _ _ _ _ _ store, fun t ht => ?_⟩, fun nested h => ?_⟩
  · exact (hfound t).mpr
      (Walk.reaches_of_mem_journey hr (.inl rfl) (List.mem_singleton_self _) "" names p store ht)
  · exact Walk.visit_congr (fun t ht => h t ((hfound t).mpr ht)) hr (.inl rfl)
      (List.mem_singleton_self _) "" names p

end Catalog

namespace Topics

def topic : ResourceSchema where
  type := "topic"
  fields := [⟨"author", .relation ⟨"author", some "member", none, none, none, false⟩, []⟩,
    ⟨"replies", .relation ⟨"replies", some "reply", none, some ["author"], none, true⟩, []⟩]
  defaults := ["author"]
  fixed := []
  model := none

def member : ResourceSchema where
  type := "member"
  fields := [⟨"topics", .relation ⟨"topics", some "topic", none, none, none, true⟩, []⟩,
    ⟨"badge", .relation ⟨"badge", some "badge", some "label", none, none, false⟩, []⟩]
  defaults := ["topics", "badge"]
  fixed := []
  model := none

def reply : ResourceSchema where
  type := "reply"
  fields := [⟨"author", .relation ⟨"author", some "member", none, none, none, false⟩, []⟩,
    ⟨"quoted", .relation ⟨"quoted", some "reply", none, none, none, false⟩, []⟩]
  defaults := ["author", "quoted"]
  fixed := []
  model := none

def badge : ResourceSchema where
  type := "badge"
  fields := [⟨"label", .scalar "label", []⟩]
  defaults := ["label"]
  fixed := []
  model := none

def catalog : Catalog := ⟨⟨[topic, member, reply, badge], [], [], true⟩, rfl, rfl⟩

def walk : Walk where
  catalog := catalog
  maxDepth := 5
  nested := [("badge", []), ("member", ["topics"]), ("topic", ["replies"])]
  defaults := fun _ => .pure ["author", "quoted"]

/-- From a topic the walk goes on to members and replies, and the request for members is the only
one that counts. -/
theorem walks_from_topic :
    catalog.find? "topic" = some topic ∧
      (Search.start "topic").rounds catalog "topic" catalog.size =
        .ok ⟨["reply", "member"], []⟩ ∧
      (∀ t, t ∈ ["reply", "member"] ↔ t ≠ "topic" ∧ Relation.TransGen catalog.Embeds "topic" t) ∧
      (∀ t, t ∈ ["reply", "member"] ↔ t ∈ catalog.reachable "topic") ∧
      (∀ {β : Type} [Backend β] (store : Store β Metadata),
        (walk.journey ["topic"] topic "" ["author", "replies"] .empty store).outcome =
            (walk.visit ["topic"] topic "" ["author", "replies"] .empty).run store ∧
          ∀ t ∈ (walk.journey ["topic"] topic "" ["author", "replies"] .empty store).types,
            t ∈ ["reply", "member"]) ∧
      ({ walk with nested := [("member", ["topics"])] } : Walk).visit ["topic"] topic ""
          ["author", "replies"] .empty =
        walk.visit ["topic"] topic "" ["author", "replies"] .empty := by
  have htopic : catalog.find? "topic" = some topic := rfl
  have hrounds : (Search.start "topic").rounds catalog "topic" catalog.size =
      .ok ⟨["reply", "member"], []⟩ := by rfl
  have hnested : ∀ t ∈ ["reply", "member"],
      Entries.get? [("member", ["topics"])] t = walk.nested.get? t := by decide
  obtain ⟨found, hfound, hchains, hreachable, hwalks⟩ := catalog.search_spans_walks htopic
  obtain rfl : ["reply", "member"] = found :=
    congrArg Search.seen (Except.ok.inj (hrounds.symm.trans hfound))
  obtain ⟨hjourney, hvisit⟩ := hwalks walk rfl ["author", "replies"] .empty
  exact ⟨htopic, hrounds, hchains, hreachable, hjourney, hvisit _ hnested⟩

end Topics
end FieldPlan
