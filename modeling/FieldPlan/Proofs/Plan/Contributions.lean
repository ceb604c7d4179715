import FieldPlan.Plan.Walk
import FieldPlan.Proofs.Entries
/-!
# The contributions of a walk

Apart from the plan that it adds them to, a walk is the list of what the fields on its way
contribute. Carrying the walk out is adding that list to a plan.
-/
namespace FieldPlan

theorem mapError_ok {ε ε' α : Type} (f : ε → ε') (a : α) :
    (.ok a : Except ε α).mapError f = .ok a :=
  rfl

namespace LoadPlan

theorem addAll_append (maxDepth : Nat) (p : LoadPlan) (cs ds : List Contribution) :
    p.addAll maxDepth (cs ++ ds) = (p.addAll maxDepth cs).bind fun q => q.addAll maxDepth ds := by
  unfold addAll
  rw [List.foldlM_append]
  rfl

theorem addAll_cons (maxDepth : Nat) (p : LoadPlan) (c : Contribution) (cs : List Contribution) :
    p.addAll maxDepth (c :: cs) = (p.add maxDepth c).bind fun q => q.addAll maxDepth cs := by
  unfold addAll
  rw [List.foldlM_cons]
  rfl

/-- The paths of a plan are distinct, and so are the keys of its aggregates. -/
def DistinctKeys (p : LoadPlan) : Prop := p.relations.keys.Nodup ∧ p.aggregates.keys.Nodup

instance (p : LoadPlan) : Decidable p.DistinctKeys :=
  inferInstanceAs (Decidable (p.relations.keys.Nodup ∧ p.aggregates.keys.Nodup))

theorem distinctKeys_empty : empty.DistinctKeys := ⟨List.nodup_nil, List.nodup_nil⟩

theorem DistinctKeys.addAggregate {p : LoadPlan} (h : p.DistinctKeys) (key : String)
    (a : AggregateLoad) : (p.addAggregate key a).DistinctKeys :=
  ⟨h.1, Entries.nodup_keys_setIfAbsent h.2⟩

theorem DistinctKeys.addLoad {p q : LoadPlan} (h : p.DistinctKeys) {maxDepth : Nat} {path : String}
    {l : RelationLoad} (hq : p.addLoad maxDepth path l = .ok q) : q.DistinctKeys := by
  unfold LoadPlan.addLoad at hq
  split at hq
  · cases hq
  · split at hq
    · obtain rfl := Except.ok.inj hq
      exact ⟨Entries.nodup_keys_set h.1, h.2⟩
    · next there _ =>
      cases hm : there.merge l path with
      | error e => rw [hm] at hq; cases hq
      | ok m =>
        rw [hm] at hq
        obtain rfl := Except.ok.inj hq
        exact ⟨Entries.nodup_keys_set h.1, h.2⟩

theorem DistinctKeys.addAll {maxDepth : Nat} {cs : List Contribution} {p q : LoadPlan}
    (h : p.DistinctKeys) (hq : p.addAll maxDepth cs = .ok q) : q.DistinctKeys := by
  induction cs generalizing p with
  | nil =>
    obtain rfl := Except.ok.inj hq
    exact h
  | cons c cs ih =>
    rw [addAll_cons] at hq
    cases c with
    | aggregate key a => exact ih (h.addAggregate key a) hq
    | load path l =>
      cases hadd : p.addLoad maxDepth path l with
      | error e => simp only [add, hadd] at hq; cases hq
      | ok r =>
        simp only [add, hadd] at hq
        exact ih (h.addLoad hadd) hq

theorem DistinctKeys.sorted {p : LoadPlan} (h : p.DistinctKeys) : p.sorted.DistinctKeys :=
  ⟨Entries.nodup_keys_sorted h.1, Entries.nodup_keys_sorted h.2⟩

end LoadPlan

theorem Field.source_of_relation {f : Field} {rel : RelationField} (h : f.body = .relation rel) :
    f.source?.getD "" = rel.source := by
  rw [Field.source?, h]
  rfl

theorem Field.embedded?_eq_some {f : Field} {t : String} :
    f.embedded? = some t ↔
      ∃ rel, f.body = .relation rel ∧ rel.accessor = none ∧ rel.target = some t := by
  unfold embedded? relation?
  cases f.body with
  | relation rel =>
    simp only [Option.bind_some, FieldBody.relation.injEq]
    cases hacc : rel.accessor <;> simp [hacc]
  | _ => simp

namespace Catalog

/-- What the named fields of a resource and the fields below them contribute at a path, where
`children` names the fields to follow below a relation to a type. -/
def collect (c : Catalog) (children : Field → String → List String) (ancestors : List String)
    (s : ResourceSchema) (path : String) : List String → List Contribution
  | [] => []
  | name :: rest =>
    match s.get? name with
    | none => c.collect children ancestors s path rest
    | some f =>
      c.contributions ancestors path f ++
        (match c.child? ancestors f with
          | none => []
          | some child =>
            c.collect children (child.1.type :: ancestors) child.1
              (joinPath path (f.source?.getD "")) (children f child.1.type)) ++
        c.collect children ancestors s path rest
termination_by names => ((c.unvisited ancestors).length, names.length)
decreasing_by
  · exact Prod.Lex.right _ (by simp)
  · exact Prod.Lex.left _ _ (Catalog.length_unvisited_cons child.2.1 child.2.2)
  · exact Prod.Lex.right _ (by simp)

variable {c : Catalog} {ancestors : List String} {path : String} {f : Field}

theorem load_mem_contributions {p : String} {l : RelationLoad} :
    .load p l ∈ c.contributions ancestors path f ↔
      (∃ extra ∈ f.extras, p = joinPath path extra ∧ l = {}) ∨
        ∃ rel, f.body = .relation rel ∧ p = joinPath path rel.source ∧
          l = c.relationLoad ancestors rel := by
  simp only [contributions, List.mem_append, List.mem_map, Contribution.load.injEq]
  refine or_congr ?_ ?_
  · constructor
    · rintro ⟨extra, hextra, rfl, rfl⟩
      exact ⟨extra, hextra, rfl, rfl⟩
    · rintro ⟨extra, hextra, rfl, rfl⟩
      exact ⟨extra, hextra, rfl, rfl⟩
  · cases f.body <;> simp

theorem aggregate_mem_contributions {key : String} {a : AggregateLoad} :
    .aggregate key a ∈ c.contributions ancestors path f ↔
      ∃ declared, f.body = .aggregate declared ∧ key = joinPath path f.name ∧
        a = declared.load path := by
  simp only [contributions, List.mem_append, List.mem_map, reduceCtorEq, and_false, exists_false,
    false_or]
  cases f.body <;> simp

theorem child?_eq_some {child : { s : ResourceSchema // s.type ∈ c.types ∧ s.type ∉ ancestors }} :
    c.child? ancestors f = some child ↔
      ∃ rel, f.body = .relation rel ∧ rel.accessor = none ∧ rel.target = some child.1.type ∧
        c.find? child.1.type = some child.1 := by
  constructor
  · intro h
    unfold child? at h
    split at h
    · cases h
    · next t ht =>
      split at h
      · cases h
      · next s hs =>
        split at h
        · cases h
        · obtain rfl := Option.some.inj h
          obtain ⟨rel, hbody, hacc, hrel⟩ := Field.embedded?_eq_some.mp ht
          have htype : s.type = t := by simpa using List.find?_some hs
          exact ⟨rel, hbody, hacc, htype ▸ hrel, htype ▸ hs⟩
  · rintro ⟨rel, hbody, hacc, hrel, hs⟩
    have ht := Field.embedded?_eq_some.mpr ⟨rel, hbody, hacc, hrel⟩
    unfold child?
    split
    · next hnone => rw [ht] at hnone; cases hnone
    · next t ht' =>
      obtain rfl := Option.some.inj (ht.symm.trans ht')
      split
      · next hnone => rw [hs] at hnone; cases hnone
      · next s hs' =>
        obtain rfl := Option.some.inj (hs.symm.trans hs')
        rw [dif_neg child.2.2]

theorem mem_collect {children : Field → String → List String} {s : ResourceSchema}
    {names : List String} {a : Contribution} :
    a ∈ c.collect children ancestors s path names ↔
      ∃ name ∈ names, ∃ f, s.get? name = some f ∧
        (a ∈ c.contributions ancestors path f ∨
          ∃ child, c.child? ancestors f = some child ∧
            a ∈ c.collect children (child.1.type :: ancestors) child.1
              (joinPath path (f.source?.getD "")) (children f child.1.type)) := by
  induction names with
  | nil => simp [collect]
  | cons name rest ih =>
    rw [collect]
    cases hget : s.get? name with
    | none =>
      simp only [ih, List.mem_cons, exists_eq_or_imp, hget]
      simp
    | some f =>
      simp only [List.mem_append, ih, List.mem_cons, exists_eq_or_imp, hget, Option.some.injEq]
      refine or_congr ?_ Iff.rfl
      cases hchild : c.child? ancestors f with
      | none => simp [hchild]
      | some child => simp only [hchild, Option.some.injEq, exists_eq_left']

/-- Induction on where a contribution comes from: a named field makes it, or it comes from below a
named field. -/
@[elab_as_elim]
theorem collect_induction {children : Field → String → List String} {a : Contribution}
    {motive : ∀ ancestors path s names, a ∈ c.collect children ancestors s path names → Prop}
    {s : ResourceSchema} {names : List String}
    (h : a ∈ c.collect children ancestors s path names)
    (made : ∀ {ancestors s path names name f} (hname : name ∈ names) (hget : s.get? name = some f)
      (hmade : a ∈ c.contributions ancestors path f),
      motive ancestors path s names (mem_collect.mpr ⟨name, hname, f, hget, .inl hmade⟩))
    (within : ∀ {ancestors s path names name f child} (hname : name ∈ names)
      (hget : s.get? name = some f) (hchild : c.child? ancestors f = some child)
      (hbelow : a ∈ c.collect children (child.1.type :: ancestors) child.1
        (joinPath path (f.source?.getD "")) (children f child.1.type)),
      motive _ _ _ _ hbelow → motive ancestors path s names
        (mem_collect.mpr ⟨name, hname, f, hget, .inr ⟨child, hchild, hbelow⟩⟩)) :
    motive ancestors path s names h := by
  -- the names that are left are among all names, for which the motive is shown
  suffices hall : ∀ (all : List String) (hall : a ∈ c.collect children ancestors s path all),
      (∀ n ∈ names, n ∈ all) → motive ancestors path s all hall from
    hall names h fun _ hn => hn
  fun_induction Catalog.collect c children ancestors s path names with
  | case1 => cases h
  | case2 ancestors s path name rest hget ih =>
    intro all hall hsub
    exact ih h all hall fun n hn => hsub n (List.mem_cons_of_mem name hn)
  | case3 ancestors s path name rest f hget ihchild ihrest =>
    intro all hall hsub
    have hname : name ∈ all := hsub name List.mem_cons_self
    rcases List.mem_append.mp h with h | h
    · rcases List.mem_append.mp h with h | h
      · exact made hname hget h
      · cases hchild : c.child? ancestors f with
        | none => rw [hchild] at h; cases h
        | some child =>
          rw [hchild] at h
          exact within hname hget hchild h (ihchild child h _ h fun _ hn => hn)
    · exact ihrest h all hall fun n hn => hsub n (List.mem_cons_of_mem name hn)

theorem collect_eq_flatMap (children : Field → String → List String) (s : ResourceSchema)
    (names : List String) : c.collect children ancestors s path names =
      names.flatMap fun name => c.collect children ancestors s path [name] := by
  induction names with
  | nil => rw [collect, List.flatMap_nil]
  | cons name rest ih =>
    rw [List.flatMap_cons, ← ih, collect, collect]
    cases s.get? name with
    | none => rw [collect, List.nil_append]
    | some f =>
      simp only [collect, List.append_nil]

end Catalog

namespace Walk

/-- The fields below each relation, as far as they can be told without a failure. -/
def Follows (w : Walk) (children : Field → String → List String) : Prop :=
  ∀ f t, t ∈ w.catalog.types → (w.childFields f t).eval = .ok (children f t)

private theorem eval_ofPlan {α : Type} (r : Except PlanError α) :
    (Work.ofPlan r).eval = r.mapError fun e => .raised (.plan e) := by
  cases r <;> rfl

theorem eval_visit {w : Walk} {children : Field → String → List String} (h : w.Follows children)
    (ancestors : List String) (s : ResourceSchema) (path : String) (names : List String)
    (p : LoadPlan) :
    (w.visit ancestors s path names p).eval =
      (p.addAll w.maxDepth (w.catalog.collect children ancestors s path names)).mapError
        fun e => .raised (.plan e) := by
  fun_induction Walk.visit w ancestors s path names p with
  | case1 ancestors s path p =>
    rw [Catalog.collect]
    rfl
  | case2 ancestors s path name rest p hget ih =>
    rw [Catalog.collect, hget]
    exact ih
  | case3 ancestors s path name rest p f hget ihrest ihchild =>
    rw [Catalog.collect, hget, Cache.Task.eval_bind, eval_ofPlan]
    simp only [List.append_assoc, LoadPlan.addAll_append]
    cases hadd : p.addAll w.maxDepth (w.catalog.contributions ancestors path f) with
    | error e => rfl
    | ok q =>
      simp only [mapError_ok, Except.bind]
      cases hchild : w.catalog.child? ancestors f with
      | none => exact ihrest q
      | some child =>
        simp only [Cache.Task.eval_bind, h f child.1.type child.2.1, ihchild]
        cases q.addAll w.maxDepth (w.catalog.collect children (child.1.type :: ancestors) child.1
            (joinPath path (f.source?.getD "")) (children f child.1.type)) with
        | error e => rfl
        | ok q => exact ihrest q

/-- The plan of a resource is what its fields contribute, in the order of paths and keys. -/
theorem eval_build {w : Walk} {children : Field → String → List String} (h : w.Follows children)
    (s : ResourceSchema) (names : List String) :
    (w.build s names).eval =
      ((LoadPlan.empty.addAll w.maxDepth (w.catalog.collect children [s.type] s "" names)).map
        LoadPlan.sorted).mapError fun e => .raised (.plan e) := by
  rw [build, Cache.Task.eval_bind, eval_visit h]
  cases LoadPlan.empty.addAll w.maxDepth (w.catalog.collect children [s.type] s "" names) <;> rfl

theorem distinctKeys_of_eval_build {w : Walk} {children : Field → String → List String}
    (h : w.Follows children) {s : ResourceSchema} {names : List String} {p : LoadPlan}
    (hp : (w.build s names).eval = .ok p) : p.DistinctKeys := by
  rw [eval_build h] at hp
  cases hadd : LoadPlan.empty.addAll w.maxDepth
      (w.catalog.collect children [s.type] s "" names) with
  | error e => rw [hadd] at hp; cases hp
  | ok q =>
    rw [hadd] at hp
    obtain rfl := Except.ok.inj hp
    exact (LoadPlan.distinctKeys_empty.addAll hadd).sorted

end Walk
end FieldPlan
