import FieldPlan.Proofs.Plan.Aggregates
import FieldPlan.Proofs.Plan.Merging
/-!
# What gathers at a path

What a plan holds at a path comes from the loads contributed there, in their order, and its
aggregates are under the keys contributed. So plans can be compared path by path: one plan covers
another if it loads at least as much everywhere.
-/
namespace FieldPlan

theorem Entries.mem_keys_setIfAbsent {α : Type} {key other : String} {value : α}
    {entries : Entries α} : other ∈ (entries.setIfAbsent key value).keys ↔
      other = key ∨ other ∈ entries.keys := by
  unfold setIfAbsent
  cases hget : entries.get? key with
  | none => exact mem_keys_set key value entries other
  | some there =>
    have hkey : key ∈ entries.keys := List.mem_map_of_mem (mem_of_get? hget)
    rw [Option.isSome_some, if_pos rfl]
    exact ⟨.inr, fun h => h.elim (fun heq => heq ▸ hkey) id⟩

def loadsAt (path : String) (cs : List Contribution) : List RelationLoad :=
  cs.filterMap fun
    | .load place l => if place = path then some l else none
    | .aggregate _ _ => none

theorem mem_loadsAt {path : String} {cs : List Contribution} {l : RelationLoad} :
    l ∈ loadsAt path cs ↔ .load path l ∈ cs := by
  rw [loadsAt, List.mem_filterMap]
  constructor
  · rintro ⟨c, hc, hl⟩
    cases c with
    | aggregate key a => cases hl
    | load place k =>
      by_cases hplace : place = path
      · simp only [hplace, if_true, Option.some.injEq] at hl
        exact hplace ▸ hl ▸ hc
      · simp only [hplace, if_false, reduceCtorEq] at hl
  · intro hl
    exact ⟨_, hl, by simp⟩

theorem loadsAt_flatMap (path : String) (f : String → List Contribution) (names : List String) :
    loadsAt path (names.flatMap f) = names.flatMap fun n => loadsAt path (f n) := by
  rw [loadsAt, List.filterMap_flatMap]
  rfl

namespace RelationLoad

def mergeAt (path : String) : Option RelationLoad → RelationLoad → Except PlanError RelationLoad
  | none, l => .ok l
  | some there, l => there.merge l path

/-- A load that needs no more than another. -/
structure Within (l m : RelationLoad) : Prop where
  full : l.columns = none → m.columns = none
  columns : ∀ cs ds, l.columns = some cs → m.columns = some ds → ∀ n ∈ cs, n ∈ ds
  resource : ∀ n, given l.resource = some n → given m.resource = some n
  constraint : ∀ n, given l.constraint = some n → given m.constraint = some n
  many : l.many = true → m.many = true
  cyclic : m.cyclic = true → l.cyclic = true

theorem Sums.within {l m : RelationLoad} {P Q : RelationLoad → Prop} (hl : l.Sums P) (hm : m.Sums Q)
    (h : ∀ k, P k → Q k) : l.Within m where
  full hfull := by
    obtain ⟨k, hk, hnone⟩ := hl.full.mp hfull
    exact hm.full.mpr ⟨k, h k hk, hnone⟩
  columns cs ds hcs hds n hn := by
    obtain ⟨k, es, hk, hes, hne⟩ := (hl.columns cs hcs n).mp hn
    exact (hm.columns ds hds n).mpr ⟨k, es, h k hk, hes, hne⟩
  resource n hn := by
    obtain ⟨k, hk, hkn⟩ := (hl.resource n).mp hn
    exact (hm.resource n).mpr ⟨k, h k hk, hkn⟩
  constraint n hn := by
    obtain ⟨k, hk, hkn⟩ := (hl.constraint n).mp hn
    exact (hm.constraint n).mpr ⟨k, h k hk, hkn⟩
  many hmany := by
    obtain ⟨k, hk, hkm⟩ := hl.many.mp hmany
    exact hm.many.mpr ⟨k, h k hk, hkm⟩
  cyclic hcyclic := hl.cyclic.mpr fun k hk => hm.cyclic.mp hcyclic k (h k hk)

end RelationLoad

namespace LoadPlan

variable {maxDepth : Nat} {p q r : LoadPlan} {cs ds : List Contribution}

theorem get?_addLoad {place : String} {l : RelationLoad} (h : p.addLoad maxDepth place l = .ok r)
    (path : String) :
    if place = path then
      (RelationLoad.mergeAt path (p.relations.get? path) l).map some = .ok (r.relations.get? path)
    else r.relations.get? path = p.relations.get? path := by
  unfold addLoad at h
  split at h
  · cases h
  · have hset (m : RelationLoad)
        (hm : RelationLoad.mergeAt place (p.relations.get? place) l = .ok m) :
        if place = path then (RelationLoad.mergeAt path (p.relations.get? path) l).map some =
          .ok ((p.relations.set place m).get? path)
        else (p.relations.set place m).get? path = p.relations.get? path := by
      by_cases hplace : place = path
      · subst hplace
        rw [if_pos rfl, hm, Entries.get?_set, if_pos rfl]
        rfl
      · rw [if_neg hplace, Entries.get?_set, if_neg (Ne.symm hplace)]
    cases hthere : p.relations.get? place with
    | none =>
      rw [hthere] at h hset
      obtain rfl := Except.ok.inj h
      exact hset l rfl
    | some there =>
      rw [hthere] at h hset
      cases hmerge : there.merge l place with
      | error e => simp only [hmerge] at h; cases h
      | ok m =>
        simp only [hmerge] at h
        obtain rfl := Except.ok.inj h
        exact hset m hmerge

/-- What a plan comes to hold at a path is merged from the loads that go there, in their order. -/
theorem get?_addAll (h : p.addAll maxDepth cs = .ok q) (path : String) :
    (loadsAt path cs).foldlM (fun there l => (RelationLoad.mergeAt path there l).map some)
      (p.relations.get? path) = .ok (q.relations.get? path) := by
  induction cs generalizing p with
  | nil =>
    obtain rfl := Except.ok.inj h
    rfl
  | cons c cs ih =>
    rw [addAll_cons] at h
    cases c with
    | aggregate key a => exact @ih (p.addAggregate key a) h
    | load place l =>
      cases hadd : p.addLoad maxDepth place l with
      | error e => simp only [add, hadd] at h; cases h
      | ok r =>
        simp only [add, hadd] at h
        have hone := get?_addLoad hadd path
        have hrest := ih h
        by_cases hplace : place = path
        · rw [if_pos hplace] at hone
          have hcons : loadsAt path (.load place l :: cs) = l :: loadsAt path cs := by
            simp [loadsAt, hplace]
          rw [hcons, List.foldlM_cons, hone]
          exact hrest
        · rw [if_neg hplace] at hone
          have hcons : loadsAt path (.load place l :: cs) = loadsAt path cs := by
            simp [loadsAt, hplace]
          rw [hcons, ← hone]
          exact hrest

theorem get?_congr (hp : empty.addAll maxDepth cs = .ok p) (hq : empty.addAll maxDepth ds = .ok q)
    {path : String} (h : loadsAt path cs = loadsAt path ds) :
    p.relations.get? path = q.relations.get? path := by
  have hcs := get?_addAll hp path
  rw [h, get?_addAll hq path] at hcs
  exact (Except.ok.inj hcs).symm

theorem mem_keys_addAll (h : p.addAll maxDepth cs = .ok q) (key : String) :
    key ∈ q.aggregates.keys ↔ key ∈ p.aggregates.keys ∨ ∃ a, .aggregate key a ∈ cs := by
  induction cs generalizing p with
  | nil =>
    obtain rfl := Except.ok.inj h
    simp
  | cons c cs ih =>
    rw [addAll_cons] at h
    cases c with
    | aggregate other a =>
      rw [@ih (p.addAggregate other a) h]
      simp only [addAggregate, Entries.mem_keys_setIfAbsent, List.mem_cons,
        Contribution.aggregate.injEq, exists_or, or_assoc]
      grind
    | load place l =>
      cases hadd : p.addLoad maxDepth place l with
      | error e => simp only [add, hadd] at h; cases h
      | ok r =>
        simp only [add, hadd] at h
        rw [ih h, aggregates_addLoad hadd]
        simp

/-- A plan that loads and computes at least what another does. -/
structure Covers (q p : LoadPlan) : Prop where
  loads : ∀ path l, p.relations.get? path = some l →
    ∃ m, q.relations.get? path = some m ∧ l.Within m
  aggregates : ∀ key ∈ p.aggregates.keys, key ∈ q.aggregates.keys

/-- A plan for what two plans are for: what only one of them loads is left as it is there, and what
both load is merged. -/
structure IsUnion (u p q : LoadPlan) : Prop where
  paths : ∀ path, path ∈ u.paths ↔ path ∈ p.paths ∨ path ∈ q.paths
  left : ∀ path, path ∉ q.paths → u.relations.get? path = p.relations.get? path
  right : ∀ path, path ∉ p.paths → u.relations.get? path = q.relations.get? path
  shared : ∀ path l k, p.relations.get? path = some l → q.relations.get? path = some k →
    ∃ m n, l.merge k path = .ok m ∧ u.relations.get? path = some n ∧ n.Matches m
  aggregates : ∀ key, key ∈ u.aggregates.keys ↔ key ∈ p.aggregates.keys ∨ key ∈ q.aggregates.keys

end LoadPlan
end FieldPlan
