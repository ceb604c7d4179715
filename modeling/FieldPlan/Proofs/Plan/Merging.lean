import FieldPlan.Proofs.Names
import FieldPlan.Proofs.Plan.Contributions
/-!
# Merging loads

The loads of one path agree unless two of them are given different resources or constraints, where
an empty name counts as none. Contributions go into a plan if and only if their paths are short
enough and the loads of each path agree; the plan then holds the sum of these loads, in whatever
order they come.
-/
namespace FieldPlan

/-- A name, unless it is absent or empty. -/
def given (name : Option String) : Option String := name.filter (· != "")

theorem given_eq_self {a : Option String} (h : a ≠ some "") : given a = a := by
  cases a with
  | none => rfl
  | some x =>
    have hx : x ≠ "" := fun hx => h (congrArg some hx)
    simp [given, Option.filter_some, hx]

theorem given_firstGiven (a b : Option String) :
    given (firstGiven a b) = (given a).or (given b) := by
  cases a with
  | none => rfl
  | some x =>
    by_cases hx : x = ""
    · simp [firstGiven, given, Option.filter_some, hx]
    · simp [firstGiven, given, Option.filter_some, hx]

theorem firstGiven_cases (a b : Option String) : firstGiven a b = a ∨ firstGiven a b = b := by
  cases a with
  | none => exact .inr rfl
  | some x =>
    by_cases hx : x = ""
    · exact .inr (by simp [firstGiven, hx])
    · exact .inl (by simp [firstGiven, hx])

/-- Not given different names. -/
def Compatible (a b : Option String) : Prop := ∀ x y, given a = some x → given b = some y → x = y

theorem clash?_eq_none {a b : Option String} : clash? a b = none ↔ Compatible a b := by
  cases a with
  | none => simp [clash?, Compatible, given]
  | some x =>
    cases b with
    | none => simp [clash?, Compatible, given]
    | some y =>
      simp only [clash?, Compatible, given, Option.filter_some, bne_iff_ne]
      by_cases hx : x = "" <;> by_cases hy : y = "" <;> simp [hx, hy]

namespace RelationLoad

/-- Two loads that can share a path. -/
def Agree (a b : RelationLoad) : Prop :=
  Compatible a.resource b.resource ∧ Compatible a.constraint b.constraint

/-- What two loads need together. -/
def plus (a b : RelationLoad) : RelationLoad where
  resource := firstGiven a.resource b.resource
  columns := unionColumns a.columns b.columns
  constraint := firstGiven a.constraint b.constraint
  many := a.many || b.many
  cyclic := a.cyclic && b.cyclic

theorem agree_self (a : RelationLoad) : a.Agree a :=
  ⟨fun _ _ hx hy => Option.some.inj (hx.symm.trans hy),
    fun _ _ hx hy => Option.some.inj (hx.symm.trans hy)⟩

theorem Agree.symm {a b : RelationLoad} (h : a.Agree b) : b.Agree a :=
  ⟨fun x y hx hy => (h.1 y x hy hx).symm, fun x y hx hy => (h.2 y x hy hx).symm⟩

theorem merge_of_agree {a b : RelationLoad} (h : a.Agree b) (path : String) :
    a.merge b path = .ok (a.plus b) := by
  have hresource := clash?_eq_none.mpr h.1
  have hconstraint := clash?_eq_none.mpr h.2
  simp only [merge, hresource, hconstraint]
  rfl

theorem merge_eq_ok {a b m : RelationLoad} {path : String} (h : a.merge b path = .ok m) :
    a.Agree b ∧ m = a.plus b := by
  have hagree : a.Agree b := by
    unfold merge at h
    split at h
    · cases h
    · next hresource =>
      split at h
      · cases h
      · next hconstraint => exact ⟨clash?_eq_none.mp hresource, clash?_eq_none.mp hconstraint⟩
  rw [merge_of_agree hagree] at h
  exact ⟨hagree, (Except.ok.inj h).symm⟩

/-- One load that does the work of some loads. -/
structure Sums (m : RelationLoad) (P : RelationLoad → Prop) : Prop where
  resource_mem : ∃ l, P l ∧ l.resource = m.resource
  resource : ∀ n, given m.resource = some n ↔ ∃ l, P l ∧ given l.resource = some n
  constraint_mem : ∃ l, P l ∧ l.constraint = m.constraint
  constraint : ∀ n, given m.constraint = some n ↔ ∃ l, P l ∧ given l.constraint = some n
  full : m.columns = none ↔ ∃ l, P l ∧ l.columns = none
  columns : ∀ cs, m.columns = some cs →
    ∀ n, n ∈ cs ↔ ∃ l ds, P l ∧ l.columns = some ds ∧ n ∈ ds
  /-- the columns are in ascending order, unless they are those of a single load -/
  ascending : P m ∨ ∀ cs, m.columns = some cs → cs.Pairwise (· < ·)
  many : m.many = true ↔ ∃ l, P l ∧ l.many = true
  cyclic : m.cyclic = true ↔ ∀ l, P l → l.cyclic = true

variable {m l : RelationLoad} {P Q : RelationLoad → Prop}

theorem Sums.congr (h : m.Sums P) (hPQ : ∀ k, P k ↔ Q k) : m.Sums Q := by
  have hpq : P = Q := funext fun k => propext (hPQ k)
  exact hpq ▸ h

theorem sums_single (l : RelationLoad) : l.Sums (· = l) where
  resource_mem := ⟨l, rfl, rfl⟩
  resource n := by simp
  constraint_mem := ⟨l, rfl, rfl⟩
  constraint n := by simp
  full := by simp
  columns cs hcs n := by simp [hcs]
  ascending := .inl rfl
  many := by simp
  cyclic := by simp

private theorem given_plus {a b : Option String} (hagree : Compatible a b) (n : String) :
    given (firstGiven a b) = some n ↔ given a = some n ∨ given b = some n := by
  rw [given_firstGiven]
  cases ha : given a with
  | none => simp
  | some x =>
    simp only [Option.some_or, Option.some.injEq]
    constructor
    · exact .inl
    · rintro (hx | hb)
      · exact hx
      · exact hagree x n ha hb

theorem pairwise_columns_plus {a b : RelationLoad} {cs : List String}
    (h : (a.plus b).columns = some cs) : cs.Pairwise (· < ·) := by
  unfold RelationLoad.plus unionColumns at h
  cases ha : a.columns with
  | none => rw [ha] at h; cases h
  | some as =>
    cases hb : b.columns with
    | none => rw [ha, hb] at h; cases h
    | some bs =>
      rw [ha, hb] at h
      rw [← Option.some.inj h]
      exact pairwise_sortNames (nodup_unique _)

theorem Sums.union {k : RelationLoad} (hm : m.Sums P) (hk : k.Sums Q) (hagree : m.Agree k) :
    (m.plus k).Sums fun l => P l ∨ Q l where
  resource_mem := by
    rcases firstGiven_cases m.resource k.resource with h | h
    · obtain ⟨l, hl, hsame⟩ := hm.resource_mem
      exact ⟨l, .inl hl, hsame.trans h.symm⟩
    · obtain ⟨l, hl, hsame⟩ := hk.resource_mem
      exact ⟨l, .inr hl, hsame.trans h.symm⟩
  resource n := by
    rw [RelationLoad.plus, given_plus hagree.1, hm.resource, hk.resource]
    simp [or_and_right, exists_or]
  constraint_mem := by
    rcases firstGiven_cases m.constraint k.constraint with h | h
    · obtain ⟨l, hl, hsame⟩ := hm.constraint_mem
      exact ⟨l, .inl hl, hsame.trans h.symm⟩
    · obtain ⟨l, hl, hsame⟩ := hk.constraint_mem
      exact ⟨l, .inr hl, hsame.trans h.symm⟩
  constraint n := by
    rw [RelationLoad.plus, given_plus hagree.2, hm.constraint, hk.constraint]
    simp [or_and_right, exists_or]
  full := by
    have hnone : (m.plus k).columns = none ↔ m.columns = none ∨ k.columns = none := by
      unfold RelationLoad.plus unionColumns
      cases m.columns <;> cases k.columns <;> simp
    rw [hnone, hm.full, hk.full]
    simp [or_and_right, exists_or]
  columns cs hcs n := by
    unfold RelationLoad.plus unionColumns at hcs
    cases hmc : m.columns with
    | none => rw [hmc] at hcs; cases hcs
    | some as =>
      cases hkc : k.columns with
      | none => rw [hmc, hkc] at hcs; cases hcs
      | some bs =>
        rw [hmc, hkc] at hcs
        rw [← Option.some.inj hcs, mem_sortNames, mem_unique, List.mem_append,
          hm.columns as hmc, hk.columns bs hkc]
        simp [or_and_right, exists_or]
  ascending := .inr fun _ => pairwise_columns_plus
  many := by
    rw [RelationLoad.plus, Bool.or_eq_true, hm.many, hk.many]
    simp [or_and_right, exists_or]
  cyclic := by
    rw [RelationLoad.plus, Bool.and_eq_true, hm.cyclic, hk.cyclic]
    simp [or_imp, forall_and]

theorem Sums.plus (h : m.Sums P) (hagree : m.Agree l) :
    (m.plus l).Sums fun k => P k ∨ k = l :=
  h.union (sums_single l) hagree

theorem Sums.agree_iff (h : m.Sums P) : m.Agree l ↔ ∀ k, P k → k.Agree l := by
  constructor
  · intro hagree k hk
    refine ⟨fun x y hx hy => ?_, fun x y hx hy => ?_⟩
    · exact hagree.1 x y ((h.resource x).mpr ⟨k, hk, hx⟩) hy
    · exact hagree.2 x y ((h.constraint x).mpr ⟨k, hk, hx⟩) hy
  · intro hagree
    refine ⟨fun x y hx hy => ?_, fun x y hx hy => ?_⟩
    · obtain ⟨k, hk, hx⟩ := (h.resource x).mp hx
      exact (hagree k hk).1 x y hx hy
    · obtain ⟨k, hk, hx⟩ := (h.constraint x).mp hx
      exact (hagree k hk).2 x y hx hy

theorem Sums.agree_iff_forall {k : RelationLoad} (hm : m.Sums P) (hk : k.Sums Q) :
    m.Agree k ↔ ∀ a b, P a → Q b → a.Agree b := by
  rw [hm.agree_iff]
  constructor
  · intro h a b ha hb
    exact (hk.agree_iff.mp (h a ha).symm b hb).symm
  · intro h a ha
    exact (hk.agree_iff.mpr fun b hb => (h a b ha hb).symm).symm

/-- Two loads that differ at most in the order of their columns, and in whether absent names are
spelled as empty ones. -/
structure Matches (l k : RelationLoad) : Prop where
  resource : given l.resource = given k.resource
  columns : l.columns = none ∧ k.columns = none ∨
    ∃ cs ds, l.columns = some cs ∧ k.columns = some ds ∧ ∀ n, n ∈ cs ↔ n ∈ ds
  constraint : given l.constraint = given k.constraint
  many : l.many = k.many
  cyclic : l.cyclic = k.cyclic

private theorem given_eq {a b : Option String} {P : String → Prop}
    (ha : ∀ n, given a = some n ↔ P n) (hb : ∀ n, given b = some n ↔ P n) : given a = given b := by
  apply Option.ext
  intro n
  rw [ha, hb]

/-- The sum of some loads is determined by them. -/
theorem Sums.matches {k : RelationLoad} (hl : l.Sums P) (hk : k.Sums P) : l.Matches k where
  resource := given_eq hl.resource hk.resource
  columns := by
    cases hcl : l.columns with
    | none => exact .inl ⟨rfl, hk.full.mpr (hl.full.mp hcl)⟩
    | some cs =>
      cases hck : k.columns with
      | none =>
        rw [hl.full.mpr (hk.full.mp hck)] at hcl
        cases hcl
      | some ds =>
        exact .inr ⟨cs, ds, rfl, rfl,
          fun n => (hl.columns cs hcl n).trans (hk.columns ds hck n).symm⟩
  constraint := given_eq hl.constraint hk.constraint
  many := Bool.eq_iff_iff.mpr (hl.many.trans hk.many.symm)
  cyclic := Bool.eq_iff_iff.mpr (hl.cyclic.trans hk.cyclic.symm)

theorem Sums.given_resource (h : m.Sums P) (hnamed : ∀ k, P k → k.resource ≠ some "") :
    given m.resource = m.resource := by
  obtain ⟨k, hk, hkm⟩ := h.resource_mem
  exact given_eq_self (hkm ▸ hnamed k hk)

end RelationLoad

/-- Contributions that fit into one plan: no path is too deep, and the loads of each path agree. -/
structure Contribution.Consistent (maxDepth : Nat) (cs : List Contribution) : Prop where
  depth : ∀ path l, .load path l ∈ cs → pathDepth path ≤ maxDepth
  agree : ∀ path l k, .load path l ∈ cs → .load path k ∈ cs → l.Agree k

theorem Contribution.consistent_nil (maxDepth : Nat) : Consistent maxDepth [] where
  depth _ _ h := nomatch h
  agree _ _ _ h := nomatch h

namespace LoadPlan

/-- The plan holds at each path the sum of the loads that are contributed there. -/
structure Accounts (p : LoadPlan) (cs : List Contribution) : Prop where
  absent : ∀ path, p.relations.get? path = none → ∀ l, .load path l ∉ cs
  present : ∀ path m, p.relations.get? path = some m → m.Sums fun l => .load path l ∈ cs

variable {maxDepth : Nat} {p q : LoadPlan} {cs ds : List Contribution}

theorem accounts_empty : empty.Accounts [] :=
  ⟨fun _ _ _ => List.not_mem_nil, fun _ _ h => nomatch h⟩

theorem Accounts.aggregate (h : p.Accounts cs) (key : String) (a : AggregateLoad) :
    (p.addAggregate key a).Accounts (cs ++ [.aggregate key a]) where
  absent path hpath l := by
    have hl := h.absent path hpath l
    simp [hl]
  present path m hm := (h.present path m hm).congr fun k => by simp

theorem Accounts.addLoad (h : p.Accounts cs) {path : String} {l : RelationLoad}
    (hq : p.addLoad maxDepth path l = .ok q) :
    q.Accounts (cs ++ [.load path l]) ∧ pathDepth path ≤ maxDepth ∧
      ∀ k, .load path k ∈ cs → k.Agree l := by
  unfold LoadPlan.addLoad at hq
  by_cases hdeep : maxDepth < pathDepth path
  · rw [if_pos hdeep] at hq
    cases hq
  · rw [if_neg hdeep] at hq
    have hset {m : RelationLoad} (hm : m.Sums fun k => .load path k ∈ cs ∨ k = l) :
        ({ p with relations := p.relations.set path m } : LoadPlan).Accounts
          (cs ++ [.load path l]) := by
      refine ⟨fun path' hpath' k => ?_, fun path' m' hm' => ?_⟩
      · rw [Entries.get?_set] at hpath'
        split at hpath'
        · cases hpath'
        · next hne =>
          have hk := h.absent path' hpath' k
          simp [hk, hne]
      · rw [Entries.get?_set] at hm'
        split at hm'
        · next heq =>
          rw [← Option.some.inj hm', heq]
          exact hm.congr fun k => by simp
        · next hne => exact (h.present path' m' hm').congr fun k => by simp [hne]
    cases hthere : p.relations.get? path with
    | none =>
      rw [hthere] at hq
      obtain rfl := Except.ok.inj hq
      have habsent := h.absent path hthere
      refine ⟨hset ?_, by omega, fun k hk => absurd hk (habsent k)⟩
      exact (RelationLoad.sums_single l).congr fun k => by simp [habsent k]
    | some there =>
      rw [hthere] at hq
      have hsum := h.present path there hthere
      cases hmerge : there.merge l path with
      | error e => simp only [hmerge] at hq; cases hq
      | ok m =>
        simp only [hmerge] at hq
        obtain rfl := Except.ok.inj hq
        obtain ⟨hagree, rfl⟩ := RelationLoad.merge_eq_ok hmerge
        exact ⟨hset (hsum.plus hagree), by omega, hsum.agree_iff.mp hagree⟩

theorem Accounts.addLoad_error (h : p.Accounts cs) {path : String} {l : RelationLoad}
    {e : PlanError} (he : p.addLoad maxDepth path l = .error e) :
    maxDepth < pathDepth path ∨ ∃ k, .load path k ∈ cs ∧ ¬ k.Agree l := by
  unfold LoadPlan.addLoad at he
  by_cases hdeep : maxDepth < pathDepth path
  · exact .inl hdeep
  · rw [if_neg hdeep] at he
    cases hthere : p.relations.get? path with
    | none => rw [hthere] at he; cases he
    | some there =>
      rw [hthere] at he
      have hsum := h.present path there hthere
      have hagree : ¬ there.Agree l := by
        intro hagree
        simp only [RelationLoad.merge_of_agree hagree path] at he
        cases he
      rw [hsum.agree_iff] at hagree
      refine .inr ?_
      simpa using hagree

theorem Accounts.add (h : p.Accounts cs) (hcs : Contribution.Consistent maxDepth cs)
    {c : Contribution} (hq : p.add maxDepth c = .ok q) :
    q.Accounts (cs ++ [c]) ∧ Contribution.Consistent maxDepth (cs ++ [c]) := by
  cases c with
  | aggregate key a =>
    obtain rfl := Except.ok.inj hq
    refine ⟨h.aggregate key a, ⟨fun path l hl => ?_, fun path l k hl hk => ?_⟩⟩
    · exact hcs.depth path l (by simpa using hl)
    · exact hcs.agree path l k (by simpa using hl) (by simpa using hk)
  | load path l =>
    obtain ⟨haccounts, hdepth, hagree⟩ := h.addLoad hq
    refine ⟨haccounts, ⟨fun path' k hk => ?_, fun path' k k' hk hk' => ?_⟩⟩
    · simp only [List.mem_append, List.mem_singleton, Contribution.load.injEq] at hk
      rcases hk with hk | ⟨rfl, rfl⟩
      · exact hcs.depth path' k hk
      · exact hdepth
    · simp only [List.mem_append, List.mem_singleton, Contribution.load.injEq] at hk hk'
      rcases hk with hk | ⟨rfl, rfl⟩
      · rcases hk' with hk' | ⟨rfl, rfl⟩
        · exact hcs.agree path' k k' hk hk'
        · exact hagree k hk
      · rcases hk' with hk' | ⟨-, rfl⟩
        · exact (hagree k' hk').symm
        · exact RelationLoad.agree_self _

theorem Accounts.add_error (h : p.Accounts cs) {c : Contribution} {e : PlanError}
    (he : p.add maxDepth c = .error e) : ¬ Contribution.Consistent maxDepth (cs ++ [c]) := by
  intro hcs
  cases c with
  | aggregate key a => cases he
  | load path l =>
    rcases h.addLoad_error he with hdeep | ⟨k, hk, hagree⟩
    · have hdepth := hcs.depth path l (by simp)
      omega
    · exact hagree (hcs.agree path k l (List.mem_append_left _ hk) (by simp))

theorem Accounts.addAll (h : p.Accounts ds) (hds : Contribution.Consistent maxDepth ds)
    (hq : p.addAll maxDepth cs = .ok q) :
    q.Accounts (ds ++ cs) ∧ Contribution.Consistent maxDepth (ds ++ cs) := by
  induction cs generalizing p ds with
  | nil =>
    obtain rfl := Except.ok.inj hq
    simpa using And.intro h hds
  | cons c cs ih =>
    rw [addAll_cons] at hq
    cases hadd : p.add maxDepth c with
    | error e => rw [hadd] at hq; cases hq
    | ok r =>
      rw [hadd] at hq
      obtain ⟨hr, hcons⟩ := h.add hds hadd
      have hrest := ih hr hcons hq
      rwa [List.append_assoc, List.singleton_append] at hrest

theorem Accounts.addAll_error (h : p.Accounts ds) (hds : Contribution.Consistent maxDepth ds)
    {e : PlanError} (he : p.addAll maxDepth cs = .error e) :
    ¬ Contribution.Consistent maxDepth (ds ++ cs) := by
  induction cs generalizing p ds with
  | nil => cases he
  | cons c cs ih =>
    rw [addAll_cons] at he
    have happend : ds ++ c :: cs = ds ++ [c] ++ cs := by simp
    cases hadd : p.add maxDepth c with
    | error e' =>
      have hone := h.add_error hadd
      intro hall
      refine hone ⟨fun path l hl => hall.depth path l ?_, fun path l k hl hk => ?_⟩
      · rw [happend]
        exact List.mem_append_left _ hl
      · refine hall.agree path l k ?_ ?_
        · rw [happend]
          exact List.mem_append_left _ hl
        · rw [happend]
          exact List.mem_append_left _ hk
    | ok r =>
      rw [hadd] at he
      obtain ⟨hr, hcons⟩ := h.add hds hadd
      rw [happend]
      exact ih hr hcons he

/-- Contributions go into an empty plan exactly if they are consistent. -/
theorem addAll_isOk_iff (maxDepth : Nat) (cs : List Contribution) :
    (∃ q, empty.addAll maxDepth cs = .ok q) ↔ Contribution.Consistent maxDepth cs := by
  have hnone := Contribution.consistent_nil maxDepth
  cases h : empty.addAll maxDepth cs with
  | ok q =>
    have hq := (accounts_empty.addAll hnone h).2
    exact ⟨fun _ => hq, fun _ => ⟨q, rfl⟩⟩
  | error e =>
    have he := accounts_empty.addAll_error hnone h
    exact ⟨fun ⟨_, hq⟩ => (nomatch hq), fun hcs => absurd hcs he⟩

theorem accounts_of_addAll (h : empty.addAll maxDepth cs = .ok q) : q.Accounts cs :=
  (accounts_empty.addAll (Contribution.consistent_nil maxDepth) h).1

theorem addAll_isOk_congr (maxDepth : Nat) (h : ∀ path l, .load path l ∈ cs ↔ .load path l ∈ ds) :
    (∃ q, empty.addAll maxDepth cs = .ok q) ↔ ∃ q, empty.addAll maxDepth ds = .ok q := by
  rw [addAll_isOk_iff, addAll_isOk_iff]
  constructor
  · intro hcs
    exact ⟨fun path l hl => hcs.depth path l ((h path l).mpr hl), fun path l k hl hk =>
      hcs.agree path l k ((h path l).mpr hl) ((h path k).mpr hk)⟩
  · intro hds
    exact ⟨fun path l hl => hds.depth path l ((h path l).mp hl), fun path l k hl hk =>
      hds.agree path l k ((h path l).mp hl) ((h path k).mp hk)⟩

theorem Accounts.mem_paths (h : q.Accounts cs) (path : String) :
    path ∈ q.sorted.relations.keys ↔ ∃ l, .load path l ∈ cs := by
  have hsorted : path ∈ q.sorted.relations.keys ↔ path ∈ q.relations.keys :=
    (Entries.keys_sorted_perm q.relations).mem_iff
  rw [hsorted]
  constructor
  · intro hpath
    cases hget : q.relations.get? path with
    | none => exact absurd hpath (Entries.get?_eq_none.mp hget)
    | some m =>
      obtain ⟨l, hl, -⟩ := (h.present path m hget).resource_mem
      exact ⟨l, hl⟩
  · rintro ⟨l, hl⟩
    cases hget : q.relations.get? path with
    | none => exact absurd hl (h.absent path hget l)
    | some m => exact List.mem_map_of_mem (Entries.mem_of_get? hget)

theorem Accounts.sums (h : q.Accounts cs) (hkeys : q.relations.keys.Nodup) {path : String}
    {m : RelationLoad} (hm : (path, m) ∈ q.sorted.relations) :
    m.Sums fun l => .load path l ∈ cs := by
  refine h.present path m ?_
  rw [← Entries.get?_sorted hkeys]
  exact (Entries.get?_eq_some (Entries.nodup_keys_sorted hkeys)).mpr hm

end LoadPlan
end FieldPlan
