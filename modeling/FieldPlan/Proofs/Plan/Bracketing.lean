import FieldPlan.Proofs.Plan.Merging
/-!
# Merging in any order

However loads are put in order and grouped, merging them fails for the same lists and comes to the
same load. A tree over the loads says in which groups they are merged; its loads in a row are the
order.
-/
namespace FieldPlan

/-- Two loads of a path cannot be merged. -/
def PlanError.IsConflict (e : PlanError) (path : String) : Prop :=
  ∃ x y, e = .resources path x y ∨ e = .constraints path x y

namespace RelationLoad

structure Named (l : RelationLoad) : Prop where
  resource : l.resource ≠ some ""
  constraint : l.constraint ≠ some ""

/-- Both loads have a resource, or both have a constraint, and these are different. -/
def Differ (a b : RelationLoad) : Prop :=
  (∃ x y, a.resource = some x ∧ b.resource = some y ∧ x ≠ y) ∨
    ∃ x y, a.constraint = some x ∧ b.constraint = some y ∧ x ≠ y

private theorem compatible_iff {a b : Option String} (ha : a ≠ some "") (hb : b ≠ some "") :
    Compatible a b ↔ ¬ ∃ x y, a = some x ∧ b = some y ∧ x ≠ y := by
  rw [Compatible, given_eq_self ha, given_eq_self hb]
  constructor
  · rintro hsame ⟨x, y, hx, hy, hne⟩
    exact hne (hsame x y hx hy)
  · intro hnone x y hx hy
    exact Classical.not_not.mp fun hne => hnone ⟨x, y, hx, hy, hne⟩

theorem Named.agree_iff {a b : RelationLoad} (ha : a.Named) (hb : b.Named) :
    a.Agree b ↔ ¬ a.Differ b := by
  rw [Agree, compatible_iff ha.resource hb.resource, compatible_iff ha.constraint hb.constraint,
    Differ, not_or]

theorem merge_error {a b : RelationLoad} {path : String} {e : PlanError}
    (h : a.merge b path = .error e) : e.IsConflict path := by
  unfold merge at h
  split at h
  · next x y _ => exact ⟨x, y, .inl (Except.error.inj h).symm⟩
  · split at h
    · next x y _ => exact ⟨x, y, .inr (Except.error.inj h).symm⟩
    · cases h

/-- Loads in the groups in which they are merged. -/
inductive Bracketing where
  | load (l : RelationLoad)
  | pair (first second : Bracketing)

namespace Bracketing

def loads : Bracketing → List RelationLoad
  | load l => [l]
  | pair first second => first.loads ++ second.loads

def merge (path : String) : Bracketing → Except PlanError RelationLoad
  | load l => .ok l
  | pair first second => do
    let a ← first.merge path
    let b ← second.merge path
    a.merge b path

def inTurn (first : RelationLoad) (rest : List RelationLoad) : Bracketing :=
  rest.foldl (fun t l => pair t (load l)) (load first)

variable {t : Bracketing} {path : String} {m : RelationLoad}

private theorem loads_foldl (t : Bracketing) (rest : List RelationLoad) :
    (rest.foldl (fun t l => pair t (load l)) t).loads = t.loads ++ rest := by
  induction rest generalizing t with
  | nil => simp
  | cons l rest ih => simp [ih, loads]

@[simp] theorem loads_inTurn (first : RelationLoad) (rest : List RelationLoad) :
    (inTurn first rest).loads = first :: rest :=
  loads_foldl (load first) rest

private theorem merge_foldl (path : String) (t : Bracketing) (rest : List RelationLoad) :
    (rest.foldl (fun t l => pair t (load l)) t).merge path =
      (t.merge path).bind fun a => rest.foldlM (fun a b => a.merge b path) a := by
  induction rest generalizing t with
  | nil => cases h : t.merge path <;> simp [h, Except.bind, pure, Except.pure]
  | cons l rest ih =>
    rw [List.foldl_cons, ih, merge]
    cases t.merge path <;> rfl

theorem merge_inTurn (path : String) (first : RelationLoad) (rest : List RelationLoad) :
    (inTurn first rest).merge path = mergeAll path first rest :=
  merge_foldl path (load first) rest

theorem merge_pair_eq_ok {first second : Bracketing} : (pair first second).merge path = .ok m ↔
    ∃ a b, first.merge path = .ok a ∧ second.merge path = .ok b ∧ a.Agree b ∧ m = a.plus b := by
  constructor
  · intro h
    rw [merge] at h
    cases hfirst : first.merge path with
    | error e => rw [hfirst] at h; cases h
    | ok a =>
      cases hsecond : second.merge path with
      | error e => rw [hfirst, hsecond] at h; cases h
      | ok b =>
        rw [hfirst, hsecond] at h
        exact ⟨a, b, rfl, rfl, RelationLoad.merge_eq_ok h⟩
  · rintro ⟨a, b, hfirst, hsecond, hagree, rfl⟩
    rw [merge, hfirst, hsecond]
    exact merge_of_agree hagree path

/-- Merged loads agree, and their sum is the result. -/
theorem merge_eq_ok (h : t.merge path = .ok m) :
    m.Sums (· ∈ t.loads) ∧ ∀ a b, a ∈ t.loads → b ∈ t.loads → a.Agree b := by
  induction t generalizing m with
  | load l =>
    obtain rfl := Except.ok.inj h
    refine ⟨(sums_single l).congr fun k => by simp [loads], fun a b ha hb => ?_⟩
    rw [List.mem_singleton.mp ha, List.mem_singleton.mp hb]
    exact agree_self l
  | pair first second ihfirst ihsecond =>
    obtain ⟨k, n, hfirst, hsecond, hboth, rfl⟩ := merge_pair_eq_ok.mp h
    obtain ⟨hsum, hagree⟩ := ihfirst hfirst
    obtain ⟨hsum', hagree'⟩ := ihsecond hsecond
    have hcross := (hsum.agree_iff_forall hsum').mp hboth
    refine ⟨(hsum.union hsum' hboth).congr fun l => by simp [loads], fun a b ha hb => ?_⟩
    rcases List.mem_append.mp ha with ha | ha <;> rcases List.mem_append.mp hb with hb | hb
    · exact hagree a b ha hb
    · exact hcross a b ha hb
    · exact (hcross b a hb ha).symm
    · exact hagree' a b ha hb

theorem exists_merge (path : String) (h : ∀ a b, a ∈ t.loads → b ∈ t.loads → a.Agree b) :
    ∃ m, t.merge path = .ok m := by
  induction t with
  | load l => exact ⟨l, rfl⟩
  | pair first second ihfirst ihsecond =>
    obtain ⟨a, ha⟩ := ihfirst fun k n hk hn =>
      h k n (List.mem_append_left _ hk) (List.mem_append_left _ hn)
    obtain ⟨b, hb⟩ := ihsecond fun k n hk hn =>
      h k n (List.mem_append_right _ hk) (List.mem_append_right _ hn)
    have hagree : a.Agree b :=
      ((merge_eq_ok ha).1.agree_iff_forall (merge_eq_ok hb).1).mpr fun k n hk hn =>
        h k n (List.mem_append_left _ hk) (List.mem_append_right _ hn)
    exact ⟨a.plus b, merge_pair_eq_ok.mpr ⟨a, b, ha, hb, hagree, rfl⟩⟩

theorem merge_error {e : PlanError} (h : t.merge path = .error e) : e.IsConflict path := by
  induction t with
  | load l => cases h
  | pair first second ihfirst ihsecond =>
    rw [merge] at h
    cases hfirst : first.merge path with
    | error e' =>
      rw [hfirst] at h
      exact ihfirst (Except.error.inj h ▸ hfirst)
    | ok a =>
      cases hsecond : second.merge path with
      | error e' =>
        rw [hfirst, hsecond] at h
        exact ihsecond (Except.error.inj h ▸ hsecond)
      | ok b =>
        rw [hfirst, hsecond] at h
        exact RelationLoad.merge_error h

theorem pairwise_columns_of_merge (h : t.merge path = .ok m) (htwo : 2 ≤ t.loads.length)
    {cs : List String} (hcs : m.columns = some cs) : cs.Pairwise (· < ·) := by
  cases t with
  | load l => simp [loads] at htwo
  | pair first second =>
    obtain ⟨a, b, -, -, -, rfl⟩ := merge_pair_eq_ok.mp h
    exact pairwise_columns_plus hcs

end Bracketing

variable {ls : List RelationLoad} {m k : RelationLoad}

theorem Sums.named (h : m.Sums (· ∈ ls)) (hnamed : ∀ l ∈ ls, l.Named) : m.Named := by
  obtain ⟨l, hl, hresource⟩ := h.resource_mem
  obtain ⟨l', hl', hconstraint⟩ := h.constraint_mem
  exact ⟨hresource ▸ (hnamed l hl).resource, hconstraint ▸ (hnamed l' hl').constraint⟩

theorem Matches.eq (h : m.Matches k) (hm : m.Named) (hk : k.Named)
    (hcolumns : ∀ cs, m.columns = some cs → cs.Pairwise (· < ·))
    (hcolumns' : ∀ cs, k.columns = some cs → cs.Pairwise (· < ·)) : m = k := by
  obtain ⟨hresource, hsame, hconstraint, hmany, hcyclic⟩ := h
  rw [given_eq_self hm.resource, given_eq_self hk.resource] at hresource
  rw [given_eq_self hm.constraint, given_eq_self hk.constraint] at hconstraint
  have hcols : m.columns = k.columns := by
    rcases hsame with ⟨hnone, hnone'⟩ | ⟨cs, ds, hcs, hds, hmem⟩
    · rw [hnone, hnone']
    · rw [hcs, hds, eq_of_pairwise_of_mem (hcolumns cs hcs) (hcolumns' ds hds) hmem]
  cases m
  cases k
  simp_all

theorem merge_self (l : RelationLoad) (path : String) :
    l.merge l path = .ok { l with columns := l.columns.map fun cs => sortNames (unique cs) } := by
  have hname (a : Option String) : firstGiven a a = a :=
    (firstGiven_cases a a).elim id id
  have hcolumns : unionColumns l.columns l.columns =
      l.columns.map fun cs => sortNames (unique cs) := by
    cases l.columns with
    | none => rfl
    | some cs =>
      exact congrArg some (sortNames_unique_congr fun n => by simp)
  rw [merge_of_agree (agree_self l), plus, hname, hname, hcolumns, Bool.or_self, Bool.and_self]

theorem columns_plus_of_full {a b : RelationLoad} (h : a.columns = none ∨ b.columns = none) :
    (a.plus b).columns = none := by
  unfold plus unionColumns
  rcases h with h | h
  · rw [h]
  · rw [h]
    cases a.columns <;> rfl

/-- Two loads or more are merged in any order and grouping alike: always to a conflict, namely if
two of them differ in their resources or their constraints, or always to the same load, their sum. A
load merged with itself has its columns sorted, and a full load absorbs the projections that agree
with it. -/
theorem merge_in_any_way (path : String) {ls : List RelationLoad} (htwo : 2 ≤ ls.length)
    (hnamed : ∀ l ∈ ls, l.Named) :
    (((∃ a ∈ ls, ∃ b ∈ ls, a.Differ b) ∧ ∀ t : Bracketing, t.loads.Perm ls →
          ∃ e, t.merge path = .error e ∧ e.IsConflict path) ∨
        (¬ ∃ a ∈ ls, ∃ b ∈ ls, a.Differ b) ∧ ∃ m : RelationLoad, m.Sums (· ∈ ls) ∧
          ∀ t : Bracketing, t.loads.Perm ls → t.merge path = .ok m) ∧
      (∀ first rest, (Bracketing.inTurn first rest).loads = first :: rest ∧
        (Bracketing.inTurn first rest).merge path = mergeAll path first rest) ∧
      (∀ l : RelationLoad, l.merge l path =
        .ok { l with columns := l.columns.map fun cs => sortNames (unique cs) }) ∧
      ∀ l k : RelationLoad, l.columns = none → l.Agree k →
        ∃ m n, l.merge k path = .ok m ∧ k.merge l path = .ok n ∧
          m.columns = none ∧ n.columns = none := by
  have hagree : (∀ a b, a ∈ ls → b ∈ ls → a.Agree b) ↔ ¬ ∃ a ∈ ls, ∃ b ∈ ls, a.Differ b := by
    constructor
    · rintro hall ⟨a, ha, b, hb, hdiffer⟩
      exact ((hnamed a ha).agree_iff (hnamed b hb)).mp (hall a b ha hb) hdiffer
    · intro hnone a b ha hb
      exact ((hnamed a ha).agree_iff (hnamed b hb)).mpr fun hdiffer => hnone ⟨a, ha, b, hb, hdiffer⟩
  refine ⟨?_, fun first rest => ⟨Bracketing.loads_inTurn first rest,
    Bracketing.merge_inTurn path first rest⟩, fun l => merge_self l path, fun l k hfull hlk => ?_⟩
  · by_cases hdiffer : ∃ a ∈ ls, ∃ b ∈ ls, a.Differ b
    · refine .inl ⟨hdiffer, fun t ht => ?_⟩
      cases hmerge : t.merge path with
      | error e => exact ⟨e, rfl, Bracketing.merge_error hmerge⟩
      | ok m =>
        have hall := (Bracketing.merge_eq_ok hmerge).2
        simp only [ht.mem_iff] at hall
        exact absurd hdiffer (hagree.mp hall)
    · have hall := hagree.mpr hdiffer
      have hmerge (t : Bracketing) (ht : t.loads.Perm ls) :
          ∃ m, t.merge path = .ok m ∧ m.Sums (· ∈ ls) ∧
            ∀ cs, m.columns = some cs → cs.Pairwise (· < ·) := by
        obtain ⟨m, hm⟩ := Bracketing.exists_merge path fun a b ha hb =>
          hall a b (ht.mem_iff.mp ha) (ht.mem_iff.mp hb)
        refine ⟨m, hm, (Bracketing.merge_eq_ok hm).1.congr fun l => ht.mem_iff, fun cs => ?_⟩
        exact Bracketing.pairwise_columns_of_merge hm (ht.length_eq ▸ htwo)
      -- one order is enough to find the load that all of them come to
      obtain ⟨first, rest, rfl⟩ : ∃ first rest, ls = first :: rest := by
        cases ls with
        | nil => simp at htwo
        | cons first rest => exact ⟨first, rest, rfl⟩
      obtain ⟨m, -, hsum, hcolumns⟩ := hmerge (.inTurn first rest) (by simp)
      refine .inr ⟨hdiffer, m, hsum, fun t ht => ?_⟩
      obtain ⟨n, hn, hsum', hcolumns'⟩ := hmerge t ht
      rw [hn, (hsum'.matches hsum).eq (hsum'.named hnamed) (hsum.named hnamed) hcolumns' hcolumns]
  · refine ⟨l.plus k, k.plus l, merge_of_agree hlk path, merge_of_agree hlk.symm path, ?_, ?_⟩
    · exact columns_plus_of_full (.inl hfull)
    · exact columns_plus_of_full (.inr hfull)

end RelationLoad

namespace Tags

open RelationLoad

def names : RelationLoad := { resource := some "tag", columns := some ["name", "id"], many := true }

def colors : RelationLoad :=
  { columns := some ["color"], constraint := some "live", cyclic := true }

def numbers : RelationLoad := { resource := some "tag", columns := some ["id"], many := true }

/-- The columns of a tag are collected in any order. -/
theorem merged_in_any_way : ∃ m : RelationLoad, m.Sums (· ∈ [names, colors, numbers]) ∧
    ∀ t : Bracketing, t.loads.Perm [names, colors, numbers] → t.merge "tags" = .ok m := by
  have hnamed : ∀ l ∈ [names, colors, numbers], l.Named := by
    intro l hl
    constructor <;> revert l <;> decide
  rcases (merge_in_any_way "tags" (by decide) hnamed).1 with ⟨-, hconflict⟩ | ⟨-, hmerged⟩
  · obtain ⟨e, he, -⟩ := hconflict (.inTurn names [colors, numbers]) (by simp)
    cases he
  · exact hmerged

end Tags
end FieldPlan
