import FieldPlan.Proofs.Entries
import FieldPlan.Proofs.Request.Names
/-!
# What selections and aggregations store

A selection keeps the names of each scope that has some, an aggregation the columns of each relation
that has some. What is reported of one entry does not depend on the others; and where keys are
distinct, what is looked up under a scope is what the entry of the scope gives.
-/
namespace FieldPlan.Request

variable {parameter scope relation : String} {entries : Entries Json} {a : Aggregation} {j : Json}

def kept (j : Json) : Option (List String) := given (namesOf? j)

theorem areNames_of_kept {ns : List String} (h : kept j = some ns) : AreNames ns :=
  given_namesOf?_spec h

/-! ## Selections -/

theorem selectionOf_value (parameter : String) (entries : Entries Json) :
    (selectionOf parameter entries).value =
      entries.filterMap fun e => (kept e.2).map fun ns => (e.1, ns) := by
  induction entries with
  | nil => rfl
  | cons e rest ih =>
    rw [selectionOf, List.filterMap_cons, ← ih, kept, names_value]
    cases given (namesOf? e.2) <;> rfl

theorem selectionOf_problems (parameter : String) (entries : Entries Json) :
    (selectionOf parameter entries).problems =
      entries.flatMap fun e => (names (scopeLabel parameter e.1) e.2).problems := by
  induction entries with
  | nil => rfl
  | cons e rest ih => rw [selectionOf, List.flatMap_cons, ← ih]

theorem selectionOf_problems_eq_nil_iff : (selectionOf parameter entries).problems = [] ↔
    ∀ e ∈ entries, (namesOf? e.2).isSome := by
  rw [selectionOf_problems, List.flatMap_eq_nil_iff]
  simp only [names_problems_eq_nil_iff]

theorem areNames_of_mem_selectionOf {e : String × List String}
    (h : e ∈ (selectionOf parameter entries).value) : AreNames e.2 := by
  rw [selectionOf_value] at h
  obtain ⟨⟨scope, j⟩, -, he⟩ := List.mem_filterMap.mp h
  obtain ⟨ns, hns, rfl⟩ := Option.map_eq_some_iff.mp he
  exact areNames_of_kept hns

theorem nodup_keys_selectionOf (h : entries.keys.Nodup) (parameter : String) :
    (selectionOf parameter entries).value.keys.Nodup := by
  have hsub : (selectionOf parameter entries).value.keys.Sublist entries.keys := by
    rw [selectionOf_value]
    induction entries with
    | nil => exact List.Sublist.refl _
    | cons e rest ih =>
      have hrest := ih (List.nodup_cons.mp h).2
      rw [List.filterMap_cons]
      cases kept e.2 with
      | none => exact hrest.cons e.1
      | some ns => exact hrest.cons_cons e.1
  exact h.sublist hsub

theorem get?_selectionOf (h : entries.keys.Nodup) (parameter scope : String) :
    (selectionOf parameter entries).value.get? scope = (entries.get? scope).bind kept := by
  rw [selectionOf_value]
  induction entries with
  | nil => rfl
  | cons e rest ih =>
    obtain ⟨key, j⟩ := e
    obtain ⟨hkey, hrest⟩ := List.nodup_cons.mp h
    have hlater := ih hrest
    rw [List.filterMap_cons, Entries.get?_cons]
    by_cases hscope : scope = key
    · subst hscope
      rw [Entries.get?_eq_none.mpr hkey, Option.bind_none] at hlater
      rw [if_pos rfl, Option.bind_some]
      cases hkept : kept j with
      | none => exact hlater
      | some ns => simp [Entries.get?_cons]
    · rw [if_neg hscope, ← hlater]
      cases hkept : kept j with
      | none => simp
      | some ns => simp [Entries.get?_cons, hscope]

/-! ## Aggregations -/

def columnsAt (a : Aggregation) (scope relation : String) : Option (List String) :=
  (a.get? scope).bind fun relations => relations.get? relation

/-- Each scope and each relation stands once, and none without what it is for. -/
structure IsStored (a : Aggregation) : Prop where
  keys : a.keys.Nodup
  ne_nil : ∀ e ∈ a, e.2 ≠ []
  relations : ∀ e ∈ a, e.2.keys.Nodup
  columns : ∀ e ∈ a, ∀ r ∈ e.2, AreNames r.2

theorem addColumns_eq (scope relation : String) (j : Json) (a : Aggregation) :
    addColumns scope relation (namesOf? j) a = match kept j with
      | some cs => a.set scope (((a.get? scope).getD []).set relation cs)
      | none => a := rfl

theorem IsStored.addColumns (h : IsStored a) (scope relation : String) (j : Json) :
    IsStored (addColumns scope relation (namesOf? j) a) := by
  rw [addColumns_eq]
  cases hkept : kept j with
  | none => exact h
  | some cs =>
    have hold : ∀ e ∈ (a.get? scope).getD [], AreNames e.2 := by
      cases hget : a.get? scope with
      | none => exact fun e he => nomatch he
      | some relations => exact h.columns _ (Entries.mem_of_get? hget)
    have hkeys : ((a.get? scope).getD []).keys.Nodup := by
      cases hget : a.get? scope with
      | none => exact List.nodup_nil
      | some relations => exact h.relations _ (Entries.mem_of_get? hget)
    refine ⟨Entries.nodup_keys_set h.keys, fun e he => ?_, fun e he => ?_, fun e he => ?_⟩
    · rcases Entries.mem_set he with rfl | he
      · intro hnil
        have hset : ((((a.get? scope).getD []).set relation cs).get? relation) = some cs := by
          rw [Entries.get?_set, if_pos rfl]
        have hnone : Entries.get? ([] : Selection) relation = some cs := hnil ▸ hset
        cases hnone
      · exact h.ne_nil e he
    · rcases Entries.mem_set he with rfl | he
      · exact Entries.nodup_keys_set hkeys
      · exact h.relations e he
    · rcases Entries.mem_set he with rfl | he
      · intro r hr
        rcases Entries.mem_set hr with rfl | hr
        · exact areNames_of_kept hkept
        · exact hold r hr
      · exact h.columns e he

theorem columnsAt_addColumns (scope relation : String) (j : Json) (a : Aggregation)
    (s r : String) : columnsAt (addColumns scope relation (namesOf? j) a) s r =
      if s = scope ∧ r = relation then (kept j).or (columnsAt a s r) else columnsAt a s r := by
  rw [addColumns_eq]
  cases kept j with
  | none => simp
  | some cs =>
    simp only [columnsAt, Entries.get?_set]
    by_cases hs : s = scope
    · subst hs
      by_cases hr : r = relation
      · simp [hr]
      · cases a.get? s <;> simp [hr]
    · simp [hs]

theorem scopedColumns_cons_primary (parameter scope : String) (a : Aggregation) (j : Json)
    (rest : Entries Json) : scopedColumns parameter scope a ((primary, j) :: rest) =
      ⟨(scopedColumns parameter scope a rest).value, .notPerRelation s!"{parameter}[{scope}]" ::
        (scopedColumns parameter scope a rest).problems⟩ := by
  rw [scopedColumns, if_pos rfl]

theorem scopedColumns_cons (parameter scope : String) (a : Aggregation) (h : relation ≠ primary)
    (j : Json) (rest : Entries Json) :
    let others := scopedColumns parameter scope (addColumns scope relation (namesOf? j) a) rest
    scopedColumns parameter scope a ((relation, j) :: rest) = ⟨others.value,
      (names s!"{parameter}[{scope}][{relation}]" j).problems ++ others.problems⟩ := by
  intro others
  rw [scopedColumns, if_neg h]
  simp only [names_value]
  rfl

def relationProblems (parameter scope : String) (e : String × Json) : List Problem :=
  if e.1 = primary then [.notPerRelation s!"{parameter}[{scope}]"]
  else (names s!"{parameter}[{scope}][{e.1}]" e.2).problems

theorem scopedColumns_problems (parameter scope : String) (a : Aggregation)
    (entries : Entries Json) : (scopedColumns parameter scope a entries).problems =
      entries.flatMap (relationProblems parameter scope) := by
  induction entries generalizing a with
  | nil => rfl
  | cons e rest ih =>
    obtain ⟨relation, j⟩ := e
    rw [List.flatMap_cons, relationProblems]
    by_cases h : relation = primary
    · subst h
      rw [scopedColumns_cons_primary, if_pos rfl, ih]
      rfl
    · rw [scopedColumns_cons _ _ _ h, if_neg h, ih]

theorem IsStored.scopedColumns (h : IsStored a) (parameter scope : String)
    (entries : Entries Json) : IsStored (scopedColumns parameter scope a entries).value := by
  induction entries generalizing a with
  | nil => exact h
  | cons e rest ih =>
    obtain ⟨relation, j⟩ := e
    by_cases hrelation : relation = primary
    · subst hrelation
      rw [scopedColumns_cons_primary]
      exact ih h
    · rw [scopedColumns_cons _ _ _ hrelation]
      exact ih (h.addColumns scope relation j)

theorem columnsAt_scopedColumns (h : entries.keys.Nodup) (parameter scope : String)
    (a : Aggregation) (s r : String) :
    columnsAt (scopedColumns parameter scope a entries).value s r =
      if s = scope ∧ r ≠ primary then ((entries.get? r).bind kept).or (columnsAt a s r)
      else columnsAt a s r := by
  induction entries generalizing a with
  | nil => simp [scopedColumns, Part.ok]
  | cons e rest ih =>
    obtain ⟨relation, j⟩ := e
    obtain ⟨hkey, hrest⟩ := List.nodup_cons.mp h
    have hlater := Entries.get?_eq_none.mpr hkey
    rw [Entries.get?_cons]
    by_cases hrelation : relation = primary
    · subst hrelation
      rw [scopedColumns_cons_primary, ih hrest]
      by_cases hr : r = primary <;> simp [hr]
    · rw [scopedColumns_cons _ _ _ hrelation, ih hrest, columnsAt_addColumns]
      by_cases hr : r = relation
      · subst hr
        by_cases hs : s = scope <;> simp_all
      · simp [hr]

def columnProblems (parameter : String) (e : String × Json) : List Problem :=
  if e.1 = primary then [.notPerRelation parameter]
  else match e.2 with
    | .object inner => inner.flatMap (relationProblems parameter e.1)
    | j => (names s!"{parameter}[{e.1}]" j).problems

def addEntry (parameter : String) (a : Aggregation) (e : String × Json) : Aggregation :=
  if e.1 = primary then a
  else match e.2 with
    | .object inner => (scopedColumns parameter e.1 a inner).value
    | j => addColumns primary e.1 (namesOf? j) a

theorem aggregationOf_cons (parameter : String) (a : Aggregation) (e : String × Json)
    (rest : Entries Json) :
    let others := aggregationOf parameter (addEntry parameter a e) rest
    aggregationOf parameter a (e :: rest) =
      ⟨others.value, columnProblems parameter e ++ others.problems⟩ := by
  obtain ⟨key, j⟩ := e
  by_cases hkey : key = primary
  · simp [aggregationOf, addEntry, columnProblems, hkey, Part.bad]
  · cases j <;> simp [aggregationOf, addEntry, columnProblems, hkey, names_value,
      scopedColumns_problems]

theorem aggregationOf_eq (parameter : String) (a : Aggregation) (entries : Entries Json) :
    aggregationOf parameter a entries = ⟨entries.foldl (addEntry parameter) a,
      entries.flatMap (columnProblems parameter)⟩ := by
  induction entries generalizing a with
  | nil => rfl
  | cons e rest ih => rw [aggregationOf_cons, ih, List.foldl_cons, List.flatMap_cons]

theorem IsStored.addEntry (h : IsStored a) (parameter : String) (e : String × Json) :
    IsStored (addEntry parameter a e) := by
  obtain ⟨key, j⟩ := e
  rw [Request.addEntry]
  by_cases hkey : key = primary
  · rwa [if_pos hkey]
  · rw [if_neg hkey]
    cases j with
    | object inner => exact h.scopedColumns parameter key inner
    | _ => exact h.addColumns primary key _

theorem isStored_aggregationOf (parameter : String) (entries : Entries Json) :
    IsStored (aggregationOf parameter [] entries).value := by
  rw [aggregationOf_eq]
  refine List.foldlRecOn (motive := IsStored) entries _ ?_ fun a h e _ => h.addEntry parameter e
  exact ⟨List.nodup_nil, by simp, by simp, by simp⟩

def columnsIn (entries : Entries Json) (scope relation : String) : Option (List String) :=
  if relation = primary then none
  else if scope = primary then (entries.get? relation).bind kept
  else ((Parameters.below entries scope).get? relation).bind kept

theorem columnsIn_cons {e : String × Json} (h : e.1 ∉ entries.keys) (scope relation : String) :
    columnsIn (e :: entries) scope relation =
      (columnsIn entries scope relation).or (columnsIn [e] scope relation) := by
  obtain ⟨key, j⟩ := e
  have hnone : entries.get? key = none := Entries.get?_eq_none.mpr h
  unfold columnsIn
  by_cases hrelation : relation = primary
  · simp [hrelation]
  · rw [if_neg hrelation, if_neg hrelation, if_neg hrelation]
    by_cases hscope : scope = primary
    · rw [if_pos hscope, if_pos hscope, if_pos hscope, Entries.get?_cons, Entries.get?_cons]
      by_cases hkey : relation = key
      · simp [hkey, hnone]
      · simp [hkey]
    · rw [if_neg hscope, if_neg hscope, if_neg hscope]
      unfold Parameters.below
      rw [Entries.get?_cons, Entries.get?_cons]
      by_cases hkey : scope = key
      · simp [hkey, hnone]
      · simp [hkey]

theorem kept_object (entries : Entries Json) : kept (.object entries) = none := rfl

/-- An entry adds the columns that it gives by itself. -/
theorem columnsAt_addEntry {e : String × Json}
    (h : ∀ inner : Entries Json, e.2 = .object inner → inner.keys.Nodup) (parameter : String)
    (a : Aggregation) (s r : String) :
    columnsAt (addEntry parameter a e) s r = (columnsIn [e] s r).or (columnsAt a s r) := by
  obtain ⟨key, j⟩ := e
  have hplain (hj : ∀ inner, j ≠ .object inner) (hkey : key ≠ primary) : columnsIn [(key, j)] s r =
      if s = primary ∧ r = key then kept j else none := by
    unfold columnsIn Parameters.below
    by_cases hr : r = primary
    · simp [hr, Ne.symm hkey]
    · by_cases hs : s = primary
      · by_cases hrelation : r = key <;> simp [hr, hs, hrelation, hkey, Entries.get?_cons]
      · cases j with
        | object inner => exact absurd rfl (hj inner)
        | _ => by_cases hscope : s = key <;> simp [hr, hs, hscope, hkey, Entries.get?_cons]
  rw [addEntry]
  by_cases hkey : key = primary
  · rw [if_pos hkey]
    unfold columnsIn Parameters.below
    by_cases hr : r = primary
    · simp [hr]
    · by_cases hs : s = primary <;> simp [hr, hs, hkey, Entries.get?_cons]
  · rw [if_neg hkey]
    cases j with
    | object inner =>
      dsimp only
      rw [columnsAt_scopedColumns (h inner rfl)]
      unfold columnsIn Parameters.below
      by_cases hr : r = primary
      · simp [hr]
      · by_cases hs : s = key
        · simp [hr, hs, hkey, Entries.get?_cons]
        · by_cases hprimary : s = primary
          · by_cases hrelation : r = key <;>
              simp [hr, hprimary, hrelation, Ne.symm hkey, Entries.get?_cons, kept_object]
          · simp [hr, hs, hprimary, Entries.get?_cons]
    | _ =>
      dsimp only
      rw [columnsAt_addColumns, hplain (fun inner hj => nomatch hj) hkey]
      split <;> rfl

theorem columnsAt_foldl (hkeys : entries.keys.Nodup)
    (hinner : ∀ e ∈ entries, ∀ inner : Entries Json, e.2 = .object inner → inner.keys.Nodup)
    (parameter : String) (a : Aggregation) (s r : String) :
    columnsAt (entries.foldl (addEntry parameter) a) s r =
      (columnsIn entries s r).or (columnsAt a s r) := by
  induction entries generalizing a with
  | nil => simp [columnsIn, Parameters.below]
  | cons e rest ih =>
    obtain ⟨hkey, hrest⟩ := List.nodup_cons.mp hkeys
    rw [List.foldl_cons, ih hrest fun e he => hinner e (List.mem_cons_of_mem _ he),
      columnsAt_addEntry (hinner e List.mem_cons_self), columnsIn_cons hkey, Option.or_assoc]

/-- The columns of a value: names, or names for each of several relations. -/
def IsColumns : Json → Prop
  | .object inner => ∀ e ∈ inner, e.1 ≠ primary ∧ (namesOf? e.2).isSome
  | j => (namesOf? j).isSome

theorem aggregationOf_problems_eq_nil_iff : (aggregationOf parameter a entries).problems = [] ↔
    ∀ e ∈ entries, e.1 ≠ primary ∧ IsColumns e.2 := by
  rw [aggregationOf_eq, List.flatMap_eq_nil_iff]
  refine forall₂_congr fun e _ => ?_
  obtain ⟨key, j⟩ := e
  by_cases hkey : key = primary
  · simp [columnProblems, hkey]
  · have hrelation (r : String × Json) : relationProblems parameter key r = [] ↔
        r.1 ≠ primary ∧ (namesOf? r.2).isSome := by
      by_cases hr : r.1 = primary
      · simp [relationProblems, hr]
      · simp [relationProblems, hr, names_problems_eq_nil_iff]
    cases j <;> simp [columnProblems, hkey, IsColumns, names_problems_eq_nil_iff, hrelation]

end FieldPlan.Request
