import FieldPlan.Proofs.Entries
import FieldPlan.Signature
/-!
# Lists of names

What dropping repetitions and sorting keep of a list of names.
-/
namespace FieldPlan

theorem mem_unique {n : String} {names : List String} : n ∈ unique names ↔ n ∈ names :=
  List.mem_eraseDups

theorem mem_sortNames {n : String} {names : List String} : n ∈ sortNames names ↔ n ∈ names :=
  List.mem_mergeSort

theorem unique_cons (n : String) (names : List String) :
    unique (n :: names) = n :: unique (names.filter fun m => !m == n) :=
  List.eraseDups_cons

theorem unique_append (names others : List String) :
    unique (names ++ others) = unique names ++ unique (others.filter fun m => !names.contains m) :=
  List.eraseDups_append

theorem nodup_unique (names : List String) : (unique names).Nodup := by
  cases names with
  | nil => exact List.nodup_nil
  | cons n names =>
    rw [unique_cons, List.nodup_cons, mem_unique]
    exact ⟨by simp, nodup_unique (names.filter fun m => !m == n)⟩
termination_by names.length
decreasing_by exact Nat.lt_succ_of_le (List.length_filter_le _ _)

theorem unique_filter (p : String → Bool) (names : List String) :
    unique (names.filter p) = (unique names).filter p := by
  cases names with
  | nil => rfl
  | cons n names =>
    have hrest := unique_filter p (names.filter fun m => !m == n)
    rw [unique_cons]
    by_cases hn : p n = true
    · rw [List.filter_cons_of_pos hn, List.filter_cons_of_pos hn, unique_cons, ← hrest,
        List.filter_filter, List.filter_filter]
      simp only [Bool.and_comm]
    · rw [List.filter_cons_of_neg hn, List.filter_cons_of_neg hn, ← hrest, List.filter_filter]
      congr 1
      refine List.filter_congr fun m _ => ?_
      by_cases hm : m = n
      · subst hm; simp [hn]
      · simp [hm]
termination_by names.length
decreasing_by exact Nat.lt_succ_of_le (List.length_filter_le _ _)

private theorem filter_flatMap_of_ne (f : String → List String) (n : String) (names : List String) :
    ((names.filter fun m => !m == n).flatMap f).filter (fun m => !(f n).contains m) =
      (names.flatMap f).filter fun m => !(f n).contains m := by
  induction names with
  | nil => rfl
  | cons k names ih =>
    by_cases hk : k = n
    · subst hk
      have hnone : (f k).filter (fun m => !(f k).contains m) = [] := by
        apply List.filter_eq_nil_iff.mpr
        intro m hm
        simp [hm]
      rw [List.filter_cons_of_neg (by simp), ih, List.flatMap_cons, List.filter_append, hnone,
        List.nil_append]
    · rw [List.filter_cons_of_pos (by simp [hk]), List.flatMap_cons, List.flatMap_cons,
        List.filter_append, List.filter_append, ih]

theorem unique_flatMap (f : String → List String) (names : List String) :
    unique ((unique names).flatMap f) = unique (names.flatMap f) := by
  cases names with
  | nil => rfl
  | cons n names =>
    have hrest := unique_flatMap f (names.filter fun m => !m == n)
    rw [unique_cons, List.flatMap_cons, List.flatMap_cons, unique_append, unique_append,
      unique_filter, hrest, ← unique_filter, filter_flatMap_of_ne]
termination_by names.length
decreasing_by exact Nat.lt_succ_of_le (List.length_filter_le _ _)

theorem unique_of_nodup {names : List String} (h : names.Nodup) : unique names = names := by
  induction names with
  | nil => rfl
  | cons n names ih =>
    rw [List.nodup_cons] at h
    have hothers : (names.filter fun m => !m == n) = names := by
      refine List.filter_eq_self.mpr fun m hm => ?_
      have hne : m ≠ n := fun heq => h.1 (heq ▸ hm)
      simpa using hne
    rw [unique_cons, hothers, ih h.2]

/-- The names stand in the order of their first places in a list. -/
def InOrderOf (base names : List String) : Prop :=
  names.Pairwise fun a b => base.idxOf a < base.idxOf b

theorem inOrderOf_unique_filter (p : String → Bool) (base : List String) :
    InOrderOf base (unique (base.filter p)) := by
  induction base generalizing p with
  | nil => exact List.Pairwise.nil
  | cons n base ih =>
    -- names other than the head stand one place further on than in the rest
    have hplace {m : String} (hm : m ≠ n) : (n :: base).idxOf m = base.idxOf m + 1 := by
      rw [List.idxOf_cons, beq_eq_false_iff_ne.mpr (Ne.symm hm), cond_false]
    have hrest (q : String → Bool) (hq : q n = false) :
        InOrderOf (n :: base) (unique (base.filter q)) := by
      have hne {m : String} (hm : m ∈ unique (base.filter q)) : m ≠ n := by
        rintro rfl
        have hkept := (List.mem_filter.mp (mem_unique.mp hm)).2
        rw [hq] at hkept
        cases hkept
      refine (ih q).imp_of_mem fun ha hb hab => ?_
      rw [hplace (hne ha), hplace (hne hb)]
      exact Nat.succ_lt_succ hab
    cases hn : p n with
    | true =>
      rw [List.filter_cons_of_pos hn, unique_cons, List.filter_filter]
      refine List.Pairwise.cons (fun m hm => ?_) (hrest _ (by simp))
      have hm : m ≠ n := by
        have hkept := (List.mem_filter.mp (mem_unique.mp hm)).2
        rintro rfl
        simp at hkept
      rw [hplace hm, List.idxOf_cons_self]
      exact Nat.succ_pos _
    | false =>
      rw [List.filter_cons_of_neg (by simp [hn])]
      exact hrest p hn

/-- Names in the order of a list are determined by their members. -/
theorem InOrderOf.eq_of_mem {base a b : List String} (ha : InOrderOf base a)
    (hb : InOrderOf base b) (h : ∀ n, n ∈ a ↔ n ∈ b) : a = b := by
  have hne {x y : String} (hxy : base.idxOf x < base.idxOf y) : x ≠ y := by
    rintro rfl
    exact Nat.lt_irrefl _ hxy
  have hperm : a.Perm b := (List.perm_ext_iff_of_nodup (ha.imp hne) (hb.imp hne)).mpr h
  refine hperm.eq_of_pairwise ?_ ha hb
  intro x y _ _ hxy hyx
  exact absurd hyx (Nat.lt_asymm hxy)

/-- A list in which nothing stands before what satisfies a condition but what does so too. -/
theorem eq_filter_append_filter {p : String → Bool} {names : List String}
    (h : names.Pairwise fun a b => p b → p a) :
    names = names.filter p ++ names.filter fun n => !p n := by
  induction h with
  | nil => rfl
  | @cons n names hn _ ih =>
    cases hp : p n with
    | true =>
      rw [List.filter_cons_of_pos hp, List.filter_cons_of_neg (by simp [hp]), List.cons_append, ← ih]
    | false =>
      have hnone : names.filter p = [] := by
        refine List.filter_eq_nil_iff.mpr fun m hm hpm => ?_
        rw [hn m hm hpm] at hp
        cases hp
      have hall : (names.filter fun m => !p m) = names := by
        rw [hnone, List.nil_append] at ih
        exact ih.symm
      rw [List.filter_cons_of_neg (by simp [hp]), List.filter_cons_of_pos (by simp [hp]), hnone, hall,
        List.nil_append]

theorem eq_of_pairwise_of_mem {a b : List String} (ha : a.Pairwise (· < ·))
    (hb : b.Pairwise (· < ·)) (h : ∀ n, n ∈ a ↔ n ∈ b) : a = b := by
  have hne {x y : String} (hxy : x < y) : x ≠ y := fun heq => String.lt_irrefl y (heq ▸ hxy)
  have hperm : a.Perm b := (List.perm_ext_iff_of_nodup (ha.imp hne) (hb.imp hne)).mpr h
  refine hperm.eq_of_pairwise ?_ ha hb
  intro x y _ _ hxy hyx
  exact absurd hyx (String.lt_asymm hxy)

theorem pairwise_sortNames {names : List String} (h : names.Nodup) :
    (sortNames names).Pairwise (· < ·) := by
  have hle : (sortNames names).Pairwise (· ≤ ·) := pairwise_mergeSort_text id names
  have hne : (sortNames names).Pairwise (· ≠ ·) := (List.mergeSort_perm names _).nodup_iff.mpr h
  exact hle.imp₂ (fun a b hab hne => Std.lt_of_le_of_ne hab hne) hne

theorem sortNames_unique_congr {a b : List String} (h : ∀ n, n ∈ a ↔ n ∈ b) :
    sortNames (unique a) = sortNames (unique b) := by
  refine eq_of_pairwise_of_mem (pairwise_sortNames (nodup_unique a))
    (pairwise_sortNames (nodup_unique b)) fun n => ?_
  rw [mem_sortNames, mem_unique, h, mem_sortNames, mem_unique]

end FieldPlan
