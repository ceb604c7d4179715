import FieldPlan.Entries
/-!
# Entries: keys and order
-/
namespace FieldPlan

theorem pairwise_mergeSort_text {α : Type} (text : α → String) (items : List α) :
    (items.mergeSort fun a b => text a ≤ text b).Pairwise fun a b => text a ≤ text b := by
  have hle : (items.mergeSort fun a b => text a ≤ text b).Pairwise fun a b =>
      decide (text a ≤ text b) = true := by
    apply List.pairwise_mergeSort
    · intro a b c hab hbc
      exact decide_eq_true (String.le_trans (of_decide_eq_true hab) (of_decide_eq_true hbc))
    · intro a b
      rcases String.le_total (text a) (text b) with hab | hba
      · simp [hab]
      · simp [hba]
  exact hle.imp of_decide_eq_true

namespace Entries

variable {α : Type}

theorem set_of_notMem {key : String} (value : α) {entries : Entries α} (h : key ∉ entries.keys) :
    entries.set key value = entries ++ [(key, value)] := by
  induction entries with
  | nil => rfl
  | cons e rest ih =>
    obtain ⟨k, v⟩ := e
    simp only [keys, List.map_cons, List.mem_cons, not_or] at h
    rw [set, if_neg (Ne.symm h.1), ih h.2, List.cons_append]

theorem get?_erase (key : String) (entries : Entries α) (other : String) :
    (entries.erase key).get? other = if other = key then none else entries.get? other := by
  induction entries with
  | nil => simp [erase]
  | cons e rest ih =>
    obtain ⟨k, v⟩ := e
    unfold erase at ih ⊢
    by_cases hk : k = key
    · rw [List.filter_cons_of_neg (by simp [hk]), ih, get?_cons]
      by_cases ho : other = key
      · simp [ho]
      · simp [ho, hk]
    · rw [List.filter_cons_of_pos (by simp [hk]), get?_cons, get?_cons, ih]
      by_cases ho : other = k
      · subst ho; simp [hk]
      · simp [ho]

theorem get?_append (entries more : Entries α) (key : String) :
    (entries ++ more).get? key = (entries.get? key).or (more.get? key) := by
  induction entries with
  | nil => rfl
  | cons e rest ih =>
    obtain ⟨k, v⟩ := e
    rw [List.cons_append, get?_cons, get?_cons, ih]
    split <;> rfl

theorem get?_map {β : Type} (f : α → β) (entries : Entries α) (key : String) :
    get? (entries.map fun e => (e.1, f e.2)) key = (entries.get? key).map f := by
  induction entries with
  | nil => rfl
  | cons e rest ih =>
    obtain ⟨k, v⟩ := e
    rw [List.map_cons, get?_cons, get?_cons, ih]
    split <;> rfl

theorem nodup_keys_erase {entries : Entries α} (h : entries.keys.Nodup) (key : String) :
    (entries.erase key).keys.Nodup :=
  h.sublist (List.filter_sublist.map _)

theorem nodup_keys_foldl_set (entries : Entries α) {start : Entries α} (h : start.keys.Nodup) :
    (entries.foldl (fun es e => es.set e.1 e.2) start).keys.Nodup := by
  induction entries generalizing start with
  | nil => exact h
  | cons e rest ih =>
    apply ih
    exact nodup_keys_set h

theorem nodup_keys_ofList (entries : Entries α) : (ofList entries).keys.Nodup :=
  nodup_keys_foldl_set entries List.nodup_nil

theorem get?_eq_none {entries : Entries α} {key : String} :
    entries.get? key = none ↔ key ∉ entries.keys := by
  induction entries with
  | nil => simp [keys]
  | cons e rest ih =>
    obtain ⟨k, v⟩ := e
    rw [get?_cons]
    by_cases hk : key = k
    · simp [keys, hk]
    · rw [if_neg hk, ih]
      simp [keys, hk]

theorem mem_set {key : String} {value : α} {entries : Entries α} {e : String × α}
    (h : e ∈ entries.set key value) : e = (key, value) ∨ e ∈ entries := by
  induction entries with
  | nil => exact .inl (List.mem_singleton.mp h)
  | cons first rest ih =>
    unfold set at h
    by_cases hfirst : first.1 = key
    · rw [if_pos hfirst] at h
      rcases List.mem_cons.mp h with h | h
      · exact .inl h
      · exact .inr (List.mem_cons_of_mem first h)
    · rw [if_neg hfirst] at h
      rcases List.mem_cons.mp h with rfl | h
      · exact .inr List.mem_cons_self
      · exact (ih h).imp_right (List.mem_cons_of_mem first)

theorem mem_of_get? {entries : Entries α} {key : String} {value : α}
    (h : entries.get? key = some value) : (key, value) ∈ entries := by
  induction entries with
  | nil => cases h
  | cons e rest ih =>
    obtain ⟨k, v⟩ := e
    rw [get?_cons] at h
    split at h
    · next hk =>
      rw [hk, Option.some.inj h]
      exact List.mem_cons_self
    · exact List.mem_cons_of_mem _ (ih h)

theorem get?_eq_some {entries : Entries α} (h : entries.keys.Nodup) {key : String} {value : α} :
    entries.get? key = some value ↔ (key, value) ∈ entries := by
  refine ⟨mem_of_get?, fun hmem => ?_⟩
  induction entries with
  | nil => cases hmem
  | cons e rest ih =>
    obtain ⟨k, v⟩ := e
    simp only [keys, List.map_cons, List.nodup_cons] at h
    rw [get?_cons]
    rcases List.mem_cons.mp hmem with heq | hrest
    · obtain ⟨rfl, rfl⟩ := Prod.mk.inj heq
      rw [if_pos rfl]
    · have hk : key ≠ k := fun hk => h.1 (hk ▸ List.mem_map_of_mem (f := (·.1)) hrest)
      rw [if_neg hk, ih h.2 hrest]

theorem get?_eq_some_of_unique {entries : Entries α} {key : String}
    (h : ∀ v w, (key, v) ∈ entries → (key, w) ∈ entries → v = w) {value : α} :
    entries.get? key = some value ↔ (key, value) ∈ entries := by
  refine ⟨mem_of_get?, fun hmem => ?_⟩
  cases hget : entries.get? key with
  | none => exact absurd (List.mem_map_of_mem hmem) (get?_eq_none.mp hget)
  | some v => rw [h v value (mem_of_get? hget) hmem]

theorem mem_ofList {entries : Entries α} {e : String × α} (h : e ∈ ofList entries) :
    e ∈ entries := by
  have hfold (es : Entries α) (hmem : e ∈ entries.foldl (fun es e => es.set e.1 e.2) es) :
      e ∈ es ∨ e ∈ entries := by
    clear h
    induction entries generalizing es with
    | nil => exact .inl hmem
    | cons first rest ih =>
      rcases ih _ hmem with hset | hrest
      · rcases mem_set hset with rfl | hes
        · exact .inr List.mem_cons_self
        · exact .inl hes
      · exact .inr (List.mem_cons_of_mem first hrest)
  exact (hfold [] h).resolve_left List.not_mem_nil

theorem ofList_of_nodup {entries : Entries α} (h : entries.keys.Nodup) :
    ofList entries = entries := by
  have hfold (es : Entries α) (hes : (es ++ entries).keys.Nodup) :
      entries.foldl (fun es e => es.set e.1 e.2) es = es ++ entries := by
    clear h
    induction entries generalizing es with
    | nil => rw [List.foldl_nil, List.append_nil]
    | cons e rest ih =>
      have hnew : e.1 ∉ es.keys := by
        intro hmem
        rw [keys, List.map_append, List.map_cons, List.nodup_append] at hes
        exact hes.2.2 e.1 hmem e.1 List.mem_cons_self rfl
      rw [List.foldl_cons, set_of_notMem e.2 hnew, ih, List.append_assoc, List.singleton_append]
      rwa [List.append_assoc, List.singleton_append]
  exact hfold [] h

theorem set_set_of_get? {key : String} {value : α} {entries : Entries α}
    (h : entries.get? key = some value) (other : α) :
    (entries.set key other).set key value = entries := by
  induction entries with
  | nil => cases h
  | cons e rest ih =>
    obtain ⟨k, v⟩ := e
    rw [get?_cons] at h
    by_cases hk : k = key
    · rw [if_pos hk.symm] at h
      obtain rfl := Option.some.inj h
      simp [set, hk]
    · rw [if_neg (Ne.symm hk)] at h
      simp only [set, if_neg hk, ih h]

theorem erase_set_of_get? {key : String} {entries : Entries α}
    (h : entries.get? key = none) (value : α) : (entries.set key value).erase key = entries := by
  have hkey := get?_eq_none.mp h
  rw [set_of_notMem value hkey, erase, List.filter_append]
  have hkept : entries.filter (·.1 != key) = entries := by
    refine List.filter_eq_self.mpr fun e he => ?_
    have hne : e.1 ≠ key := fun heq => hkey (heq ▸ List.mem_map_of_mem he)
    simp [hne]
  simp [hkept]

theorem get?_foldl_set {entries : Entries α} (h : entries.keys.Nodup) (start : Entries α)
    (key : String) : (entries.foldl (fun es e => es.set e.1 e.2) start).get? key =
      (entries.get? key).or (start.get? key) := by
  induction entries generalizing start with
  | nil => rfl
  | cons e rest ih =>
    have hnodup := List.nodup_cons.mp h
    rw [List.foldl_cons, ih hnodup.2, get?_set, get?_cons]
    by_cases hkey : key = e.1
    · have hrest : Entries.get? rest key = none := get?_eq_none.mpr (hkey ▸ hnodup.1)
      simp [hkey ▸ hrest, hkey]
    · simp [hkey]

theorem get?_setIfAbsent (key : String) (value : α) (entries : Entries α) (other : String) :
    (entries.setIfAbsent key value).get? other =
      (entries.get? other).or (if other = key then some value else none) := by
  unfold setIfAbsent
  cases hkey : entries.get? key with
  | none =>
    by_cases hother : other = key
    · simp [hother, hkey]
    · simp [hother]
  | some there =>
    by_cases hother : other = key
    · simp [hother, hkey]
    · simp [hother]

theorem nodup_keys_setIfAbsent {key : String} {value : α} {entries : Entries α}
    (h : entries.keys.Nodup) : (entries.setIfAbsent key value).keys.Nodup := by
  unfold setIfAbsent
  split
  · exact h
  · exact nodup_keys_set h

/-- Of entries that are put in one by one, the first under a key stays. -/
theorem get?_foldl_setIfAbsent (entries start : Entries α) (key : String) :
    (entries.foldl (fun es e => setIfAbsent e.1 e.2 es) start).get? key =
      (start.get? key).or (entries.get? key) := by
  induction entries generalizing start with
  | nil => simp
  | cons e rest ih =>
    rw [List.foldl_cons, ih, get?_setIfAbsent, get?_cons, Option.or_assoc]
    by_cases hkey : key = e.1
    · simp [hkey]
    · simp [hkey]

theorem nodup_keys_foldl_setIfAbsent (entries : Entries α) {start : Entries α}
    (h : start.keys.Nodup) :
    (entries.foldl (fun es e => setIfAbsent e.1 e.2 es) start).keys.Nodup := by
  induction entries generalizing start with
  | nil => exact h
  | cons e rest ih =>
    apply ih
    exact nodup_keys_setIfAbsent h

theorem keys_sorted_perm (entries : Entries α) : entries.sorted.keys.Perm entries.keys :=
  (List.mergeSort_perm entries _).map _

theorem nodup_keys_sorted {entries : Entries α} (h : entries.keys.Nodup) :
    entries.sorted.keys.Nodup :=
  (keys_sorted_perm entries).nodup_iff.mpr h

theorem get?_sorted {entries : Entries α} (h : entries.keys.Nodup) (key : String) :
    entries.sorted.get? key = entries.get? key := by
  have hmem (value : α) : (key, value) ∈ entries.sorted ↔ (key, value) ∈ entries :=
    (List.mergeSort_perm entries _).mem_iff
  apply Option.ext
  intro value
  rw [get?_eq_some (nodup_keys_sorted h), get?_eq_some h, hmem]

theorem pairwise_keys_sorted {entries : Entries α} (h : entries.keys.Nodup) :
    entries.sorted.keys.Pairwise (· < ·) := by
  have hle : entries.sorted.keys.Pairwise (· ≤ ·) :=
    List.pairwise_map.mpr (pairwise_mergeSort_text (·.1) entries)
  exact hle.imp₂ (fun a b hab hne => Std.lt_of_le_of_ne hab hne) (nodup_keys_sorted h)

/-- Maps in key order are the same if they have the same entries. -/
theorem eq_of_mem {entries others : Entries α} (h : entries.keys.Pairwise (· < ·))
    (h' : others.keys.Pairwise (· < ·)) (hmem : ∀ e, e ∈ entries ↔ e ∈ others) :
    entries = others := by
  have hne {a b : String × α} (hab : a.1 < b.1) : a ≠ b := fun heq =>
    String.lt_irrefl b.1 (heq ▸ hab)
  have hascending := List.pairwise_map.mp h
  have hascending' := List.pairwise_map.mp h'
  have hperm := (List.perm_ext_iff_of_nodup (hascending.imp hne) (hascending'.imp hne)).mpr hmem
  refine hperm.eq_of_pairwise (fun a b _ _ hab hba => ?_) hascending hascending'
  exact absurd hba (String.lt_asymm hab)

theorem sorted_congr {entries others : Entries α} (h : entries.keys.Nodup) (h' : others.keys.Nodup)
    (hsame : ∀ key, entries.get? key = others.get? key) : entries.sorted = others.sorted := by
  apply eq_of_mem (pairwise_keys_sorted h) (pairwise_keys_sorted h')
  intro e
  rw [← get?_eq_some (nodup_keys_sorted h), ← get?_eq_some (nodup_keys_sorted h'),
    get?_sorted h, get?_sorted h', hsame]

end Entries
end FieldPlan
