import FieldPlan.Proofs.Query.LeavingOut
/-!
# The grammar of keys

A key is a name and groups in brackets, and is written as it is read: name and groups put together
again are the key. One line break more is read over behind a group. Pairs whose keys are spelled in
no such way are passed over, wherever they stand.
-/
namespace FieldPlan

namespace QueryKey

/-- The name is not empty, and there are no brackets but those around the groups. -/
structure WellFormed (k : QueryKey) : Prop where
  name_ne_empty : k.name ≠ ""
  name : ∀ c ∈ k.name.toList, isBracket c = false
  groups : ∀ g ∈ k.groups, ∀ c ∈ g.toList, isBracket c = false

def spelled (k : QueryKey) : String := k.name ++ String.join (k.groups.map fun g => "[" ++ g ++ "]")

/-- A text is read as the key: the key as it is written, or with a line break behind its groups. -/
def Spells (k : QueryKey) (s : String) : Prop :=
  s = k.spelled ∨ k.groups ≠ [] ∧ s = k.spelled ++ "\n"

private def bracketed (groups : List (List Char)) : List Char :=
  groups.flatMap fun g => '[' :: (g ++ [']'])

theorem toList_spelled (k : QueryKey) :
    k.spelled.toList = k.name.toList ++ bracketed (k.groups.map String.toList) := by
  simp [spelled, bracketed, String.toList_join, List.flatMap_map]

theorem exists_closing {k : QueryKey} (h : k.groups ≠ []) :
    ∃ front, k.spelled.toList = front ++ [']'] := by
  refine ⟨k.name.toList ++ (bracketed (k.groups.dropLast.map String.toList) ++
    '[' :: (k.groups.getLast h).toList), ?_⟩
  rw [toList_spelled]
  conv_lhs => rw [← List.dropLast_concat_getLast h]
  simp [bracketed]

variable {cs group : List Char} {gs : List (List Char)}

private theorem groupsOf_open : groupsOf (some group) cs = some gs ↔
    ∃ g rest others, (∀ c ∈ g, isBracket c = false) ∧ cs = g ++ ']' :: rest ∧
      groupsOf none rest = some others ∧ gs = (group.reverse ++ g) :: others := by
  induction cs generalizing group with
  | nil => simp [groupsOf]
  | cons c cs ih =>
    rw [groupsOf]
    by_cases hopen : c = '['
    · subst hopen
      rw [if_pos rfl]
      refine iff_of_false (by simp) ?_
      rintro ⟨g, rest, others, hg, hcs, -⟩
      cases g with
      | nil => cases hcs
      | cons d g =>
        obtain ⟨rfl, -⟩ := List.cons.inj hcs
        exact absurd (hg '[' List.mem_cons_self) (by decide)
    rw [if_neg hopen]
    by_cases hclose : c = ']'
    · subst hclose
      rw [if_pos rfl, Option.map_eq_some_iff]
      constructor
      · rintro ⟨others, hothers, rfl⟩
        exact ⟨[], cs, others, by simp, rfl, hothers, by simp⟩
      · rintro ⟨g, rest, others, hg, hcs, hothers, rfl⟩
        cases g with
        | nil =>
          obtain rfl := (List.cons.inj hcs).2
          exact ⟨others, hothers, by simp⟩
        | cons d g =>
          obtain ⟨rfl, -⟩ := List.cons.inj hcs
          exact absurd (hg ']' List.mem_cons_self) (by decide)
    · rw [if_neg hclose, ih]
      have hc : isBracket c = false := by simp [isBracket, hopen, hclose]
      constructor
      · rintro ⟨g, rest, others, hg, rfl, hothers, rfl⟩
        exact ⟨c :: g, rest, others, List.forall_mem_cons.mpr ⟨hc, hg⟩, rfl, hothers, by simp⟩
      · rintro ⟨g, rest, others, hg, hcs, hothers, rfl⟩
        cases g with
        | nil => exact absurd (List.cons.inj hcs).1 hclose
        | cons d g =>
          obtain ⟨rfl, rfl⟩ := List.cons.inj hcs
          exact ⟨g, rest, others, fun x hx => hg x (List.mem_cons_of_mem c hx), rfl, hothers,
            by simp⟩

private theorem groupsOf_eq_some_nil : groupsOf none cs = some [] ↔ cs = [] ∨ cs = ['\n'] := by
  cases cs with
  | nil => simp [groupsOf]
  | cons c rest =>
    rw [groupsOf]
    by_cases hopen : c = '['
    · rw [if_pos hopen, groupsOf_open]
      simp [hopen]
    · simp [hopen]

private theorem groupsOf_eq_some_cons {g : List Char} : groupsOf none cs = some (g :: gs) ↔
    (∀ c ∈ g, isBracket c = false) ∧
      ∃ rest, cs = '[' :: (g ++ ']' :: rest) ∧ groupsOf none rest = some gs := by
  cases cs with
  | nil => simp [groupsOf]
  | cons c rest =>
    rw [groupsOf]
    by_cases hopen : c = '['
    · subst hopen
      rw [if_pos rfl, groupsOf_open]
      constructor
      · rintro ⟨g', rest', others, hg, rfl, hothers, hgs⟩
        obtain ⟨rfl, rfl⟩ := List.cons.inj hgs
        exact ⟨hg, rest', rfl, hothers⟩
      · rintro ⟨hg, rest', hcs, hothers⟩
        exact ⟨g, rest', gs, hg, (List.cons.inj hcs).2, hothers, rfl⟩
    · simp [hopen]

/-- What is read as groups is the groups as they are written, but for a line break at the end: by
induction on the groups, the first of which ends at the first closing bracket. -/
private theorem groupsOf_eq_some_iff : groupsOf none cs = some gs ↔
    (∀ g ∈ gs, ∀ c ∈ g, isBracket c = false) ∧
      (cs = bracketed gs ∨ cs = bracketed gs ++ ['\n']) := by
  induction gs generalizing cs with
  | nil => simp [groupsOf_eq_some_nil, bracketed]
  | cons g gs ih =>
    have hcons : bracketed (g :: gs) = '[' :: (g ++ ']' :: bracketed gs) := by simp [bracketed]
    rw [groupsOf_eq_some_cons, List.forall_mem_cons, hcons, and_assoc]
    refine and_congr_right fun _ => ?_
    simp only [ih]
    constructor
    · rintro ⟨rest, rfl, hgs, rfl | rfl⟩
      · exact ⟨hgs, .inl rfl⟩
      · exact ⟨hgs, .inr (by simp)⟩
    · rintro ⟨hgs, rfl | rfl⟩
      · exact ⟨_, rfl, hgs, .inl rfl⟩
      · exact ⟨bracketed gs ++ ['\n'], by simp, hgs, .inr rfl⟩

private theorem takeWhile_bracketed (gs : List (List Char)) {back : List Char}
    (hback : gs = [] → back = []) :
    (bracketed gs ++ back).takeWhile (fun c => !isBracket c) = [] ∧
      (bracketed gs ++ back).dropWhile (fun c => !isBracket c) = bracketed gs ++ back := by
  cases gs with
  | nil => simp [hback rfl, bracketed]
  | cons g gs => simp [bracketed, isBracket]

theorem ofString?_of_spells {k : QueryKey} {s : String} (hk : k.WellFormed) (h : k.Spells s) :
    ofString? s = some k := by
  have hname : ∀ c ∈ k.name.toList, (!isBracket c) = true := fun c hc => by simp [hk.name c hc]
  have hne : k.name.toList ≠ [] := by simpa using hk.name_ne_empty
  -- both ways to spell a key are groups and something behind them
  obtain ⟨back, hback, hbreak, hs⟩ : ∃ back, (k.groups.map String.toList = [] → back = []) ∧
      (back = [] ∨ back = ['\n']) ∧
      s.toList = k.name.toList ++ (bracketed (k.groups.map String.toList) ++ back) := by
    rcases h with rfl | ⟨hgroups, rfl⟩
    · exact ⟨[], fun _ => rfl, .inl rfl, by simp [toList_spelled]⟩
    · refine ⟨['\n'], fun hnil => absurd (List.map_eq_nil_iff.mp hnil) hgroups, .inr rfl, ?_⟩
      simp [toList_spelled, String.toList_append]
  obtain ⟨htake, hdrop⟩ := takeWhile_bracketed _ hback
  have hgroups : groupsOf none (bracketed (k.groups.map String.toList) ++ back) =
      some (k.groups.map String.toList) := by
    refine groupsOf_eq_some_iff.mpr ⟨?_, hbreak.imp (by simp [·]) (by simp [·])⟩
    intro g hg
    obtain ⟨group, hgroup, rfl⟩ := List.mem_map.mp hg
    exact hk.groups group hgroup
  rw [ofString?, hs, List.takeWhile_append_of_pos hname, List.dropWhile_append_of_pos hname, htake,
    hdrop, List.append_nil, hgroups]
  simp [hne]

theorem spells_of_ofString? {k : QueryKey} {s : String} (h : ofString? s = some k) :
    k.WellFormed ∧ k.Spells s := by
  unfold ofString? at h
  dsimp only at h
  split at h
  · cases h
  next hname =>
  obtain ⟨gs, hgs, rfl⟩ := Option.map_eq_some_iff.mp h
  obtain ⟨hplain, hrest⟩ := groupsOf_eq_some_iff.mp hgs
  have hgroups : (gs.map String.ofList).map String.toList = gs := by simp [Function.comp_def]
  have hs := List.takeWhile_append_dropWhile (p := fun c => !isBracket c) (l := s.toList)
  refine ⟨⟨by simpa using hname, fun c hc => ?_, fun g hg c hc => ?_⟩, ?_⟩
  · rw [String.toList_ofList] at hc
    simpa using List.all_eq_true.mp List.all_takeWhile c hc
  · obtain ⟨group, hgroup, rfl⟩ := List.mem_map.mp hg
    exact hplain group hgroup c (by simpa using hc)
  · rcases hrest with hrest | hrest
    · refine .inl (String.toList_injective ?_)
      rw [toList_spelled, hgroups, String.toList_ofList, ← hrest, hs]
    · refine .inr ⟨?_, String.toList_injective ?_⟩
      · -- without groups a line break belongs to the name
        intro hnil
        rw [List.map_eq_nil_iff.mp hnil] at hrest
        have hhead := List.head?_dropWhile_not (fun c => !isBracket c) s.toList
        rw [hrest] at hhead
        simp [bracketed, isBracket] at hhead
      · rw [String.toList_append, toList_spelled, hgroups, String.toList_ofList, List.append_assoc]
        exact (hrest ▸ hs).symm

theorem ofString?_eq_some_iff {k : QueryKey} {s : String} :
    ofString? s = some k ↔ k.WellFormed ∧ k.Spells s :=
  ⟨spells_of_ofString?, fun h => ofString?_of_spells h.1 h.2⟩

end QueryKey

namespace Parameters

/-- A pair with this key makes a difference somewhere. -/
def Contributes (key : String) : Prop :=
  ∃ before after value, nest (before ++ (key, value) :: after) ≠ nest (before ++ after)

variable {key : String} {k : QueryKey}

theorem nest_stored (hk : QueryKey.ofString? key = some k) (before : List (String × Json))
    (value : Json) :
    nest (before ++ [(key, value)]) = insert value (nest before) k.name k.segments := by
  rw [nest_concat, hk]

theorem nest_ignored (hk : QueryKey.ofString? key = none) (before after : List (String × Json))
    (value : Json) : nest (before ++ (key, value) :: after) = nest (before ++ after) := by
  simp only [nest, List.foldl_append, List.foldl_cons, hk]

theorem nest_single_ne_nil (hk : QueryKey.ofString? key = some k) (value : Json) :
    nest [(key, value)] ≠ [] := by
  have hstored := nest_stored hk [] value
  obtain ⟨j, hset⟩ := insert_eq_set value (nest []) k.name k.segments
  rw [List.nil_append, hset _ rfl] at hstored
  rw [hstored]
  simp [nest, Entries.set]

theorem contributes_iff : Contributes key ↔ ∃ k, QueryKey.ofString? key = some k := by
  constructor
  · rintro ⟨before, after, value, hne⟩
    cases hk : QueryKey.ofString? key with
    | none => exact absurd (nest_ignored hk before after value) hne
    | some k => exact ⟨k, rfl⟩
  · rintro ⟨k, hk⟩
    exact ⟨[], [], .null, nest_single_ne_nil hk .null⟩

/-- A pair counts if and only if its key is a name and groups in brackets as they are written, or
such a key with groups and a line break behind them. A pair that counts is stored at its path. But
for keys with a line break behind a bracket, name and groups put together again are the key. -/
theorem keys_by_grammar (key : String) :
    (Contributes key ↔ ∃ k : QueryKey, k.WellFormed ∧ k.Spells key) ∧
    (∀ k : QueryKey, k.WellFormed → k.Spells key →
      QueryKey.ofString? key = some k ∧ ∀ before value,
        nest (before ++ [(key, value)]) = insert value (nest before) k.name k.segments ∧
        nest [(key, value)] ≠ []) ∧
    (¬ [']', '\n'] <:+ key.toList →
      (Contributes key ↔ ∃ k : QueryKey, k.WellFormed ∧ k.spelled = key) ∧
      ∀ k, QueryKey.ofString? key = some k → k.spelled = key) := by
  have hcontributes : Contributes key ↔ ∃ k : QueryKey, k.WellFormed ∧ k.Spells key := by
    simp only [contributes_iff, QueryKey.ofString?_eq_some_iff]
  refine ⟨hcontributes, fun k hk hs => ?_, fun hbreak => ?_⟩
  · have hread := QueryKey.ofString?_of_spells hk hs
    exact ⟨hread, fun before value => ⟨nest_stored hread before value,
      nest_single_ne_nil hread value⟩⟩
  · have hspelled : ∀ k : QueryKey, k.Spells key ↔ k.spelled = key := by
      intro k
      refine ⟨?_, fun h => .inl h.symm⟩
      rintro (h | ⟨hgroups, h⟩)
      · exact h.symm
      · obtain ⟨front, hfront⟩ := QueryKey.exists_closing hgroups
        refine absurd ⟨front, ?_⟩ hbreak
        rw [h, String.toList_append, hfront, List.append_assoc]
        rfl
    refine ⟨?_, fun k hk => (hspelled k).mp (QueryKey.spells_of_ofString? hk).2⟩
    simp only [hcontributes, hspelled]

theorem keys_of_user_fields :
    ¬ [']', '\n'] <:+ "fields[users][]".toList ∧ Contributes "fields[users][]" ∧
      QueryKey.spelled ⟨"fields", ["users", ""]⟩ = "fields[users][]" ∧
      nest [("fields[users][]", .string "name")] =
        insert (.string "name") [] "fields" ["users"] := by
  have hbreak : ¬ [']', '\n'] <:+ "fields[users][]".toList := by decide
  have hread : QueryKey.ofString? "fields[users][]" = some ⟨"fields", ["users", ""]⟩ := by decide
  obtain ⟨hk, -⟩ := QueryKey.spells_of_ofString? hread
  obtain ⟨-, hstored, hwritten⟩ := keys_by_grammar "fields[users][]"
  have hspelled := (hwritten hbreak).2 _ hread
  exact ⟨hbreak, (hwritten hbreak).1.mpr ⟨_, hk, hspelled⟩, hspelled,
    ((hstored _ hk (.inl hspelled.symm)).2 [] (.string "name")).1⟩

/-- A line break behind the last group is read over, though no key is written so. -/
theorem key_with_line_break :
    let key := "fields[users]\n"
    (∀ k : QueryKey, k.WellFormed → k.spelled ≠ key) ∧
      nest [(key, .string "name")] = [("fields", .object [("users", .string "name")])] := by
  intro key
  have hread : QueryKey.ofString? key = some ⟨"fields", ["users"]⟩ := by decide
  refine ⟨fun k hk hspelled => ?_, nest_stored hread [] (.string "name")⟩
  obtain rfl := Option.some.inj ((QueryKey.ofString?_of_spells hk (.inl hspelled.symm)).symm.trans
    hread)
  exact absurd hspelled (by decide)

end Parameters
end FieldPlan
