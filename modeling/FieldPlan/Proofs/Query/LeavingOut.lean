import FieldPlan.Proofs.Query.Nesting
/-!
# Leaving out what a place is given

Two sets of parameters may differ in one place only, which has no value in the second. So do the
parameters that pairs nest to, and those that remain when all pairs for the place are left out.
-/
namespace FieldPlan

/-- Objects within each other have each of their keys once. Arrays are not looked into. -/
inductive Json.DistinctKeys : Json → Prop
  | plain {j : Json} (h : ∀ entries, j ≠ .object entries) : DistinctKeys j
  | object {entries : Entries Json} (hkeys : entries.keys.Nodup)
    (h : ∀ e ∈ entries, DistinctKeys e.2) : DistinctKeys (.object entries)

namespace Parameters

variable {entries others : Entries Json} {key name text : String} {place path : List String}
  {j : Json}

/-- What stands at a place, where a plain value is taken for the level that keeps it. -/
def valueAt? (entries : Entries Json) : List String → Option Json
  | [] => none
  | [key] => entries.get? key
  | key :: place => valueAt? (below entries key) place

/-- The others have no value at the place, and all that the entries have elsewhere. -/
inductive LeftOut : List String → Entries Json → Entries Json → Prop
  | last {key : String} {entries others : Entries Json} (habsent : others.get? key = none)
    (hsame : ∀ other, other ≠ key → others.get? other = entries.get? other) :
    LeftOut [key] entries others
  | within {key : String} {place : List String} {entries others : Entries Json}
    (hnull : others.get? key ≠ some .null)
    (h : LeftOut place (below entries key) (below others key))
    (hsame : ∀ other, other ≠ key → others.get? other = entries.get? other) :
    LeftOut (key :: place) entries others

/-- A value at the path stands at the place, or below it. -/
def Gives (place path : List String) : Prop := place <+: path ∨ place = path ++ [primary]

instance (place path : List String) : Decidable (Gives place path) :=
  inferInstanceAs (Decidable (_ ∨ _))

def leavingOut (place : List String) (items : List (String × String)) : List (String × String) :=
  items.filter fun item => ¬ (path? item.1).any fun path => Gives place path

/-! ## Storing a value -/

theorem below_congr (h : others.get? key = entries.get? key) :
    below others key = below entries key := by
  rw [below, h, below]

theorem insert_eq_set (value : Json) (entries : Entries Json) (name : String) (path : List String) :
    ∃ j, ∀ others : Entries Json, others.get? name = entries.get? name →
      insert value others name path = others.set name j := by
  cases path with
  | nil =>
    cases hget : entries.get? name with
    | none => exact ⟨value, fun others h => by rw [insert, h]⟩
    | some j =>
      cases j with
      | object inner => exact ⟨_, fun others h => by rw [insert, h]⟩
      | _ => exact ⟨value, fun others h => by rw [insert, h]⟩
  | cons next path => exact ⟨_, fun others h => by rw [insert, below_congr h]⟩

theorem get?_insert_of_ne (value : Json) (h : key ≠ name) (path : List String) :
    (insert value entries name path).get? key = entries.get? key := by
  obtain ⟨j, hset⟩ := insert_eq_set value entries name path
  rw [hset entries rfl, Entries.get?_set, if_neg h]

theorem get?_insert_ne_null (text : String) (entries : Entries Json) (name : String)
    (path : List String) : (insert (.string text) entries name path).get? name ≠ some .null := by
  cases path with
  | nil =>
    unfold insert
    split <;> simp
  | cons next path => simp [insert]

theorem below_insert_nil (text : String) (entries : Entries Json) (key : String) :
    below (insert (.string text) entries key []) key =
      (below entries key).set primary (.string text) := by
  cases hget : entries.get? key with
  | none => simp [below, insert, hget, Entries.set]
  | some j => cases j <;> simp [below, insert, hget, Entries.set]

theorem below_insert_cons (value : Json) (entries : Entries Json) (key next : String)
    (path : List String) : below (insert value entries key (next :: path)) key =
      insert value (below entries key) next path := by
  simp [below, insert]

/-! ## Distinct keys -/

theorem distinctKeys_nil : (Json.object []).DistinctKeys :=
  .object List.nodup_nil fun _ he => nomatch he

theorem distinctKeys_text (text : String) : (Json.string text).DistinctKeys :=
  .plain fun _ h => nomatch h

theorem nodup_of_distinctKeys (h : (Json.object entries).DistinctKeys) : entries.keys.Nodup := by
  cases h with
  | plain h => exact absurd rfl (h entries)
  | object hkeys h => exact hkeys

theorem distinctKeys_get? (h : (Json.object entries).DistinctKeys)
    (hget : entries.get? key = some j) : j.DistinctKeys := by
  cases h with
  | plain h => exact absurd rfl (h entries)
  | object hkeys h => exact h (key, j) (Entries.mem_of_get? hget)

theorem distinctKeys_set (h : (Json.object entries).DistinctKeys) (hj : j.DistinctKeys)
    (key : String) : (Json.object (entries.set key j)).DistinctKeys := by
  refine .object (Entries.nodup_keys_set (nodup_of_distinctKeys h)) fun e he => ?_
  cases h with
  | plain h => exact absurd rfl (h entries)
  | object hkeys h =>
    rcases Entries.mem_set he with rfl | he
    · exact hj
    · exact h e he

theorem distinctKeys_below (h : (Json.object entries).DistinctKeys) (key : String) :
    (Json.object (below entries key)).DistinctKeys := by
  unfold below
  split
  · next inner hget => exact distinctKeys_get? h hget
  · exact distinctKeys_nil
  · exact distinctKeys_nil
  · next plain _ hget =>
    have hset := distinctKeys_set distinctKeys_nil (distinctKeys_get? h hget) primary
    exact hset

theorem distinctKeys_insert (h : (Json.object entries).DistinctKeys) (text name : String)
    (path : List String) :
    (Json.object (insert (.string text) entries name path)).DistinctKeys := by
  induction path generalizing entries name with
  | nil =>
    unfold insert
    split
    · next inner hget =>
      have hinner := distinctKeys_get? h hget
      exact distinctKeys_set h (distinctKeys_set hinner (distinctKeys_text text) primary) name
    · exact distinctKeys_set h (distinctKeys_text text) name
  | cons next path ih => exact distinctKeys_set h (ih (distinctKeys_below h name) next) name

theorem distinctKeys_nest (items : List (String × String)) :
    (Json.object (nest (Request.texts items))).DistinctKeys := by
  refine List.foldlRecOn (motive := fun entries => (Json.object entries).DistinctKeys) _ _
    distinctKeys_nil fun entries h item hitem => ?_
  obtain ⟨⟨key, text⟩, -, rfl⟩ := List.mem_map.mp hitem
  dsimp only
  cases QueryKey.ofString? key with
  | none => exact h
  | some k => exact distinctKeys_insert h text k.name k.segments

/-! ## Leaving out pairs -/

theorem LeftOut.nil (h : place ≠ []) : LeftOut place [] [] := by
  induction place with
  | nil => exact absurd rfl h
  | cons key place ih =>
    cases place with
    | nil => exact .last rfl fun other _ => rfl
    | cons next place => exact .within (by simp) (ih (by simp)) fun other _ => rfl

theorem LeftOut.set (h : LeftOut (key :: place) entries others) (hname : name ≠ key) (j : Json) :
    LeftOut (key :: place) (entries.set name j) (others.set name j) := by
  have hbelow (level : Entries Json) : (level.set name j).get? key = level.get? key := by
    rw [Entries.get?_set, if_neg (Ne.symm hname)]
  have hset (hsame : ∀ other, other ≠ key → others.get? other = entries.get? other) :
      ∀ other, other ≠ key → (others.set name j).get? other = (entries.set name j).get? other := by
    intro other hother
    rw [Entries.get?_set, Entries.get?_set, hsame other hother]
  cases h with
  | last habsent hsame => exact .last (by rw [hbelow, habsent]) (hset hsame)
  | within hnull h hsame =>
    refine .within (by rwa [hbelow]) ?_ (hset hsame)
    rwa [below_congr (hbelow entries), below_congr (hbelow others)]

theorem LeftOut.insert (h : LeftOut place entries others) (hplace : primary ∉ place.tail.dropLast)
    (hgives : ¬ Gives place (name :: path)) (text : String) :
    LeftOut place (insert (.string text) entries name path)
      (insert (.string text) others name path) := by
  induction h generalizing name path with
  | @last key entries others habsent hsame =>
    have hname : name ≠ key := by
      rintro rfl
      exact hgives (.inl (by simp))
    obtain ⟨j, hset⟩ := insert_eq_set (.string text) entries name path
    rw [hset entries rfl, hset others (hsame name hname)]
    exact LeftOut.set (.last habsent hsame) hname j
  | @within key place entries others hnull hbelow hsame ih =>
    by_cases hname : name = key
    · subst hname
      refine .within (get?_insert_ne_null text others name path) ?_ fun other hother => ?_
      · cases path with
        | nil =>
          rw [below_insert_nil, below_insert_nil]
          cases place with
          | nil => nomatch hbelow
          | cons next place =>
            refine LeftOut.set hbelow ?_ _
            rintro rfl
            cases place with
            | nil => exact hgives (.inr rfl)
            | cons last place => exact hplace (by simp)
        | cons next path =>
          rw [below_insert_cons, below_insert_cons]
          refine ih (fun hmem => hplace ?_) fun hgives' => hgives ?_
          · cases place with
            | nil => exact hmem
            | cons last place =>
              cases place with
              | nil => exact hmem
              | cons more place => exact List.mem_cons_of_mem _ hmem
          · rcases hgives' with ⟨rest, hrest⟩ | hrest
            · exact .inl ⟨rest, by rw [List.cons_append, hrest]⟩
            · exact .inr (congrArg (name :: ·) hrest)
      · rw [get?_insert_of_ne _ hother, get?_insert_of_ne _ hother, hsame other hother]
    · obtain ⟨j, hset⟩ := insert_eq_set (.string text) entries name path
      rw [hset entries rfl, hset others (hsame name hname)]
      exact LeftOut.set (.within hnull hbelow hsame) hname j

theorem LeftOut.insert_left (h : LeftOut place entries others)
    (hgives : Gives place (name :: path)) (text : String) :
    LeftOut place (Parameters.insert (.string text) entries name path) others := by
  induction h generalizing name path with
  | @last key entries others habsent hsame =>
    have hname : name = key := by
      rcases hgives with hgives | hgives
      · exact ((List.cons_prefix_cons.mp hgives).1).symm
      · simp at hgives
    subst hname
    refine .last habsent fun other hother => ?_
    rw [hsame other hother, get?_insert_of_ne _ hother]
  | @within key place entries others hnull hbelow hsame ih =>
    have hsplit : key = name ∧ (place <+: path ∨ place = path ++ [primary]) := by
      rcases hgives with hgives | hgives
      · exact ⟨(List.cons_prefix_cons.mp hgives).1, .inl (List.cons_prefix_cons.mp hgives).2⟩
      · exact ⟨(List.cons.inj hgives).1, .inr (List.cons.inj hgives).2⟩
    obtain ⟨rfl, hrest⟩ := hsplit
    refine .within hnull ?_ fun other hother => ?_
    · cases path with
      | nil =>
        have hplace : place = [primary] := by
          rcases hrest with hrest | hrest
          · rw [List.prefix_nil.mp hrest] at hbelow
            nomatch hbelow
          · exact hrest
        subst hplace
        rw [below_insert_nil]
        cases hbelow with
        | last habsent hsame =>
          refine .last habsent fun other hother => ?_
          rw [hsame other hother, Entries.get?_set, if_neg hother]
        | within _ hnone => nomatch hnone
      | cons next path =>
        rw [below_insert_cons]
        exact ih hrest
    · rw [hsame other hother, get?_insert_of_ne _ hother]

theorem nest_texts_concat (items : List (String × String)) (item : String × String) :
    nest (Request.texts (items ++ [item])) = match QueryKey.ofString? item.1 with
      | some k => insert (.string item.2) (nest (Request.texts items)) k.name k.segments
      | none => nest (Request.texts items) := by
  rw [Request.texts, List.map_append, List.map_singleton, nest_concat]
  rfl

theorem leavingOut_concat (place : List String) (items : List (String × String))
    (item : String × String) : leavingOut place (items ++ [item]) =
      if (path? item.1).any fun path => Gives place path then leavingOut place items
      else leavingOut place items ++ [item] := by
  rw [leavingOut, List.filter_append]
  split
  · next hgives =>
    rw [List.filter_cons_of_neg (by simpa using hgives), List.filter_nil, List.append_nil,
      leavingOut]
  · next hgives =>
    rw [List.filter_cons_of_pos (by simpa using hgives), List.filter_nil, leavingOut]

/-- Without the pairs that give a place something, the parameters lack this place and no other. -/
theorem leftOut_nest (hne : place ≠ []) (hplace : primary ∉ place.tail.dropLast)
    (items : List (String × String)) :
    LeftOut place (nest (Request.texts items))
      (nest (Request.texts (leavingOut place items))) := by
  induction items using List.reverseRecOn with
  | nil => exact .nil hne
  | append_singleton items item ih =>
    rw [nest_texts_concat, leavingOut_concat, path?]
    cases hkey : QueryKey.ofString? item.1 with
    | none =>
      rw [Option.map_none, Option.any_none, if_neg (by simp), nest_texts_concat, hkey]
      exact ih
    | some k =>
      rw [Option.map_some, Option.any_some]
      by_cases hgives : Gives place k.path
      · rw [if_pos (by simpa using hgives)]
        exact ih.insert_left hgives item.2
      · rw [if_neg (by simpa using hgives), nest_texts_concat, hkey]
        exact ih.insert hplace hgives item.2

end Parameters
end FieldPlan
