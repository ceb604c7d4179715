import FieldPlan.Proofs.Entries
import FieldPlan.Query.Request
import Mathlib.Data.List.Induction
/-!
# Nested parameters as trees of paths

A key spells a path: its name and the segments below it. The nested parameters are the tree of the
paths that were given. Where no longer path goes on, the last value of a path stands at the path
itself; where one does, a level stands there, which keeps the value under `primary`. Nothing else
is in the tree, so that it depends on the last values only and not on the order of other pairs.
-/
namespace FieldPlan

namespace Json

/-- What stands at a path of keys. -/
def at? (j : Json) : List String → Option Json
  | [] => some j
  | key :: path => (j.get? key).bind fun inner => inner.at? path

theorem at?_object_cons (entries : Entries Json) (key : String) (path : List String) :
    (object entries).at? (key :: path) = (entries.get? key).bind fun inner => inner.at? path := rfl

theorem at?_append (j : Json) (path rest : List String) :
    j.at? (path ++ rest) = (j.at? path).bind fun inner => inner.at? rest := by
  induction path generalizing j with
  | nil => rfl
  | cons key path ih =>
    rw [List.cons_append, at?, at?, Option.bind_assoc]
    simp only [ih]

theorem sortKeysEntries_eq_map (entries : Entries Json) :
    sortKeysEntries entries = entries.map fun e => (e.1, sortKeys e.2) := by
  induction entries with
  | nil => rfl
  | cons e rest ih => rw [sortKeysEntries, ih, List.map_cons]

theorem get?_sortKeysEntries (entries : Entries Json) (key : String) :
    Entries.get? (sortKeysEntries entries) key = (entries.get? key).map sortKeys := by
  rw [sortKeysEntries_eq_map, Entries.get?_map]

theorem keys_sortKeysEntries (entries : Entries Json) :
    Entries.keys (sortKeysEntries entries) = entries.keys := by
  rw [sortKeysEntries_eq_map, Entries.keys, List.map_map]
  rfl

end Json

/-- The name, and the segments below it. -/
def QueryKey.path (k : QueryKey) : List String := k.name :: k.segments

namespace Parameters

/-- The path that a key spells. -/
def path? (key : String) : Option (List String) := (QueryKey.ofString? key).map QueryKey.path

def pairsAt (path : List String) (items : List (String × String)) : List (String × String) :=
  items.filter fun item => path? item.1 = some path

def last? (items : List (String × String)) (path : List String) : Option String :=
  (pairsAt path items).getLast?.map (·.2)

/-- A longer path than this one was given. -/
def GoesOn (items : List (String × String)) (path : List String) : Prop :=
  ∃ segment rest, ∃ item ∈ items, path? item.1 = some (path ++ segment :: rest)

def Unscoped (items : List (String × String)) : Prop :=
  ∀ item ∈ items, ∀ k ∈ QueryKey.ofString? item.1, primary ∉ k.segments

/-- The pairs are rearranged at most: those of one path still follow each other as before. -/
def Rearranged (items others : List (String × String)) : Prop :=
  ∀ path, pairsAt path others = pairsAt path items

/-- What is known of the paths below a place, with one value set. -/
def put (values : List String → Option String) (path : List String) (text : String) :
    List String → Option String :=
  fun p => if p = path then some text else values p

theorem last?_concat (items : List (String × String)) (item : String × String) :
    last? (items ++ [item]) = match path? item.1 with
      | some path => put (last? items) path item.2
      | none => last? items := by
  funext p
  rw [last?, pairsAt, List.filter_append]
  cases hpath : path? item.1 with
  | none => simp [hpath, last?, pairsAt]
  | some path =>
    by_cases hp : path = p
    · simp [hpath, hp, put]
    · simp [hpath, hp, Ne.symm hp, put, last?, pairsAt]

/-- A value is the tree of the paths below its place: the value of the place itself, or a level with
the trees of the segments that follow. -/
inductive Encodes : Json → (List String → Option String) → Prop
  | leaf {values : List String → Option String} {text : String} (hown : values [] = some text)
    (hlast : ∀ segment path, values (segment :: path) = none) : Encodes (.string text) values
  | level {values : List String → Option String} {entries : Entries Json}
    (hgoesOn : ∃ segment path, (values (segment :: path)).isSome) (hkeys : entries.keys.Nodup)
    (hown : entries.get? primary = (values []).map .string)
    (hpresent : ∀ segment j, segment ≠ primary → entries.get? segment = some j →
      Encodes j fun path => values (segment :: path))
    (habsent : ∀ segment, segment ≠ primary → entries.get? segment = none →
      ∀ path, values (segment :: path) = none) : Encodes (.object entries) values

def EncodesAt : Option Json → (List String → Option String) → Prop
  | some j, values => Encodes j values
  | none, values => ∀ path, values path = none

/-- The entries are the segments after a place whose own value stands under `primary`. -/
structure IsLevel (entries : Entries Json) (values : List String → Option String) : Prop where
  keys : entries.keys.Nodup
  own : entries.get? primary = (values []).map .string
  below : ∀ segment, segment ≠ primary →
    EncodesAt (entries.get? segment) fun path => values (segment :: path)

/-- The entries are the names that paths begin with. -/
structure IsRoot (entries : Entries Json) (values : List String → Option String) : Prop where
  keys : entries.keys.Nodup
  below : ∀ name, EncodesAt (entries.get? name) fun path => values (name :: path)

variable {entries : Entries Json} {values : List String → Option String} {j : Json}
  {segment text : String} {path : List String}

theorem put_cons_self (values : List String → Option String) (segment : String)
    (path : List String) (text : String) :
    (fun p => put values (segment :: path) text (segment :: p)) =
      put (fun p => values (segment :: p)) path text := by
  funext p
  simp [put]

theorem put_cons_of_ne {other : String} (h : other ≠ segment) :
    (fun p => put values (segment :: path) text (other :: p)) = fun p => values (other :: p) := by
  funext p
  simp [put, h]

theorem put_nil_cons (segment : String) :
    (fun p => put values [] text (segment :: p)) = fun p => values (segment :: p) := by
  funext p
  simp [put]

theorem IsLevel.encodes (h : IsLevel entries values)
    (hgoesOn : ∃ segment path, (values (segment :: path)).isSome) :
    Encodes (.object entries) values := by
  refine .level hgoesOn h.keys h.own ?_ ?_
  · intro segment j hsegment hget
    have hbelow := h.below segment hsegment
    rwa [hget] at hbelow
  · intro segment hsegment hget
    have hbelow := h.below segment hsegment
    rwa [hget] at hbelow

theorem Encodes.isLevel (h : Encodes (.object entries) values) : IsLevel entries values := by
  cases h with
  | level _ hkeys hown hpresent habsent =>
    refine ⟨hkeys, hown, fun segment hsegment => ?_⟩
    cases hget : entries.get? segment with
    | none => exact habsent segment hsegment hget
    | some j => exact hpresent segment j hsegment hget

theorem Encodes.shape (h : Encodes j values) :
    (∃ level : Entries Json, j = .object level ∧ level.keys.Nodup ∧
        ∃ segment path, (values (segment :: path)).isSome) ∨
      ∃ text, j = .string text ∧ values [] = some text ∧
        ∀ segment path, values (segment :: path) = none := by
  cases h with
  | leaf hown hlast => exact .inr ⟨_, rfl, hown, hlast⟩
  | level hgoesOn hkeys => exact .inl ⟨_, rfl, hkeys, hgoesOn⟩

theorem Encodes.exists_isSome (h : Encodes j values) : ∃ path, (values path).isSome := by
  cases h with
  | leaf hown => exact ⟨[], by rw [hown]; rfl⟩
  | level hgoesOn =>
    obtain ⟨segment, path, hsome⟩ := hgoesOn
    exact ⟨segment :: path, hsome⟩

theorem EncodesAt.eq_none {j? : Option Json} (h : EncodesAt j? values)
    (hnone : ∀ path, values path = none) : j? = none := by
  cases j? with
  | none => rfl
  | some j =>
    obtain ⟨path, hsome⟩ := Encodes.exists_isSome h
    rw [hnone path] at hsome
    cases hsome

/-! ## One pair more -/

theorem EncodesAt.isLevel_below (h : EncodesAt (entries.get? segment) values) :
    IsLevel (below entries segment) values := by
  unfold below
  cases hget : entries.get? segment with
  | none =>
    rw [hget] at h
    refine ⟨List.nodup_nil, ?_, fun next _ path => h (next :: path)⟩
    rw [h []]
    rfl
  | some j =>
    rw [hget] at h
    rcases Encodes.shape h with ⟨level, rfl, -⟩ | ⟨text, rfl, hown, hlast⟩
    · exact Encodes.isLevel h
    · refine ⟨by simp [Entries.keys], ?_, fun next hnext => ?_⟩
      · rw [hown]
        rfl
      · simp only [Entries.get?_cons, if_neg hnext]
        exact hlast next

theorem IsLevel.set_below (h : IsLevel entries values) (hsegment : segment ≠ primary)
    (hj : Encodes j (put (fun p => values (segment :: p)) path text)) :
    IsLevel (entries.set segment j) (put values (segment :: path) text) := by
  refine ⟨Entries.nodup_keys_set h.keys, ?_, fun next hnext => ?_⟩
  · rw [Entries.get?_set, if_neg (Ne.symm hsegment), h.own]
    rfl
  · rw [Entries.get?_set]
    by_cases hsame : next = segment
    · subst hsame
      rwa [if_pos rfl, put_cons_self]
    · rw [if_neg hsame, put_cons_of_ne hsame]
      exact h.below next hnext

theorem IsLevel.set_own (h : IsLevel entries values) (text : String) :
    IsLevel (entries.set primary (.string text)) (put values [] text) := by
  refine ⟨Entries.nodup_keys_set h.keys, ?_, fun next hnext => ?_⟩
  · rw [Entries.get?_set, if_pos rfl]
    rfl
  · rw [Entries.get?_set, if_neg hnext, put_nil_cons]
    exact h.below next hnext

/-- Storing a value at a path changes what stands at the path's first segment, and sets the one
value there. -/
theorem exists_insert_eq_set (h : EncodesAt (entries.get? segment) values) (hpath : primary ∉ path)
    (text : String) : ∃ j, insert (.string text) entries segment path = entries.set segment j ∧
      Encodes j (put values path text) := by
  induction path generalizing entries segment values with
  | nil =>
    cases hget : entries.get? segment with
    | none =>
      rw [hget] at h
      refine ⟨.string text, by simp [insert, hget], .leaf rfl fun next rest => ?_⟩
      exact h (next :: rest)
    | some j =>
      rw [hget] at h
      rcases Encodes.shape h with ⟨level, rfl, -, hgoesOn⟩ | ⟨_, rfl, -, hlast⟩
      · refine ⟨.object (level.set primary (.string text)), by simp [insert, hget], ?_⟩
        exact ((Encodes.isLevel h).set_own text).encodes hgoesOn
      · refine ⟨.string text, by simp [insert, hget], .leaf rfl fun next rest => ?_⟩
        exact hlast next rest
  | cons next path ih =>
    rw [List.mem_cons, not_or] at hpath
    have hlevel := h.isLevel_below
    have hnext := Ne.symm hpath.1
    obtain ⟨j, hinsert, hj⟩ := ih (hlevel.below next hnext) hpath.2
    refine ⟨.object (insert (.string text) (below entries segment) next path), rfl, ?_⟩
    rw [hinsert]
    refine (hlevel.set_below hnext hj).encodes ⟨next, path, ?_⟩
    simp [put]

theorem IsRoot.insert (h : IsRoot entries values) (name : String) (hpath : primary ∉ path)
    (text : String) :
    IsRoot (insert (.string text) entries name path) (put values (name :: path) text) := by
  obtain ⟨j, hinsert, hj⟩ := exists_insert_eq_set (h.below name) hpath text
  rw [hinsert]
  refine ⟨Entries.nodup_keys_set h.keys, fun other => ?_⟩
  rw [Entries.get?_set]
  by_cases hsame : other = name
  · subst hsame
    rwa [if_pos rfl, put_cons_self]
  · rw [if_neg hsame, put_cons_of_ne hsame]
    exact h.below other

theorem nest_concat (items : List (String × Json)) (item : String × Json) :
    nest (items ++ [item]) = match QueryKey.ofString? item.1 with
      | some k => insert item.2 (nest items) k.name k.segments
      | none => nest items := by
  rw [nest, List.foldl_append]
  rfl

/-- The nested parameters are the tree of the last values. -/
theorem isRoot_nest {items : List (String × String)} (h : Unscoped items) :
    IsRoot (nest (Request.texts items)) (last? items) := by
  induction items using List.reverseRecOn with
  | nil => exact ⟨List.nodup_nil, fun name path => rfl⟩
  | append_singleton items item ih =>
    have hroot := ih fun other hother => h other (List.mem_append_left _ hother)
    have hitem := h item (List.mem_append_right _ (List.mem_singleton_self _))
    rw [Request.texts, List.map_append, List.map_singleton, nest_concat, last?_concat]
    unfold path?
    cases hkey : QueryKey.ofString? item.1 with
    | none => exact hroot
    | some k => exact hroot.insert k.name (hitem k hkey) item.2

/-! ## What stands where -/

theorem Encodes.at? (h : Encodes j values) (hpath : primary ∉ path) :
    EncodesAt (j.at? path) fun rest => values (path ++ rest) := by
  induction path generalizing j values with
  | nil => exact h
  | cons segment path ih =>
    rw [List.mem_cons, not_or] at hpath
    rcases h.shape with ⟨level, rfl, -⟩ | ⟨_, rfl, -, hlast⟩
    · have hbelow := h.isLevel.below segment (Ne.symm hpath.1)
      rw [Json.at?_object_cons]
      cases hget : level.get? segment with
      | none =>
        rw [hget] at hbelow
        exact fun rest => hbelow (path ++ rest)
      | some inner =>
        rw [hget] at hbelow
        exact ih hbelow hpath.2
    · exact fun rest => hlast segment (path ++ rest)

theorem IsRoot.at? (h : IsRoot entries values) (name : String) (hpath : primary ∉ path) :
    EncodesAt ((Json.object entries).at? (name :: path)) fun rest =>
      values (name :: path ++ rest) := by
  rw [Json.at?_object_cons]
  have hbelow := h.below name
  cases hget : entries.get? name with
  | none =>
    rw [hget] at hbelow
    exact fun rest => hbelow (path ++ rest)
  | some inner =>
    rw [hget] at hbelow
    exact Encodes.at? hbelow hpath

theorem EncodesAt.holds {j? : Option Json} (h : EncodesAt j? values)
    (htext : values [] = some text) :
    ((∀ segment path, values (segment :: path) = none) → j? = some (.string text)) ∧
      ((∃ segment path, (values (segment :: path)).isSome) → ∃ level : Entries Json,
        j? = some (.object level) ∧ level.get? primary = some (.string text)) := by
  cases j? with
  | none =>
    rw [h []] at htext
    cases htext
  | some j =>
    cases h with
    | leaf hown hlast =>
      rw [hown] at htext
      obtain rfl := Option.some.inj htext
      refine ⟨fun _ => rfl, ?_⟩
      rintro ⟨segment, path, hsome⟩
      rw [hlast segment path] at hsome
      cases hsome
    | level hgoesOn _ hown =>
      rw [htext] at hown
      refine ⟨fun hnone => ?_, fun _ => ⟨_, rfl, hown⟩⟩
      obtain ⟨segment, path, hsome⟩ := hgoesOn
      rw [hnone segment path] at hsome
      cases hsome

theorem sortKeys_object_congr {others : Entries Json} (hkeys : entries.keys.Nodup)
    (hkeys' : others.keys.Nodup)
    (h : ∀ key, (entries.get? key).map Json.sortKeys = (others.get? key).map Json.sortKeys) :
    (Json.object entries).sortKeys = (Json.object others).sortKeys := by
  rw [Json.sortKeys, Json.sortKeys]
  congr 1
  refine Entries.sorted_congr ?_ ?_ fun key => ?_
  · rwa [Json.keys_sortKeysEntries]
  · rwa [Json.keys_sortKeysEntries]
  · rw [Json.get?_sortKeysEntries, Json.get?_sortKeysEntries, h]

theorem EncodesAt.map_sortKeys_eq {j? j'? : Option Json} (h : EncodesAt j? values)
    (h' : EncodesAt j'? values)
    (hsame : ∀ j j', j? = some j → Encodes j' values → j.sortKeys = j'.sortKeys) :
    j?.map Json.sortKeys = j'?.map Json.sortKeys := by
  cases j? with
  | none => rw [h'.eq_none h]
  | some j =>
    cases j'? with
    | none => cases h.eq_none h'
    | some j' => rw [Option.map_some, Option.map_some, hsame j j' rfl h']

theorem Encodes.sortKeys_eq (h : Encodes j values) {j' : Json} (h' : Encodes j' values) :
    j.sortKeys = j'.sortKeys := by
  induction h generalizing j' with
  | leaf hown hlast =>
    rcases h'.shape with ⟨_, rfl, -, segment, path, hsome⟩ | ⟨_, rfl, hown', -⟩
    · rw [hlast segment path] at hsome
      cases hsome
    · rw [hown] at hown'
      rw [Option.some.inj hown']
  | @level values entries hgoesOn hkeys hown hpresent habsent ih =>
    have h := (Encodes.level hgoesOn hkeys hown hpresent habsent).isLevel
    rcases h'.shape with ⟨others, rfl, hkeys', -⟩ | ⟨_, rfl, -, hlast⟩
    · refine sortKeys_object_congr hkeys hkeys' fun key => ?_
      by_cases hkey : key = primary
      · rw [hkey, hown, h'.isLevel.own]
      · refine (h.below key hkey).map_sortKeys_eq (h'.isLevel.below key hkey) ?_
        exact fun inner inner' hget hinner' => ih key inner hkey hget hinner'
    · obtain ⟨segment, path, hsome⟩ := hgoesOn
      rw [hlast segment path] at hsome
      cases hsome

theorem IsRoot.sortKeys_eq {others : Entries Json} (h : IsRoot entries values)
    (h' : IsRoot others values) :
    (Json.object entries).sortKeys = (Json.object others).sortKeys := by
  refine sortKeys_object_congr h.keys h'.keys fun name => ?_
  refine (h.below name).map_sortKeys_eq (h'.below name) fun inner inner' hget hinner' => ?_
  have hinner := h.below name
  rw [hget] at hinner
  exact Encodes.sortKeys_eq hinner hinner'

variable {items others : List (String × String)}

theorem isSome_last? : (last? items path).isSome ↔ ∃ item ∈ items, path? item.1 = some path := by
  simp [last?, pairsAt]

theorem goesOn_iff : GoesOn items path ↔
    ∃ segment rest, (last? items (path ++ segment :: rest)).isSome := by
  simp only [GoesOn, isSome_last?]

/-- All that stands in the tree: levels where paths go on, the values of paths that end, and under
`primary` the values of paths that go on. -/
theorem IsRoot.at?_eq_some (h : IsRoot entries (last? items))
    (hget : (Json.object entries).at? path = some j) :
    (∃ level : Entries Json, j = .object level ∧ level.keys.Nodup ∧
        (path = [] ∨ GoesOn items path)) ∨
      ∃ text, j = .string text ∧ (last? items path = some text ∧ ¬ GoesOn items path ∨
        ∃ place, path = place ++ [primary] ∧ last? items place = some text ∧
          GoesOn items place) := by
  cases path with
  | nil =>
    obtain rfl := Option.some.inj hget
    exact .inl ⟨entries, rfl, h.keys, .inl rfl⟩
  | cons name rest =>
    by_cases hrest : primary ∈ rest
    · obtain ⟨before, after, rfl, hbefore⟩ := List.eq_append_cons_of_mem hrest
      rw [← List.cons_append, Json.at?_append] at hget
      obtain ⟨inner, hplace, hinner⟩ := Option.bind_eq_some_iff.mp hget
      have htree := h.at? name hbefore
      rw [hplace] at htree
      rcases Encodes.shape htree with ⟨level, rfl, -, hgoesOn⟩ | ⟨_, rfl, -⟩
      · have hown := (Encodes.isLevel htree).own
        rw [Json.at?_object_cons, hown, List.append_nil] at hinner
        obtain ⟨_, hvalue, hafter⟩ := Option.bind_eq_some_iff.mp hinner
        obtain ⟨text, htext, rfl⟩ := Option.map_eq_some_iff.mp hvalue
        cases after with
        | nil =>
          refine .inr ⟨text, (Option.some.inj hafter).symm, .inr ⟨name :: before, rfl, htext, ?_⟩⟩
          exact goesOn_iff.mpr hgoesOn
        | cons key after => cases hafter
      · cases hinner
    · have htree := h.at? name hrest
      rw [hget] at htree
      rcases Encodes.shape htree with ⟨level, rfl, hkeys, hgoesOn⟩ | ⟨text, rfl, hown, hlast⟩
      · exact .inl ⟨level, rfl, hkeys, .inr (goesOn_iff.mpr hgoesOn)⟩
      · rw [List.append_nil] at hown
        refine .inr ⟨text, rfl, .inl ⟨hown, fun hgoesOn => ?_⟩⟩
        obtain ⟨segment, more, hsome⟩ := goesOn_iff.mp hgoesOn
        rw [hlast segment more] at hsome
        cases hsome

theorem Rearranged.last?_eq (h : Rearranged items others) : last? others = last? items := by
  funext path
  rw [last?, h path, last?]

theorem Rearranged.unscoped (h : Rearranged items others) (hitems : Unscoped items) :
    Unscoped others := by
  intro item hitem k hk
  have hmem : item ∈ pairsAt k.path others :=
    List.mem_filter.mpr ⟨hitem, by simp [path?, Option.mem_def.mp hk]⟩
  rw [h k.path] at hmem
  exact hitems item (List.mem_filter.mp hmem).1 k hk

/-- Keys that do not name the primary scope fold without loss. The last value of each path stands at
the path, or under `primary` in the level there if paths go on from it; there is nothing else; and
pairs with other paths may come in any order. -/
theorem nest_keeps_last_values (items : List (String × String)) (h : Unscoped items) :
    let nested := Json.object (nest (Request.texts items))
    (∀ path text, last? items path = some text →
      (¬ GoesOn items path → nested.at? path = some (.string text)) ∧
      (GoesOn items path → ∃ level : Entries Json, nested.at? path = some (.object level) ∧
        level.get? primary = some (.string text))) ∧
    (∀ path j, nested.at? path = some j →
      (∃ level : Entries Json, j = .object level ∧ level.keys.Nodup ∧
        (path = [] ∨ GoesOn items path)) ∨
      ∃ text, j = .string text ∧ (last? items path = some text ∧ ¬ GoesOn items path ∨
        ∃ place, path = place ++ [primary] ∧ last? items place = some text ∧
          GoesOn items place)) ∧
    ∀ others, Rearranged items others →
      (Json.object (nest (Request.texts others))).sortKeys = nested.sortKeys := by
  intro nested
  have hroot := isRoot_nest h
  refine ⟨fun path text htext => ?_, fun path j => hroot.at?_eq_some, fun others hothers => ?_⟩
  · obtain ⟨item, hitem, hpath⟩ := isSome_last?.mp (Option.isSome_of_eq_some htext)
    obtain ⟨k, hk, rfl⟩ := Option.map_eq_some_iff.mp hpath
    have htree := hroot.at? k.name (h item hitem k hk)
    obtain ⟨hends, hgoesOn⟩ := htree.holds (by rwa [List.append_nil])
    refine ⟨fun hnone => hends fun segment rest => ?_, fun hsome => hgoesOn (goesOn_iff.mp hsome)⟩
    rw [← Option.not_isSome_iff_eq_none]
    exact fun hsome => hnone (goesOn_iff.mpr ⟨segment, rest, hsome⟩)
  · have hrearranged := isRoot_nest (hothers.unscoped h)
    rw [hothers.last?_eq] at hrearranged
    exact hrearranged.sortKeys_eq hroot

/-- The same path is spelled twice, and a longer one stands between. -/
def mixedItems : List (String × String) :=
  [("fields", "name"), ("fields[posts]", "title"), ("limit", "5"), ("fields[]", "email")]

theorem nest_mixedItems :
    let nested := Json.object (nest (Request.texts mixedItems))
    Unscoped mixedItems ∧ nested.at? ["limit"] = some (.string "5") ∧
      (∃ level : Entries Json, nested.at? ["fields"] = some (.object level) ∧
        level.get? primary = some (.string "email")) ∧
      (Json.object (nest (Request.texts [("limit", "5"), ("fields[posts]", "title"),
        ("fields", "name"), ("fields[]", "email")]))).sortKeys = nested.sortKeys := by
  intro nested
  have hunscoped : Unscoped mixedItems := by
    unfold Unscoped
    decide
  have hfields : path? "fields" = some ["fields"] := by decide
  have hposts : path? "fields[posts]" = some ["fields", "posts"] := by decide
  have hlimit : path? "limit" = some ["limit"] := by decide
  have hempty : path? "fields[]" = some ["fields"] := by decide
  obtain ⟨hholds, -, hrearranged⟩ := nest_keeps_last_values mixedItems hunscoped
  refine ⟨hunscoped, (hholds ["limit"] "5" (by decide)).1 ?_, ?_, hrearranged _ fun path => ?_⟩
  · rintro ⟨segment, rest, item, hitem, hpath⟩
    simp only [mixedItems, List.mem_cons, List.not_mem_nil, or_false] at hitem
    rcases hitem with rfl | rfl | rfl | rfl <;> simp_all
  · exact (hholds ["fields"] "email" (by decide)).2
      ⟨"posts", [], ("fields[posts]", "title"), by decide, hposts⟩
  · simp only [pairsAt, mixedItems, List.filter_cons, List.filter_nil, hfields, hposts, hlimit,
      hempty]
    grind

end Parameters
end FieldPlan
