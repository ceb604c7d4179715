import FieldPlan.Proofs.Query.LeavingOut
import FieldPlan.Proofs.Query.Lookups
import FieldPlan.Proofs.Request.Parts
import FieldPlan.Proofs.Request.Scopes
/-!
# Accepted requests

A request that is accepted has a limit and a page in their bounds, and stores only scopes and
relations with names. What is given as commas and blanks only could as well be left out.
-/
namespace FieldPlan

open Parameters (below valueAt? LeftOut leavingOut)

/-- Texts of commas and blanks, and lists and objects of nothing else. -/
inductive Json.IsBlank : Json → Prop
  | text {s : String} (h : Request.HasNoName s) : IsBlank (.string s)
  | texts {items : List Json} {texts : List String} (hitems : Json.strings? items = some texts)
    (h : ∀ s ∈ texts, Request.HasNoName s) : IsBlank (.array items)
  | object {entries : Entries Json} (h : ∀ e ∈ entries, IsBlank e.2) : IsBlank (.object entries)

namespace Request

variable {s : Settings} {raw raw' entries others : Entries Json} {resource : Option String}
  {q : Query} {parameter scope : String} {place : List String} {j : Json}

/-- A size within the bounds, and either a cursor as it is given, with no page, or a page from one
upwards. -/
structure IsPaged (s : Settings) (raw : Entries Json) (p : Pagination) : Prop where
  one_le_limit : 1 ≤ p.limit
  limit_le : p.limit ≤ s.maxLimit
  cursor_iff : ∀ c, (∃ limit, p = .cursor limit c) ↔ c ≠ "" ∧ raw.get? "cursor" = some (.string c)
  page_absent : ∀ limit c, p = .cursor limit c → IsAbsent (raw.get? "page")
  page : ∀ limit page, p = .offset limit page →
    1 ≤ page ∧ p.skipped = (page - 1) * limit ∧ 0 ≤ p.skipped

/-- What holds of the query of an accepted request. -/
structure Accepts (s : Settings) (raw : Entries Json) (q : Query) : Prop where
  pagination : IsPaged s raw q.pagination
  fields : ∀ e ∈ q.fields, AreNames e.2
  counts : ∀ e ∈ q.counts, AreNames e.2
  sums : IsStored q.sums
  averages : IsStored q.averages
  fieldsFor : ∀ type, q.fieldsFor type ≠ some []
  countsFor : ∀ type, q.countsFor type ≠ some []

theorem one_le_of_positive [Room] {name : String} {number : Part (Option Int)}
    (h : positive raw name = .ok number) {n : Int} (hn : number.value = some n) : 1 ≤ n := by
  rcases positive_cases h with ⟨-, rfl⟩ | ⟨-, ⟨m, hm, rfl⟩ | ⟨p, rfl⟩⟩
  · cases hn
  · exact Option.some.inj hn ▸ hm
  · cases hn

theorem isPaged_of_pagination [Room] {p : Part Pagination} (h : pagination s raw = .ok p)
    (hnone : p.problems = []) : IsPaged s raw p.value := by
  obtain ⟨limit, page, size, hlimit, hpage, hsize, rfl⟩ := exists_of_pagination h
  simp only [List.append_eq_nil_iff] at hnone
  obtain ⟨⟨⟨-, hnopage⟩, hnocursor⟩, hboth⟩ := hnone
  obtain ⟨hone, hmax⟩ := pageSize_spec hsize fun n hn => one_le_of_positive hlimit hn
  have hlimit_eq : (pageOf size page.value (cursor raw).value).limit = size := by
    cases (cursor raw).value <;> rfl
  refine ⟨by rwa [hlimit_eq], by rwa [hlimit_eq], fun c => ?_, fun n c hc => ?_, fun n k hk => ?_⟩
  · rcases cursor_cases raw with ⟨habsent, hcursor⟩ | ⟨d, hd, hget, hcursor⟩ | ⟨-, -, hcursor⟩
    · rw [hcursor]
      constructor
      · rintro ⟨_, hc⟩
        cases hc
      · rintro ⟨hc, hget⟩
        rw [hget] at habsent
        rcases habsent with hnone | hnull | hempty
        · cases hnone
        · cases hnull
        · exact absurd (Json.string.inj (Option.some.inj hempty)) hc
    · rw [hcursor, hget]
      constructor
      · rintro ⟨_, hc⟩
        obtain ⟨-, rfl⟩ := Pagination.cursor.inj hc
        exact ⟨hd, rfl⟩
      · rintro ⟨-, hc⟩
        rw [Json.string.inj (Option.some.inj hc)]
        exact ⟨size, rfl⟩
    · rw [hcursor] at hnocursor
      cases hnocursor
  · rcases positive_cases hpage with ⟨habsent, -⟩ | ⟨-, ⟨m, -, rfl⟩ | ⟨p, rfl⟩⟩
    · exact habsent
    · cases hcursor : (cursor raw).value with
      | none =>
        rw [hcursor] at hc
        cases hc
      | some d => simp [bothPages, Part.ok, hcursor] at hboth
    · cases hnopage
  · cases hcursor : (cursor raw).value with
    | some d =>
      rw [hcursor] at hk
      cases hk
    | none =>
      rw [hcursor] at hk
      obtain ⟨rfl, rfl⟩ := Pagination.offset.inj hk
      have hfirst : 1 ≤ page.value.getD 1 := by
        cases hvalue : page.value with
        | none => exact Int.le_refl 1
        | some m => exact one_le_of_positive hpage hvalue
      have hskipped : 0 ≤ (page.value.getD 1 - 1) * size := Int.mul_nonneg (by omega) (by omega)
      exact ⟨hfirst, rfl, hskipped⟩

theorem isStored_part (raw : Entries Json) (parameter : String) :
    IsStored (part raw parameter [] aggregation).value := by
  rw [part_aggregation]
  exact isStored_aggregationOf parameter _

theorem areNames_of_mem_part {e : String × List String}
    (h : e ∈ (part raw parameter [] selection).value) : AreNames e.2 := by
  rw [part_selection] at h
  exact areNames_of_mem_selectionOf h

theorem atScope_part_ne_nil (raw : Entries Json) (parameter : String) (resource : Option String)
    (type : String) : atScope resource (part raw parameter [] selection).value type ≠ some [] := by
  intro hnil
  obtain ⟨e, he, hnone⟩ := exists_mem_of_atScope hnil
  exact (areNames_of_mem_part he).ne_nil hnone

/-- The query of an accepted request is well formed. -/
theorem accepts_of_read [Room] (h : read s raw resource = .ok q) : Accepts s raw q := by
  obtain ⟨r, hr, hproblems, rfl⟩ := exists_reading h
  obtain ⟨-, hpagination, -⟩ := reading?_eq_ok hr
  obtain ⟨-, -, -, -, -, -, hnone⟩ := Reading.problems_eq_nil_iff.mp hproblems
  rw [scoped_of_reading? hr]
  exact {
    pagination := isPaged_of_pagination hpagination hnone
    fields := fun e he => areNames_of_mem_part he
    counts := fun e he => areNames_of_mem_part he
    sums := isStored_part raw "sums"
    averages := isStored_part raw "averages"
    fieldsFor := atScope_part_ne_nil raw "fields" resource
    countsFor := atScope_part_ne_nil raw "counts" resource }

/-! ## Blank values -/

theorem kept_of_isBlank (h : j.IsBlank) : kept j = none := by
  have hnone (texts : List String) (h : ∀ s ∈ texts, HasNoName s) :
      given (some (unique (texts.flatMap namesIn))) = none := by
    rw [List.flatMap_eq_nil_iff.mpr fun s hs => namesIn_of_hasNoName (h s hs)]
    rfl
  cases h with
  | @text s h => exact hnone [s] (List.forall_mem_singleton.mpr h)
  | @texts items texts hitems h =>
    rw [kept, namesOf?, texts?, hitems, Option.map_some]
    exact hnone texts h
  | object h => rfl

/-- Where one scope is given names: those of a selection, or the columns of a relation or of the
relations under a scope. -/
inductive IsPlace : List String → Prop
  | scope {parameter : String} (h : parameter ∈ ["fields", "counts", "sums", "averages"])
    (scope : String) : IsPlace [parameter, scope]
  | relation {parameter : String} (h : parameter ∈ ["sums", "averages"]) (scope : String)
    {relation : String} (hrelation : relation ≠ primary) : IsPlace [parameter, scope, relation]

theorem mem_of_leftOut (h : LeftOut [scope] entries others) (hkeys : entries.keys.Nodup)
    (hkeys' : others.keys.Nodup) {e : String × Json} (he : e ∈ others) :
    e ∈ entries := by
  have hget := (Entries.get?_eq_some hkeys').mpr he
  cases h with
  | last habsent hsame =>
    by_cases hscope : e.1 = scope
    · rw [hscope, habsent] at hget
      cases hget
    · rw [hsame e.1 hscope] at hget
      exact (Entries.get?_eq_some hkeys).mp hget
  | within _ h => nomatch h

theorem selectionOf_leftOut (hkeys : entries.keys.Nodup) (hkeys' : others.keys.Nodup)
    (hleft : LeftOut [scope] entries others) (hvalue : entries.get? scope = some j)
    (hblank : j.IsBlank) (hnone : (selectionOf parameter entries).problems = []) :
    (selectionOf parameter others).problems = [] ∧
      (selectionOf parameter entries).value.Same (selectionOf parameter others).value := by
  have hread := selectionOf_problems_eq_nil_iff.mp hnone
  refine ⟨selectionOf_problems_eq_nil_iff.mpr fun e he => ?_, fun key => ?_⟩
  · exact hread e (mem_of_leftOut hleft hkeys hkeys' he)
  · rw [get?_selectionOf hkeys, get?_selectionOf hkeys']
    cases hleft with
    | last habsent hsame =>
      by_cases hkey : key = scope
      · rw [hkey, habsent, hvalue, Option.bind_some, kept_of_isBlank hblank, Option.bind_none]
      · rw [hsame key hkey]
    | within _ h => nomatch h

theorem bind_kept_of_isBlank {relation : String} (h : (Json.object entries).IsBlank) :
    (entries.get? relation).bind kept = none := by
  cases h with
  | object h =>
    cases hget : entries.get? relation with
    | none => rfl
    | some j => exact kept_of_isBlank (h _ (Entries.mem_of_get? hget))

theorem columnsIn_leftOut {key : String} (hleft : LeftOut [key] entries others)
    (hvalue : entries.get? key = some j) (hblank : j.IsBlank) (s r : String) :
    columnsIn entries s r = columnsIn others s r := by
  cases hleft with
  | within _ h => nomatch h
  | last habsent hsame =>
    unfold columnsIn
    by_cases hr : r = primary
    · rw [if_pos hr, if_pos hr]
    · rw [if_neg hr, if_neg hr]
      by_cases hs : s = primary
      · rw [if_pos hs, if_pos hs]
        by_cases hkey : r = key
        · rw [hkey, hvalue, habsent, Option.bind_some, kept_of_isBlank hblank, Option.bind_none]
        · rw [hsame r hkey]
      · rw [if_neg hs, if_neg hs]
        by_cases hkey : s = key
        · have hbelow : below others s = [] := by rw [below, hkey, habsent]
          rw [hbelow, hkey, Entries.get?_nil, Option.bind_none]
          unfold below
          rw [hvalue]
          cases j with
          | object inner => exact bind_kept_of_isBlank hblank
          | _ => simp [Entries.get?_cons, hr]
        · rw [Parameters.below_congr (hsame s hkey)]

theorem exists_objects_of_leftOut {key relation : String} (hrelation : relation ≠ primary)
    (hread : ∀ e ∈ entries, e.1 ≠ primary ∧ IsColumns e.2)
    (hleft : LeftOut [key, relation] entries others)
    (hvalue : (below entries key).get? relation = some j) :
    key ≠ primary ∧ ∃ inner : Entries Json, entries.get? key = some (.object inner) ∧
      (others.get? key = none ∨
        ∃ inner' : Entries Json, others.get? key = some (.object inner')) := by
  obtain ⟨inner, hinner⟩ : ∃ inner : Entries Json, entries.get? key = some (.object inner) := by
    unfold below at hvalue
    split at hvalue
    · next inner hget => exact ⟨inner, hget⟩
    · cases hvalue
    · cases hvalue
    · rw [Entries.get?_cons, if_neg hrelation] at hvalue
      cases hvalue
  obtain ⟨hkey, hcolumns⟩ := hread (key, .object inner) (Entries.mem_of_get? hinner)
  refine ⟨hkey, inner, hinner, ?_⟩
  cases hleft with
  | within hnull hwithin hsame =>
    cases hwithin with
    | within _ h => nomatch h
    | last habsent hsame' =>
      -- a plain value would stand under `primary`, where the object may have none
      have hown := hsame' primary (Ne.symm hrelation)
      have hentries : below entries key = inner := by rw [below, hinner]
      rw [hentries] at hown
      unfold below at hown
      split at hown
      · next inner' hget => exact .inr ⟨inner', hget⟩
      · next hget => exact .inl hget
      · next hget => exact absurd hget hnull
      · next plain _ _ _ =>
        rw [Entries.get?_cons, if_pos rfl] at hown
        exact absurd rfl (hcolumns (primary, plain) (Entries.mem_of_get? hown.symm)).1

theorem columnsIn_leftOut_within {key relation : String} (hrelation : relation ≠ primary)
    (hread : ∀ e ∈ entries, e.1 ≠ primary ∧ IsColumns e.2)
    (hleft : LeftOut [key, relation] entries others)
    (hvalue : (below entries key).get? relation = some j) (hblank : j.IsBlank) (s r : String) :
    columnsIn entries s r = columnsIn others s r := by
  obtain ⟨-, inner, hinner, hothers⟩ := exists_objects_of_leftOut hrelation hread hleft hvalue
  cases hleft with
  | within _ hwithin hsame =>
    cases hwithin with
    | within _ h => nomatch h
    | last habsent hsame' =>
      unfold columnsIn
      by_cases hr : r = primary
      · rw [if_pos hr, if_pos hr]
      · rw [if_neg hr, if_neg hr]
        by_cases hs : s = primary
        · rw [if_pos hs, if_pos hs]
          by_cases hkey : r = key
          · rw [hkey, hinner, Option.bind_some, kept_object]
            rcases hothers with hnone | ⟨inner', hinner'⟩
            · rw [hnone, Option.bind_none]
            · rw [hinner', Option.bind_some, kept_object]
          · rw [hsame r hkey]
        · rw [if_neg hs, if_neg hs]
          by_cases hkey : s = key
          · subst hkey
            by_cases hsame_relation : r = relation
            · rw [hsame_relation, hvalue, habsent, Option.bind_some, kept_of_isBlank hblank,
                Option.bind_none]
            · rw [hsame' r hsame_relation]
          · rw [Parameters.below_congr (hsame s hkey)]

theorem isColumns_leftOut_within {key relation : String} (hrelation : relation ≠ primary)
    (hkeys : (Json.object entries).DistinctKeys) (hkeys' : (Json.object others).DistinctKeys)
    (hread : ∀ e ∈ entries, e.1 ≠ primary ∧ IsColumns e.2)
    (hleft : LeftOut [key, relation] entries others)
    (hvalue : (below entries key).get? relation = some j) :
    ∀ e ∈ others, e.1 ≠ primary ∧ IsColumns e.2 := by
  obtain ⟨hkey, inner, hinner, hothers⟩ := exists_objects_of_leftOut hrelation hread hleft hvalue
  intro e he
  have hget := (Entries.get?_eq_some (Parameters.nodup_of_distinctKeys hkeys')).mpr he
  cases hleft with
  | within _ hwithin hsame =>
    by_cases hscope : e.1 = key
    · rw [hscope] at hget ⊢
      rcases hothers with hnone | ⟨inner', hinner'⟩
      · rw [hnone] at hget
        cases hget
      · rw [← Option.some.inj (hinner'.symm.trans hget)]
        have hbelow : below entries key = inner := by rw [below, hinner]
        have hbelow' : below others key = inner' := by rw [below, hinner']
        rw [hbelow, hbelow'] at hwithin
        have hnodup := Parameters.nodup_of_distinctKeys (Parameters.distinctKeys_get? hkeys hinner)
        have hnodup' :=
          Parameters.nodup_of_distinctKeys (Parameters.distinctKeys_get? hkeys' hinner')
        have hcolumns := (hread (key, .object inner) (Entries.mem_of_get? hinner)).2
        exact ⟨hkey, fun r hr => hcolumns r (mem_of_leftOut hwithin hnodup hnodup' hr)⟩
    · rw [hsame e.1 hscope] at hget
      exact hread e (Entries.mem_of_get? hget)

theorem exists_get?_of_below {key : String} (h : (below entries scope).get? key = some j) :
    ∃ inner, entries.get? scope = some inner := by
  unfold below at h
  cases hget : entries.get? scope with
  | none =>
    rw [hget] at h
    cases h
  | some inner => exact ⟨inner, rfl⟩

theorem IsStored.rel {a a' : Aggregation} (h : IsStored a) (h' : IsStored a')
    (hsame : ∀ s r, columnsAt a s r = columnsAt a' s r) (scope : String) :
    Option.Rel Entries.Same (a.get? scope) (a'.get? scope) := by
  have hsome {b : Aggregation} (hb : IsStored b) {relations : Selection}
      (hget : b.get? scope = some relations) : ∃ r, (columnsAt b scope r).isSome := by
    cases relations with
    | nil => exact absurd rfl (hb.ne_nil _ (Entries.mem_of_get? hget))
    | cons r rest =>
      obtain ⟨relation, cs⟩ := r
      refine ⟨relation, ?_⟩
      rw [columnsAt, hget, Option.bind_some, Entries.get?_cons, if_pos rfl]
      rfl
  cases hget : a.get? scope with
  | none =>
    cases hget' : a'.get? scope with
    | none => exact .none
    | some relations =>
      obtain ⟨r, hr⟩ := hsome h' hget'
      rw [← hsame, columnsAt, hget] at hr
      cases hr
  | some relations =>
    cases hget' : a'.get? scope with
    | none =>
      obtain ⟨r, hr⟩ := hsome h hget
      rw [hsame, columnsAt, hget'] at hr
      cases hr
    | some relations' =>
      refine .some fun r => ?_
      have hr := hsame scope r
      rwa [columnsAt, columnsAt, hget, hget', Option.bind_some, Option.bind_some] at hr

theorem IsStored.lookups {a a' : Aggregation} (h : IsStored a) (h' : IsStored a')
    (hrel : ∀ scope, Option.Rel Entries.Same (a.get? scope) (a'.get? scope))
    (resource : Option String) (type : String) :
    Option.Rel Entries.Same ((atScope resource a type).map Entries.ofList)
      ((atScope resource a' type).map Entries.ofList) := by
  have hlookup := atScope_rel h.keys h'.keys hrel resource type
  cases hget : atScope resource a type with
  | none =>
    rw [hget] at hlookup
    cases hget' : atScope resource a' type with
    | none => exact .none
    | some relations' =>
      rw [hget'] at hlookup
      cases hlookup
  | some relations =>
    rw [hget] at hlookup
    cases hget' : atScope resource a' type with
    | none =>
      rw [hget'] at hlookup
      cases hlookup
    | some relations' =>
      rw [hget'] at hlookup
      obtain ⟨e, he, rfl⟩ := exists_mem_of_atScope hget
      obtain ⟨e', he', rfl⟩ := exists_mem_of_atScope hget'
      rw [Option.map_some, Option.map_some, Entries.ofList_of_nodup (h.relations e he),
        Entries.ofList_of_nodup (h'.relations e' he')]
      exact hlookup

theorem nodup_part_selection (h : (Json.object raw).DistinctKeys) (parameter : String) :
    (Entries.keys (part raw parameter [] selection).value).Nodup := by
  rw [part_selection]
  have hbelow := Parameters.distinctKeys_below h parameter
  exact nodup_keys_selectionOf (Parameters.nodup_of_distinctKeys hbelow) parameter

theorem columnsAt_aggregationOf (h : (Json.object entries).DistinctKeys) (parameter s r : String) :
    columnsAt (aggregationOf parameter [] entries).value s r = columnsIn entries s r := by
  have hkeys := Parameters.nodup_of_distinctKeys h
  have hinner : ∀ e ∈ entries, ∀ inner : Entries Json, e.2 = .object inner → inner.keys.Nodup := by
    intro e he inner hobject
    have hget := Parameters.distinctKeys_get? h ((Entries.get?_eq_some hkeys).mpr he)
    exact Parameters.nodup_of_distinctKeys (hobject ▸ hget)
  have hempty : columnsAt [] s r = none := rfl
  rw [aggregationOf_eq, columnsAt_foldl hkeys hinner, hempty, Option.or_none]

theorem aggregationOf_leftOut (hplace : IsPlace (parameter :: place))
    (hkeys : (Json.object entries).DistinctKeys) (hkeys' : (Json.object others).DistinctKeys)
    (hleft : LeftOut place entries others) (hvalue : valueAt? entries place = some j)
    (hblank : j.IsBlank) (hnone : (aggregationOf parameter [] entries).problems = []) :
    (aggregationOf parameter [] others).problems = [] ∧
      ∀ s r, columnsIn entries s r = columnsIn others s r := by
  have hread := aggregationOf_problems_eq_nil_iff.mp hnone
  rw [aggregationOf_problems_eq_nil_iff]
  cases hplace with
  | scope _ key =>
    refine ⟨fun e he => hread e (mem_of_leftOut hleft ?_ ?_ he), ?_⟩
    · exact Parameters.nodup_of_distinctKeys hkeys
    · exact Parameters.nodup_of_distinctKeys hkeys'
    · exact columnsIn_leftOut hleft hvalue hblank
  | relation _ key hrelation =>
    refine ⟨isColumns_leftOut_within hrelation hkeys hkeys' hread hleft hvalue, ?_⟩
    exact columnsIn_leftOut_within hrelation hread hleft hvalue hblank

/-! ## Requests without a blank value -/

section LeavingOut

variable (hplace : IsPlace place) (hkeys : (Json.object raw).DistinctKeys)
  (hkeys' : (Json.object raw').DistinctKeys) (hleft : LeftOut place raw raw')
  (hvalue : valueAt? raw place = some j) (hblank : j.IsBlank)

include hplace hleft

theorem get?_of_leftOut (name : String)
    (h : name ∉ ["fields", "counts", "sums", "averages"]) : raw'.get? name = raw.get? name := by
  have hne {own : String} (hown : own ∈ ["fields", "counts", "sums", "averages"]) : name ≠ own :=
    fun hname => h (hname ▸ hown)
  cases hplace with
  | scope hparameter scope =>
    cases hleft with
    | within _ _ hsame => exact hsame name (hne hparameter)
  | relation hparameter scope =>
    cases hleft with
    | within _ _ hsame =>
      have hmem := List.mem_cons_of_mem "fields" (List.mem_cons_of_mem "counts" hparameter)
      exact hsame name (hne hmem)

include hkeys hkeys' hvalue hblank

theorem part_selection_leftOut (hparameter : parameter ∈ ["fields", "counts"])
    (hnone : (part raw parameter [] selection).problems = []) :
    (part raw' parameter [] selection).problems = [] ∧
      Entries.Same (part raw parameter [] selection).value
        (part raw' parameter [] selection).value := by
  have hother (h : raw'.get? parameter = raw.get? parameter) :
      (part raw' parameter [] selection).problems = [] ∧
        Entries.Same (part raw parameter [] selection).value
        (part raw' parameter [] selection).value := by
    rw [part_congr h]
    exact ⟨hnone, fun key => rfl⟩
  cases hplace with
  | @scope own _ scope =>
    cases hleft with
    | within _ hwithin hsame =>
      by_cases hown : parameter = own
      · subst hown
        rw [part_selection] at hnone ⊢
        rw [part_selection]
        have hdistinct := Parameters.distinctKeys_below hkeys parameter
        have hdistinct' := Parameters.distinctKeys_below hkeys' parameter
        have hnodup := Parameters.nodup_of_distinctKeys hdistinct
        have hnodup' := Parameters.nodup_of_distinctKeys hdistinct'
        exact selectionOf_leftOut hnodup hnodup' hwithin hvalue hblank hnone
      · exact hother (hsame parameter hown)
  | @relation own hown scope =>
    cases hleft with
    | within _ _ hsame =>
      refine hother (hsame parameter ?_)
      rintro rfl
      simp only [List.mem_cons, List.not_mem_nil, or_false] at hparameter hown
      rcases hparameter with rfl | rfl <;> simp at hown

theorem part_aggregation_leftOut (hnone : (part raw parameter [] aggregation).problems = []) :
    (part raw' parameter [] aggregation).problems = [] ∧
      ∀ scope, Option.Rel Entries.Same
        (Entries.get? (part raw parameter [] aggregation).value scope)
        (Entries.get? (part raw' parameter [] aggregation).value scope) := by
  have hdistinct := Parameters.distinctKeys_below hkeys parameter
  have hdistinct' := Parameters.distinctKeys_below hkeys' parameter
  rw [part_aggregation] at hnone ⊢
  rw [part_aggregation]
  have hrel (hsame : ∀ s r, columnsIn (below raw parameter) s r =
      columnsIn (below raw' parameter) s r) (scope : String) : Option.Rel Entries.Same
        (Entries.get? (aggregationOf parameter [] (below raw parameter)).value scope)
        (Entries.get? (aggregationOf parameter [] (below raw' parameter)).value scope) := by
    have hstored := isStored_aggregationOf parameter (below raw parameter)
    have hstored' := isStored_aggregationOf parameter (below raw' parameter)
    refine hstored.rel hstored' (fun s r => ?_) scope
    rw [columnsAt_aggregationOf hdistinct, columnsAt_aggregationOf hdistinct', hsame]
  obtain ⟨own, rest, rfl⟩ : ∃ own rest, place = own :: rest := by
    cases hplace with
    | scope => exact ⟨_, _, rfl⟩
    | relation => exact ⟨_, _, rfl⟩
  cases hleft with
  | last => cases hplace
  | within _ hwithin hsame =>
    by_cases hown : parameter = own
    · subst hown
      have hvalue_below : valueAt? (below raw parameter) rest = some j := by
        cases hplace with
        | scope => exact hvalue
        | relation => exact hvalue
      obtain ⟨hproblems, hcolumns⟩ :=
        aggregationOf_leftOut hplace hdistinct hdistinct' hwithin hvalue_below hblank hnone
      exact ⟨hproblems, hrel hcolumns⟩
    · have hbelow := Parameters.below_congr (hsame parameter hown)
      rw [hbelow] at hrel ⊢
      exact ⟨hnone, hrel fun s r => rfl⟩

theorem sameLookups_scoped {r : Reading} (h : (r.scoped raw).problems = [])
    (resource : Option String) : (r.scoped raw').problems = [] ∧
      ((r.scoped raw).query resource).SameLookups ((r.scoped raw').query resource) := by
  obtain ⟨hfields, hcounts, hsums, haverages, hfilters, horder, hpagination⟩ :=
    Reading.problems_eq_nil_iff.mp h
  obtain ⟨hfields_none, hfields_same⟩ :=
    part_selection_leftOut hplace hkeys hkeys' hleft hvalue hblank (by simp) hfields
  obtain ⟨hcounts_none, hcounts_same⟩ :=
    part_selection_leftOut hplace hkeys hkeys' hleft hvalue hblank (by simp) hcounts
  obtain ⟨hsums_none, hsums_rel⟩ :=
    part_aggregation_leftOut hplace hkeys hkeys' hleft hvalue hblank hsums
  obtain ⟨haverages_none, haverages_rel⟩ :=
    part_aggregation_leftOut hplace hkeys hkeys' hleft hvalue hblank haverages
  have hnodup := nodup_part_selection hkeys
  have hnodup_rest := nodup_part_selection hkeys'
  refine ⟨Reading.problems_eq_nil_iff.mpr ⟨hfields_none, hcounts_none, hsums_none, haverages_none,
    hfilters, horder, hpagination⟩, ?_⟩
  exact {
    fieldsFor := atScope_congr (hnodup "fields") (hnodup_rest "fields") hfields_same resource
    countsFor := atScope_congr (hnodup "counts") (hnodup_rest "counts") hcounts_same resource
    sumsFor := (isStored_part raw "sums").lookups (isStored_part raw' "sums") hsums_rel resource
    averagesFor := (isStored_part raw "averages").lookups (isStored_part raw' "averages")
      haverages_rel resource
    scopedFields := Query.get?_scopedFields_congr (hnodup "fields") (hnodup_rest "fields") rfl
      hfields_same
    resource := rfl
    filters := rfl
    order := rfl
    pagination := rfl }

omit hkeys hkeys' hvalue hblank in
theorem reading?_leftOut [Room] {r : Reading} (h : reading? s raw = .ok r) :
    reading? s raw' = .ok (r.scoped raw') := by
  obtain ⟨hfilters, hpagination, -, -, -, -, horder⟩ := reading?_eq_ok h
  have hfilters' := filters_congr (get?_of_leftOut hplace hleft "filters" (by simp))
  have horder' := get?_of_leftOut hplace hleft "order" (by simp)
  have hpagination' : pagination s raw' = pagination s raw := by
    refine pagination_congr s fun name hname => get?_of_leftOut hplace hleft name ?_
    simp only [List.mem_cons, List.not_mem_nil, or_false] at hname
    rcases hname with rfl | rfl | rfl <;> simp
  rw [reading?, hfilters', hpagination', part_congr horder', ← horder, hfilters, hpagination]
  rfl

/-- What is looked up in the query of an accepted request stays the same when a blank value is left
out. -/
theorem read_leftOut [Room] (h : read s raw resource = .ok q) :
    ∃ q', read s raw' resource = .ok q' ∧ q.SameLookups q' := by
  obtain ⟨r, hr, hproblems, rfl⟩ := exists_reading h
  have hscoped := scoped_of_reading? hr
  rw [hscoped] at hproblems
  obtain ⟨hnone, hlookups⟩ :=
    sameLookups_scoped hplace hkeys hkeys' hleft hvalue hblank hproblems resource
  rw [← hscoped] at hlookups
  refine ⟨(r.scoped raw').query resource, ?_, hlookups⟩
  rw [read_eq, reading?_leftOut hplace hleft hr]
  exact if_pos hnone

end LeavingOut

theorem primary_notMem_of_isPlace [Room] (hplace : IsPlace place) (h : read s raw resource = .ok q)
    (hvalue : valueAt? raw place = some j) : primary ∉ place.tail.dropLast := by
  cases hplace with
  | scope => simp
  | @relation parameter hparameter scope relation hrelation =>
    have hbelow : (below (below raw parameter) scope).get? relation = some j := hvalue
    obtain ⟨inner, hinner⟩ := exists_get?_of_below hbelow
    obtain ⟨r, hr, hproblems, rfl⟩ := exists_reading h
    obtain ⟨-, -, -, -, hsums, haverages, -⟩ := reading?_eq_ok hr
    obtain ⟨-, -, hnosums, hnoaverages, -⟩ := Reading.problems_eq_nil_iff.mp hproblems
    have hnone : (aggregationOf parameter [] (below raw parameter)).problems = [] := by
      simp only [List.mem_cons, List.not_mem_nil, or_false] at hparameter
      rcases hparameter with rfl | rfl
      · rwa [hsums, part_aggregation] at hnosums
      · rwa [haverages, part_aggregation] at hnoaverages
    have hscope := aggregationOf_problems_eq_nil_iff.mp hnone _ (Entries.mem_of_get? hinner)
    simpa using Ne.symm hscope.1

/-- The query of an accepted request is well formed, and what is looked up in it stays the same when
a blank value is left out, be it from the parameters or with all pairs for its place. -/
theorem accepted_requests [Room] (s : Settings) (resource : Option String) :
    (∀ raw q, read s raw resource = .ok q → Accepts s raw q ∧
      ∀ place j, IsPlace place → valueAt? raw place = some j → j.IsBlank →
        (Json.object raw).DistinctKeys →
        ∀ raw', (Json.object raw').DistinctKeys → LeftOut place raw raw' →
          ∃ q', read s raw' resource = .ok q' ∧ q.SameLookups q') ∧
    ∀ items q, readItems s (texts items) resource = .ok q →
      let raw := Parameters.nest (texts items)
      Accepts s raw q ∧
      ∀ place j, IsPlace place → valueAt? raw place = some j → j.IsBlank →
        ∃ q', readItems s (texts (leavingOut place items)) resource = .ok q' ∧
          q.SameLookups q' := by
  refine ⟨fun raw q h => ⟨accepts_of_read h, ?_⟩, fun items q h => ⟨accepts_of_read h, ?_⟩⟩
  · intro place j hplace hvalue hblank hkeys raw' hkeys' hleft
    exact read_leftOut hplace hkeys hkeys' hleft hvalue hblank h
  · intro place j hplace hvalue hblank
    have hne : place ≠ [] := by cases hplace <;> simp
    have hprimary := primary_notMem_of_isPlace hplace h hvalue
    have hleft := Parameters.leftOut_nest hne hprimary items
    exact read_leftOut hplace (Parameters.distinctKeys_nest items)
      (Parameters.distinctKeys_nest _) hleft hvalue hblank h

def blankItems : List (String × String) :=
  [("fields", "name"), ("counts[users]", " , "), ("sums[orders]", "total"), ("page", "2")]

theorem accepted_blankItems [Room] : ∃ q, readItems {} (texts blankItems) (some "users") = .ok q ∧
    Accepts {} (Parameters.nest (texts blankItems)) q ∧ q.pagination = .offset 25 2 ∧
    ∃ q', readItems {} (texts [("fields", "name"), ("sums[orders]", "total"), ("page", "2")])
      (some "users") = .ok q' ∧ q.SameLookups q' := by
  have hread : readItems {} (texts blankItems) (some "users") = .ok {
      resource := some "users"
      fields := [(primary, ["name"])]
      counts := []
      sums := [(primary, [("orders", ["total"])])]
      averages := []
      filters := none
      order := []
      pagination := .offset 25 2 } := by rfl
  obtain ⟨haccepts, hblank⟩ := (accepted_requests {} (some "users")).2 blankItems _ hread
  have hplace : IsPlace ["counts", "users"] := .scope (by simp) "users"
  have hvalue : valueAt? (Parameters.nest (texts blankItems)) ["counts", "users"] =
      some (.string " , ") := by rfl
  have hblanks : " , ".toList.all fun c => c = ',' || Text.isBlank c := by decide
  have hnames : HasNoName " , " := fun c hc => by simpa using List.all_eq_true.mp hblanks c hc
  exact ⟨_, hread, haccepts, rfl, hblank _ _ hplace hvalue (.text hnames)⟩

end Request
end FieldPlan
