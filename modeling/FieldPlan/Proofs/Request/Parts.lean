import FieldPlan.Proofs.Entries
import FieldPlan.Query.Request
/-!
# The parts of a request

A request is read part by part. What is read of each part is gathered in one value, from which the
query or the report follows; and each part looks only at its own parameters.
-/
namespace FieldPlan.Request

variable {s : Settings} {raw : Entries Json} {resource : Option String} {name : String}

structure Reading where
  fields : Part Selection
  counts : Part Selection
  sums : Part Aggregation
  averages : Part Aggregation
  filters : Part (Option Json)
  order : Part (List OrderClause)
  pagination : Part Pagination

namespace Reading

def problems (r : Reading) : List Problem :=
  r.fields.problems ++ r.counts.problems ++ r.sums.problems ++ r.averages.problems ++
    r.filters.problems ++ r.order.problems ++ r.pagination.problems

def query (r : Reading) (resource : Option String) : Query where
  resource := resource
  fields := r.fields.value
  counts := r.counts.value
  sums := r.sums.value
  averages := r.averages.value
  filters := r.filters.value
  order := r.order.value
  pagination := r.pagination.value

theorem problems_eq_nil_iff {r : Reading} : r.problems = [] ↔
    r.fields.problems = [] ∧ r.counts.problems = [] ∧ r.sums.problems = [] ∧
      r.averages.problems = [] ∧ r.filters.problems = [] ∧ r.order.problems = [] ∧
      r.pagination.problems = [] := by
  simp [problems]

end Reading

/-- The reading of all parts, unless a limit is met. -/
def reading? [Room] (s : Settings) (raw : Entries Json) : Except Limit Reading :=
  (filters raw).bind fun f => (pagination s raw).map fun p => {
    fields := part raw "fields" [] selection
    counts := part raw "counts" [] selection
    sums := part raw "sums" [] aggregation
    averages := part raw "averages" [] aggregation
    filters := f
    order := part raw "order" [] order
    pagination := p }

/-- A request is answered with what its reading means, or with what its reading reports. -/
theorem read_eq [Room] (s : Settings) (raw : Entries Json) (resource : Option String) :
    read s raw resource = match reading? s raw with
      | .error cause => .error (.limit cause)
      | .ok r => if r.problems = [] then .ok (r.query resource)
        else .error (.malformed r.problems) := by
  unfold read reading?
  cases filters raw with
  | error cause => rfl
  | ok f =>
    cases pagination s raw with
    | error cause => rfl
    | ok p =>
      let r : Reading := {
        fields := part raw "fields" [] selection
        counts := part raw "counts" [] selection
        sums := part raw "sums" [] aggregation
        averages := part raw "averages" [] aggregation
        filters := f
        order := part raw "order" [] order
        pagination := p }
      show (if r.problems.isEmpty then Except.ok (r.query resource)
        else .error (RequestError.malformed r.problems)) = if r.problems = [] then _ else _
      simp only [List.isEmpty_iff]
      rfl

theorem exists_reading [Room] {q : Query} (h : read s raw resource = .ok q) :
    ∃ r, reading? s raw = .ok r ∧ r.problems = [] ∧ q = r.query resource := by
  rw [read_eq] at h
  cases hr : reading? s raw with
  | error cause => simp [hr] at h
  | ok r =>
    simp only [hr] at h
    by_cases hnone : r.problems = []
    · rw [if_pos hnone] at h
      exact ⟨r, rfl, hnone, (Except.ok.inj h).symm⟩
    · rw [if_neg hnone] at h
      cases h

theorem reading?_eq_ok [Room] {r : Reading} (h : reading? s raw = .ok r) :
    filters raw = .ok r.filters ∧ pagination s raw = .ok r.pagination ∧
      r.fields = part raw "fields" [] selection ∧ r.counts = part raw "counts" [] selection ∧
      r.sums = part raw "sums" [] aggregation ∧ r.averages = part raw "averages" [] aggregation ∧
      r.order = part raw "order" [] order := by
  unfold reading? at h
  cases hf : filters raw with
  | error cause =>
    rw [hf] at h
    cases h
  | ok f =>
    cases hp : pagination s raw with
    | error cause =>
      rw [hf, hp] at h
      cases h
    | ok p =>
      rw [hf, hp] at h
      obtain rfl := Except.ok.inj h
      exact ⟨rfl, rfl, rfl, rfl, rfl, rfl, rfl⟩

def Reading.scoped (r : Reading) (raw : Entries Json) : Reading := { r with
  fields := part raw "fields" [] selection
  counts := part raw "counts" [] selection
  sums := part raw "sums" [] aggregation
  averages := part raw "averages" [] aggregation }

theorem scoped_of_reading? [Room] {r : Reading} (h : reading? s raw = .ok r) : r = r.scoped raw := by
  obtain ⟨-, -, hfields, hcounts, hsums, haverages, -⟩ := reading?_eq_ok h
  rw [Reading.scoped, ← hfields, ← hcounts, ← hsums, ← haverages]

/-! ## Each part looks at its own parameters -/

theorem part_congr {α : Type} {raw' : Entries Json} (h : raw'.get? name = raw.get? name)
    (empty : α) (read : String → Json → Part α) :
    part raw' name empty read = part raw name empty read := by
  rw [part, h, part]

theorem filters_congr [Room] {raw' : Entries Json} (h : raw'.get? "filters" = raw.get? "filters") :
    filters raw' = filters raw := by
  rw [filters, h, filters]

theorem pagination_congr [Room] {raw' : Entries Json} (s : Settings)
    (h : ∀ name ∈ ["limit", "page", "cursor"], raw'.get? name = raw.get? name) :
    pagination s raw' = pagination s raw := by
  have hpositive (name : String) (hname : raw'.get? name = raw.get? name) :
      positive raw' name = positive raw name := by
    rw [positive, hname, positive]
  have hcursor : cursor raw' = cursor raw := by
    rw [cursor, h "cursor" (by simp), cursor]
  rw [pagination, hpositive "limit" (h _ (by simp)), hpositive "page" (h _ (by simp)), hcursor,
    pagination]

/-! ## Selections and aggregations as levels -/

theorem part_selection (raw : Entries Json) (parameter : String) :
    part raw parameter [] selection =
      selectionOf parameter (Parameters.below raw parameter) := by
  unfold part Parameters.below
  cases raw.get? parameter with
  | none => rfl
  | some j => cases j <;> rfl

theorem part_aggregation (raw : Entries Json) (parameter : String) :
    part raw parameter [] aggregation =
      aggregationOf parameter [] (Parameters.below raw parameter) := by
  unfold part Parameters.below
  cases raw.get? parameter with
  | none => rfl
  | some j => cases j <;> rfl

/-! ## Numbers, cursors, pages -/

/-- Nothing is given, or nothing but an empty text. -/
def IsAbsent (j? : Option Json) : Prop := j? = none ∨ j? = some .null ∨ j? = some (.string "")

theorem positive_cases [Room] {number : Part (Option Int)} (h : positive raw name = .ok number) :
    (IsAbsent (raw.get? name) ∧ number = .ok none) ∨
      ¬ IsAbsent (raw.get? name) ∧ ((∃ n : Int, 1 ≤ n ∧ number = .ok (some n)) ∨
        ∃ p, number = .bad none p) := by
  unfold positive at h
  split at h
  · next hget => exact .inl ⟨.inl hget, (Except.ok.inj h).symm⟩
  · next hget => exact .inl ⟨.inr (.inl hget), (Except.ok.inj h).symm⟩
  · next hget => exact .inl ⟨.inr (.inr hget), (Except.ok.inj h).symm⟩
  · next j hnull hempty hget =>
    refine .inr ⟨?_, ?_⟩
    · rw [hget]
      rintro (hnone | hj | hj)
      · cases hnone
      · exact hnull (Option.some.inj hj)
      · exact hempty (Option.some.inj hj)
    · split at h
      · next n hn =>
        have hpos := (Option.filter_eq_some_iff.mp hn).2
        exact .inl ⟨n, by simpa using hpos, (Except.ok.inj h).symm⟩
      · split at h
        · cases h
        · exact .inr ⟨_, (Except.ok.inj h).symm⟩

theorem cursor_cases (raw : Entries Json) :
    (IsAbsent (raw.get? "cursor") ∧ cursor raw = .ok none) ∨
      (∃ c, c ≠ "" ∧ raw.get? "cursor" = some (.string c) ∧ cursor raw = .ok (some c)) ∨
      ¬ IsAbsent (raw.get? "cursor") ∧ (∀ c, raw.get? "cursor" ≠ some (.string c)) ∧
        cursor raw = .bad none .cursorNotText := by
  unfold cursor
  cases hget : raw.get? "cursor" with
  | none => exact .inl ⟨.inl rfl, rfl⟩
  | some j =>
    cases j with
    | null => exact .inl ⟨.inr (.inl rfl), rfl⟩
    | string c =>
      by_cases hc : c = ""
      · subst hc
        exact .inl ⟨.inr (.inr rfl), rfl⟩
      · exact .inr (.inl ⟨c, hc, rfl, by simp⟩)
    | _ => exact .inr (.inr ⟨by simp [IsAbsent], by simp, rfl⟩)

theorem positive_isSome_iff [Room] {number : Part (Option Int)} (h : positive raw name = .ok number) :
    number.value.isSome ↔ ¬ IsAbsent (raw.get? name) ∧ number.problems = [] := by
  rcases positive_cases h with ⟨habsent, rfl⟩ | ⟨hgiven, ⟨n, -, rfl⟩ | ⟨p, rfl⟩⟩
  · simp [Part.ok, habsent]
  · simp [Part.ok, hgiven]
  · simp [Part.bad]

theorem cursor_isSome_iff (raw : Entries Json) : (cursor raw).value.isSome ↔
    ¬ IsAbsent (raw.get? "cursor") ∧ (cursor raw).problems = [] := by
  rcases cursor_cases raw with ⟨habsent, hcursor⟩ | ⟨c, hc, hget, hcursor⟩ | ⟨-, -, hcursor⟩
  · simp [hcursor, Part.ok, habsent]
  · simp [hcursor, Part.ok, hget, IsAbsent, hc]
  · simp [hcursor, Part.bad]

theorem pageSize_spec {limit : Option Int} {size : Int} (h : pageSize s limit = .ok size)
    (hlimit : ∀ n, limit = some n → 1 ≤ n) : 1 ≤ size ∧ size ≤ s.maxLimit := by
  have hdefault := s.one_le_defaultLimit
  have hmax := s.defaultLimit_le_maxLimit
  unfold pageSize at h
  cases limit with
  | none =>
    obtain rfl := Except.ok.inj h
    omega
  | some n =>
    dsimp only at h
    by_cases hsmall : n ≤ s.maxLimit
    · rw [if_pos hsmall] at h
      obtain rfl := Except.ok.inj h
      exact ⟨hlimit n rfl, hsmall⟩
    · rw [if_neg hsmall] at h
      split at h
      · cases h
      · obtain rfl := Except.ok.inj h
        omega

def bothPages (page : Part (Option Int)) (cursor : Part (Option String)) : List Problem :=
  if page.value.isSome && cursor.value.isSome then [.pageWithCursor] else []

def pageOf (size : Int) (page : Option Int) : Option String → Pagination
  | some c => .cursor size c
  | none => .offset size (page.getD 1)

theorem pagination_eq [Room] (s : Settings) (raw : Entries Json) : pagination s raw =
    (positive raw "limit").bind fun limit => (positive raw "page").bind fun page =>
      (pageSize s limit.value).map fun size => ⟨pageOf size page.value (cursor raw).value,
        limit.problems ++ page.problems ++ (cursor raw).problems ++
          bothPages page (cursor raw)⟩ := by
  unfold pagination
  cases positive raw "limit" with
  | error cause => rfl
  | ok limit =>
    cases positive raw "page" with
    | error cause => rfl
    | ok page =>
      simp only [bind, Except.bind]
      cases pageSize s limit.value with
      | error cause => rfl
      | ok size =>
        cases hcursor : (cursor raw).value <;>
          simp [Except.map, pure, Except.pure, pageOf, bothPages, hcursor]

theorem exists_of_pagination [Room] {p : Part Pagination} (h : pagination s raw = .ok p) :
    ∃ limit page size, positive raw "limit" = .ok limit ∧ positive raw "page" = .ok page ∧
      pageSize s limit.value = .ok size ∧
      p = ⟨pageOf size page.value (cursor raw).value, limit.problems ++ page.problems ++
        (cursor raw).problems ++ bothPages page (cursor raw)⟩ := by
  rw [pagination_eq] at h
  cases hlimit : positive raw "limit" with
  | error cause =>
    rw [hlimit] at h
    cases h
  | ok limit =>
    cases hpage : positive raw "page" with
    | error cause =>
      rw [hlimit, hpage] at h
      cases h
    | ok page =>
      rw [hlimit, hpage] at h
      cases hsize : pageSize s limit.value with
      | error cause => simp [Except.bind, hsize, Except.map] at h
      | ok size =>
        simp only [Except.bind, hsize, Except.map, Except.ok.injEq] at h
        exact ⟨limit, page, size, rfl, rfl, hsize, h.symm⟩

end FieldPlan.Request
