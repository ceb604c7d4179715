import FieldPlan.Proofs.Request.Parts
import FieldPlan.Proofs.Request.Scopes
/-!
# Reports of all problems

A request is reported with the problems of its parts, one part after the other. Each part has the
problems, and the meaning, that it has when it is read alone; within a part each scope and each
relation has the problems that it has alone.
-/
namespace FieldPlan.Request

variable {s : Settings} {raw : Entries Json} {resource : Option String} {r : Reading}
  {keys : List String} {name parameter : String}

/-- The parameters with one of the names. -/
def only (keys : List String) (raw : Entries Json) : Entries Json :=
  raw.filter fun e => e.1 ∈ keys

def parts : List (List String) :=
  [["fields"], ["counts"], ["sums"], ["averages"], ["filters"], ["order"],
    ["limit", "page", "cursor"]]

def problemsOf : Except RequestError Query → List Problem
  | .error (.malformed problems) => problems
  | _ => []

theorem get?_only (keys : List String) (raw : Entries Json) (name : String) :
    (only keys raw).get? name = if name ∈ keys then raw.get? name else none := by
  induction raw with
  | nil => simp [only]
  | cons e rest ih =>
    obtain ⟨key, j⟩ := e
    unfold only at ih ⊢
    rw [List.filter_cons, Entries.get?_cons]
    by_cases hkey : key ∈ keys
    · simp only [hkey, decide_true, if_true, Entries.get?_cons, ih]
      by_cases hname : name = key
      · simp [hname, hkey]
      · simp [hname]
    · simp only [hkey, decide_false, Bool.false_eq_true, if_false, ih]
      by_cases hname : name = key
      · simp [hname, hkey]
      · simp [hname]

section

variable [Room]

theorem problemsOf_read (h : reading? s raw = .ok r) (resource : Option String) :
    problemsOf (read s raw resource) = r.problems := by
  rw [read_eq, h]
  dsimp only
  by_cases hnone : r.problems = []
  · rw [if_pos hnone, hnone]
    rfl
  · rw [if_neg hnone]
    rfl

theorem read_eq_ok_iff (h : reading? s raw = .ok r) {q : Query} :
    read s raw resource = .ok q ↔ r.problems = [] ∧ q = r.query resource := by
  rw [read_eq, h]
  dsimp only
  by_cases hnone : r.problems = []
  · rw [if_pos hnone, Except.ok.injEq, eq_comm]
    exact (and_iff_right hnone).symm
  · rw [if_neg hnone]
    constructor
    · intro hq
      cases hq
    · rintro ⟨hproblems, -⟩
      exact absurd hproblems hnone

theorem read_congr {raw' : Entries Json} (h : ∀ name, raw'.get? name = raw.get? name)
    (s : Settings) (resource : Option String) : read s raw' resource = read s raw resource := by
  have hreading : reading? s raw' = reading? s raw := by
    rw [reading?, filters_congr (h _), pagination_congr s fun name _ => h name]
    simp only [part_congr (h _)]
    rfl
  rw [read_eq, hreading, read_eq]

theorem exists_reading_of_ne_limit (h : ∀ cause, read s raw resource ≠ .error (.limit cause)) :
    ∃ r, reading? s raw = .ok r := by
  cases hr : reading? s raw with
  | error cause =>
    refine absurd ?_ (h cause)
    rw [read_eq, hr]
  | ok r => exact ⟨r, rfl⟩

theorem ne_limit_of_reading (h : reading? s raw = .ok r) (cause : Limit) :
    read s raw resource ≠ .error (.limit cause) := by
  rw [read_eq, h]
  dsimp only
  by_cases hnone : r.problems = []
  · rw [if_pos hnone]
    exact fun hq => nomatch hq
  · rw [if_neg hnone]
    exact fun hq => nomatch hq

/-! ## A part alone -/

def Reading.none (s : Settings) : Reading where
  fields := .ok []
  counts := .ok []
  sums := .ok []
  averages := .ok []
  filters := .ok .none
  order := .ok []
  pagination := .ok (.offset s.defaultLimit 1)

/-- What is left of a reading when the other parameters are not given. -/
def Reading.only (s : Settings) (keys : List String) (r : Reading) : Reading where
  fields := if "fields" ∈ keys then r.fields else .ok []
  counts := if "counts" ∈ keys then r.counts else .ok []
  sums := if "sums" ∈ keys then r.sums else .ok []
  averages := if "averages" ∈ keys then r.averages else .ok []
  filters := if "filters" ∈ keys then r.filters else .ok .none
  order := if "order" ∈ keys then r.order else .ok []
  pagination := if "limit" ∈ keys then r.pagination else .ok (.offset s.defaultLimit 1)

omit [Room] in
theorem part_only {α : Type} (keys : List String) (raw : Entries Json) (name : String) (empty : α)
    (read : String → Json → Part α) : part (only keys raw) name empty read =
      if name ∈ keys then part raw name empty read else .ok empty := by
  by_cases h : name ∈ keys
  · rw [if_pos h, part_congr]
    rw [get?_only, if_pos h]
  · rw [if_neg h, part, get?_only, if_neg h]

theorem filters_only (keys : List String) (raw : Entries Json) : filters (only keys raw) =
    if "filters" ∈ keys then filters raw else .ok (.ok none) := by
  by_cases h : "filters" ∈ keys
  · rw [if_pos h, filters_congr]
    rw [get?_only, if_pos h]
  · rw [if_neg h, filters, get?_only, if_neg h]

theorem positive_only (keys : List String) (raw : Entries Json) (name : String) :
    positive (only keys raw) name =
      if name ∈ keys then positive raw name else .ok (.ok none) := by
  by_cases h : name ∈ keys
  · rw [if_pos h, positive, get?_only, if_pos h, positive]
  · rw [if_neg h, positive, get?_only, if_neg h]

omit [Room] in
theorem cursor_only (keys : List String) (raw : Entries Json) : cursor (only keys raw) =
    if "cursor" ∈ keys then cursor raw else .ok none := by
  by_cases h : "cursor" ∈ keys
  · rw [if_pos h, cursor, get?_only, if_pos h, cursor]
  · rw [if_neg h, cursor, get?_only, if_neg h]

theorem pagination_only (s : Settings) (hkeys : keys ∈ parts) (raw : Entries Json) :
    pagination s (only keys raw) =
      if "limit" ∈ keys then pagination s raw else .ok (.ok (.offset s.defaultLimit 1)) := by
  by_cases h : "limit" ∈ keys
  · have hall : ∀ name ∈ ["limit", "page", "cursor"], name ∈ keys := by
      simp only [parts, List.mem_cons, List.not_mem_nil, or_false] at hkeys
      rcases hkeys with rfl | rfl | rfl | rfl | rfl | rfl | rfl <;> simp_all
    rw [if_pos h, pagination_congr]
    intro name hname
    rw [get?_only, if_pos (hall name hname)]
  · have hnone : "page" ∉ keys ∧ "cursor" ∉ keys := by
      simp only [parts, List.mem_cons, List.not_mem_nil, or_false] at hkeys
      rcases hkeys with rfl | rfl | rfl | rfl | rfl | rfl | rfl <;> simp_all
    rw [if_neg h, pagination_eq, positive_only, positive_only, cursor_only, if_neg h,
      if_neg hnone.1, if_neg hnone.2]
    rfl

theorem reading?_only (h : reading? s raw = .ok r) (hkeys : keys ∈ parts) :
    reading? s (only keys raw) = .ok (r.only s keys) := by
  obtain ⟨hfilters, hpagination, hfields, hcounts, hsums, haverages, horder⟩ := reading?_eq_ok h
  rw [reading?, filters_only, pagination_only s hkeys, hfilters, hpagination,
    ← apply_ite Except.ok, ← apply_ite Except.ok]
  simp only [part_only, ← hfields, ← hcounts, ← hsums, ← haverages, ← horder]
  rfl

theorem problemsOf_only (h : reading? s raw = .ok r) (hkeys : keys ∈ parts)
    (resource : Option String) :
    problemsOf (read s (only keys raw) resource) = (r.only s keys).problems :=
  problemsOf_read (reading?_only h hkeys) resource

/-- The problems of all parts are those of each part alone. -/
theorem problems_eq_flatMap (h : reading? s raw = .ok r) (resource : Option String) :
    r.problems = parts.flatMap fun keys => problemsOf (read s (only keys raw) resource) := by
  have hparts : r.problems = parts.flatMap fun keys => (r.only s keys).problems := by
    simp [parts, Reading.only, Reading.problems, Part.ok]
  rw [hparts]
  exact List.flatMap_congr fun keys hkeys => (problemsOf_only h hkeys resource).symm

theorem read_only_of_accepted (h : reading? s raw = .ok r) (hnone : r.problems = [])
    (hkeys : keys ∈ parts) :
    read s (only keys raw) resource = .ok ((r.only s keys).query resource) := by
  refine (read_eq_ok_iff (reading?_only h hkeys)).mpr ⟨?_, rfl⟩
  rw [problems_eq_flatMap h resource, List.flatMap_eq_nil_iff] at hnone
  rw [← problemsOf_only h hkeys resource]
  exact hnone keys hkeys

/-! ## Entries of a parameter alone -/

def entryProblems (parameter : String) (e : String × Json) : List Problem :=
  if parameter ∈ ["fields", "counts"] then (names (scopeLabel parameter e.1) e.2).problems
  else columnProblems parameter e

omit [Room] in
theorem part_of_get?_eq_none {α : Type} (h : raw.get? name = none) (empty : α)
    (read : String → Json → Part α) : part raw name empty read = .ok empty := by
  rw [part, h]

theorem reading?_single (s : Settings) (h : parameter ∈ ["fields", "counts", "sums", "averages"])
    (j : Json) :
    let raw : Entries Json := [(parameter, j)]
    reading? s raw = .ok { Reading.none s with
      fields := part raw "fields" [] selection
      counts := part raw "counts" [] selection
      sums := part raw "sums" [] aggregation
      averages := part raw "averages" [] aggregation } := by
  intro raw
  have hnone (name : String) (hname : name ∉ ["fields", "counts", "sums", "averages"]) :
      raw.get? name = none := by
    have hne : name ≠ parameter := fun hsame => hname (hsame ▸ h)
    rw [Entries.get?_cons, if_neg hne, Entries.get?_nil]
  have hpagination : pagination s raw = .ok (.ok (.offset s.defaultLimit 1)) := by
    rw [pagination_eq, positive, hnone "limit" (by simp), positive, hnone "page" (by simp), cursor,
      hnone "cursor" (by simp)]
    rfl
  rw [reading?, filters, hnone "filters" (by simp), hpagination,
    part_of_get?_eq_none (hnone "order" (by simp))]
  rfl

theorem problemsOf_single (s : Settings) (resource : Option String)
    (h : parameter ∈ ["fields", "counts", "sums", "averages"]) (entries : Entries Json) :
    problemsOf (read s [(parameter, .object entries)] resource) =
      entries.flatMap (entryProblems parameter) := by
  have hbelow : Parameters.below [(parameter, .object entries)] parameter = entries := by
    rw [Parameters.below, Entries.get?_cons, if_pos rfl]
  have hselection := part_selection [(parameter, .object entries)] parameter
  have haggregation := part_aggregation [(parameter, .object entries)] parameter
  rw [hbelow] at hselection haggregation
  have hother {name : String} (hname : name ≠ parameter) :
      Entries.get? [(parameter, Json.object entries)] name = none := by
    rw [Entries.get?_cons, if_neg hname, Entries.get?_nil]
  have hnames (hp : parameter ∈ ["fields", "counts"]) :
      (selectionOf parameter entries).problems = entries.flatMap (entryProblems parameter) := by
    have hentry : entryProblems parameter = fun e =>
        (names (scopeLabel parameter e.1) e.2).problems := funext fun e => if_pos hp
    rw [hentry, selectionOf_problems]
  have hcolumns (hp : parameter ∉ ["fields", "counts"]) :
      (aggregationOf parameter [] entries).problems =
        entries.flatMap (entryProblems parameter) := by
    have hentry : entryProblems parameter = columnProblems parameter :=
      funext fun e => if_neg hp
    rw [hentry, aggregationOf_eq]
  rw [problemsOf_read (reading?_single s h _)]
  simp only [List.mem_cons, List.not_mem_nil, or_false] at h
  rcases h with rfl | rfl | rfl | rfl
  · simp [Reading.problems, hselection, part_of_get?_eq_none (hother _), hnames, Reading.none,
      Part.ok]
  · simp [Reading.problems, hselection, part_of_get?_eq_none (hother _), hnames, Reading.none,
      Part.ok]
  · simp [Reading.problems, haggregation, part_of_get?_eq_none (hother _), hcolumns, Reading.none,
      Part.ok]
  · simp [Reading.problems, haggregation, part_of_get?_eq_none (hother _), hcolumns, Reading.none,
      Part.ok]

theorem read_only_single {j : Json} (h : raw.get? parameter = some j) (s : Settings)
    (resource : Option String) :
    read s (only [parameter] raw) resource = read s [(parameter, j)] resource := by
  refine read_congr (fun name => ?_) s resource
  rw [get?_only, Entries.get?_cons, Entries.get?_nil]
  by_cases hname : name = parameter
  · simp [hname, h]
  · simp [hname]

theorem problemsOf_entries (s : Settings) (resource : Option String)
    (h : parameter ∈ ["fields", "counts", "sums", "averages"]) (entries : Entries Json) :
    problemsOf (read s [(parameter, .object entries)] resource) = entries.flatMap fun e =>
      problemsOf (read s [(parameter, .object [e])] resource) := by
  simp only [problemsOf_single s resource h, List.flatMap_cons, List.flatMap_nil, List.append_nil]

theorem problemsOf_relations (s : Settings) (resource : Option String)
    (h : parameter ∈ ["sums", "averages"]) {key : String} (hkey : key ≠ primary)
    (inner : Entries Json) :
    problemsOf (read s [(parameter, .object [(key, .object inner)])] resource) =
      inner.flatMap fun e =>
        problemsOf (read s [(parameter, .object [(key, .object [e])])] resource) := by
  have hparameter := List.mem_cons_of_mem "fields" (List.mem_cons_of_mem "counts" h)
  have haggregation : parameter ∉ ["fields", "counts"] := by
    simp only [List.mem_cons, List.not_mem_nil, or_false] at h
    rcases h with rfl | rfl <;> simp
  simp only [problemsOf_single s resource hparameter, List.flatMap_cons, List.flatMap_nil,
    List.append_nil, entryProblems, if_neg haggregation, columnProblems, if_neg hkey]

/-! ## Numbers and cursors alone -/

theorem problemsOf_pages (hkeys : ∀ name ∈ keys, name ∈ ["limit", "page", "cursor"])
    {p : Part Pagination} (h : pagination s (only keys raw) = .ok p) (resource : Option String) :
    problemsOf (read s (only keys raw) resource) = p.problems := by
  have hnot (name : String) (hname : name ∉ ["limit", "page", "cursor"]) : name ∉ keys :=
    fun hmem => hname (hkeys name hmem)
  have hreading : reading? s (only keys raw) = .ok { Reading.none s with pagination := p } := by
    rw [reading?, filters_only, if_neg (hnot "filters" (by simp)), h]
    simp only [part_only, if_neg (hnot "fields" (by simp)), if_neg (hnot "counts" (by simp)),
      if_neg (hnot "sums" (by simp)), if_neg (hnot "averages" (by simp)),
      if_neg (hnot "order" (by simp))]
    rfl
  rw [problemsOf_read hreading, Reading.problems]
  rfl

theorem problemsOf_limit {limit : Part (Option Int)} {size : Int}
    (h : positive raw "limit" = .ok limit) (hsize : pageSize s limit.value = .ok size)
    (resource : Option String) :
    problemsOf (read s (only ["limit"] raw) resource) = limit.problems := by
  have halone : pagination s (only ["limit"] raw) = .ok ⟨.offset size 1, limit.problems⟩ := by
    rw [pagination_eq, positive_only, positive_only, cursor_only, if_pos (by simp), h]
    simp [Except.bind, Except.map, hsize, Part.ok, pageOf, bothPages]
  exact problemsOf_pages (by simp) halone resource

theorem problemsOf_page {page : Part (Option Int)} (h : positive raw "page" = .ok page)
    (s : Settings) (resource : Option String) :
    problemsOf (read s (only ["page"] raw) resource) = page.problems := by
  have halone : pagination s (only ["page"] raw) =
      .ok ⟨.offset s.defaultLimit (page.value.getD 1), page.problems⟩ := by
    rw [pagination_eq, positive_only, positive_only, cursor_only, h]
    simp [Except.bind, Except.map, Part.ok, pageOf, bothPages, pageSize]
  exact problemsOf_pages (by simp) halone resource

theorem problemsOf_cursor (s : Settings) (raw : Entries Json) (resource : Option String) :
    problemsOf (read s (only ["cursor"] raw) resource) = (cursor raw).problems := by
  have halone : pagination s (only ["cursor"] raw) =
      .ok ⟨pageOf s.defaultLimit none (cursor raw).value, (cursor raw).problems⟩ := by
    rw [pagination_eq, positive_only, positive_only, cursor_only]
    simp [Except.bind, Except.map, Part.ok, bothPages, pageSize]
  exact problemsOf_pages (by simp) halone resource

theorem pagination_problems {p : Part Pagination} (h : pagination s raw = .ok p)
    (resource : Option String) :
    ∃ both, p.problems = problemsOf (read s (only ["limit"] raw) resource) ++
        problemsOf (read s (only ["page"] raw) resource) ++
        problemsOf (read s (only ["cursor"] raw) resource) ++ both ∧
      (both = [.pageWithCursor] ∨ both = []) ∧
      (both ≠ [] ↔ ∀ name ∈ ["page", "cursor"], ¬ IsAbsent (raw.get? name) ∧
        problemsOf (read s (only [name] raw) resource) = []) := by
  obtain ⟨limit, page, size, hlimit, hpage, hsize, rfl⟩ := exists_of_pagination h
  have halone_page := problemsOf_page hpage s resource
  have halone_cursor := problemsOf_cursor s raw resource
  rw [problemsOf_limit hlimit hsize, halone_page, halone_cursor]
  refine ⟨bothPages page (cursor raw), rfl, ?_, ?_⟩
  · unfold bothPages
    split
    · exact .inl rfl
    · exact .inr rfl
  · have hboth : bothPages page (cursor raw) ≠ [] ↔
        page.value.isSome ∧ (cursor raw).value.isSome := by
      unfold bothPages
      cases page.value.isSome <;> cases (cursor raw).value.isSome <;> simp
    rw [hboth, positive_isSome_iff hpage, cursor_isSome_iff]
    simp [halone_page, halone_cursor]

/-- A request that meets no limit is reported with the problems that each part has alone, in the
order of the parts, and accepted if no part has any. Its query then has of each part what the part
means alone. The numbers, the cursor, the scopes and the relations each have their own problems, and
only a page with a cursor is a problem of two. -/
theorem reported_together (s : Settings) (raw : Entries Json) (resource : Option String)
    (h : ∀ cause, read s raw resource ≠ .error (.limit cause)) :
    let alone := fun keys => read s (only keys raw) resource
    (∀ keys ∈ parts, ∀ cause, alone keys ≠ .error (.limit cause)) ∧
    problemsOf (read s raw resource) = parts.flatMap (fun keys => problemsOf (alone keys)) ∧
    ((∃ q, read s raw resource = .ok q) ↔ ∀ keys ∈ parts, problemsOf (alone keys) = []) ∧
    (∀ q, read s raw resource = .ok q → ∃ fields counts sums averages filters order pagination,
      alone ["fields"] = .ok fields ∧ alone ["counts"] = .ok counts ∧ alone ["sums"] = .ok sums ∧
      alone ["averages"] = .ok averages ∧ alone ["filters"] = .ok filters ∧
      alone ["order"] = .ok order ∧ alone ["limit", "page", "cursor"] = .ok pagination ∧
      q = { resource, fields := fields.fields, counts := counts.counts, sums := sums.sums,
            averages := averages.averages, filters := filters.filters, order := order.order,
            pagination := pagination.pagination }) ∧
    (∃ both, problemsOf (alone ["limit", "page", "cursor"]) = problemsOf (alone ["limit"]) ++
        problemsOf (alone ["page"]) ++ problemsOf (alone ["cursor"]) ++ both ∧
      (both = [.pageWithCursor] ∨ both = []) ∧
      (both ≠ [] ↔ ∀ name ∈ ["page", "cursor"],
        ¬ IsAbsent (raw.get? name) ∧ problemsOf (alone [name]) = [])) ∧
    (∀ parameter ∈ ["fields", "counts", "sums", "averages"], ∀ entries : Entries Json,
      raw.get? parameter = some (.object entries) → problemsOf (alone [parameter]) =
        entries.flatMap fun e => problemsOf (read s [(parameter, .object [e])] resource)) ∧
    ∀ parameter ∈ ["sums", "averages"], ∀ key ≠ primary, ∀ inner : Entries Json,
      problemsOf (read s [(parameter, .object [(key, .object inner)])] resource) =
        inner.flatMap fun e =>
          problemsOf (read s [(parameter, .object [(key, .object [e])])] resource) := by
  intro alone
  obtain ⟨r, hr⟩ := exists_reading_of_ne_limit h
  have hproblems := problems_eq_flatMap hr resource
  have hnone : r.problems = [] ↔ ∀ keys ∈ parts, problemsOf (alone keys) = [] := by
    rw [hproblems, List.flatMap_eq_nil_iff]
  refine ⟨fun keys hkeys => ne_limit_of_reading (reading?_only hr hkeys), ?_, ?_, ?_, ?_, ?_, ?_⟩
  · rw [problemsOf_read hr, hproblems]
  · rw [← hnone]
    constructor
    · rintro ⟨q, hq⟩
      exact ((read_eq_ok_iff hr).mp hq).1
    · intro hproblems_nil
      exact ⟨_, (read_eq_ok_iff hr).mpr ⟨hproblems_nil, rfl⟩⟩
  · intro q hq
    obtain ⟨hproblems_nil, rfl⟩ := (read_eq_ok_iff hr).mp hq
    have hread {keys : List String} (hkeys : keys ∈ parts) :
        alone keys = .ok ((r.only s keys).query resource) :=
      read_only_of_accepted hr hproblems_nil hkeys
    exact ⟨_, _, _, _, _, _, _, hread (by simp [parts]), hread (by simp [parts]),
      hread (by simp [parts]), hread (by simp [parts]), hread (by simp [parts]),
      hread (by simp [parts]), hread (by simp [parts]), rfl⟩
  · obtain ⟨-, hpagination, -⟩ := reading?_eq_ok hr
    obtain ⟨both, hboth, hcases, hiff⟩ := pagination_problems hpagination resource
    refine ⟨both, ?_, hcases, hiff⟩
    rw [problemsOf_only hr (by simp [parts]), ← hboth]
    rfl
  · intro parameter hparameter entries hget
    have hsingle : alone [parameter] = _ := read_only_single hget s resource
    rw [hsingle, problemsOf_entries s resource hparameter]
  · exact fun parameter hparameter key hkey => problemsOf_relations s resource hparameter hkey

/-- Sums are malformed in two places, the order and the limit in one, and there are two pages. -/
def malformedItems : List (String × String) :=
  [("sums", "total"), ("sums[orders][*]", "tax"), ("order", "name:up"), ("limit", "0"),
    ("page", "2"), ("cursor", "abc")]

end

attribute [local instance] Room.usual

theorem reported_malformedItems :
    let raw := Parameters.nest (texts malformedItems)
    let alone := fun keys => problemsOf (read {} (only keys raw) none)
    (∀ cause, read {} raw none ≠ .error (.limit cause)) ∧
      parts.flatMap alone = [.notPerRelation "sums", .notPerRelation "sums[orders]",
        .orderDirection "up" "name", .notPositive "limit" (.string "0"), .pageWithCursor] ∧
      ¬ ∃ q, read {} raw none = .ok q := by
  intro raw alone
  have hread : read {} raw none = .error (.malformed [.notPerRelation "sums",
      .notPerRelation "sums[orders]", .orderDirection "up" "name",
      .notPositive "limit" (.string "0"), .pageWithCursor]) := by rfl
  have hfree : ∀ cause, read {} raw none ≠ .error (.limit cause) := by
    intro cause hlimit
    rw [hread] at hlimit
    cases hlimit
  obtain ⟨-, hproblems, haccepted, -⟩ := reported_together {} raw none hfree
  rw [hread] at hproblems
  refine ⟨hfree, hproblems.symm, fun hq => ?_⟩
  have horder : problemsOf (read {} (only ["order"] raw) none) =
      [.orderDirection "up" "name"] := by rfl
  rw [haccepted.mp hq ["order"] (by simp [parts])] at horder
  cases horder

end FieldPlan.Request
