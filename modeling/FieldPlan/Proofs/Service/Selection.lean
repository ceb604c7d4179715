import FieldPlan.Model.Declared
import FieldPlan.Proofs.Plan.Aggregates
import Mathlib.Data.List.Nodup
/-!
# Selecting the aggregates at the root

A query names counts by their aliases or by the relationships that are counted, and sums and
averages by relationship and column. Which aggregates of a resource it selects depends on what is
named only, not on how; without any such request the defaults are selected.
-/
namespace FieldPlan

def Field.Aggregates (f : Field) (kind : AggregateKind) (source : String)
    (column : Option String) : Prop :=
  ∃ a, f.body = .aggregate a ∧ a.kind = kind ∧ a.source = source ∧ a.column = column

def Field.IsCount (f : Field) : Prop := ∃ a, f.body = .aggregate a ∧ a.kind = .count

namespace Query

/-- Counts, sums or averages apply to a type. -/
def AsksAggregates (q : Query) (type : String) : Prop :=
  q.countsFor type ≠ none ∨ q.sumsFor type ≠ none ∨ q.averagesFor type ≠ none

def AsksCount (q : Query) (type name : String) : Prop :=
  ∃ names, q.countsFor type = some names ∧ name ∈ names

def Names (columns : Option Selection) (source column : String) : Prop :=
  ∃ given, columns = some given ∧ ∃ names, (source, names) ∈ given ∧ column ∈ names

/-- Two queries ask for the same aggregates of a type, in whatever order and however often. -/
structure AsksAlike (q q' : Query) (type : String) : Prop where
  any : q.AsksAggregates type ↔ q'.AsksAggregates type
  counts : ∀ name, q.AsksCount type name ↔ q'.AsksCount type name
  sums : ∀ source column,
    Names (q.sumsFor type) source column ↔ Names (q'.sumsFor type) source column
  averages : ∀ source column,
    Names (q.averagesFor type) source column ↔ Names (q'.averagesFor type) source column

end Query

namespace ResourceSchema

variable {r : ResourceSchema} {q : Query}

/-- Of the aggregates of a kind over a relationship and a column, the field is declared first. -/
def DeclaresFirst (r : ResourceSchema) (kind : AggregateKind) (source : String)
    (column : Option String) (f : Field) : Prop :=
  ∃ before after, r.fields = before ++ f :: after ∧ f.Aggregates kind source column ∧
    ∀ g ∈ before, ¬ g.Aggregates kind source column

/-- A query selects a field of a resource. By its relationship it selects only a count that has no
column. -/
inductive SelectsAggregate (r : ResourceSchema) (q : Query) (f : Field) : Prop where
  | named (hf : f ∈ r.fields) (hcount : f.IsCount) (h : q.AsksCount r.type f.name)
  | counted (source : String) (h : q.AsksCount r.type source)
    (hother : ∀ g ∈ r.fields, g.name = source → ¬ g.IsCount)
    (hfirst : r.DeclaresFirst .count source none f)
  | summed (source column : String) (h : Query.Names (q.sumsFor r.type) source column)
    (hfirst : r.DeclaresFirst .sum source (some column) f)
  | averaged (source column : String) (h : Query.Names (q.averagesFor r.type) source column)
    (hfirst : r.DeclaresFirst .average source (some column) f)

theorem eq_of_name (hnames : r.names.Nodup) {f g : Field} (hf : f ∈ r.fields) (hg : g ∈ r.fields)
    (h : f.name = g.name) : f = g :=
  List.inj_on_of_nodup_map hnames hf hg h

theorem name_of_get? {name : String} {f : Field} (h : r.get? name = some f) : f.name = name := by
  have hname := List.find?_some (show r.fields.find? (·.name == name) = some f from h)
  simpa using hname

theorem get?_eq_some (hnames : r.names.Nodup) {name : String} {f : Field} :
    r.get? name = some f ↔ f ∈ r.fields ∧ f.name = name := by
  constructor
  · intro h
    exact ⟨List.mem_of_find?_eq_some h, name_of_get? h⟩
  · rintro ⟨hf, rfl⟩
    cases hget : r.get? f.name with
    | none =>
      have hnot := List.find?_eq_none.mp hget f hf
      simp at hnot
    | some g =>
      have hg : g ∈ r.fields := List.mem_of_find?_eq_some hget
      rw [eq_of_name hnames hg hf (name_of_get? hget)]

theorem aggregate?_any {f : Field} {p : AggregateField → Bool} :
    f.aggregate?.any p = true ↔ ∃ a, f.body = .aggregate a ∧ p a = true := by
  simp only [Option.any_eq_true, Field.aggregate?_eq_some]

theorem findAggregate?_eq_some {kind : AggregateKind} {source : String} {column : Option String}
    {f : Field} :
    r.findAggregate? kind source column = some f ↔ r.DeclaresFirst kind source column f := by
  have haggregates (g : Field) : (g.aggregate?.any fun a => a.kind == kind && a.source == source &&
      a.column == column) = true ↔ g.Aggregates kind source column := by
    rw [aggregate?_any]
    simp [Field.Aggregates, and_assoc]
  unfold findAggregate?
  rw [List.find?_eq_some_iff_append]
  simp only [haggregates, DeclaresFirst, Bool.not_eq_true', ← Bool.not_eq_true]
  constructor
  · rintro ⟨hf, before, after, hfields, hbefore⟩
    exact ⟨before, after, hfields, hf, hbefore⟩
  · rintro ⟨before, after, hfields, hf, hbefore⟩
    exact ⟨hf, before, after, hfields, hbefore⟩

theorem DeclaresFirst.mem {kind : AggregateKind} {source : String} {column : Option String}
    {f : Field} (h : r.DeclaresFirst kind source column f) : f ∈ r.fields := by
  obtain ⟨before, after, hfields, -, -⟩ := h
  simp [hfields]

theorem DeclaresFirst.isAggregate {kind : AggregateKind} {source : String}
    {column : Option String} {f : Field} (h : r.DeclaresFirst kind source column f) :
    f.isAggregate = true := by
  obtain ⟨-, -, -, ⟨a, hbody, -⟩, -⟩ := h
  simp [Field.isAggregate, Field.aggregate?, hbody]

theorem SelectsAggregate.mem {f : Field} (h : r.SelectsAggregate q f) : f ∈ r.fields := by
  cases h with
  | named hf hcount h => exact hf
  | counted source h hother hfirst => exact hfirst.mem
  | summed source column h hfirst => exact hfirst.mem
  | averaged source column h hfirst => exact hfirst.mem

theorem SelectsAggregate.isAggregate {f : Field} (h : r.SelectsAggregate q f) :
    f.isAggregate = true := by
  cases h with
  | named hf hcount h =>
    obtain ⟨a, hbody, -⟩ := hcount
    simp [Field.isAggregate, Field.aggregate?, hbody]
  | counted source h hother hfirst => exact hfirst.isAggregate
  | summed source column h hfirst => exact hfirst.isAggregate
  | averaged source column h hfirst => exact hfirst.isAggregate

/-- A name stands for the count declared under it, else for the first one over the relationship. -/
theorem countNamed?_eq_some (hnames : r.names.Nodup) {name : String} {f : Field} :
    r.countNamed? name = some f ↔
      (f ∈ r.fields ∧ f.name = name ∧ f.IsCount) ∨
      ((∀ g ∈ r.fields, g.name = name → ¬ g.IsCount) ∧ r.DeclaresFirst .count name none f) := by
  have hcount (g : Field) : (g.aggregate?.any (·.kind == .count)) = true ↔ g.IsCount := by
    rw [aggregate?_any]
    simp [Field.IsCount]
  have hdeclared (g : Field) :
      (r.get? name).filter (fun g => g.aggregate?.any (·.kind == .count)) = some g ↔
        g ∈ r.fields ∧ g.name = name ∧ g.IsCount := by
    rw [Option.filter_eq_some_iff, get?_eq_some hnames, hcount, and_assoc]
  unfold countNamed?
  cases hget : (r.get? name).filter fun g => g.aggregate?.any (·.kind == .count) with
  | some g =>
    obtain ⟨hg, hname, hgcount⟩ := (hdeclared g).mp hget
    constructor
    · intro h
      obtain rfl := Option.some.inj h
      exact .inl ⟨hg, hname, hgcount⟩
    · rintro (⟨hf, hfname, -⟩ | ⟨hnone, -⟩)
      · rw [eq_of_name hnames hg hf (hname.trans hfname.symm)]
      · exact absurd hgcount (hnone g hg hname)
  | none =>
    have hnone : ∀ g ∈ r.fields, g.name = name → ¬ g.IsCount := by
      intro g hg hname hgcount
      have hsome := (hdeclared g).mpr ⟨hg, hname, hgcount⟩
      rw [hget] at hsome
      cases hsome
    simp only [findAggregate?_eq_some]
    constructor
    · intro hfirst
      exact .inr ⟨hnone, hfirst⟩
    · rintro (⟨hf, hname, hfcount⟩ | ⟨-, hfirst⟩)
      · exact absurd hfcount (hnone f hf hname)
      · exact hfirst

theorem mem_aliasesOver {kind : AggregateKind} {columns : Option Selection} {key : String} :
    key ∈ r.aliasesOver kind columns ↔ ∃ f source column, Query.Names columns source column ∧
      r.DeclaresFirst kind source (some column) f ∧ f.name = key := by
  simp only [aliasesOver, List.mem_flatMap, List.mem_filterMap, Option.map_eq_some_iff,
    findAggregate?_eq_some]
  constructor
  · rintro ⟨⟨source, names⟩, hgiven, column, hcolumn, f, hfirst, hname⟩
    cases columns with
    | none => cases hgiven
    | some given => exact ⟨f, source, column, ⟨given, rfl, names, hgiven, hcolumn⟩, hfirst, hname⟩
  · rintro ⟨f, source, column, ⟨given, rfl, names, hgiven, hcolumn⟩, hfirst, hname⟩
    exact ⟨(source, names), hgiven, column, hcolumn, f, hfirst, hname⟩

theorem requestedAggregates_eq_none :
    r.requestedAggregates q = none ↔ ¬ q.AsksAggregates r.type := by
  unfold requestedAggregates Query.AsksAggregates
  split
  · next hcounts hsums haverages => simp [hcounts, hsums, haverages]
  · next hnot =>
    simp only [reduceCtorEq, false_iff, not_not]
    by_contra hnone
    simp only [not_or, not_not] at hnone
    exact hnot hnone.1 hnone.2.1 hnone.2.2

/-- The aliases that are asked for are those of the selected fields. -/
theorem mem_requestedAggregates (hnames : r.names.Nodup) {aliases : List String}
    (h : r.requestedAggregates q = some aliases) {key : String} :
    key ∈ aliases ↔ ∃ f, r.SelectsAggregate q f ∧ f.name = key := by
  have haliases : aliases =
      ((q.countsFor r.type).getD []).filterMap (fun n => (r.countNamed? n).map (·.name)) ++
        r.aliasesOver .sum (q.sumsFor r.type) ++ r.aliasesOver .average (q.averagesFor r.type) := by
    unfold requestedAggregates at h
    split at h
    · cases h
    · exact (Option.some.inj h).symm
  rw [haliases]
  simp only [List.mem_append, mem_aliasesOver, List.mem_filterMap, Option.map_eq_some_iff,
    countNamed?_eq_some hnames]
  have hasked (name : String) : name ∈ (q.countsFor r.type).getD [] ↔ q.AsksCount r.type name := by
    unfold Query.AsksCount
    cases q.countsFor r.type with
    | none => simp
    | some names => simp
  constructor
  · rintro ((⟨name, hname, f, ⟨hf, rfl, hcount⟩ | ⟨hother, hfirst⟩, hkey⟩ |
      ⟨f, source, column, hgiven, hfirst, hkey⟩) | ⟨f, source, column, hgiven, hfirst, hkey⟩)
    · exact ⟨f, .named hf hcount ((hasked f.name).mp hname), hkey⟩
    · exact ⟨f, .counted name ((hasked name).mp hname) hother hfirst, hkey⟩
    · exact ⟨f, .summed source column hgiven hfirst, hkey⟩
    · exact ⟨f, .averaged source column hgiven hfirst, hkey⟩
  · rintro ⟨f, hselects, hkey⟩
    cases hselects with
    | named hf hcount h =>
      exact .inl (.inl ⟨f.name, (hasked f.name).mpr h, f, .inl ⟨hf, rfl, hcount⟩, hkey⟩)
    | counted source h hother hfirst =>
      exact .inl (.inl ⟨source, (hasked source).mpr h, f, .inr ⟨hother, hfirst⟩, hkey⟩)
    | summed source column h hfirst => exact .inl (.inr ⟨f, source, column, h, hfirst, hkey⟩)
    | averaged source column h hfirst => exact .inr ⟨f, source, column, h, hfirst, hkey⟩

theorem mem_defaultAggregates {f : Field} : f ∈ r.chosenAggregates none ↔
    f ∈ r.fields ∧ ∃ declared, f.body = .aggregate declared ∧ declared.isDefault = true := by
  simp only [chosenAggregates, aggregates, List.mem_filter, aggregate?_any]
  constructor
  · rintro ⟨⟨hf, -⟩, hdefault⟩
    exact ⟨hf, hdefault⟩
  · rintro ⟨hf, declared, hbody, hdefault⟩
    refine ⟨⟨hf, ?_⟩, declared, hbody, hdefault⟩
    simp [Field.isAggregate, Field.aggregate?, hbody]

theorem mem_namedAggregates (hnames : r.names.Nodup) {aliases : List String} {f : Field} :
    f ∈ r.chosenAggregates (some aliases) ↔
      f ∈ r.fields ∧ f.isAggregate = true ∧ f.name ∈ aliases := by
  simp only [chosenAggregates, List.mem_filter, List.mem_filterMap, get?_eq_some hnames]
  constructor
  · rintro ⟨⟨name, hname, hf, rfl⟩, haggregate⟩
    exact ⟨hf, haggregate, hname⟩
  · rintro ⟨hf, haggregate, hname⟩
    exact ⟨⟨f.name, hname, hf, rfl⟩, haggregate⟩

theorem mem_chosenAggregates (hnames : r.names.Nodup) {aliases : List String}
    (h : r.requestedAggregates q = some aliases) {f : Field} :
    f ∈ r.chosenAggregates (some aliases) ↔ r.SelectsAggregate q f := by
  rw [mem_namedAggregates hnames, mem_requestedAggregates hnames h]
  constructor
  · rintro ⟨hf, -, g, hselects, hname⟩
    rw [eq_of_name hnames hf hselects.mem hname.symm]
    exact hselects
  · intro hselects
    exact ⟨hselects.mem, hselects.isAggregate, f, hselects, rfl⟩

end ResourceSchema

theorem nodup_keys_rootAggregates (fields : List Field) : (rootAggregates fields).keys.Nodup := by
  apply Entries.nodup_keys_sorted
  apply Entries.nodup_keys_foldl_setIfAbsent
  exact List.nodup_nil

theorem pairwise_keys_rootAggregates (fields : List Field) :
    (rootAggregates fields).keys.Pairwise (· < ·) := by
  apply Entries.pairwise_keys_sorted
  apply Entries.nodup_keys_foldl_setIfAbsent
  exact List.nodup_nil

theorem mem_rootAggregates_iff {fields : List Field}
    (hapart : ∀ f ∈ fields, ∀ g ∈ fields, f.name = g.name → f = g) {key : String}
    {a : AggregateLoad} : (key, a) ∈ rootAggregates fields ↔
      ∃ f ∈ fields, f.name = key ∧ ∃ declared, f.body = .aggregate declared ∧
        a = declared.load "" := by
  let loads : Entries AggregateLoad :=
    fields.filterMap fun f => f.aggregate?.map fun declared => (f.name, declared.load "")
  have hloads (k : String) (b : AggregateLoad) : (k, b) ∈ loads ↔
      ∃ f ∈ fields, f.name = k ∧ ∃ declared, f.body = .aggregate declared ∧
        b = declared.load "" := by
    simp only [loads, List.mem_filterMap, Option.map_eq_some_iff, Field.aggregate?_eq_some]
    constructor
    · rintro ⟨f, hf, declared, hbody, hload⟩
      obtain ⟨rfl, rfl⟩ := Prod.mk.inj hload
      exact ⟨f, hf, rfl, declared, hbody, rfl⟩
    · rintro ⟨f, hf, rfl, declared, hbody, rfl⟩
      exact ⟨f, hf, declared, hbody, rfl⟩
  have hunique : ∀ b c, (key, b) ∈ loads → (key, c) ∈ loads → b = c := by
    intro b c hb hc
    obtain ⟨f, hf, hfname, declared, hfbody, rfl⟩ := (hloads key b).mp hb
    obtain ⟨g, hg, hgname, declared', hgbody, rfl⟩ := (hloads key c).mp hc
    obtain rfl := hapart f hf g hg (hfname.trans hgname.symm)
    obtain rfl := FieldBody.aggregate.inj (hfbody.symm.trans hgbody)
    rfl
  have hnodup : (loads.foldl (fun es e => Entries.setIfAbsent e.1 e.2 es) []).keys.Nodup :=
    Entries.nodup_keys_foldl_setIfAbsent loads List.nodup_nil
  rw [← hloads, ← Entries.get?_eq_some_of_unique hunique,
    ← Entries.get?_eq_some (nodup_keys_rootAggregates fields)]
  change (Entries.sorted _).get? key = _ ↔ _
  rw [Entries.get?_sorted hnodup, Entries.get?_foldl_setIfAbsent]
  rfl

namespace Query

variable {q q' : Query} {type : String}

theorem AsksAlike.symm (h : q.AsksAlike q' type) : q'.AsksAlike q type where
  any := h.any.symm
  counts name := (h.counts name).symm
  sums source column := (h.sums source column).symm
  averages source column := (h.averages source column).symm

end Query

theorem ResourceSchema.SelectsAggregate.congr {r : ResourceSchema} {q q' : Query}
    (h : q.AsksAlike q' r.type) {f : Field} (hf : r.SelectsAggregate q f) :
    r.SelectsAggregate q' f := by
  cases hf with
  | named hf hcount hname => exact .named hf hcount ((h.counts f.name).mp hname)
  | counted source hname hother hfirst =>
    exact .counted source ((h.counts source).mp hname) hother hfirst
  | summed source column hname hfirst =>
    exact .summed source column ((h.sums source column).mp hname) hfirst
  | averaged source column hname hfirst =>
    exact .averaged source column ((h.averages source column).mp hname) hfirst

namespace Service

variable {s s' : Service} {q q' : Query} {r : ResourceSchema}

theorem nodup_keys_loadAggregates (s : Service) (r : ResourceSchema)
    (aliases : Option (List String)) : (s.loadAggregates r aliases).keys.Nodup :=
  nodup_keys_rootAggregates _

theorem pairwise_keys_loadAggregates (s : Service) (r : ResourceSchema)
    (aliases : Option (List String)) : (s.loadAggregates r aliases).keys.Pairwise (· < ·) :=
  pairwise_keys_rootAggregates _

theorem mem_loadAggregates_of_defaults (hnames : r.names.Nodup)
    (hnone : s.requestedAggregates r = none) {key : String} {a : AggregateLoad} :
    (key, a) ∈ s.loadAggregates r none ↔ ∃ f ∈ r.fields, f.name = key ∧
      ∃ declared, f.body = .aggregate declared ∧ declared.isDefault = true ∧
        a = declared.load "" := by
  have hloads : s.loadAggregates r none = rootAggregates (r.chosenAggregates none) := by
    simp [loadAggregates, hnone]
  rw [hloads, mem_rootAggregates_iff]
  · simp only [ResourceSchema.mem_defaultAggregates]
    constructor
    · rintro ⟨f, ⟨hf, declared, hbody, hdefault⟩, hname, declared', hbody', hload⟩
      obtain rfl := FieldBody.aggregate.inj (hbody.symm.trans hbody')
      exact ⟨f, hf, hname, declared, hbody, hdefault, hload⟩
    · rintro ⟨f, hf, hname, declared, hbody, hdefault, hload⟩
      exact ⟨f, ⟨hf, declared, hbody, hdefault⟩, hname, declared, hbody, hload⟩
  · intro f hf g hg
    rw [ResourceSchema.mem_defaultAggregates] at hf hg
    exact ResourceSchema.eq_of_name hnames hf.1 hg.1

theorem mem_loadAggregates_of_request (hnames : r.names.Nodup) (hquery : s.query = some q)
    (hasks : q.AsksAggregates r.type) {key : String} {a : AggregateLoad} :
    (key, a) ∈ s.loadAggregates r none ↔ ∃ f, r.SelectsAggregate q f ∧ f.name = key ∧
      ∃ declared, f.body = .aggregate declared ∧ a = declared.load "" := by
  obtain ⟨aliases, haliases⟩ : ∃ aliases, r.requestedAggregates q = some aliases := by
    cases haliases : r.requestedAggregates q with
    | none => exact absurd hasks (ResourceSchema.requestedAggregates_eq_none.mp haliases)
    | some aliases => exact ⟨aliases, rfl⟩
  have hloads : s.loadAggregates r none = rootAggregates (r.chosenAggregates (some aliases)) := by
    simp [loadAggregates, requestedAggregates, hquery, haliases]
  rw [hloads, mem_rootAggregates_iff]
  · simp only [ResourceSchema.mem_chosenAggregates hnames haliases]
  · intro f hf g hg
    rw [ResourceSchema.mem_chosenAggregates hnames haliases] at hf hg
    exact ResourceSchema.eq_of_name hnames hf.mem hg.mem

/-- The root aggregates under a query are the defaults if it asks for no aggregates of the
resource, and else those it selects, each as it is declared, in the order of their aliases. Queries
that ask alike get the same. -/
theorem loads_selected_aggregates (hnames : r.names.Nodup) (hquery : s.query = some q) :
    (s.loadAggregates r none).keys.Pairwise (· < ·) ∧
    (¬ q.AsksAggregates r.type → ∀ key a, (key, a) ∈ s.loadAggregates r none ↔
      ∃ f ∈ r.fields, f.name = key ∧
        ∃ declared, f.body = .aggregate declared ∧ declared.isDefault = true ∧
          a = declared.load "") ∧
    (q.AsksAggregates r.type → ∀ key a, (key, a) ∈ s.loadAggregates r none ↔
      ∃ f, r.SelectsAggregate q f ∧ f.name = key ∧
        ∃ declared, f.body = .aggregate declared ∧ a = declared.load "") ∧
    ∀ (s' : Service) (q' : Query), s'.query = some q' → q.AsksAlike q' r.type →
      s'.loadAggregates r none = s.loadAggregates r none := by
  have hdefaults {t : Service} {p : Query} (ht : t.query = some p)
      (hnone : ¬ p.AsksAggregates r.type) : t.requestedAggregates r = none := by
    simpa [requestedAggregates, ht] using ResourceSchema.requestedAggregates_eq_none.mpr hnone
  refine ⟨s.pairwise_keys_loadAggregates r none, ?_, ?_, ?_⟩
  · intro hnone key a
    exact mem_loadAggregates_of_defaults hnames (hdefaults hquery hnone)
  · intro hasks key a
    exact mem_loadAggregates_of_request hnames hquery hasks
  · intro s' q' hquery' halike
    apply Entries.eq_of_mem (s'.pairwise_keys_loadAggregates r none)
      (s.pairwise_keys_loadAggregates r none)
    rintro ⟨key, a⟩
    by_cases hasks : q.AsksAggregates r.type
    · rw [mem_loadAggregates_of_request hnames hquery hasks,
        mem_loadAggregates_of_request hnames hquery' (halike.any.mp hasks)]
      constructor
      · rintro ⟨f, hselects, hload⟩
        exact ⟨f, hselects.congr halike.symm, hload⟩
      · rintro ⟨f, hselects, hload⟩
        exact ⟨f, hselects.congr halike, hload⟩
    · have hasks' : ¬ q'.AsksAggregates r.type := fun h => hasks (halike.any.mpr h)
      rw [mem_loadAggregates_of_defaults hnames (hdefaults hquery hasks),
        mem_loadAggregates_of_defaults hnames (hdefaults hquery' hasks')]

end Service

namespace Customers

def customer : ResourceSchema where
  type := "customer"
  fields := [⟨"ordersCount", .aggregate ⟨.count, "orders", none, true, none⟩, []⟩,
    ⟨"orders", .aggregate ⟨.sum, "orders", some "total", false, none⟩, []⟩,
    ⟨"visits", .aggregate ⟨.count, "orders", none, false, some "open"⟩, []⟩,
    ⟨"visitsCount", .aggregate ⟨.count, "visits", none, false, none⟩, []⟩]
  defaults := []
  fixed := []
  model := none

def query (counts : List String) (columns : List String) : Query where
  resource := some "customer"
  fields := []
  counts := [(primary, counts)]
  sums := [("customer", [("orders", columns)])]
  averages := []
  filters := none
  order := []
  pagination := .offset 25 1

def isOpen : Constraint := .comparing "state" .equal (.text "open")

def service (counts columns : List String) : Service where
  catalog := ⟨⟨[customer], [], [("open", isOpen)], true⟩, rfl, by decide⟩
  settings := default
  query := some (query counts columns)

private theorem asksCount_iff {counts columns : List String} {name : String} :
    (query counts columns).AsksCount "customer" name ↔ name ∈ counts := by
  have hgiven : (query counts columns).countsFor "customer" = some counts := rfl
  simp [Query.AsksCount, hgiven]

private theorem names_sums_iff {counts columns : List String} {source column : String} :
    Query.Names ((query counts columns).sumsFor "customer") source column ↔
      source = "orders" ∧ column ∈ columns := by
  have hgiven : (query counts columns).sumsFor "customer" = some [("orders", columns)] := rfl
  simp [Query.Names, hgiven, and_assoc]

theorem alike {counts counts' columns columns' : List String}
    (hcounts : ∀ name, name ∈ counts ↔ name ∈ counts')
    (hcolumns : ∀ name, name ∈ columns ↔ name ∈ columns') :
    (query counts columns).AsksAlike (query counts' columns') "customer" where
  any := ⟨fun _ => .inl nofun, fun _ => .inl nofun⟩
  counts name := by
    rw [asksCount_iff, asksCount_iff]
    exact hcounts name
  sums source column := by
    rw [names_sums_iff, names_sums_iff, hcolumns]
  averages source column := Iff.rfl

/-- The orders are counted by the first count over them, the visits by the count of that name; the
sum of the tax is not declared. -/
theorem selected_aggregates :
    customer.names.Nodup ∧
    (service ["orders", "visits"] ["total", "tax"]).query =
      some (query ["orders", "visits"] ["total", "tax"]) ∧
    (query ["orders", "visits"] ["total", "tax"]).AsksAggregates "customer" ∧
    ("ordersCount", ⟨"orders", .count, none, none, ""⟩) ∈
      (service ["orders", "visits"] ["total", "tax"]).loadAggregates customer none ∧
    (service ["visits", "orders", "visits"] ["tax", "total"]).loadAggregates customer none =
      (service ["orders", "visits"] ["total", "tax"]).loadAggregates customer none := by
  have hnames : customer.names.Nodup := by decide
  have hasks : (query ["orders", "visits"] ["total", "tax"]).AsksAggregates "customer" :=
    .inl nofun
  obtain ⟨-, -, hselected, hsame⟩ := Service.loads_selected_aggregates hnames
    (s := service ["orders", "visits"] ["total", "tax"]) rfl
  refine ⟨hnames, rfl, hasks, ?_, ?_⟩
  · apply (hselected hasks _ _).mpr
    have hfirst : customer.DeclaresFirst .count "orders" none
        ⟨"ordersCount", .aggregate ⟨.count, "orders", none, true, none⟩, []⟩ :=
      ⟨[], _, rfl, ⟨_, rfl, rfl, rfl, rfl⟩, nofun⟩
    refine ⟨_, .counted "orders" ⟨_, rfl, by decide⟩ ?_ hfirst, rfl, _, rfl, rfl⟩
    intro g hg hname
    have hsum : g.body = .aggregate ⟨.sum, "orders", some "total", false, none⟩ := by
      revert g
      decide
    rintro ⟨a, hbody, hkind⟩
    obtain rfl := FieldBody.aggregate.inj (hsum.symm.trans hbody)
    cases hkind
  · apply hsame _ _ rfl
    apply alike
    · grind
    · grind

/-- The orders are counted by their totals. -/
def totals : ResourceDeclaration where
  identity := ⟨"CustomerResource", none⟩
  fields := some [⟨.aggregate .count (some "total") false none, "orders", none, []⟩]
  excluded := []
  defaults := some []
  fixed := []
  model := none

def byTotal : ResourceSchema where
  type := "customer"
  fields := [⟨"ordersCountTotal", .aggregate ⟨.count, "orders", some "total", false, none⟩, []⟩]
  defaults := []
  fixed := []
  model := none

/-- A resource whose type is the scope of what is asked for without one. -/
def starred : ResourceSchema where
  type := primary
  fields := [⟨"ordersCount", .aggregate ⟨.count, "orders", none, false, none⟩, []⟩,
    ⟨"visitsCount", .aggregate ⟨.count, "visits", none, true, none⟩, []⟩]
  defaults := []
  fixed := []
  model := none

def serving (r : ResourceSchema) (h : (Registry.mk [r] [] [] true).faults = []) : Service :=
  ⟨⟨⟨[r], [], [], true⟩, rfl, h⟩, default, some (query ["orders"] [])⟩

/-- A count with a column is not found by its relationship. Counts that are asked for of customers
are selected of a resource that has the type `primary`. -/
theorem selected_otherwise :
    (totals.schema = .ok byTotal ∧
      (query ["orders"] []).AsksCount byTotal.type "orders" ∧
      (∀ g ∈ byTotal.fields, g.name = "orders" → ¬ g.IsCount) ∧
      (∃ f, byTotal.fields = [f] ∧ f.Aggregates .count "orders" (some "total")) ∧
      (serving byTotal (by decide)).loadAggregates byTotal none = []) ∧
    (query ["orders"] []).resource = some "customer" ∧ starred.type ≠ "customer" ∧
      (query ["orders"] []).counts = [(primary, ["orders"])] ∧
      (serving starred (by decide)).loadAggregates starred none =
        [("ordersCount", ⟨"orders", .count, none, none, ""⟩)] := by
  have hone (e : String × AggregateLoad) : Entries.sorted [e] = [e] := List.mergeSort_singleton e
  refine ⟨⟨by decide, ⟨_, rfl, by decide⟩, ?_, ⟨_, rfl, _, rfl, rfl, rfl, rfl⟩, ?_⟩, rfl, by decide,
    rfl, hone _⟩
  · intro g hg hname
    obtain rfl := List.mem_singleton.mp hg
    exact absurd hname (by decide)
  · exact List.mergeSort_nil

end Customers
end FieldPlan
