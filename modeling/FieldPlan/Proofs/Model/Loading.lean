import FieldPlan.Model.Loading
import FieldPlan.Proofs.Plan.Merging
import FieldPlan.Proofs.Service.Evaluation
import Mathlib.Data.List.Forall2
/-!
# What comes of applying a plan

The statement of a plan, told by what the mapping has to say: the relationships that a path follows,
the conditions that constraints put on rows, the columns of projections and aggregates. A plan is
applied if and only if all of them are there.
-/
namespace FieldPlan

open Cache

namespace Cache.Task

variable {ε ν α γ : Type}

theorem eval_bind_eq_ok {t : Task ε ν α} {f : α → Task ε ν γ} {b : γ} :
    (t >>= f).eval = .ok b ↔ ∃ a, t.eval = .ok a ∧ (f a).eval = .ok b := by
  show (t.bind f).eval = .ok b ↔ _
  rw [eval_bind]
  cases t.eval with
  | ok a => simp
  | error e => simp

theorem eval_pure_eq_ok {a b : α} : (pure a : Task ε ν α).eval = .ok b ↔ b = a :=
  ⟨fun h => (Except.ok.inj h).symm, fun h => congrArg Except.ok h.symm⟩

end Cache.Task

theorem Work.eval_modelError {α : Type} (e : ModelError) (a : α) :
    (Work.modelError e : Work α).eval ≠ .ok a :=
  fun h => nomatch h

/-- A name is a relationship of a model, which leads to a mapped model. -/
structure Mapping.Leads (mapping : Mapping) (m : Model) (name : String) (r : Relationship)
    (target : Model) : Prop where
  found : m.relationship? name = some r
  target : mapping.model? r.target = some target

/-- The condition that a constraint puts on the rows of a model; without a name there is none. -/
def Registry.Restricts (reg : Registry) (name : Option String) (target : Model)
    (c : Option Criterion) : Prop :=
  match given name with
  | none => c = none
  | some n => ∃ holds, (∃ k, reg.constraint n = .ok k ∧ k target = .ok holds) ∧ c = some holds

/-- The column that an aggregate of a kind is taken over: none for a count, else one of numbers. -/
def Model.Offers (m : Model) (kind : AggregateKind) (name : Option String)
    (c : Option Column) : Prop :=
  match kind with
  | .count => c = none
  | _ => ∃ n col, name = some n ∧ m.column? n = some col ∧ col.type.valueKind ∈ numericKinds ∧
      c = some col

theorem Model.isSome_column?_iff {m : Model} {name : String} :
    (m.column? name).isSome ↔ name ∈ m.columnNames := by
  simp [column?, columnNames, List.find?_isSome]

def LoadPlan.atRoot (p : LoadPlan) : Entries AggregateLoad :=
  p.aggregates.filter fun e => e.2.path == ""

namespace Loader

variable {l : Loader} {p : LoadPlan} {m target : Model} {name : String} {name? : Option String}

theorem eval_isRelation [Room] (l : Loader) (m : Model) (name : String) :
    (l.isRelation m name).eval = .ok (.bool (m.relationship? name).isSome) :=
  Work.eval_cachedData _ _

theorem eval_relatedModel [Room] : (l.relatedModel m name).eval = .ok target ↔
    ∃ r, l.mapping.Leads m name r target := by
  unfold relatedModel
  rw [Task.eval_bind_eq_ok]
  simp only [Work.eval_cachedData]
  constructor
  · rintro ⟨j, hj, htarget⟩
    cases hfound : m.relationship? name with
    | none =>
      rw [hfound] at hj
      exact absurd hj (Work.eval_modelError _ _)
    | some r =>
      rw [hfound] at hj
      obtain rfl := Except.ok.inj hj
      dsimp only [Json.string?, Option.bind_some] at htarget
      cases hmodel : l.mapping.model? r.target with
      | none =>
        rw [hmodel] at htarget
        exact absurd htarget (Work.eval_modelError _ _)
      | some t =>
        rw [hmodel] at htarget
        exact ⟨r, hfound, (Except.ok.inj htarget) ▸ hmodel⟩
  · rintro ⟨r, hfound, hmodel⟩
    refine ⟨.string r.target, by rw [hfound]; rfl, ?_⟩
    dsimp only [Json.string?, Option.bind_some]
    rw [hmodel]
    rfl

theorem eval_condition {n : String} {holds : Criterion} :
    (l.condition n target).eval = .ok holds ↔
      ∃ k, l.registry.constraint n = .ok k ∧ k target = .ok holds := by
  unfold condition
  rw [Task.eval_bind_eq_ok]
  simp only [Work.eval_ofResource, Work.eval_ofModel]
  cases l.registry.constraint n with
  | error e => simp [Except.mapError]
  | ok k => cases h : k target <;> simp [Except.mapError, h]

theorem eval_condition? {c : Option Criterion} : (l.condition? name? target).eval = .ok c ↔
    l.registry.Restricts name? target c := by
  unfold condition? Registry.Restricts given
  cases name?.filter (· != "") with
  | none => exact Task.eval_pure_eq_ok
  | some n =>
    show ((l.condition n target) >>= fun c => pure (some c)).eval = .ok c ↔ _
    rw [Task.eval_bind_eq_ok]
    refine exists_congr fun holds => ?_
    rw [eval_condition]
    exact and_congr_right fun _ => Task.eval_pure_eq_ok

/-- The steps of a path from a model: each segment leads on to the next model, whose rows the plan
may restrict at the path so far. -/
inductive Steps (l : Loader) (p : LoadPlan) :
    Model → List String → List String → List PathStep → Model → Prop where
  | nil {m : Model} {before : List String} : Steps l p m before [] [] m
  | cons {m : Model} {before : List String} {segment : String} {rest : List String}
      {r : Relationship} {target : Model} {condition : Option Criterion} {more : List PathStep}
      {last : Model} (hleads : l.mapping.Leads m segment r target)
      (hcondition : l.registry.Restricts
        ((p.relations.get? (".".intercalate (before ++ [segment]))).bind (·.constraint))
          target condition)
      (hmore : Steps l p target (before ++ [segment]) rest more last) :
      Steps l p m before (segment :: rest) (⟨segment, r, m, target, condition⟩ :: more) last

theorem eval_steps [Room] {path : String} {before segments : List String} {steps : List PathStep}
    {last : Model} : (l.steps p path m before segments).eval = .ok (steps, last) ↔
      l.Steps p m before segments steps last := by
  induction segments generalizing m before steps last with
  | nil =>
    rw [Loader.steps]
    constructor
    · intro h
      obtain ⟨rfl, rfl⟩ := Prod.mk.inj (Except.ok.inj h)
      exact .nil
    · intro h
      cases h
      rfl
  | cons segment rest ih =>
    rw [Loader.steps, Task.eval_bind_eq_ok]
    simp only [eval_isRelation, Except.ok.injEq, exists_eq_left']
    constructor
    · intro h
      cases hfound : m.relationship? segment with
      | none =>
        rw [hfound] at h
        exact absurd h (Work.eval_modelError _ _)
      | some r =>
        rw [hfound] at h
        change ((l.relatedModel m segment) >>= _).eval = _ at h
        obtain ⟨target, htarget, h⟩ := Task.eval_bind_eq_ok.mp h
        obtain ⟨r', hleads⟩ := eval_relatedModel.mp htarget
        obtain rfl : r = r' := Option.some.inj (hfound.symm.trans hleads.found)
        obtain ⟨condition, hcondition, h⟩ := Task.eval_bind_eq_ok.mp h
        obtain ⟨⟨more, last'⟩, hmore, h⟩ := Task.eval_bind_eq_ok.mp h
        obtain ⟨rfl, rfl⟩ := Prod.mk.inj (Except.ok.inj h)
        exact .cons hleads (eval_condition?.mp hcondition) (ih.mp hmore)
    · intro h
      cases h with
      | @cons _ _ _ _ r target condition more _ hleads hcondition hmore =>
        rw [hleads.found]
        change ((l.relatedModel m segment) >>= _).eval = _
        refine Task.eval_bind_eq_ok.mpr ⟨target, eval_relatedModel.mpr ⟨r, hleads⟩, ?_⟩
        refine Task.eval_bind_eq_ok.mpr ⟨condition, eval_condition?.mpr hcondition, ?_⟩
        exact Task.eval_bind_eq_ok.mpr ⟨_, ih.mpr hmore, rfl⟩

theorem eval_knownColumns [Room] {α : Type} (l : Loader) (m : Model) (f : List String → Work α) :
    (do f (← Work.names (← Work.members (← l.columnNames m))) : Work α).eval =
      (f m.columnNames).eval := by
  have hcolumns : (l.columnNames m).eval = .ok (Json.ofStrings m.columnNames) :=
    Work.eval_cachedData _ _
  have hmembers : Work.members (Json.ofStrings m.columnNames) =
      .pure (m.columnNames.map Json.string) := rfl
  show ((l.columnNames m).bind _).eval = _
  rw [Task.eval_bind, hcolumns]
  show ((Work.members (Json.ofStrings m.columnNames)).bind _).eval = _
  rw [hmembers]
  show ((Work.names (m.columnNames.map Json.string)).bind f).eval = _
  rw [Work.names_strings]
  rfl

theorem eval_projection [Room] {columns names : List String} : (l.projection m columns).eval = .ok names ↔
    names = columns ∧ ∀ n ∈ columns, n ∈ m.columnNames := by
  -- what is known by name is found
  have hfound (hmem : ∀ n ∈ columns, n ∈ m.columnNames) :
      columns.find? (fun n => (m.column? n).isNone) = none := by
    refine List.find?_eq_none.mpr fun n hn hnone => ?_
    have hcolumn := Model.isSome_column?_iff.mpr (hmem n hn)
    rw [Option.isNone_iff_eq_none] at hnone
    simp [hnone] at hcolumn
  unfold projection
  rw [eval_knownColumns]
  constructor
  · intro h
    by_cases hunknown : (columns.filter (!m.columnNames.contains ·)).isEmpty
    · have hmem : ∀ n ∈ columns, n ∈ m.columnNames := by
        intro n hn
        have hkept := List.filter_eq_nil_iff.mp (List.isEmpty_iff.mp hunknown) n hn
        simpa using hkept
      simp only [hunknown, Bool.not_true, Bool.false_eq_true, if_false, hfound hmem] at h
      exact ⟨(Except.ok.inj h).symm, hmem⟩
    · simp only [hunknown, Bool.not_false, if_true] at h
      exact absurd h (Work.eval_modelError _ _)
  · rintro ⟨rfl, hmem⟩
    have hnone : (names.filter (!m.columnNames.contains ·)) = [] := by
      refine List.filter_eq_nil_iff.mpr fun n hn => ?_
      simp [hmem n hn]
    simp only [hnone, List.isEmpty_nil, Bool.not_true, Bool.false_eq_true, if_false, hfound hmem]
    rfl

structure IsOption (l : Loader) (p : LoadPlan) (m : Model) (e : String × RelationLoad)
    (o : LoadOption) : Prop where
  path : o.path = e.1
  columns : o.columns = e.2.columns.getD []
  steps : ∃ last, l.Steps p m [] (Text.split '.' e.1) o.steps last ∧
    ∀ n ∈ o.columns, n ∈ last.columnNames

theorem eval_option [Room] {path : String} {load : RelationLoad} {o : LoadOption} :
    (l.option p m path load).eval = .ok o ↔ l.IsOption p m (path, load) o := by
  unfold option
  rw [Task.eval_bind_eq_ok]
  constructor
  · rintro ⟨⟨steps, last⟩, hsteps, h⟩
    dsimp only at h
    by_cases hempty : (load.columns.getD []).isEmpty
    · rw [if_pos hempty] at h
      obtain rfl := Except.ok.inj h
      refine ⟨rfl, (List.isEmpty_iff.mp hempty).symm, last, eval_steps.mp hsteps, ?_⟩
      exact fun n hn => nomatch hn
    · rw [if_neg hempty] at h
      obtain ⟨names, hnames, h⟩ := Task.eval_bind_eq_ok.mp h
      obtain rfl := Except.ok.inj h
      obtain ⟨rfl, hmem⟩ := eval_projection.mp hnames
      exact ⟨rfl, rfl, last, eval_steps.mp hsteps, hmem⟩
  · rintro ⟨hpath, hcolumns, last, hsteps, hmem⟩
    refine ⟨⟨o.steps, last⟩, eval_steps.mpr hsteps, ?_⟩
    dsimp only at hpath hcolumns ⊢
    rw [← hcolumns, ← hpath]
    by_cases hempty : o.columns.isEmpty
    · rw [if_pos hempty, ← List.isEmpty_iff.mp hempty]
      rfl
    · rw [if_neg hempty]
      exact Task.eval_bind_eq_ok.mpr ⟨o.columns, eval_projection.mpr ⟨rfl, hmem⟩, rfl⟩

theorem eval_options [Room] {loads : Entries RelationLoad} {os : List LoadOption} :
    (l.options p m loads).eval = .ok os ↔ List.Forall₂ (l.IsOption p m) loads os := by
  induction loads generalizing os with
  | nil =>
    rw [List.forall₂_nil_left_iff, options]
    exact Task.eval_pure_eq_ok
  | cons e loads ih =>
    rw [options, Task.eval_bind_eq_ok, List.forall₂_cons_left_iff]
    simp only [Task.eval_bind_eq_ok, eval_option, ih]
    constructor
    · rintro ⟨o, ho, rest, hrest, h⟩
      exact ⟨o, rest, ho, hrest, Task.eval_pure_eq_ok.mp h⟩
    · rintro ⟨o, rest, ho, hrest, h⟩
      exact ⟨o, ho, rest, hrest, Task.eval_pure_eq_ok.mpr h⟩

private theorem isNumeric_iff (kind : ValueKind) :
    (numericKinds.any fun k => some kind.name == some k.name) = true ↔ kind ∈ numericKinds := by
  cases kind <;> decide

private theorem lookup_valueKinds (m : Model) (n : String) :
    (Json.object (m.valueKinds.map fun (name, kind) => (name, Json.string kind))).get? n =
      (m.column? n).map fun c => .string c.type.valueKind.name := by
  show List.lookup n _ = _
  unfold Model.valueKinds Model.column?
  induction m.columns with
  | nil => rfl
  | cons c columns ih =>
    rw [List.map_cons, List.map_cons, List.lookup_cons, List.find?_cons, ih]
    by_cases hn : n = c.name
    · simp [hn]
    · simp [beq_eq_false_iff_ne.mpr hn, beq_eq_false_iff_ne.mpr (Ne.symm hn)]

private theorem eval_numericColumn [Room] {kind : AggregateKind} {c : Option Column} :
    (l.numericColumn kind target name?).eval = .ok c ↔
      ∃ n col, name? = some n ∧ target.column? n = some col ∧
        col.type.valueKind ∈ numericKinds ∧ c = some col := by
  let kinds := Json.object (target.valueKinds.map fun (name, kind) => (name, Json.string kind))
  have hkinds : (l.columnKinds target).eval = .ok kinds := Work.eval_cachedData _ _
  unfold numericColumn
  rw [Task.eval_bind_eq_ok]
  simp only [hkinds, Except.ok.injEq, exists_eq_left']
  cases name? with
  | none =>
    refine ⟨fun h => absurd h (Work.eval_modelError _ _), fun ⟨_, _, h, _⟩ => nomatch h⟩
  | some n =>
    have hheld : kinds.get? n = (target.column? n).map fun c => .string c.type.valueKind.name :=
      lookup_valueKinds target n
    simp only [Option.bind_some]
    change Task.eval (if (kinds.get? n).any Json.isCollection then _ else _) = _ ↔ _
    rw [hheld]
    cases hfound : target.column? n with
    | none =>
      refine ⟨fun h => absurd h (Work.eval_modelError _ _), ?_⟩
      rintro ⟨n', col, hn, hcol, -⟩
      rw [← Option.some.inj hn, hfound] at hcol
      cases hcol
    | some col =>
      have hnumeric := isNumeric_iff col.type.valueKind
      change Task.eval (if !(numericKinds.any fun k => some col.type.valueKind.name == some k.name)
        then _ else _) = _ ↔ _
      by_cases hkind : col.type.valueKind ∈ numericKinds
      · rw [hnumeric.mpr hkind]
        refine Task.eval_pure_eq_ok.trans ⟨fun h => ⟨n, col, rfl, hfound, hkind, h⟩, ?_⟩
        rintro ⟨n', col', hn, hcol, -, hc⟩
        rw [← Option.some.inj hn, hfound] at hcol
        exact Option.some.inj hcol ▸ hc
      · rw [Bool.eq_false_iff.mpr (mt hnumeric.mp hkind)]
        refine ⟨fun h => absurd h (Work.eval_modelError _ _), ?_⟩
        rintro ⟨n', col', hn, hcol, hnumbers, -⟩
        rw [← Option.some.inj hn, hfound] at hcol
        exact absurd (Option.some.inj hcol ▸ hnumbers) hkind

theorem eval_aggregatedColumn [Room] {a : AggregateLoad} {c : Option Column} :
    (l.aggregatedColumn target a).eval = .ok c ↔ target.Offers a.kind a.column c := by
  unfold aggregatedColumn Model.Offers
  cases a.kind with
  | count => exact Task.eval_pure_eq_ok
  | sum => exact eval_numericColumn
  | average => exact eval_numericColumn

structure IsAggregate (l : Loader) (m : Model) (e : String × AggregateLoad)
    (c : AggregateColumn) : Prop where
  label : c.label = e.1
  kind : c.kind = e.2.kind
  leads : l.mapping.Leads m e.2.relation c.relationship c.target
  column : c.target.Offers e.2.kind e.2.column c.column
  condition : l.registry.Restricts e.2.constraint c.target c.condition

theorem eval_aggregateColumn [Room] {label : String} {a : AggregateLoad} {c : AggregateColumn} :
    (l.aggregateColumn m label a).eval = .ok c ↔ l.IsAggregate m (label, a) c := by
  unfold aggregateColumn
  rw [Task.eval_bind_eq_ok]
  simp only [eval_isRelation, Except.ok.injEq, exists_eq_left']
  constructor
  · intro h
    cases hfound : m.relationship? a.relation with
    | none =>
      rw [hfound] at h
      exact absurd h (Work.eval_modelError _ _)
    | some r =>
      rw [hfound] at h
      change ((l.relatedModel m a.relation) >>= _).eval = _ at h
      obtain ⟨target, htarget, h⟩ := Task.eval_bind_eq_ok.mp h
      obtain ⟨r', hleads⟩ := eval_relatedModel.mp htarget
      obtain rfl : r = r' := Option.some.inj (hfound.symm.trans hleads.found)
      obtain ⟨column, hcolumn, h⟩ := Task.eval_bind_eq_ok.mp h
      obtain ⟨condition, hcondition, h⟩ := Task.eval_bind_eq_ok.mp h
      obtain rfl := Except.ok.inj h
      exact ⟨rfl, rfl, hleads, eval_aggregatedColumn.mp hcolumn, eval_condition?.mp hcondition⟩
  · rintro ⟨hlabel, hkind, hleads, hcolumn, hcondition⟩
    obtain ⟨label', kind, r, target, column, condition⟩ := c
    dsimp only at hlabel hkind hleads hcolumn hcondition
    subst hlabel hkind
    rw [hleads.found]
    change ((l.relatedModel m a.relation) >>= _).eval = _
    refine Task.eval_bind_eq_ok.mpr ⟨target, eval_relatedModel.mpr ⟨r, hleads⟩, ?_⟩
    refine Task.eval_bind_eq_ok.mpr ⟨column, eval_aggregatedColumn.mpr hcolumn, ?_⟩
    exact Task.eval_bind_eq_ok.mpr ⟨condition, eval_condition?.mpr hcondition, rfl⟩

theorem eval_aggregates [Room] {loads : Entries AggregateLoad} {cs : List AggregateColumn} :
    (l.aggregates m loads).eval = .ok cs ↔
      List.Forall₂ (l.IsAggregate m) (loads.filter fun e => e.2.path == "") cs := by
  induction loads generalizing cs with
  | nil =>
    rw [List.filter_nil, List.forall₂_nil_left_iff, aggregates]
    exact Task.eval_pure_eq_ok
  | cons e loads ih =>
    obtain ⟨label, a⟩ := e
    rw [aggregates]
    by_cases hroot : a.path = ""
    · rw [if_neg (not_not_intro hroot), List.filter_cons_of_pos (by simp [hroot]),
        Task.eval_bind_eq_ok, List.forall₂_cons_left_iff]
      simp only [Task.eval_bind_eq_ok, eval_aggregateColumn, ih]
      constructor
      · rintro ⟨c, hc, rest, hrest, h⟩
        exact ⟨c, rest, hc, hrest, Task.eval_pure_eq_ok.mp h⟩
      · rintro ⟨c, rest, hc, hrest, h⟩
        exact ⟨c, hc, rest, hrest, Task.eval_pure_eq_ok.mpr h⟩
    · rw [if_pos hroot, List.filter_cons_of_neg (by simp [hroot])]
      exact ih

/-- A plan is applied if and only if all it names is there, and then each load becomes an option and
each aggregate at the root a column. -/
theorem eval_apply [Room] {st : Statement} : (l.apply m p).eval = .ok st ↔
    ∃ options aggregates, List.Forall₂ (l.IsOption p m) p.relations options ∧
      List.Forall₂ (l.IsAggregate m) p.atRoot aggregates ∧
        st = { Statement.ofModel m with options, aggregates } := by
  unfold apply
  rw [Task.eval_bind_eq_ok]
  simp only [Task.eval_bind_eq_ok, eval_options, eval_aggregates]
  constructor
  · rintro ⟨options, hoptions, aggregates, haggregates, h⟩
    exact ⟨options, aggregates, hoptions, haggregates, Task.eval_pure_eq_ok.mp h⟩
  · rintro ⟨options, aggregates, hoptions, haggregates, h⟩
    exact ⟨options, hoptions, aggregates, haggregates, Task.eval_pure_eq_ok.mpr h⟩

end Loader
end FieldPlan
