import FieldPlan.Registry
/-!
# Sound references

Building a registry looks for faults in its schemas. It finds none exactly where every reference
leads somewhere.
-/
namespace FieldPlan.Registry

/-- Every reference of a schema leads somewhere. -/
structure Sound (r : Registry) : Prop where
  target : ∀ s ∈ r.schemas, ∀ f ∈ s.fields, ∀ rel, f.body = .relation rel →
    ∀ t, rel.target = some t → t ∈ r.types
  /-- fields are pinned only where there is a target, and it declares them -/
  pinned : ∀ s ∈ r.schemas, ∀ f ∈ s.fields, ∀ rel, f.body = .relation rel →
    ∀ name ∈ rel.pinned.getD [], ∃ t target, rel.target = some t ∧ r.find? t = some target ∧
      target.declares name = true
  constraint : ∀ s ∈ r.schemas, ∀ f ∈ s.fields, ∀ name, f.constraint? = some name → name ≠ "" →
    name ∈ r.constraints.map (·.1)
  column : ∀ s ∈ r.schemas, ∀ f ∈ s.fields, ∀ a, f.body = .aggregate a → a.kind ≠ .count →
    ∃ column, a.column = some column ∧ column ≠ ""

theorem find?_isSome_iff {r : Registry} {t : String} : (r.find? t).isSome ↔ t ∈ r.types := by
  rw [find?, List.find?_isSome, types, List.mem_map]
  simp

section Faults

variable {schemas : List ResourceSchema}

theorem relationProblems_eq_nil {rel : RelationField} :
    relationProblems schemas rel = [] ↔
      (∀ t, rel.target = some t → ∃ s, schemas.find? (·.type == t) = some s) ∧
      ∀ name ∈ rel.pinned.getD [], ∃ t target, rel.target = some t ∧
        schemas.find? (·.type == t) = some target ∧ target.declares name = true := by
  unfold relationProblems
  cases htarget : rel.target with
  | none =>
    cases hpinned : rel.pinned.getD [] with
    | nil => simp
    | cons name names => simpa using ⟨name, fun h => absurd rfl h⟩
  | some t =>
    cases hfind : schemas.find? (·.type == t) with
    | none => simp [hfind]
    | some target => simp [hfind]

theorem constraintProblems_eq_nil {constraints : List String} {f : Field} :
    (((f.constraint?.filter (· != "")).toList.filter (!constraints.contains ·)).map
        ReferenceProblem.unknownConstraint) = [] ↔
      ∀ name, f.constraint? = some name → name ≠ "" → name ∈ constraints := by
  cases f.constraint? with
  | none => simp
  | some name =>
    by_cases hname : name = ""
    · simp [hname, Option.filter]
    · simp [hname, Option.filter]

theorem columnProblems_eq_nil {a : AggregateField} :
    (if a.kind != .count && (a.column.getD "").isEmpty then
        [ReferenceProblem.missingColumn a.kind] else []) = [] ↔
      (a.kind ≠ .count → ∃ column, a.column = some column ∧ column ≠ "") := by
  by_cases hkind : a.kind = .count
  · simp [hkind]
  · cases hcolumn : a.column with
    | none => simp [hkind]
    | some column => simp [hkind]

theorem fieldProblems_eq_nil {constraints : List String} {f : Field} :
    fieldProblems schemas constraints f = [] ↔
      (∀ name, f.constraint? = some name → name ≠ "" → name ∈ constraints) ∧
      (∀ rel, f.body = .relation rel → relationProblems schemas rel = []) ∧
      (∀ a, f.body = .aggregate a → a.kind ≠ .count →
        ∃ column, a.column = some column ∧ column ≠ "") := by
  unfold fieldProblems
  rw [List.append_eq_nil_iff]
  refine and_congr constraintProblems_eq_nil ?_
  cases hbody : f.body with
  | relation rel => simp
  | aggregate a => simpa using columnProblems_eq_nil
  | _ => simp

/-- Nothing is at fault exactly where every reference leads somewhere. -/
theorem faults_eq_nil_iff {r : Registry} : r.faults = [] ↔ r.Sound := by
  have hfields : r.faults = [] ↔ ∀ s ∈ r.schemas, ∀ f ∈ s.fields,
      fieldProblems r.schemas (r.constraints.map (·.1)) f = [] := by
    simp only [faults, referenceFaults, List.flatMap_eq_nil_iff, List.map_eq_nil_iff]
  have htypes {t : String} :
      t ∈ r.types ↔ ∃ s, r.schemas.find? (·.type == t) = some s := by
    rw [← find?_isSome_iff, Option.isSome_iff_exists]
    rfl
  rw [hfields]
  constructor
  · intro h
    have hfield s hs f hf := fieldProblems_eq_nil.mp (h s hs f hf)
    exact
      { target := fun s hs f hf rel hbody t ht => htypes.mpr <|
          (relationProblems_eq_nil.mp ((hfield s hs f hf).2.1 rel hbody)).1 t ht
        pinned := fun s hs f hf rel hbody =>
          (relationProblems_eq_nil.mp ((hfield s hs f hf).2.1 rel hbody)).2
        constraint := fun s hs f hf => (hfield s hs f hf).1
        column := fun s hs f hf => (hfield s hs f hf).2.2 }
  · intro h s hs f hf
    have hcolumn := h.column s hs f hf
    refine fieldProblems_eq_nil.mpr ⟨h.constraint s hs f hf, fun rel hbody => ?_, hcolumn⟩
    refine relationProblems_eq_nil.mpr ⟨fun t ht => ?_, h.pinned s hs f hf rel hbody⟩
    exact htypes.mp (h.target s hs f hf rel hbody t ht)

end Faults

end FieldPlan.Registry
