import FieldPlan.Schema
/-!
# Schemas from declarations

A schema that is built has distinct field names, and its defaults are fields of it that are not
aggregates.
-/
namespace FieldPlan.ResourceSchema

theorem nodup_distinctFields (type : String) {seen : List Field} (h : (seen.map (·.name)).Nodup)
    (declared : List Field) : ((distinctFields type seen declared).1.map (·.name)).Nodup := by
  induction declared generalizing seen with
  | nil =>
    rw [distinctFields, List.map_reverse]
    exact (List.reverse_perm _).nodup_iff.mpr h
  | cons f rest ih =>
    unfold distinctFields
    by_cases hseen : seen.any (·.name == f.name) = true
    · rw [if_pos hseen]
      exact ih h
    · rw [if_neg hseen]
      refine ih (List.nodup_cons.mpr ⟨fun hmem => hseen ?_, h⟩)
      obtain ⟨g, hg, hname⟩ := List.mem_map.mp hmem
      exact List.any_eq_true.mpr ⟨g, hg, beq_iff_eq.mpr hname⟩

variable {type : String} {declared : List Field} {defaults : Option (List String)}
  {fixed : List String} {model : Option String} {s : ResourceSchema}

theorem of_build (h : build type declared defaults fixed model = .ok s) :
    s.fields = (distinctFields type [] declared).1 ∧
      s.defaults.filterMap (defaultFault? type s.fields) = [] := by
  have hchecked {names : List String} {faults : List SchemaFault}
      (hfaults : faults = (distinctFields type [] declared).2 ++
        names.filterMap (defaultFault? type (distinctFields type [] declared).1))
      (h : (if faults.isEmpty then
          .ok ⟨type, (distinctFields type [] declared).1, names, unique fixed, model⟩
        else .error faults) = Except.ok s) :
      s.fields = (distinctFields type [] declared).1 ∧
        s.defaults.filterMap (defaultFault? type s.fields) = [] := by
    split at h
    · next hempty =>
      obtain rfl := Except.ok.inj h
      rw [List.isEmpty_iff, hfaults] at hempty
      exact ⟨rfl, (List.append_eq_nil_iff.mp hempty).2⟩
    · cases h
  cases defaults with
  | none => exact hchecked rfl h
  | some names => exact hchecked rfl h

theorem nodup_names_of_build (h : build type declared defaults fixed model = .ok s) :
    s.names.Nodup := by
  have hnone : (([] : List Field).map (·.name)).Nodup := List.nodup_nil
  rw [names, (of_build h).1]
  exact nodup_distinctFields type hnone declared

theorem default_of_build (h : build type declared defaults fixed model = .ok s) {name : String}
    (hname : name ∈ s.defaults) : ∃ f, s.get? name = some f ∧ f.isAggregate = false := by
  have hfault := List.filterMap_eq_nil_iff.mp (of_build h).2 name hname
  unfold defaultFault? at hfault
  cases hget : s.fields.find? (·.name == name) with
  | none =>
    rw [hget] at hfault
    cases hfault
  | some f =>
    rw [hget] at hfault
    refine ⟨f, hget, ?_⟩
    cases haggregate : f.isAggregate with
    | false => rfl
    | true =>
      dsimp only at hfault
      rw [if_pos haggregate] at hfault
      cases hfault

end FieldPlan.ResourceSchema
