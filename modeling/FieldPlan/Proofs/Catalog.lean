import FieldPlan.Registry
/-!
# Catalogs: look-ups and references
-/
namespace FieldPlan

namespace Catalog

variable {c : Catalog} {t : String} {r : ResourceSchema}

theorem type_of_find? (h : c.find? t = some r) : r.type = t := by
  simpa using List.find?_some h

theorem mem_types_of_find? (h : c.find? t = some r) : t ∈ c.types := by
  rw [← type_of_find? h]
  exact List.mem_map_of_mem (List.mem_of_find?_eq_some h)

theorem exists_of_mem_types (h : t ∈ c.types) : ∃ r, c.find? t = some r := by
  obtain ⟨s, hs, rfl⟩ := List.mem_map.mp h
  have hfound : (c.find? s.type).isSome := List.find?_isSome.mpr ⟨s, hs, by simp⟩
  exact Option.isSome_iff_exists.mp hfound

theorem find?_of_schemaOf {ref : ResourceRef} (h : c.schemaOf ref = .ok r) :
    c.find? r.type = some r := by
  cases htype : ref.type with
  | error e =>
    rw [schemaOf, htype] at h
    cases h
  | ok t =>
    rw [schemaOf, htype] at h
    change c.schema t = .ok r at h
    unfold schema at h
    cases hfind : c.find? t with
    | none => rw [hfind] at h; cases h
    | some s =>
      rw [hfind] at h
      obtain rfl := Except.ok.inj h
      rw [type_of_find? hfind, hfind]

theorem schema_of_find? (h : c.find? t = some r) : c.schema t = .ok r := by
  rw [schema, h]

theorem target_mem_types (hr : c.find? t = some r) {f : Field} (hf : f ∈ r.fields)
    {rel : RelationField} (hbody : f.body = .relation rel) {target : String}
    (htarget : rel.target = some target) : target ∈ c.types := by
  have hfaults := c.faults_eq_nil
  simp only [Registry.faults, Registry.referenceFaults, List.flatMap_eq_nil_iff,
    List.map_eq_nil_iff] at hfaults
  have hproblems := hfaults r (List.mem_of_find?_eq_some hr) f hf
  simp only [Registry.fieldProblems, hbody, Registry.relationProblems, htarget,
    List.append_eq_nil_iff] at hproblems
  have hproblem := hproblems.2
  cases hfind : c.registry.schemas.find? (·.type == target) with
  | none =>
    rw [hfind] at hproblem
    cases hproblem
  | some s => exact mem_types_of_find? hfind

end Catalog
end FieldPlan
