import FieldPlan.Proofs.Entries
import FieldPlan.Query.Basic
/-!
# Scopes of a query

What a query asks of a type can be looked up by the type, or in the list of all scopes. Only the
empty type and the word for the primary scope tell the two apart.
-/
namespace FieldPlan.Query

private theorem get?_typed (q : Query) {type : String} (h : type ≠ primary) :
    ((Entries.ofList q.fields).erase primary).get? type = (Entries.ofList q.fields).get? type := by
  rw [Entries.get?_erase, if_neg h]

theorem get?_scopedFields (q : Query) {type : String} (hempty : type ≠ "")
    (hprimary : type ≠ primary) : q.scopedFields.get? type = q.fieldsFor type := by
  have htyped := q.get?_typed hprimary
  simp only [scopedFields, fieldsFor, atScope]
  cases hresource : q.resource.filter (· != "") with
  | none =>
    have hother : q.resource ≠ some type := by
      intro h
      rw [h] at hresource
      simp [Option.filter_some, hempty] at hresource
    simp only [htyped, hother, if_false]
    cases (Entries.ofList q.fields).get? type <;> rfl
  | some scope =>
    have hscope : q.resource = some scope := (Option.filter_eq_some_iff.mp hresource).1
    cases hnames : (Entries.ofList q.fields).get? primary with
    | none =>
      simp only [htyped, ite_self]
      cases (Entries.ofList q.fields).get? type <;> rfl
    | some names =>
      simp only [hscope, Option.some.injEq]
      by_cases htype : scope = type
      · subst htype
        cases hlast : (Entries.ofList q.fields).get? scope with
        | none => simp [htyped, hlast, Entries.get?_append, Entries.get?_cons]
        | some given => simp [htyped, hlast]
      · have hne : type ≠ scope := fun h => htype h.symm
        have hsame : (if (((Entries.ofList q.fields).erase primary).get? scope).isSome then
            (Entries.ofList q.fields).erase primary
          else (Entries.ofList q.fields).erase primary ++ [(scope, names)]).get? type =
            (Entries.ofList q.fields).get? type := by
          split
          · exact htyped
          · rw [Entries.get?_append, htyped, Entries.get?_cons, if_neg hne]
            cases (Entries.ofList q.fields).get? type <;> rfl
        rw [hsame, if_neg htype]
        cases (Entries.ofList q.fields).get? type <;> rfl

theorem nodup_keys_scopedFields (q : Query) : q.scopedFields.keys.Nodup := by
  have htyped : ((Entries.ofList q.fields).erase primary).keys.Nodup :=
    Entries.nodup_keys_erase (Entries.nodup_keys_ofList q.fields) primary
  simp only [scopedFields]
  split
  · next scope names _ _ =>
    split
    · exact htyped
    · next habsent =>
      have hnew : scope ∉ ((Entries.ofList q.fields).erase primary).keys := by
        rw [← Entries.get?_eq_none]
        simpa using habsent
      rw [Entries.keys, List.map_append, List.nodup_append]
      refine ⟨htyped, by simp, ?_⟩
      intro a ha b hb hab
      simp only [List.map_cons, List.map_nil, List.mem_singleton] at hb
      exact hnew (hb ▸ hab ▸ ha)
  · exact htyped

end FieldPlan.Query
