import FieldPlan.Proofs.Entries
import FieldPlan.Query.Basic
/-!
# Lookups in a query

What is looked up for a type is stored under the type or under `primary`, and depends on the stored
entries only through what is found under each of their keys.
-/
namespace FieldPlan

/-- The same is found under each key. -/
def Entries.Same {α : Type} (entries others : Entries α) : Prop :=
  ∀ key, entries.get? key = others.get? key

variable {α : Type} {resource : Option String} {entries others : Entries α} {type : String} {a : α}

theorem atScope_eq (resource : Option String) (entries : Entries α) (type : String) :
    atScope resource entries type = ((Entries.ofList entries).get? type).or
      (if resource = some type then (Entries.ofList entries).get? primary else none) := by
  simp only [atScope]
  cases (Entries.ofList entries).get? type <;> rfl

theorem exists_mem_of_atScope (h : atScope resource entries type = some a) :
    ∃ e ∈ entries, e.2 = a := by
  have hmem {key : String} (hget : (Entries.ofList entries).get? key = some a) :
      ∃ e ∈ entries, e.2 = a := ⟨(key, a), Entries.mem_ofList (Entries.mem_of_get? hget), rfl⟩
  rw [atScope_eq, Option.or_eq_some_iff] at h
  rcases h with hget | ⟨-, hget⟩
  · exact hmem hget
  · split at hget
    · exact hmem hget
    · cases hget

theorem atScope_congr (hkeys : entries.keys.Nodup) (hkeys' : others.keys.Nodup)
    (h : entries.Same others) (resource : Option String) (type : String) :
    atScope resource entries type = atScope resource others type := by
  rw [atScope_eq, atScope_eq, Entries.ofList_of_nodup hkeys, Entries.ofList_of_nodup hkeys',
    h type, h primary]

/-- If what is found under each key is related, so is what is found for a type. -/
theorem atScope_rel {R : α → α → Prop} (hkeys : entries.keys.Nodup) (hkeys' : others.keys.Nodup)
    (h : ∀ key, Option.Rel R (entries.get? key) (others.get? key)) (resource : Option String)
    (type : String) :
    Option.Rel R (atScope resource entries type) (atScope resource others type) := by
  have hor {o o' p p' : Option α} (ho : Option.Rel R o o') (hp : Option.Rel R p p') :
      Option.Rel R (o.or p) (o'.or p') := by
    cases ho with
    | none => exact hp
    | some hab => exact .some hab
  rw [atScope_eq, atScope_eq, Entries.ofList_of_nodup hkeys, Entries.ofList_of_nodup hkeys']
  refine hor (h type) ?_
  split
  · exact h primary
  · exact .none

namespace Query

theorem get?_scopedFields_congr {q q' : Query} (hkeys : q.fields.keys.Nodup)
    (hkeys' : q'.fields.keys.Nodup) (hresource : q.resource = q'.resource)
    (h : q.fields.Same q'.fields) : q.scopedFields.Same q'.scopedFields := by
  intro type
  have htyped : (q.fields.erase primary).Same (q'.fields.erase primary) := by
    intro key
    rw [Entries.get?_erase, Entries.get?_erase, h key]
  simp only [scopedFields, Entries.ofList_of_nodup hkeys, Entries.ofList_of_nodup hkeys', hresource,
    h primary]
  split
  · next scope names _ _ =>
    rw [htyped scope]
    split
    · exact htyped type
    · rw [Entries.get?_append, Entries.get?_append, htyped type]
  · exact htyped type

/-- The same is looked up in both, and they are paged, filtered and ordered in the same way. -/
structure SameLookups (q q' : Query) : Prop where
  fieldsFor : ∀ type, q.fieldsFor type = q'.fieldsFor type
  countsFor : ∀ type, q.countsFor type = q'.countsFor type
  sumsFor : ∀ type, Option.Rel Entries.Same (q.sumsFor type) (q'.sumsFor type)
  averagesFor : ∀ type, Option.Rel Entries.Same (q.averagesFor type) (q'.averagesFor type)
  scopedFields : q.scopedFields.Same q'.scopedFields
  resource : q.resource = q'.resource
  filters : q.filters = q'.filters
  order : q.order = q'.order
  pagination : q.pagination = q'.pagination

end Query
end FieldPlan
