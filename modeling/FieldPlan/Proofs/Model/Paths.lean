import FieldPlan.Proofs.Model.Loading
import FieldPlan.Proofs.Plan.Aggregates
import FieldPlan.Proofs.Text
/-!
# Paths through models

A path is the names of relationships with dots between them. Followed from a model, it leads to
another one; a path that goes on below another path leads on from where that one ends.
-/
namespace FieldPlan

namespace Text

theorem split_intercalate {names : List String} (hne : names ≠ [])
    (h : ∀ n ∈ names, '.' ∉ n.toList) : split '.' (".".intercalate names) = names := by
  have hchars : splitChars '.' (List.intercalate ['.'] (names.map String.toList)) =
      names.map String.toList := by
    induction names with
    | nil => exact absurd rfl hne
    | cons n names ih =>
      cases names with
      | nil => simpa using splitChars_of_notMem (h n List.mem_cons_self)
      | cons n' names =>
        have hrest := ih (by simp) fun k hk => h k (List.mem_cons_of_mem n hk)
        have hfirst := splitChars_of_notMem (h n List.mem_cons_self)
        have hjoin : List.intercalate ['.'] ((n :: n' :: names).map String.toList) =
            n.toList ++ '.' :: List.intercalate ['.'] ((n' :: names).map String.toList) := by
          simp [List.intercalate]
        rw [hjoin, splitChars_append, hrest, hfirst]
        rfl
  rw [split, String.toList_intercalate]
  show (splitChars '.' (List.intercalate ['.'] (names.map String.toList))).map String.ofList = names
  rw [hchars, List.map_map]
  simp

end Text

def segments (path : String) : List String := if path = "" then [] else Text.split '.' path

theorem segments_joinPath (path : String) {segment : String} (h : segment ≠ "") :
    segments (joinPath path segment) = segments path ++ Text.split '.' segment := by
  rw [segments, if_neg (joinPath_ne_empty h), segments, joinPath]
  by_cases hpath : path = ""
  · rw [if_pos hpath, if_pos hpath, List.nil_append]
  · have hdot : (path ++ "." ++ segment).toList = path.toList ++ '.' :: segment.toList := by
      simp [String.toList_append]
    rw [if_neg hpath, if_neg hpath, Text.split, hdot, Text.splitChars_append, List.map_append]
    rfl

/-- The model at the end of a chain of relationships. -/
def Mapping.follow? (mapping : Mapping) (m : Model) : List String → Option Model
  | [] => some m
  | segment :: rest =>
    (m.relationship? segment).bind fun r =>
      (mapping.model? r.target).bind fun target => mapping.follow? target rest

/-- Relationships have names, without dots. -/
def Mapping.PlainNames (mapping : Mapping) : Prop :=
  ∀ m ∈ mapping.models, ∀ r ∈ m.relationships, r.name ≠ "" ∧ '.' ∉ r.name.toList

namespace Mapping

variable {mapping : Mapping} {m target : Model}

theorem follow?_append (before after : List String) : mapping.follow? m (before ++ after) =
    (mapping.follow? m before).bind fun t => mapping.follow? t after := by
  induction before generalizing m with
  | nil => rfl
  | cons segment rest ih =>
    rw [List.cons_append, follow?, follow?]
    cases m.relationship? segment with
    | none => rfl
    | some r =>
      cases hmodel : mapping.model? r.target with
      | none => simp [hmodel]
      | some t => simp [hmodel, ih]

theorem follow?_cons {segment : String} {rest : List String} :
    mapping.follow? m (segment :: rest) = some target ↔
      ∃ r t, mapping.Leads m segment r t ∧ mapping.follow? t rest = some target := by
  simp only [follow?, Option.bind_eq_some_iff]
  constructor
  · rintro ⟨r, hr, t, ht, hrest⟩
    exact ⟨r, t, ⟨hr, ht⟩, hrest⟩
  · rintro ⟨r, t, ⟨hr, ht⟩, hrest⟩
    exact ⟨r, hr, t, ht, hrest⟩

theorem Leads.follow? {name : String} {r : Relationship} (h : mapping.Leads m name r target) :
    mapping.follow? m [name] = some target :=
  follow?_cons.mpr ⟨r, target, h, rfl⟩

theorem PlainNames.of_leads (h : mapping.PlainNames) (hm : m ∈ mapping.models) {name : String}
    {r : Relationship} (hleads : mapping.Leads m name r target) :
    name ≠ "" ∧ '.' ∉ name.toList := by
  have hname : r.name = name := by simpa using List.find?_some hleads.found
  exact hname ▸ h m hm r (List.mem_of_find?_eq_some hleads.found)

theorem PlainNames.ne_empty (h : mapping.PlainNames) (hm : m ∈ mapping.models) {path : String}
    (hpath : mapping.follow? m (Text.split '.' path) = some target) : path ≠ "" := by
  intro hempty
  rw [hempty] at hpath
  obtain ⟨r, t, hleads, -⟩ := follow?_cons.mp hpath
  exact (h.of_leads hm hleads).1 rfl

end Mapping
end FieldPlan
