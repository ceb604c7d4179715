import FieldPlan.Proofs.Names
import FieldPlan.Resolution
/-!
# What a resolution depends on

Requests with one payload are resolved alike: what the payload leaves out, such as repetitions and
the order of a request where the schema's order counts, makes no difference.
-/
namespace FieldPlan

theorem Json.ofStrings_injective : Function.Injective Json.ofStrings := by
  intro a b h
  exact (List.map_inj_right fun _ _ => Json.string.inj).mp (Json.array.inj h)

theorem optionalNames_injective {a b : Option (List String)}
    (h : (a.map Json.ofStrings).getD .null = (b.map Json.ofStrings).getD .null) : a = b := by
  cases a <;> cases b
  · rfl
  · cases h
  · cases h
  · exact congrArg some (Json.ofStrings_injective h)

theorem resolutionPayload_inj {order : FieldOrder} {requested requested' : Option (List String)}
    {excluded excluded' : List String}
    (h : resolutionPayload order requested excluded =
      resolutionPayload order requested' excluded') :
    namesPayload (order == .requested) requested = namesPayload (order == .requested) requested' ∧
      excluded = excluded' := by
  simp only [resolutionPayload, Json.object.injEq, List.cons.injEq, Prod.mk.injEq, true_and,
    and_true] at h
  exact ⟨optionalNames_injective h.1, Json.ofStrings_injective h.2⟩

namespace ResourceSchema

variable {s : ResourceSchema} {settings : Settings} {excluded : List String}

/-- In the order of the schema only the names of a request count. -/
private theorem resolve_declaration (horder : settings.order = .declaration) {a b : List String}
    (h : ∀ n, n ∈ a ↔ n ∈ b) :
    s.resolve settings (some a) excluded = s.resolve settings (some b) excluded := by
  have hexpand (n : String) : n ∈ unique (s.expand a) ↔ n ∈ unique (s.expand b) := by
    simp only [mem_unique, expand, List.mem_flatMap, h]
  simp only [resolve, horder]
  congr 2
  refine List.filter_congr fun n _ => ?_
  congr 1
  rw [Bool.eq_iff_iff]
  simp only [List.contains_iff_mem, List.mem_filter, hexpand]

private theorem resolve_requested (horder : settings.order = .requested) {a b : List String}
    (h : unique a = unique b) :
    s.resolve settings (some a) excluded = s.resolve settings (some b) excluded := by
  have hexpand : unique (s.expand a) = unique (s.expand b) := by
    unfold expand
    rw [← unique_flatMap, h, unique_flatMap]
  simp only [resolve, horder, hexpand]

theorem resolve_eq_of_payload {requested requested' : Option (List String)}
    {excluded' : List String}
    (h : resolutionPayload settings.order requested excluded =
      resolutionPayload settings.order requested' excluded') :
    s.resolve settings requested excluded = s.resolve settings requested' excluded' := by
  obtain ⟨hnames, rfl⟩ := resolutionPayload_inj h
  cases requested with
  | none =>
    cases requested' with
    | none => rfl
    | some b => cases hnames
  | some a =>
    cases requested' with
    | none => cases hnames
    | some b =>
      have hab := Option.some.inj hnames
      cases horder : settings.order with
      | declaration =>
        apply resolve_declaration horder
        intro n
        have hsort : sortNames (unique a) = sortNames (unique b) := by simpa [horder] using hab
        rw [← mem_unique, ← mem_sortNames, hsort, mem_sortNames, mem_unique]
      | requested =>
        exact resolve_requested horder (by simpa [horder] using hab)

end ResourceSchema
end FieldPlan
