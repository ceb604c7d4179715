import FieldPlan.Proofs.Resolution.Settled
import FieldPlan.Proofs.Service.Transparency
/-!
# What a service resolves

The answers of a service that is asked for the fields of a resource: which they are, and what comes
of asking again for the fields it has answered.
-/
namespace FieldPlan

open Cache

variable {s : Service} {ref : ResourceRef} {r : ResourceSchema}

theorem Call.fresh_resolve [Room] (hr : s.catalog.schemaOf ref = .ok r) (requested : Option (List String))
    (excluded : List String) : (Call.resolve ref requested excluded).fresh s =
      .ok (.fields ((s.shownFields r requested excluded).map Json.string)) := by
  let c := Call.resolve ref requested excluded
  have hquestions : c.questions s = [.fields r requested excluded] := by
    have href : s.catalog.schemaOf c.ref = .ok r := hr
    rw [Call.questions, href]
    rfl
  have hdistinct : s.Distinguishes (c.questions s) := by
    refine ⟨fun q hq => Call.registered_of_mem_questions hq, fun p hp q hq _ => ?_⟩
    rw [hquestions, List.mem_singleton] at hp hq
    rw [hp, hq]
  have hfollows : (c.task s).Follows (s.legend (c.questions s)) :=
    Call.task_follows fun q hq => hdistinct.isIn hq
  have hnone : ∀ b, (none : Option SharedStore) = some b → b.texts = [] := by simp
  have hnew : (s.newStore none).Faithful (s.legend (c.questions s)) :=
    Fleet.start_faithful s _ hnone 0
  have hrun := ((c.task s).run_eq_eval (s.legend_lossless _) hfollows _ hnew).1
  refine hrun.trans ?_
  show ((s.schema ref).bind fun r => (s.resolveData r requested excluded).bind fun names =>
    .pure (Answer.fields names)).eval = _
  rw [Task.eval_bind, Service.schema, Work.eval_ofResource, hr]
  simp only [mapError_ok, Task.eval_bind, Service.eval_resolveData]
  rfl

/-- What is excluded counts as far as it is declared. -/
theorem ResourceSchema.knownExclusions_filter (r : ResourceSchema) (excluded : List String) :
    r.knownExclusions (excluded.filter r.declares) = r.knownExclusions excluded := by
  rw [knownExclusions, unique_filter, List.filter_filter, knownExclusions]
  simp only [Bool.and_self]

namespace Service

/-- A resource is answered with its one resolution, to which unknown names make no difference. -/
theorem resolves_exactly [Room] (hr : s.catalog.schemaOf ref = .ok r)
    (hdefaults : ∀ n ∈ r.defaults, r.declares n) (requested : Option (List String))
    (excluded : List String) :
    ∃ names, (Call.resolve ref requested excluded).fresh s =
        .ok (.fields (names.map Json.string)) ∧
      (∀ others, r.IsResolution s.settings requested excluded others ↔ others = names) ∧
      (Call.resolve ref (requested.map r.knownRequest) (excluded.filter r.declares)).fresh s =
        .ok (.fields (names.map Json.string)) := by
  have hresolution : r.IsResolution s.settings requested excluded
      (s.shownFields r requested excluded) := ResourceSchema.isResolution_resolve hdefaults
  have hknown : s.shownFields r (requested.map r.knownRequest) (excluded.filter r.declares) =
      s.shownFields r requested excluded := by
    have hrequest : (requested.map r.knownRequest).map r.knownRequest =
        requested.map r.knownRequest := by
      cases requested with
      | none => rfl
      | some names => exact congrArg some (ResourceSchema.knownRequest_knownRequest names)
    rw [shownFields, hrequest, r.knownExclusions_filter, shownFields]
  refine ⟨_, Call.fresh_resolve hr requested excluded, fun others => ⟨?_, ?_⟩, ?_⟩
  · exact fun hothers => hothers.unique hresolution
  · rintro rfl
    exact hresolution
  · rw [Call.fresh_resolve hr, hknown]

end Service

namespace Labels

attribute [local instance] Room.usual

def item : ResourceSchema where
  type := "item"
  fields := [⟨"id", .scalar "id", []⟩, ⟨"kind", .scalar "kind", []⟩, ⟨"label", .scalar "label", []⟩,
    ⟨"partsCount", .aggregate ⟨.count, "parts", none, false, none⟩, []⟩]
  defaults := ["label"]
  fixed := ["kind"]
  model := none

def service (settings : Settings) : Service where
  catalog := ⟨⟨[item], [], [], true⟩, rfl, rfl⟩
  settings
  query := none

theorem schemaOf_item (settings : Settings) :
    (service settings).catalog.schemaOf (.named "item") = .ok item := rfl

theorem declares_defaults : ∀ n ∈ item.defaults, item.declares n := by decide

theorem resolves_all_but_labels :
    (service default).catalog.schemaOf (.named "item") = .ok item ∧
    (∀ n ∈ item.defaults, item.declares n) ∧
    ∃ names, (Call.resolve (.named "item") (some ["?", ":all", "partsCount"])
        ["kind", "label", "?"]).fresh (service default) = .ok (.fields (names.map Json.string)) ∧
      (∀ others, item.IsResolution default (some ["?", ":all", "partsCount"])
        ["kind", "label", "?"] others ↔ others = names) ∧
      (Call.resolve (.named "item") ((some ["?", ":all", "partsCount"]).map item.knownRequest)
        (["kind", "label", "?"].filter item.declares)).fresh (service default) =
          .ok (.fields (names.map Json.string)) :=
  ⟨rfl, declares_defaults, Service.resolves_exactly (schemaOf_item default) declares_defaults _ _⟩

end Labels

namespace Service

/-- What is resolved keeps its fields when it is resolved again, and keeps its place from then on.
It stays as it is unless an undeclared name is in front of a declared one, or declared names are out
of the order of the schema where that order counts. -/
theorem resolves_again [Room] (hr : s.catalog.schemaOf ref = .ok r)
    (hdefaults : ∀ n ∈ r.defaults, r.declares n) (hword : r.SparesWord s.settings)
    (requested : Option (List String)) :
    ∃ first second,
      (Call.resolve ref requested []).fresh s = .ok (.fields (first.map Json.string)) ∧
      (Call.resolve ref (some first) []).fresh s = .ok (.fields (second.map Json.string)) ∧
      (Call.resolve ref (some second) []).fresh s = .ok (.fields (second.map Json.string)) ∧
      second.Perm first ∧
      (second = first ↔ (first.Pairwise fun a b => r.declares b → r.declares a) ∧
        (s.settings.order = .declaration → InOrderOf r.names (first.filter r.declares))) ∧
      (s.settings.order = .declaration → requested ≠ none → second = first) ∧
      (s.settings.order = .requested →
        (∀ n ∈ r.fixedFields s.settings, r.declares n) → second = first) := by
  have hshown {names : List String} (hcomplete : r.IsComplete s.settings names)
      (hspared : allFieldsWord ∉ names) :
      (Call.resolve ref (some names) []).fresh s =
        .ok (.fields ((r.settle s.settings names).map Json.string)) := by
    rw [Call.fresh_resolve hr, shownFields, r.knownExclusions_nil, Option.map_some,
      ResourceSchema.resolve_complete hdefaults hcomplete hspared]
  let first := s.shownFields r requested []
  have hcomplete : r.IsComplete s.settings first := ResourceSchema.isComplete_resolve hdefaults
  have hspared : allFieldsWord ∉ first := hword.notMem_resolve hdefaults
  have hspared' : allFieldsWord ∉ r.settle s.settings first :=
    fun h => hspared (ResourceSchema.mem_settle.mp h)
  refine ⟨first, r.settle s.settings first, Call.fresh_resolve hr _ _, hshown hcomplete hspared, ?_,
    ResourceSchema.settle_perm hcomplete.nodup, ResourceSchema.settle_eq_self_iff, ?_, ?_⟩
  · rw [hshown hcomplete.settle hspared', ResourceSchema.settle_settle]
  · intro horder hrequested
    obtain ⟨names, rfl⟩ := Option.ne_none_iff_exists'.mp hrequested
    exact ResourceSchema.settle_resolve_of_declaration hdefaults horder
  · intro horder hfixed
    refine ResourceSchema.settle_of_requested horder fun n hn => ?_
    rcases (ResourceSchema.mem_resolve hdefaults).mp hn with hn | ⟨-, hdeclared, -⟩
    · exact hfixed n hn
    · exact hdeclared

end Service

namespace Labels

attribute [local instance] Room.usual

theorem sparesWord_item : item.SparesWord default := ⟨by decide, by decide, by decide⟩

theorem resolves_labels_again :
    (service default).catalog.schemaOf (.named "item") = .ok item ∧
    (∀ n ∈ item.defaults, item.declares n) ∧ item.SparesWord (service default).settings ∧
    ∃ first second,
      (Call.resolve (.named "item") none []).fresh (service default) =
        .ok (.fields (first.map Json.string)) ∧
      (Call.resolve (.named "item") (some first) []).fresh (service default) =
        .ok (.fields (second.map Json.string)) ∧
      (Call.resolve (.named "item") (some second) []).fresh (service default) =
        .ok (.fields (second.map Json.string)) ∧
      second.Perm first ∧
      (second = first ↔ (first.Pairwise fun a b => item.declares b → item.declares a) ∧
        ((service default).settings.order = .declaration →
          InOrderOf item.names (first.filter item.declares))) ∧
      ((service default).settings.order = .declaration →
        (none : Option (List String)) ≠ none → second = first) ∧
      ((service default).settings.order = .requested →
        (∀ n ∈ item.fixedFields (service default).settings, item.declares n) → second = first) :=
  ⟨rfl, declares_defaults, sparesWord_item,
    Service.resolves_again (schemaOf_item default) declares_defaults sparesWord_item none⟩

/-- Shows an undeclared name everywhere, in front of the identifier. -/
def markedSettings : Settings :=
  { (default : Settings) with fixedFields := ["mark", "id"], order := .requested }

private theorem fresh_item {settings : Settings} {requested : Option (List String)}
    {names : List String}
    (h : item.resolve settings (requested.map item.knownRequest) [] = names) :
    (Call.resolve (.named "item") requested []).fresh (service settings) =
      .ok (.fields (names.map Json.string)) := by
  rw [Call.fresh_resolve (schemaOf_item settings), Service.shownFields, item.knownExclusions_nil]
  exact congrArg (fun ns => Except.ok (Answer.fields (ns.map Json.string))) h

/-- Defaults out of the order of the schema move, and so does an undeclared name in front of a
declared one. -/
theorem resolved_again_elsewhere :
    ((Call.resolve (.named "item") none []).fresh (service default) =
        .ok (.fields (["label", "id", "kind"].map Json.string)) ∧
      (Call.resolve (.named "item") (some ["label", "id", "kind"]) []).fresh (service default) =
        .ok (.fields (["id", "kind", "label"].map Json.string))) ∧
    (Call.resolve (.named "item") (some ["label"]) []).fresh (service markedSettings) =
        .ok (.fields (["label", "mark", "id", "kind"].map Json.string)) ∧
      (Call.resolve (.named "item") (some ["label", "mark", "id", "kind"]) []).fresh
        (service markedSettings) =
          .ok (.fields (["label", "id", "kind", "mark"].map Json.string)) :=
  ⟨⟨fresh_item (by decide), fresh_item (by decide)⟩, fresh_item (by decide), fresh_item (by decide)⟩

end Labels
end FieldPlan
