import FieldPlan.Proofs.Names
import FieldPlan.Resolution
/-!
# Resolved fields

Which fields a resolution gives, and in which order. The declared ones come first, as the defaults,
the schema or the request order them; the fixed ones that are still missing follow.
-/
namespace FieldPlan.ResourceSchema

variable {s : ResourceSchema} {settings : Settings} {requested : Option (List String)}
  {excluded : List String} {n : String}

theorem declares_iff : s.declares n ↔ n ∈ s.names := by
  rw [declares, get?, List.find?_isSome, names, List.mem_map]
  simp only [beq_iff_eq]

/-- A declared field other than an aggregate. -/
def IsPlain (s : ResourceSchema) (n : String) : Prop :=
  ∃ f ∈ s.fields, f.name = n ∧ f.isAggregate = false

theorem mem_allFields : n ∈ s.allFields ↔ s.IsPlain n := by
  simp only [allFields, List.mem_map, List.mem_filter, Bool.not_eq_true', IsPlain]
  constructor
  · rintro ⟨f, ⟨hf, hplain⟩, hname⟩
    exact ⟨f, hf, hname, hplain⟩
  · rintro ⟨f, hf, hname, hplain⟩
    exact ⟨f, ⟨hf, hplain⟩, hname⟩

theorem IsPlain.declares (h : s.IsPlain n) : s.declares n := by
  obtain ⟨f, hf, rfl, -⟩ := h
  exact declares_iff.mpr (List.mem_map_of_mem hf)

/-- The names that a request stands for: the defaults, or the declared names among those requested,
where the word for all fields stands for every field but the aggregates. -/
def Selects (s : ResourceSchema) : Option (List String) → String → Prop
  | none, n => n ∈ s.defaults
  | some names, n => s.declares n ∧
      (n ∈ names ∧ n ≠ allFieldsWord ∨ allFieldsWord ∈ names ∧ s.IsPlain n)

/-- The list whose order resolved fields follow. -/
def orderBase (s : ResourceSchema) (settings : Settings) : Option (List String) → List String
  | none => s.defaults
  | some names =>
    match settings.order with
    | .declaration => s.names
    | .requested => s.expand names

theorem mem_fixedFields : n ∈ s.fixedFields settings ↔ n ∈ settings.fixedFields ∨ n ∈ s.fixed := by
  rw [fixedFields, mem_unique, List.mem_append]

theorem mem_expand {names : List String} : n ∈ s.expand names ↔
    n ∈ names ∧ n ≠ allFieldsWord ∨ allFieldsWord ∈ names ∧ s.IsPlain n := by
  simp only [expand, List.mem_flatMap, beq_iff_eq]
  constructor
  · rintro ⟨m, hm, hn⟩
    split at hn
    · next hword => exact .inr ⟨hword ▸ hm, mem_allFields.mp hn⟩
    · next hword =>
      obtain rfl := List.mem_singleton.mp hn
      exact .inl ⟨hm, hword⟩
  · rintro (⟨hn, hword⟩ | ⟨hword, hplain⟩)
    · exact ⟨n, hn, by simp [hword]⟩
    · exact ⟨allFieldsWord, hword, by simpa using mem_allFields.mpr hplain⟩

theorem expand_knownRequest (names : List String) :
    s.expand (s.knownRequest names) = (s.expand names).filter s.declares := by
  induction names with
  | nil => rfl
  | cons m names ih =>
    have hcons (ns : List String) : s.expand (m :: ns) =
        (if m == allFieldsWord then s.allFields else [m]) ++ s.expand ns := List.flatMap_cons
    rw [hcons, List.filter_append, ← ih, knownRequest, List.filter_cons]
    by_cases hword : m = allFieldsWord
    · have hall : s.allFields.filter s.declares = s.allFields :=
        List.filter_eq_self.mpr fun k hk => (mem_allFields.mp hk).declares
      simp only [hword, beq_self_eq_true, Bool.true_or, if_true]
      rw [hall, ← hword, hcons, hword]
      rfl
    · have hne : (m == allFieldsWord) = false := beq_eq_false_iff_ne.mpr hword
      rw [hne, Bool.false_or, if_neg Bool.false_ne_true]
      cases hm : s.declares m with
      | true => rw [if_pos rfl, hcons, hne, List.filter_cons_of_pos hm]; rfl
      | false =>
        rw [if_neg Bool.false_ne_true, List.filter_cons_of_neg (by simp [hm])]
        rfl

theorem knownRequest_knownRequest (names : List String) :
    s.knownRequest (s.knownRequest names) = s.knownRequest names := by
  simp only [knownRequest, List.filter_filter, Bool.and_self]

theorem mem_knownExclusions : n ∈ s.knownExclusions excluded ↔ n ∈ excluded ∧ s.declares n := by
  rw [knownExclusions, mem_sortNames, List.mem_filter, mem_unique]

/-- The names that a request brings before exclusions. -/
def namedBy (s : ResourceSchema) : Option (List String) → List String
  | none => s.defaults
  | some names => s.expand names

/-- The declared names that a resolution starts with. -/
def leading (s : ResourceSchema) (settings : Settings) (requested : Option (List String))
    (excluded : List String) : List String :=
  unique ((s.orderBase settings requested).filter fun n => s.declares n &&
    ((s.fixedFields settings).contains n ||
      !excluded.contains n && (s.namedBy requested).contains n))

private theorem mem_orderBase (hdeclared : s.declares n) (h : n ∈ s.namedBy requested) :
    n ∈ s.orderBase settings requested := by
  cases requested with
  | none => exact h
  | some names =>
    unfold orderBase
    cases settings.order with
    | declaration => exact declares_iff.mp hdeclared
    | requested => exact h

theorem mem_leading : n ∈ s.leading settings requested excluded ↔
    n ∈ s.orderBase settings requested ∧ s.declares n ∧
      (n ∈ s.fixedFields settings ∨ n ∉ excluded ∧ n ∈ s.namedBy requested) := by
  simp [leading, mem_unique]

/-- A resolution is what leads it and the fixed names that are missing there. -/
theorem resolve_eq_leading (hdefaults : ∀ n ∈ s.defaults, s.declares n) :
    s.resolve settings requested excluded = s.leading settings requested excluded ++
      (s.fixedFields settings).filter fun n =>
        !(s.leading settings requested excluded).contains n := by
  have hfixed (names : List String) : unique (names ++ s.fixedFields settings) = unique names ++
      (s.fixedFields settings).filter fun n => !(unique names).contains n := by
    have hsame : (s.fixedFields settings).filter (fun n => !names.contains n) =
        (s.fixedFields settings).filter fun n => !(unique names).contains n := by
      refine List.filter_congr fun n _ => ?_
      rw [Bool.eq_iff_iff]
      simp [mem_unique]
    have hnodup : (s.fixedFields settings).Nodup := nodup_unique _
    rw [unique_append, hsame, unique_of_nodup (hnodup.filter _)]
  -- each branch starts with the names that lead
  have hlead {names : List String}
      (h : unique names = s.leading settings requested excluded) :
      unique (names ++ s.fixedFields settings) = s.leading settings requested excluded ++
        (s.fixedFields settings).filter fun n =>
          !(s.leading settings requested excluded).contains n := by
    rw [hfixed, h]
  cases requested with
  | none =>
    refine hlead (congrArg unique (List.filter_congr fun n hn => ?_))
    rw [Bool.eq_iff_iff]
    simpa [namedBy, hn, hdefaults n hn] using Or.comm
  | some names =>
    unfold resolve
    cases horder : settings.order with
    | requested =>
      refine hlead ?_
      rw [unique_of_nodup ((nodup_unique _).filter _), ← unique_filter, leading, orderBase, horder]
      refine congrArg unique (List.filter_congr fun n hn => ?_)
      rw [Bool.eq_iff_iff]
      simpa [namedBy, hn] using fun _ => Or.comm
    | declaration =>
      refine hlead ?_
      rw [leading, orderBase, horder]
      refine congrArg unique (List.filter_congr fun n hn => ?_)
      have hkept : n ∈ s.expand names ∧ (n ∉ excluded ∨ n ∈ s.fixedFields settings) ∨
          n ∈ s.fixedFields settings ↔
            n ∈ s.fixedFields settings ∨ n ∉ excluded ∧ n ∈ s.expand names := by grind
      rw [Bool.eq_iff_iff]
      simpa [namedBy, mem_unique, declares_iff.mpr hn] using hkept

theorem nodup_resolve (s : ResourceSchema) (settings : Settings)
    (requested : Option (List String)) (excluded : List String) :
    (s.resolve settings requested excluded).Nodup := by
  unfold resolve
  split
  · exact nodup_unique _
  · split <;> exact nodup_unique _

theorem mem_resolve (hdefaults : ∀ n ∈ s.defaults, s.declares n) :
    n ∈ s.resolve settings requested excluded ↔
      n ∈ s.fixedFields settings ∨ n ∉ excluded ∧ s.declares n ∧ n ∈ s.namedBy requested := by
  have hmem : n ∈ s.resolve settings requested excluded ↔
      n ∈ s.leading settings requested excluded ∨ n ∈ s.fixedFields settings := by
    rw [resolve_eq_leading hdefaults]
    by_cases hlead : n ∈ s.leading settings requested excluded <;> simp [hlead]
  rw [hmem, mem_leading]
  constructor
  · rintro (⟨-, hdeclared, hfixed | ⟨hkept, hnamed⟩⟩ | hfixed)
    · exact .inl hfixed
    · exact .inr ⟨hkept, hdeclared, hnamed⟩
    · exact .inl hfixed
  · rintro (hfixed | ⟨hkept, hdeclared, hnamed⟩)
    · exact .inr hfixed
    · exact .inl ⟨mem_orderBase hdeclared hnamed, hdeclared, .inr ⟨hkept, hnamed⟩⟩

theorem declares_and_namedBy (hdefaults : ∀ n ∈ s.defaults, s.declares n) :
    s.declares n ∧ n ∈ s.namedBy (requested.map s.knownRequest) ↔ s.Selects requested n := by
  cases requested with
  | none => exact ⟨And.right, fun h => ⟨hdefaults n h, h⟩⟩
  | some names =>
    change s.declares n ∧ n ∈ s.expand (s.knownRequest names) ↔ _
    rw [expand_knownRequest, List.mem_filter, mem_expand, Selects]
    exact ⟨fun h => ⟨h.1, h.2.1⟩, fun h => ⟨h.1, h.2, h.1⟩⟩

theorem inOrderOf_leading : InOrderOf (s.orderBase settings requested)
    (s.leading settings (requested.map s.knownRequest) excluded) := by
  cases requested with
  | none => exact inOrderOf_unique_filter _ _
  | some names =>
    rw [leading]
    unfold orderBase
    cases settings.order with
    | declaration => exact inOrderOf_unique_filter _ _
    | requested =>
      simp only [Option.map_some, expand_knownRequest, List.filter_filter]
      exact inOrderOf_unique_filter _ _

theorem mem_orderBase_knownRequest (hdeclared : s.declares n) :
    n ∈ s.orderBase settings (requested.map s.knownRequest) ↔
      n ∈ s.orderBase settings requested := by
  cases requested with
  | none => rfl
  | some names =>
    unfold orderBase
    cases settings.order with
    | declaration => rfl
    | requested =>
      simp only [Option.map_some, expand_knownRequest, List.mem_filter, hdeclared, and_true]

/-- What the names resolved for a request are, and how they are ordered. -/
structure IsResolution (s : ResourceSchema) (settings : Settings)
    (requested : Option (List String)) (excluded names : List String) : Prop where
  nodup : names.Nodup
  /-- fixed names are there, whatever is excluded; others are selected and not excluded -/
  mem : ∀ n, n ∈ names ↔ (n ∈ settings.fixedFields ∨ n ∈ s.fixed) ∨
    n ∉ excluded ∧ s.Selects requested n
  /-- declared names of the list that gives the order come first, then the missing fixed ones -/
  order : ∃ shown missing, names = shown ++ missing ∧
    (∀ n, n ∈ shown ↔ n ∈ names ∧ s.declares n ∧ n ∈ s.orderBase settings requested) ∧
    InOrderOf (s.orderBase settings requested) shown ∧
    InOrderOf (settings.fixedFields ++ s.fixed) missing

/-- The names of a resolution are determined. -/
theorem IsResolution.unique {names others : List String}
    (h : s.IsResolution settings requested excluded names)
    (hothers : s.IsResolution settings requested excluded others) : names = others := by
  have hsame (n : String) : n ∈ names ↔ n ∈ others := (h.mem n).trans (hothers.mem n).symm
  obtain ⟨shown, missing, rfl, hshown, hshownOrder, hmissingOrder⟩ := h.order
  obtain ⟨shown', missing', rfl, hshown', hshownOrder', hmissingOrder'⟩ := hothers.order
  have hfront : shown = shown' := hshownOrder.eq_of_mem hshownOrder' fun n => by
    rw [hshown, hshown', hsame]
  subst hfront
  -- without repetition, what is missing in front is in the rest
  have hrest {rest : List String} (hnodup : (shown ++ rest).Nodup) (n : String) :
      n ∈ rest ↔ n ∈ shown ++ rest ∧ n ∉ shown := by
    have hdisjoint := (List.nodup_append.mp hnodup).2.2
    rw [List.mem_append]
    exact ⟨fun hn => ⟨.inr hn, fun hn' => hdisjoint n hn' n hn rfl⟩,
      fun ⟨hn, hn'⟩ => hn.resolve_left hn'⟩
  have hback : missing = missing' := hmissingOrder.eq_of_mem hmissingOrder' fun n => by
    rw [hrest h.nodup, hrest hothers.nodup, hsame]
  rw [hback]

theorem isResolution_resolve (hdefaults : ∀ n ∈ s.defaults, s.declares n) :
    s.IsResolution settings requested excluded
      (s.resolve settings (requested.map s.knownRequest) (s.knownExclusions excluded)) where
  nodup := nodup_resolve _ _ _ _
  mem n := by
    have hselects : s.declares n ∧ n ∈ s.namedBy (requested.map s.knownRequest) ↔
        s.Selects requested n := declares_and_namedBy hdefaults
    rw [mem_resolve hdefaults, mem_fixedFields, mem_knownExclusions, hselects]
    refine or_congr_right ⟨fun ⟨hkept, hselected⟩ => ⟨fun hn => hkept ⟨hn, ?_⟩, hselected⟩,
      fun ⟨hkept, hselected⟩ => ⟨fun hn => hkept hn.1, hselected⟩⟩
    exact (hselects.mpr hselected).1
  order := by
    refine ⟨_, _, resolve_eq_leading hdefaults, fun n => ?_, inOrderOf_leading, ?_⟩
    · rw [mem_resolve hdefaults, mem_leading]
      constructor
      · rintro ⟨hbase, hdeclared, h⟩
        refine ⟨h.imp_right fun h => ⟨h.1, hdeclared, h.2⟩, hdeclared, ?_⟩
        exact (mem_orderBase_knownRequest hdeclared).mp hbase
      · rintro ⟨h, hdeclared, hbase⟩
        refine ⟨(mem_orderBase_knownRequest hdeclared).mpr hbase, hdeclared, ?_⟩
        exact h.imp_right fun h => ⟨h.1, h.2.2⟩
    · rw [fixedFields, ← unique_filter]
      exact inOrderOf_unique_filter _ _

end FieldPlan.ResourceSchema
