import FieldPlan.Proofs.Resolution.Shown
/-!
# Resolving again

Resolving what has been resolved brings the same fields. It moves undeclared names behind the
declared ones, and puts the declared ones into the order of the schema where that order counts;
after that nothing moves any more.
-/
namespace FieldPlan.ResourceSchema

variable {s : ResourceSchema} {settings : Settings} {requested : Option (List String)}
  {excluded names : List String} {n : String}

/-- The declared names among the given ones, in the order that the settings ask for. -/
def arranged (s : ResourceSchema) (settings : Settings) (names : List String) : List String :=
  match settings.order with
  | .declaration => unique (s.names.filter fun n => names.contains n)
  | .requested => names.filter s.declares

/-- Resolved names as they stand after they are resolved again. -/
def settle (s : ResourceSchema) (settings : Settings) (names : List String) : List String :=
  s.arranged settings names ++ names.filter fun n => !s.declares n

/-- What can be said of resolved names without regard to the request: beside declared names they
are just the fixed ones. -/
structure IsComplete (s : ResourceSchema) (settings : Settings) (names : List String) : Prop where
  nodup : names.Nodup
  fixed : ∀ n ∈ s.fixedFields settings, n ∈ names
  undeclared : (names.filter fun n => !s.declares n) =
    (s.fixedFields settings).filter fun n => !s.declares n

/-- The word for all fields is neither declared nor fixed. -/
structure SparesWord (s : ResourceSchema) (settings : Settings) : Prop where
  declared : allFieldsWord ∉ s.names
  settings : allFieldsWord ∉ settings.fixedFields
  fixed : allFieldsWord ∉ s.fixed

theorem declares_of_mem_leading (h : n ∈ s.leading settings requested excluded) : s.declares n :=
  (mem_leading.mp h).2.1

theorem isComplete_resolve (hdefaults : ∀ n ∈ s.defaults, s.declares n) :
    s.IsComplete settings (s.resolve settings requested excluded) where
  nodup := nodup_resolve _ _ _ _
  fixed n hn := (mem_resolve hdefaults).mpr (.inl hn)
  undeclared := by
    have hleading :
        ((s.leading settings requested excluded).filter fun n => !s.declares n) = [] := by
      refine List.filter_eq_nil_iff.mpr fun n hn => ?_
      simp [declares_of_mem_leading hn]
    rw [resolve_eq_leading hdefaults, List.filter_append, hleading, List.nil_append,
      List.filter_filter]
    refine List.filter_congr fun n _ => ?_
    cases hdeclared : s.declares n with
    | true => rfl
    | false =>
      have hout : n ∉ s.leading settings requested excluded := by
        intro hn
        rw [declares_of_mem_leading hn] at hdeclared
        cases hdeclared
      simp [hout]

theorem mem_arranged : n ∈ s.arranged settings names ↔ n ∈ names ∧ s.declares n := by
  unfold arranged
  cases settings.order with
  | declaration => simp [mem_unique, declares_iff, and_comm]
  | requested => simp

theorem nodup_arranged (h : names.Nodup) : (s.arranged settings names).Nodup := by
  unfold arranged
  cases settings.order with
  | declaration => exact nodup_unique _
  | requested => exact h.filter _

theorem mem_settle : n ∈ s.settle settings names ↔ n ∈ names := by
  rw [settle, List.mem_append, mem_arranged, List.mem_filter, ← and_or_left]
  cases s.declares n <;> simp

theorem nodup_settle (h : names.Nodup) : (s.settle settings names).Nodup := by
  refine List.nodup_append.mpr ⟨nodup_arranged h, h.filter _, ?_⟩
  rintro a ha b hb rfl
  simp [(mem_arranged.mp ha).2] at hb

theorem settle_perm (h : names.Nodup) : (s.settle settings names).Perm names :=
  (List.perm_ext_iff_of_nodup (nodup_settle h) h).mpr fun _ => mem_settle

theorem filter_declares_settle :
    (s.settle settings names).filter s.declares = s.arranged settings names := by
  have hfront : (s.arranged settings names).filter s.declares = s.arranged settings names :=
    List.filter_eq_self.mpr fun n hn => (mem_arranged.mp hn).2
  have hrest : (names.filter fun n => !s.declares n).filter s.declares = [] := by
    refine List.filter_eq_nil_iff.mpr fun n hn hdeclared => ?_
    simp [hdeclared] at hn
  rw [settle, List.filter_append, hfront, hrest, List.append_nil]

theorem pairwise_append_of_declares {front back : List String} (hfront : ∀ n ∈ front, s.declares n)
    (hback : ∀ n ∈ back, ¬ s.declares n) :
    (front ++ back).Pairwise fun a b => s.declares b → s.declares a := by
  refine List.pairwise_append.mpr ⟨?_, ?_, fun a ha b _ _ => hfront a ha⟩
  · exact List.pairwise_of_forall_mem_list fun a ha b _ _ => hfront a ha
  · exact List.pairwise_of_forall_mem_list fun a _ b hb hdeclared => absurd hdeclared (hback b hb)

theorem pairwise_settle :
    (s.settle settings names).Pairwise fun a b => s.declares b → s.declares a := by
  refine pairwise_append_of_declares (fun n hn => (mem_arranged.mp hn).2) fun n hn hdeclared => ?_
  simp [hdeclared] at hn

/-- Settling moves nothing where declared names stand first and keep the order that counts. -/
theorem settle_eq_self_iff : s.settle settings names = names ↔
    (names.Pairwise fun a b => s.declares b → s.declares a) ∧
      (settings.order = .declaration → InOrderOf s.names (names.filter s.declares)) := by
  constructor
  · intro h
    refine ⟨?_, fun horder => ?_⟩
    · rw [← h]
      exact pairwise_settle
    · rw [← h, filter_declares_settle, arranged, horder]
      exact inOrderOf_unique_filter _ _
  · rintro ⟨hfirst, hinorder⟩
    have harranged : s.arranged settings names = names.filter s.declares := by
      cases horder : settings.order with
      | requested => rw [arranged, horder]
      | declaration =>
        refine InOrderOf.eq_of_mem ?_ (hinorder horder) fun n => ?_
        · rw [arranged, horder]
          exact inOrderOf_unique_filter _ _
        · rw [mem_arranged, List.mem_filter]
    rw [settle, harranged]
    exact (eq_filter_append_filter hfirst).symm

theorem settle_settle : s.settle settings (s.settle settings names) = s.settle settings names := by
  refine settle_eq_self_iff.mpr ⟨pairwise_settle, fun horder => ?_⟩
  rw [filter_declares_settle, arranged, horder]
  exact inOrderOf_unique_filter _ _

theorem IsComplete.settle (h : s.IsComplete settings names) :
    s.IsComplete settings (s.settle settings names) where
  nodup := nodup_settle h.nodup
  fixed n hn := mem_settle.mpr (h.fixed n hn)
  undeclared := by
    have hfront : (s.arranged settings names).filter (fun n => !s.declares n) = [] := by
      refine List.filter_eq_nil_iff.mpr fun n hn => ?_
      simp [(mem_arranged.mp hn).2]
    rw [ResourceSchema.settle, List.filter_append, hfront, List.nil_append, List.filter_filter,
      ← h.undeclared]
    simp only [Bool.and_self]

theorem expand_of_notMem (h : allFieldsWord ∉ names) : s.expand names = names := by
  have heach : ∀ n ∈ names, (if n == allFieldsWord then s.allFields else [n]) = [n] := by
    intro n hn
    have hne : n ≠ allFieldsWord := fun heq => h (heq ▸ hn)
    simp [hne]
  rw [expand, List.flatMap_def, List.map_congr_left heach, ← List.flatMap_def]
  exact List.flatMap_singleton' names

theorem resolve_complete (hdefaults : ∀ n ∈ s.defaults, s.declares n)
    (h : s.IsComplete settings names) (hword : allFieldsWord ∉ names) :
    s.resolve settings (some (s.knownRequest names)) [] = s.settle settings names := by
  have hexpand : s.expand (s.knownRequest names) = names.filter s.declares := by
    rw [expand_knownRequest, expand_of_notMem hword]
  have hmem (n : String) : (s.declares n && ((s.fixedFields settings).contains n ||
      !([] : List String).contains n && (names.filter s.declares).contains n)) =
        (s.declares n && names.contains n) := by
    rw [Bool.eq_iff_iff]
    have hfixed := h.fixed n
    simp only [Bool.and_eq_true, Bool.or_eq_true, List.contains_iff_mem, List.mem_filter]
    grind
  have hleading : s.leading settings (some (s.knownRequest names)) [] =
      s.arranged settings names := by
    simp only [leading, namedBy, hexpand, hmem]
    unfold orderBase arranged
    cases settings.order with
    | declaration =>
      refine congrArg unique (List.filter_congr fun n hn => ?_)
      rw [declares_iff.mpr hn, Bool.true_and]
    | requested =>
      have hkept : (names.filter s.declares).filter (fun n => s.declares n && names.contains n) =
          names.filter s.declares := by
        refine List.filter_eq_self.mpr fun n hn => ?_
        rw [List.mem_filter] at hn
        simp [hn]
      simp only [hexpand, hkept]
      exact unique_of_nodup (h.nodup.filter _)
  have hmissing : ((s.fixedFields settings).filter fun n =>
      !(s.arranged settings names).contains n) = names.filter fun n => !s.declares n := by
    rw [h.undeclared]
    refine List.filter_congr fun n hn => congrArg not ?_
    rw [Bool.eq_iff_iff, List.contains_iff_mem, mem_arranged]
    simp [h.fixed n hn]
  rw [resolve_eq_leading hdefaults, hleading, hmissing, settle]

theorem settle_resolve_of_declaration (hdefaults : ∀ n ∈ s.defaults, s.declares n)
    (horder : settings.order = .declaration) :
    s.settle settings (s.resolve settings (some names) excluded) =
      s.resolve settings (some names) excluded := by
  let leading := s.leading settings (some names) excluded
  have hbase : s.orderBase settings (some names) = s.names := by simp only [orderBase, horder]
  have hleading {n : String} (hn : n ∈ leading) : s.declares n := declares_of_mem_leading hn
  -- a declared fixed name leads, for the schema gives the order
  have hmissing {n : String} (hn : n ∈ (s.fixedFields settings).filter fun n =>
      !leading.contains n) : ¬ s.declares n := by
    have hout : n ∈ s.fixedFields settings ∧ n ∉ leading := by simpa using hn
    refine fun hdeclared => hout.2 (mem_leading.mpr ⟨?_, hdeclared, .inl hout.1⟩)
    rw [hbase]
    exact declares_iff.mp hdeclared
  have hshape : s.resolve settings (some names) excluded = leading ++
      (s.fixedFields settings).filter fun n => !leading.contains n := resolve_eq_leading hdefaults
  refine settle_eq_self_iff.mpr ⟨?_, fun _ => ?_⟩
  · rw [hshape]
    exact pairwise_append_of_declares (fun n hn => hleading hn) fun n hn => hmissing hn
  · have hfront : leading.filter s.declares = leading :=
      List.filter_eq_self.mpr fun n hn => hleading hn
    have hback : ((s.fixedFields settings).filter fun n => !leading.contains n).filter s.declares =
        [] := List.filter_eq_nil_iff.mpr fun n hn => hmissing hn
    rw [hshape, List.filter_append, hfront, hback, List.append_nil, ← hbase]
    exact inOrderOf_unique_filter _ _

theorem settle_of_requested (horder : settings.order = .requested)
    (hdeclared : ∀ n ∈ names, s.declares n) : s.settle settings names = names := by
  refine settle_eq_self_iff.mpr ⟨?_, fun h => ?_⟩
  · exact List.pairwise_of_forall_mem_list fun a ha _ _ _ => hdeclared a ha
  · rw [horder] at h
    cases h

theorem SparesWord.notMem_resolve (h : s.SparesWord settings)
    (hdefaults : ∀ n ∈ s.defaults, s.declares n) :
    allFieldsWord ∉ s.resolve settings requested excluded := by
  rw [mem_resolve hdefaults, mem_fixedFields, declares_iff]
  rintro ((hsettings | hfixed) | ⟨-, hdeclared, -⟩)
  · exact h.settings hsettings
  · exact h.fixed hfixed
  · exact h.declared hdeclared

end FieldPlan.ResourceSchema
