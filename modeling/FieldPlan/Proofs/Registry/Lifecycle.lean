import FieldPlan.Proofs.Registry.Soundness
import FieldPlan.Proofs.Schema
import FieldPlan.Registry.Operation
import Mathlib.Data.List.Nodup
/-!
# The life of a registry

What an operation needs to succeed, and what it then stores; one that fails leaves what is
registered as it was. Whatever the operations were, the schemas of a registry have distinct types
and come from declarations, none of them gets lost, and once the registry is built its references
are sound and nothing changes it any more.
-/
namespace FieldPlan.Registry

namespace Action

variable {α γ : Type}

theorem on_bind (a : Action α) (f : α → Action γ) (r : Registry) :
    (a >>= f).on r = match a.on r with
      | (.ok x, r') => (f x).on r'
      | (.error e, r') => (.error e, r') := by
  unfold on
  simp only [bind, ExceptT.bind, ExceptT.mk, ExceptT.run, StateT.run, StateT.bind]
  rcases a r with ⟨x | x, r'⟩
  · rfl
  · rfl

theorem on_get_bind (f : Registry → Action α) (r : Registry) :
    (get >>= f : Action α).on r = (f r).on r := by
  rw [on_bind]
  rfl

theorem on_discard (a : Action α) (r : Registry) :
    (discard a : Action Unit).on r = ((a.on r).1.map fun _ => (), (a.on r).2) := by
  show (a >>= fun _ => pure ()).on r = _
  rw [on_bind]
  rcases a.on r with ⟨e | x, r'⟩
  · rfl
  · rfl

theorem on_assertOpen_bind (f : Unit → Action α) (r : Registry) : (assertOpen >>= f).on r =
    if r.isBuilt then (.error (.schema [.alreadyBuilt]), r) else (f ()).on r := by
  have hopen : assertOpen.on r =
      if r.isBuilt then (.error (.schema [.alreadyBuilt]), r) else (.ok (), r) := by
    unfold assertOpen
    rw [on_get_bind]
    split <;> rfl
  rw [on_bind, hopen]
  cases r.isBuilt with
  | true => rfl
  | false => rfl

theorem on_registerSchema (s : ResourceSchema) (r : Registry) : (registerSchema s).on r =
    if r.isBuilt then (.error (.schema [.alreadyBuilt]), r)
    else if (r.find? s.type).isSome then (.error (.schema [.registeredTwice s.type]), r)
    else (.ok (), { r with schemas := r.schemas ++ [s] }) := by
  unfold registerSchema
  rw [on_assertOpen_bind, on_get_bind]
  by_cases hnew : (r.find? s.type).isSome = true
  · simp only [hnew]
    rfl
  · simp only [hnew]
    rfl

theorem on_register (d : ResourceDeclaration) (r : Registry) : (register d).on r =
    if r.isBuilt then (.error (.schema [.alreadyBuilt]), r)
    else match d.schema with
      | .error e => (.error e, r)
      | .ok s =>
        if (r.find? s.type).isSome then (.error (.schema [.registeredTwice s.type]), r)
        else (.ok (), { r with
          schemas := r.schemas ++ [s]
          classes := r.classes ++ [(s.type, d.identity.className)] }) := by
  unfold register
  rw [on_assertOpen_bind]
  by_cases hbuilt : r.isBuilt = true
  · rw [if_pos hbuilt, if_pos hbuilt]
  · rw [if_neg hbuilt, if_neg hbuilt, on_bind]
    cases d.schema with
    | error e => rfl
    | ok s =>
      show (registerSchema s >>= _).on r = _
      rw [on_bind, on_registerSchema, if_neg hbuilt]
      dsimp only
      by_cases hnew : (r.find? s.type).isSome = true
      · rw [if_pos hnew, if_pos hnew]
      · rw [if_neg hnew, if_neg hnew]
        rfl

theorem on_registerConstraint (name : String) (c : Constraint) (r : Registry) :
    (registerConstraint name c).on r =
      if r.isBuilt then (.error (.schema [.alreadyBuilt]), r)
      else (.ok (), { r with
        constraints := (r.constraints.filter (·.1 != name)) ++ [(name, c)] }) := by
  unfold registerConstraint
  rw [on_assertOpen_bind]
  rfl

theorem on_build (r : Registry) : build.on r =
    if r.isBuilt then (.ok (), r)
    else if r.faults.isEmpty then (.ok (), { r with isBuilt := true })
    else (.error (.schema (r.faults.map .reference)), r) := by
  unfold build
  rw [on_get_bind]
  cases r.isBuilt with
  | true => rfl
  | false =>
    show (get >>= _ : Action Unit).on r = _
    rw [on_get_bind]
    dsimp only
    cases r.faults.isEmpty with
    | true => rfl
    | false => rfl

theorem on_schema (ref : ResourceRef) (r : Registry) : (schema ref).on r =
    match build.on r with
    | (.error e, r') => (.error e, r')
    | (.ok _, r') =>
      match ref.type with
      | .error e => (.error e, r')
      | .ok t =>
        match r'.find? t with
        | some s => (.ok s, r')
        | none => (.error (.unregistered t), r') := by
  unfold schema
  rw [on_bind]
  rcases build.on r with ⟨e | x, r'⟩
  · rfl
  · dsimp only
    rw [on_bind]
    cases ref.type with
    | error e => rfl
    | ok t =>
      show (get >>= _ : Action ResourceSchema).on r' = _
      rw [on_get_bind]
      dsimp only
      cases r'.find? t with
      | none => rfl
      | some s => rfl

end Action

namespace Operation

/-- What an operation needs to succeed. -/
def Admitted (r : Registry) : Operation → Prop
  | register d => r.isBuilt = false ∧ ∃ s, d.schema = .ok s ∧ s.type ∉ r.types
  | registerSchema s _ => r.isBuilt = false ∧ s.type ∉ r.types
  | registerConstraint .. => r.isBuilt = false
  | build => r.isBuilt = true ∨ r.Sound
  | schema ref => (r.isBuilt = true ∨ r.Sound) ∧ ∃ t ∈ r.types, ref.type = .ok t
  | resourceType ref | className ref | contains ref => ∃ t, ref.type = .ok t
  | constraint name => name ∈ r.constraints.map (·.1)
  | types => True

def Stores (r r' : Registry) : Operation → Prop
  | register d => ∃ s, d.schema = .ok s ∧ r' = { r with
      schemas := r.schemas ++ [s], classes := r.classes ++ [(s.type, d.identity.className)] }
  | registerSchema s _ => r' = { r with schemas := r.schemas ++ [s] }
  | registerConstraint name c => r'.constraint name = .ok c ∧
      (∀ other, other ≠ name → r'.constraint other = r.constraint other) ∧
      r' = { r with constraints := r'.constraints }
  | build | schema _ => r' = { r with isBuilt := true }
  | _ => r' = r

end Operation

variable {r r' : Registry}

theorem find?_eq_none_iff {t : String} : ¬ (r.find? t).isSome = true ↔ t ∉ r.types :=
  not_congr find?_isSome_iff

theorem isEmpty_faults_iff : r.faults.isEmpty = true ↔ r.Sound :=
  List.isEmpty_iff.trans faults_eq_nil_iff

theorem on_build_of_sound (h : r.isBuilt = true ∨ r.Sound) :
    Action.build.on r = (.ok (), { r with isBuilt := true }) := by
  rw [Action.on_build]
  by_cases hbuilt : r.isBuilt = true
  · rw [if_pos hbuilt, ← hbuilt]
  · rw [if_neg hbuilt, if_pos (isEmpty_faults_iff.mpr (h.resolve_left hbuilt))]

theorem on_build_of_unsound (h : ¬ (r.isBuilt = true ∨ r.Sound)) :
    ∃ e, Action.build.on r = (.error e, r) := by
  obtain ⟨hbuilt, hsound⟩ := not_or.mp h
  rw [Action.on_build, if_neg hbuilt, if_neg (mt isEmpty_faults_iff.mp hsound)]
  exact ⟨_, rfl⟩

theorem lookup_filter_ne {α : Type} (es : List (String × α)) (name other : String) :
    (es.filter (·.1 != name)).lookup other = if other = name then none else es.lookup other := by
  induction es with
  | nil => simp
  | cons e rest ih =>
    by_cases hkept : e.1 = name
    · rw [List.filter_cons_of_neg (by simp [hkept]), ih]
      by_cases hother : other = name
      · rw [if_pos hother, if_pos hother]
      · have hne : other ≠ e.1 := fun h => hother (h.trans hkept)
        have hnext : (other == e.1) = false := beq_eq_false_iff_ne.mpr hne
        rw [if_neg hother, if_neg hother, List.lookup_cons, hnext]
    · rw [List.filter_cons_of_pos (by simp [hkept]), List.lookup_cons, List.lookup_cons, ih]
      by_cases hother : other = e.1
      · have hne : other ≠ name := fun h => hkept (hother.symm.trans h)
        simp [hother, hkept]
      · have hnext : (other == e.1) = false := beq_eq_false_iff_ne.mpr hother
        rw [hnext]

theorem constraint_of_registered (r : Registry) (name : String) (c : Constraint) (other : String) :
    Registry.constraint { r with
      constraints := (r.constraints.filter (·.1 != name)) ++ [(name, c)] } other =
    if other = name then .ok c else r.constraint other := by
  unfold constraint
  dsimp only
  rw [List.lookup_append, lookup_filter_ne]
  by_cases hother : other = name
  · rw [if_pos hother, if_pos hother, hother, List.lookup_cons_self]
    rfl
  · have hlast : (other == name) = false := beq_eq_false_iff_ne.mpr hother
    rw [if_neg hother, if_neg hother, List.lookup_cons, hlast, List.lookup_nil, Option.or_none]

theorem exists_constraint_iff {name : String} :
    (∃ c, r.constraint name = .ok c) ↔ name ∈ r.constraints.map (·.1) := by
  have hlookup : r.constraints.lookup name = none ↔ name ∉ r.constraints.map (·.1) := by
    rw [List.lookup_eq_none_iff, List.mem_map, not_exists]
    refine forall_congr' fun e => ?_
    rw [not_and, bne_iff_ne, ne_comm]
  unfold constraint
  cases h : r.constraints.lookup name with
  | none => simpa using hlookup.mp h
  | some c =>
    have hmem : ¬ name ∉ r.constraints.map (·.1) := by
      rw [← hlookup, h]
      exact nofun
    simpa using hmem

namespace Operation

variable {op : Operation}

theorem perform_constraint (name : String) (r : Registry) :
    (constraint name).perform.on r = ((r.constraint name).map fun _ => (), r) := by
  rw [perform, Action.on_discard, Action.constraint, Action.on_get_bind]
  rfl

theorem perform_of_reference {ref : ResourceRef}
    (h : op = .resourceType ref ∨ op = .className ref ∨ op = .contains ref) (r : Registry) :
    op.perform.on r = (ref.type.map fun _ => (), r) := by
  rcases h with rfl | rfl | rfl
  · rw [perform, Action.on_discard]
    rfl
  · rw [perform, Action.on_discard, Action.className?, Action.on_get_bind]
    show ((r.className? ref).map fun _ => (), r) = _
    rw [Registry.className?]
    cases ref.type with
    | ok t => rfl
    | error e => rfl
  · rw [perform, Action.on_discard, Action.contains, Action.on_get_bind]
    show ((r.contains ref).map fun _ => (), r) = _
    rw [Registry.contains]
    cases ref.type with
    | ok t => rfl
    | error e => rfl

theorem perform_of_admitted (h : op.Admitted r) :
    ∃ r', op.perform.on r = (.ok (), r') ∧ op.Stores r r' := by
  have hasked {op : Operation} {ref : ResourceRef} (h : ∃ t, ref.type = .ok t)
      (hop : op.perform.on r = (ref.type.map fun _ => (), r)) : op.perform.on r = (.ok (), r) := by
    obtain ⟨t, ht⟩ := h
    rw [hop, ht]
    rfl
  cases op with
  | register d =>
    obtain ⟨hopen, s, hs, hnew⟩ := h
    refine ⟨_, ?_, s, hs, rfl⟩
    rw [perform, Action.on_register, if_neg (Bool.eq_false_iff.mp hopen), hs]
    exact if_neg (find?_eq_none_iff.mpr hnew)
  | registerSchema s hs =>
    obtain ⟨hopen, hnew⟩ := h
    refine ⟨_, ?_, rfl⟩
    rw [perform, Action.on_registerSchema, if_neg (Bool.eq_false_iff.mp hopen)]
    exact if_neg (find?_eq_none_iff.mpr hnew)
  | registerConstraint name c =>
    have hopen : r.isBuilt = false := h
    refine ⟨{ r with constraints := (r.constraints.filter (·.1 != name)) ++ [(name, c)] }, ?_, ?_,
      fun other hother => ?_, rfl⟩
    · rw [perform, Action.on_registerConstraint, if_neg (Bool.eq_false_iff.mp hopen)]
    · rw [constraint_of_registered, if_pos rfl]
    · rw [constraint_of_registered, if_neg hother]
  | build => exact ⟨_, on_build_of_sound h, rfl⟩
  | schema ref =>
    obtain ⟨hsound, t, ht, href⟩ := h
    obtain ⟨s, hs⟩ := Option.isSome_iff_exists.mp (find?_isSome_iff.mpr ht)
    refine ⟨{ r with isBuilt := true }, ?_, rfl⟩
    have hfind : Registry.find? { r with isBuilt := true } t = some s := hs
    rw [perform, Action.on_discard, Action.on_schema, on_build_of_sound hsound]
    dsimp only
    rw [href]
    dsimp only
    rw [hfind]
    rfl
  | constraint name =>
    obtain ⟨c, hc⟩ := exists_constraint_iff.mpr h
    refine ⟨r, ?_, rfl⟩
    rw [perform_constraint, hc]
    rfl
  | resourceType ref => exact ⟨r, hasked h (perform_of_reference (.inl rfl) r), rfl⟩
  | className ref => exact ⟨r, hasked h (perform_of_reference (.inr (.inl rfl)) r), rfl⟩
  | contains ref => exact ⟨r, hasked h (perform_of_reference (.inr (.inr rfl)) r), rfl⟩
  | types =>
    refine ⟨r, ?_, rfl⟩
    rw [perform, Action.on_discard]
    rfl

theorem registration_of_isBuilt (hbuilt : r.isBuilt = true) (hop : op.isRegistration = true) :
    op.perform.on r = (.error (.schema [.alreadyBuilt]), r) := by
  cases op with
  | register d => rw [perform, Action.on_register, if_pos hbuilt]
  | registerSchema s hs => rw [perform, Action.on_registerSchema, if_pos hbuilt]
  | registerConstraint name c => rw [perform, Action.on_registerConstraint, if_pos hbuilt]
  | _ => cases hop

/-- Asked for a schema that is not there, the registry is built before it fails. -/
theorem perform_of_not_admitted (h : ¬ op.Admitted r) :
    ∃ e, op.perform.on r = (.error e, r) ∨
      ∃ ref, op = .schema ref ∧ op.perform.on r = (.error e, (Action.build.on r).2) := by
  have hasked {op : Operation} {ref : ResourceRef} (h : ¬ ∃ t, ref.type = .ok t)
      (hop : op.perform.on r = (ref.type.map fun _ => (), r)) :
      ∃ e, op.perform.on r = (.error e, r) ∨
        ∃ ref, op = .schema ref ∧ op.perform.on r = (.error e, (Action.build.on r).2) := by
    rw [hop]
    cases ht : ref.type with
    | ok t => exact absurd ⟨t, ht⟩ h
    | error e => exact ⟨e, .inl rfl⟩
  cases op with
  | register d =>
    cases hopen : r.isBuilt with
    | true => exact ⟨_, .inl (registration_of_isBuilt hopen rfl)⟩
    | false =>
      rw [perform, Action.on_register, if_neg (Bool.eq_false_iff.mp hopen)]
      cases hs : d.schema with
      | error e => exact ⟨e, .inl rfl⟩
      | ok s =>
        by_cases hold : (r.find? s.type).isSome = true
        · exact ⟨_, .inl (if_pos hold)⟩
        · exact absurd ⟨hopen, s, hs, find?_eq_none_iff.mp hold⟩ h
  | registerSchema s hs =>
    cases hopen : r.isBuilt with
    | true => exact ⟨_, .inl (registration_of_isBuilt hopen rfl)⟩
    | false =>
      rw [perform, Action.on_registerSchema, if_neg (Bool.eq_false_iff.mp hopen)]
      by_cases hold : (r.find? s.type).isSome = true
      · exact ⟨_, .inl (if_pos hold)⟩
      · exact absurd ⟨hopen, find?_eq_none_iff.mp hold⟩ h
  | registerConstraint name c =>
    have hbuilt : r.isBuilt = true := Bool.not_eq_false _ ▸ h
    exact ⟨_, .inl (registration_of_isBuilt hbuilt rfl)⟩
  | build =>
    obtain ⟨e, he⟩ := on_build_of_unsound h
    exact ⟨e, .inl he⟩
  | schema ref =>
    have hfails : ∃ e, (Action.schema ref).on r = (.error e, (Action.build.on r).2) := by
      rw [Action.on_schema]
      by_cases hsound : r.isBuilt = true ∨ r.Sound
      · rw [on_build_of_sound hsound]
        dsimp only
        cases href : ref.type with
        | error e => exact ⟨e, rfl⟩
        | ok t =>
          have hnone : Registry.find? { r with isBuilt := true } t = none := by
            rw [← Option.not_isSome_iff_eq_none]
            exact find?_eq_none_iff.mpr fun ht => h ⟨hsound, t, ht, href⟩
          dsimp only
          rw [hnone]
          exact ⟨_, rfl⟩
      · obtain ⟨e, he⟩ := on_build_of_unsound hsound
        rw [he]
        exact ⟨e, rfl⟩
    obtain ⟨e, he⟩ := hfails
    refine ⟨e, .inr ⟨ref, rfl, ?_⟩⟩
    rw [perform, Action.on_discard, he]
    rfl
  | constraint name =>
    cases hc : r.constraint name with
    | ok c => exact absurd (exists_constraint_iff.mp ⟨c, hc⟩) h
    | error e =>
      rw [perform_constraint, hc]
      exact ⟨e, .inl rfl⟩
  | resourceType ref => exact hasked h (perform_of_reference (.inl rfl) r)
  | className ref => exact hasked h (perform_of_reference (.inr (.inl rfl)) r)
  | contains ref => exact hasked h (perform_of_reference (.inr (.inr rfl)) r)
  | types => exact absurd trivial h

theorem perform_eq_ok_iff : (op.perform.on r).1 = .ok () ↔ op.Admitted r := by
  constructor
  · intro hok
    refine Classical.byContradiction fun hop => ?_
    obtain ⟨e, he | ⟨ref, -, he⟩⟩ := perform_of_not_admitted hop
    · rw [he] at hok
      cases hok
    · rw [he] at hok
      cases hok
  · intro hop
    obtain ⟨r', hr', -⟩ := perform_of_admitted hop
    rw [hr']

theorem stores_of_ok (h : (op.perform.on r).1 = .ok ()) : op.Stores r (op.perform.on r).2 := by
  obtain ⟨r', hr', hstores⟩ := perform_of_admitted (perform_eq_ok_iff.mp h)
  rw [hr']
  exact hstores

end Operation

theorem declared_of_schema {d : ResourceDeclaration} {s : ResourceSchema} (h : d.schema = .ok s) :
    Declared s := by
  unfold ResourceDeclaration.schema at h
  cases hdeclared : d.declaredFields with
  | error e =>
    rw [hdeclared] at h
    cases h
  | ok declarations =>
    rw [hdeclared] at h
    change (declarations.mapM FieldDeclaration.field >>= _) = _ at h
    cases hfields : declarations.mapM FieldDeclaration.field with
    | error e =>
      rw [hfields] at h
      cases h
    | ok fields =>
      rw [hfields] at h
      change Except.mapError _ (ResourceSchema.build ..) = _ at h
      cases hbuild : ResourceSchema.build d.type fields d.defaults d.fixed
          (d.model.map (·.name)) with
      | error faults =>
        rw [hbuild] at h
        cases h
      | ok s' =>
        rw [hbuild] at h
        obtain rfl := Except.ok.inj h
        exact ⟨_, _, _, _, _, hbuild⟩

/-- What an operation can make of a registry, whether it succeeds or fails. -/
inductive Becomes (r : Registry) : Registry → Prop
  | same : r.Becomes r
  | schema {s : ResourceSchema} (hopen : r.isBuilt = false) (hs : Declared s)
      (hnew : s.type ∉ r.types) : r.Becomes { r with schemas := r.schemas ++ [s] }
  | resource {s : ResourceSchema} (className : String) (hopen : r.isBuilt = false)
      (hs : Declared s) (hnew : s.type ∉ r.types) : r.Becomes { r with
        schemas := r.schemas ++ [s], classes := r.classes ++ [(s.type, className)] }
  | constraints (constraints : List (String × Constraint)) (hopen : r.isBuilt = false) :
      r.Becomes { r with constraints }
  | built (h : r.isBuilt = true ∨ r.Sound) : r.Becomes { r with isBuilt := true }

theorem becomes_of_build (r : Registry) : r.Becomes (Action.build.on r).2 := by
  by_cases hsound : r.isBuilt = true ∨ r.Sound
  · rw [on_build_of_sound hsound]
    exact .built hsound
  · obtain ⟨e, he⟩ := on_build_of_unsound hsound
    rw [he]
    exact .same

theorem Operation.becomes (op : Operation) (r : Registry) : r.Becomes (op.perform.on r).2 := by
  by_cases hop : op.Admitted r
  · obtain ⟨r', hr', hstores⟩ := perform_of_admitted hop
    rw [hr']
    cases op with
    | register d =>
      obtain ⟨hopen, s, hs, hnew⟩ := hop
      obtain ⟨s', hs', rfl⟩ := hstores
      obtain rfl := Except.ok.inj (hs.symm.trans hs')
      exact .resource d.identity.className hopen (declared_of_schema hs) hnew
    | registerSchema s hs =>
      obtain ⟨hopen, hnew⟩ := hop
      obtain rfl : r' = _ := hstores
      exact .schema hopen hs hnew
    | registerConstraint name c =>
      rw [hstores.2.2]
      exact .constraints r'.constraints hop
    | build =>
      obtain rfl : r' = _ := hstores
      exact .built hop
    | schema ref =>
      obtain rfl : r' = _ := hstores
      exact .built hop.1
    | _ =>
      obtain rfl : r' = r := hstores
      exact .same
  · obtain ⟨e, he | ⟨ref, rfl, he⟩⟩ := perform_of_not_admitted hop
    · rw [he]
      exact .same
    · rw [he]
      exact becomes_of_build r

/-- What holds of a registry whatever was done to it. -/
structure Valid (r : Registry) : Prop where
  types : r.types.Nodup
  declared : ∀ s ∈ r.schemas, Declared s
  classes : ∀ e ∈ r.classes, e.1 ∈ r.types
  sound : r.isBuilt = true → r.faults = []

namespace Valid

theorem empty : Registry.empty.Valid where
  types := List.nodup_nil
  declared := fun _ hs => nomatch hs
  classes := fun _ he => nomatch he
  sound := fun h => nomatch h

theorem add (h : r.Valid) (hopen : r.isBuilt = false) {s : ResourceSchema} (hs : Declared s)
    (hnew : s.type ∉ r.types) {classes : List (String × String)}
    (hclasses : ∀ e ∈ classes, e.1 ∈ r.types ∨ e.1 = s.type) :
    Valid { r with schemas := r.schemas ++ [s], classes } where
  types := by
    show ((r.schemas ++ [s]).map (·.type)).Nodup
    rw [List.map_append, List.map_singleton, ← List.concat_eq_append]
    exact List.Nodup.concat hnew h.types
  declared s' hs' := by
    rcases List.mem_append.mp hs' with hs' | hs'
    · exact h.declared s' hs'
    · rw [List.mem_singleton.mp hs']
      exact hs
  classes e he := by
    show e.1 ∈ (r.schemas ++ [s]).map (·.type)
    rw [List.map_append, List.mem_append]
    exact (hclasses e he).imp id fun h => List.mem_singleton.mpr h
  sound hbuilt := absurd (hopen.symm.trans hbuilt) Bool.false_ne_true

theorem becomes (h : r.Valid) (hr' : r.Becomes r') : r'.Valid := by
  cases hr' with
  | same => exact h
  | schema hopen hs hnew => exact h.add hopen hs hnew fun e he => .inl (h.classes e he)
  | resource className hopen hs hnew =>
    refine h.add hopen hs hnew fun e he => ?_
    rcases List.mem_append.mp he with he | he
    · exact .inl (h.classes e he)
    · exact .inr (List.mem_singleton.mp he ▸ rfl)
  | constraints constraints hopen =>
    exact ⟨h.types, h.declared, h.classes,
      fun hbuilt => absurd (hopen.symm.trans hbuilt) Bool.false_ne_true⟩
  | built hsound =>
    exact ⟨h.types, h.declared, h.classes, fun _ => hsound.elim h.sound faults_eq_nil_iff.mpr⟩

theorem after (h : r.Valid) (ops : List Operation) : (r.after ops).Valid := by
  induction ops generalizing r with
  | nil => exact h
  | cons op ops ih => exact ih (h.becomes (op.becomes r))

/-- Every schema is found under its own type. -/
theorem find?_type (h : r.Valid) {s : ResourceSchema} (hs : s ∈ r.schemas) :
    r.find? s.type = some s := by
  have htypes := h.types
  rw [Registry.types] at htypes
  unfold find?
  generalize r.schemas = schemas at hs htypes ⊢
  induction schemas with
  | nil => cases hs
  | cons s' rest ih =>
    obtain ⟨hnew, hrest⟩ := List.nodup_cons.mp htypes
    rcases List.mem_cons.mp hs with rfl | hs
    · exact List.find?_cons_of_pos (by simp)
    · rw [List.find?_cons_of_neg]
      · exact ih hs hrest
      · intro hsame
        have htype : s'.type = s.type := beq_iff_eq.mp hsame
        have hmem : s.type ∈ rest.map (·.type) := List.mem_map_of_mem hs
        rw [← htype] at hmem
        exact hnew hmem

end Valid

theorem Operation.perform_eq_error {op : Operation} {e : ResourceError}
    (h : (op.perform.on r).1 = .error e) : ∃ isBuilt, (op.perform.on r).2 = { r with isBuilt } ∧
      (op = .build → isBuilt = false) := by
  have hop : ¬ op.Admitted r := by
    intro hop
    rw [perform_eq_ok_iff.mpr hop] at h
    cases h
  obtain ⟨e', he | ⟨ref, rfl, he⟩⟩ := perform_of_not_admitted hop
  · rw [he]
    refine ⟨r.isBuilt, rfl, ?_⟩
    rintro rfl
    exact Bool.eq_false_iff.mpr fun hbuilt => hop (.inl hbuilt)
  · rw [he]
    by_cases hsound : r.isBuilt = true ∨ r.Sound
    · rw [on_build_of_sound hsound]
      exact ⟨true, rfl, nofun⟩
    · obtain ⟨e, he⟩ := on_build_of_unsound hsound
      rw [he]
      exact ⟨r.isBuilt, rfl, nofun⟩

theorem Becomes.eq_of_isBuilt (h : r.Becomes r') (hbuilt : r.isBuilt = true) : r' = r := by
  have hopen : ¬ r.isBuilt = false := Bool.not_eq_false _ ▸ hbuilt
  cases h with
  | same => rfl
  | built => rw [← hbuilt]
  | schema h => exact absurd h hopen
  | resource _ h => exact absurd h hopen
  | constraints _ h => exact absurd h hopen

theorem after_of_isBuilt (hbuilt : r.isBuilt = true) (ops : List Operation) : r.after ops = r := by
  induction ops with
  | nil => rfl
  | cons op ops ih =>
    show Registry.after (op.perform.on r).2 ops = r
    rw [(op.becomes r).eq_of_isBuilt hbuilt, ih]

/-- What is registered in one registry is registered in the other. -/
structure Extends (r' r : Registry) : Prop where
  schemas : r.schemas <+: r'.schemas
  classes : r.classes <+: r'.classes

theorem Extends.refl (r : Registry) : r.Extends r := ⟨List.prefix_rfl, List.prefix_rfl⟩

theorem Becomes.extends (h : r.Becomes r') : r'.Extends r := by
  cases h with
  | schema => exact ⟨List.prefix_append .., List.prefix_rfl⟩
  | resource => exact ⟨List.prefix_append .., List.prefix_append ..⟩
  | _ => exact ⟨List.prefix_rfl, List.prefix_rfl⟩

theorem extends_after (r : Registry) (ops : List Operation) : (r.after ops).Extends r := by
  induction ops generalizing r with
  | nil => exact .refl r
  | cons op ops ih =>
    have hop := (op.becomes r).extends
    have hops := ih (op.perform.on r).2
    exact ⟨hop.schemas.trans hops.schemas, hop.classes.trans hops.classes⟩

def Operation.schema? : Operation → Option ResourceSchema
  | register d => d.schema.toOption
  | registerSchema s _ => some s
  | _ => none

theorem Operation.mem_schemas {op : Operation} {s : ResourceSchema} (hs : op.schema? = some s)
    (h : op.Stores r r') : s ∈ r'.schemas := by
  cases op with
  | register d =>
    obtain ⟨s', hs', rfl⟩ := h
    rw [schema?, hs'] at hs
    obtain rfl := Option.some.inj hs
    exact List.mem_append_right _ (List.mem_singleton_self _)
  | registerSchema s' h' =>
    obtain rfl := Option.some.inj hs
    obtain rfl : r' = _ := h
    exact List.mem_append_right _ (List.mem_singleton_self _)
  | _ => cases hs

theorem find?_of_registered (hvalid : r.Valid) {op : Operation} {s : ResourceSchema}
    (hs : op.schema? = some s) (h : (op.perform.on r).1 = .ok ()) (more : List Operation) :
    ((op.perform.on r).2.after more).find? s.type = some s := by
  have hmem : s ∈ (op.perform.on r).2.schemas := op.mem_schemas hs (Operation.stores_of_ok h)
  have hkept := (extends_after (op.perform.on r).2 more).schemas
  exact ((hvalid.becomes (op.becomes r)).after more).find?_type (hkept.subset hmem)

theorem className?_of_registered (hvalid : r.Valid) {d : ResourceDeclaration} {s : ResourceSchema}
    (hs : d.schema = .ok s) (h : ((Operation.register d).perform.on r).1 = .ok ())
    (more : List Operation) :
    (((Operation.register d).perform.on r).2.after more).className? (.named s.type) =
      .ok (some d.identity.className) := by
  obtain ⟨-, s₁, hs₁, hnew⟩ := Operation.perform_eq_ok_iff.mp h
  obtain ⟨s₂, hs₂, hstored⟩ := Operation.stores_of_ok h
  obtain rfl := Except.ok.inj (hs.symm.trans hs₁)
  obtain rfl := Except.ok.inj (hs.symm.trans hs₂)
  have hbefore : r.classes.lookup s.type = none := by
    rw [List.lookup_eq_none_iff]
    intro e he
    have hother : s.type ≠ e.1 := fun hsame => hnew (hsame ▸ hvalid.classes e he)
    exact bne_iff_ne.mpr hother
  obtain ⟨later, hlater⟩ := (extends_after ((Operation.register d).perform.on r).2 more).classes
  show Except.ok (List.lookup s.type _) = _
  rw [← hlater, hstored]
  simp [List.lookup_append, hbefore]

end FieldPlan.Registry
