import FieldPlan.Proofs.Json.Limits
import FieldPlan.Proofs.Plan.Codec
import FieldPlan.Proofs.Resolution
import FieldPlan.Proofs.Service.Evaluation
import FieldPlan.Proofs.Signature
/-!
# What is remembered under which key

A service asks its cache two kinds of questions: which fields a resource shows, and which plan they
need. A question has a key and an answer, and the payload in the key settles the answer. The tasks
of a service ask under each key only questions of that key.
-/
namespace FieldPlan

open Cache

theorem planPayload_inj {fields fields' : List String} {nested nested' : Selection}
    (h : planPayload fields nested = planPayload fields' nested') :
    fields = fields' ∧ nested = nested' := by
  simp only [planPayload, Json.object.injEq, List.cons.injEq, Prod.mk.injEq, true_and,
    and_true] at h
  refine ⟨Json.ofStrings_injective h.1, ?_⟩
  refine (List.map_inj_right ?_).mp h.2
  rintro ⟨type, names⟩ ⟨type', names'⟩ he
  obtain ⟨rfl, hnames⟩ := Prod.mk.inj he
  exact congrArg (Prod.mk type) (Json.ofStrings_injective hnames)

inductive Question where
  | fields (r : ResourceSchema) (requested : Option (List String)) (excluded : List String)
  | plan (r : ResourceSchema) (names : List String) (nested : Selection)

namespace Question

def resource : Question → ResourceSchema
  | fields r _ _ => r
  | plan r _ _ => r

def payload (s : Service) : Question → Json
  | fields r requested excluded =>
    resolutionPayload s.settings.order (requested.map r.knownRequest) (r.knownExclusions excluded)
  | plan _ names nested => planPayload names nested

def key (s : Service) : Question → String
  | fields r requested excluded => s.resolutionKey r requested excluded
  | plan r names nested => s.planKey r names nested

def codec [Room] : Question → Codec Metadata
  | fields .. => Metadata.dataCodec
  | plan .. => Metadata.planCodec

def answer (s : Service) : Question → Result ServiceError Metadata
  | fields r requested excluded => .ok (.data (Json.ofStrings (s.shownFields r requested excluded)))
  | plan r names nested =>
    ((s.builtPlan nested r names).map .plan).mapError fun e => .raised (.plan e)

variable {s : Service}

def topic (s : Service) (q : Question) : Topic :=
  match q with
  | fields r _ _ => .fields r.type (signature (q.payload s))
  | plan r _ _ => .plan r.type (signature (q.payload s))

theorem key_eq (s : Service) (q : Question) :
    q.key s = (q.topic s).key s.settings.keyPrefix := by
  cases q <;> rfl

theorem plain_topic (s : Service) (q : Question) : (q.topic s).Plain := by
  cases q <;> exact length_signature _

/-- The data that a key is made of has no integers, so that it always has a signature. -/
theorem signature?_payload (s : Service) (q : Question) :
    signature? (q.payload s) = .ok (signature (q.payload s)) := by
  have hshort : (q.payload s).hasLongInt = false := by
    cases q with
    | fields r requested excluded =>
      simp only [payload, resolutionPayload, Json.hasLongInt]
      refine Json.anyLongEntry_eq_false fun e he => ?_
      simp only [List.mem_cons, List.not_mem_nil, or_false] at he
      rcases he with rfl | rfl | rfl
      · rfl
      · cases requested with
        | none => rfl
        | some names => exact Json.hasLongInt_ofStrings _
      · exact Json.hasLongInt_ofStrings _
    | plan r names nested =>
      simp only [payload, planPayload, Json.hasLongInt]
      refine Json.anyLongEntry_eq_false fun e he => ?_
      simp only [List.mem_cons, List.not_mem_nil, or_false] at he
      rcases he with rfl | rfl
      · exact Json.hasLongInt_ofStrings _
      · simp only [Json.hasLongInt]
        refine Json.anyLongEntry_eq_false fun e he => ?_
        obtain ⟨_, -, rfl⟩ := List.mem_map.mp he
        exact Json.hasLongInt_ofStrings _
  rw [signature?, Json.checkDigits, hshort]
  rfl

/-- A key stands for one question, as far as signatures tell payloads apart. -/
theorem answer_of_key [Room] {p q : Question} (hp : s.catalog.find? p.resource.type = some p.resource)
    (hq : s.catalog.find? q.resource.type = some q.resource)
    (hsignature : signature (p.payload s) = signature (q.payload s) → p.payload s = q.payload s)
    (h : p.key s = q.key s) : p.codec = q.codec ∧ p.answer s = q.answer s := by
  have hresource (htype : p.resource.type = q.resource.type) : p.resource = q.resource := by
    rw [htype, hq] at hp
    exact (Option.some.inj hp).symm
  rw [key_eq, key_eq] at h
  have htopic := Topic.eq_of_key (p.plain_topic s) (q.plain_topic s) h
  cases p with
  | fields r requested excluded =>
    cases q with
    | fields r' requested' excluded' =>
      obtain ⟨htype, hsame⟩ := Topic.fields.inj htopic
      obtain rfl : r = r' := hresource htype
      have hpayload := hsignature hsame
      refine ⟨rfl, ?_⟩
      simp only [answer, Service.shownFields, ResourceSchema.resolve_eq_of_payload hpayload]
    | plan r' names' nested' => cases htopic
  | plan r names nested =>
    cases q with
    | fields r' requested' excluded' => cases htopic
    | plan r' names' nested' =>
      obtain ⟨htype, hsame⟩ := Topic.plan.inj htopic
      obtain rfl : r = r' := hresource htype
      obtain ⟨rfl, rfl⟩ := planPayload_inj (hsignature hsame)
      exact ⟨rfl, rfl⟩

theorem decode_encode [Room] {q : Question} {m : Metadata} {text : String} (hq : q.answer s = .ok m)
    (h : q.codec.encode m = .ok text) : q.codec.decode text = some m := by
  cases q with
  | fields r requested excluded =>
    obtain rfl := Except.ok.inj hq
    exact Metadata.decode_encode_names h
  | plan r names nested =>
    cases hbuilt : s.builtPlan nested r names with
    | error e =>
      rw [answer, hbuilt] at hq
      cases hq
    | ok p =>
      rw [answer, hbuilt] at hq
      obtain rfl := Except.ok.inj hq
      exact Metadata.decode_encode_plan (Service.distinctKeys_of_builtPlan hbuilt) h

end Question

/-- The questions agree with each other: their resources are those of the catalog, and no two of
their payloads share a signature. -/
structure Service.Distinguishes (s : Service) (qs : List Question) : Prop where
  registered : ∀ q ∈ qs, s.catalog.find? q.resource.type = some q.resource
  signatures : ∀ p ∈ qs, ∀ q ∈ qs,
    signature (p.payload s) = signature (q.payload s) → p.payload s = q.payload s

def Service.legend [Room] (s : Service) (qs : List Question) : Legend ServiceError Metadata := fun key =>
  (qs.find? fun q => q.key s == key).map fun q => (q.codec, q.answer s)

/-- The legend gives the answer of a question at its key. -/
def Question.IsIn [Room] (s : Service) (L : Legend ServiceError Metadata) (q : Question) : Prop :=
  L (q.key s) = some (q.codec, q.answer s)

namespace Service

variable {s : Service} {qs : List Question}

theorem Distinguishes.isIn [Room] (h : s.Distinguishes qs) {q : Question} (hq : q ∈ qs) :
    q.IsIn s (s.legend qs) := by
  have hfound : (qs.find? fun p => p.key s == q.key s).isSome :=
    List.find?_isSome.mpr ⟨q, hq, by simp⟩
  obtain ⟨p, hp⟩ := Option.isSome_iff_exists.mp hfound
  have hmem := List.mem_of_find?_eq_some hp
  have hkey : p.key s = q.key s := by simpa using List.find?_some hp
  obtain ⟨hcodec, hanswer⟩ := Question.answer_of_key (h.registered p hmem) (h.registered q hq)
    (h.signatures p hmem q hq) hkey
  rw [Question.IsIn, legend, hp, Option.map_some, hcodec, hanswer]

theorem legend_lossless [Room] (s : Service) (qs : List Question) : (s.legend qs).Lossless := by
  intro key codec m text hkey hencode
  obtain ⟨q, -, hq⟩ := Option.map_eq_some_iff.mp hkey
  obtain ⟨rfl, hanswer⟩ := Prod.mk.inj hq
  exact Question.decode_encode hanswer hencode

variable {L : Legend ServiceError Metadata}

theorem follows_resolveData [Room] {r : ResourceSchema} {requested : Option (List String)}
    {excluded : List String} (h : (Question.fields r requested excluded).IsIn s L) :
    (s.resolveData r requested excluded).Follows L := by
  refine Task.follows_bind _ _ (Task.follows_bind _ _ ?_ ?_) ?_
  · exact Task.follows_cached h trivial
  · intro m _
    cases m <;> trivial
  · intro j _
    unfold Work.members
    split <;> trivial

theorem follows_names (js : List Json) : (Work.names js).Follows L := by
  unfold Work.names
  split <;> trivial

theorem follows_resolve [Room] {r : ResourceSchema} {requested : Option (List String)}
    {excluded : List String} (h : (Question.fields r requested excluded).IsIn s L) :
    (s.resolve r requested excluded).Follows L :=
  Task.follows_bind _ _ (follows_resolveData h) fun js _ => follows_names js

theorem follows_resolveSorted [Room] {r : ResourceSchema} {requested : Option (List String)}
    (h : (Question.fields r requested []).IsIn s L) : (s.resolveSorted r requested).Follows L := by
  refine Task.follows_bind _ _ (follows_resolveData h) fun js _ => ?_
  unfold Work.sortedNames
  split
  · exact Task.follows_bind _ _ (follows_names js) fun ns _ => trivial
  · trivial

theorem follows_ofResource {α : Type} (r : Except ResourceError α) :
    (Work.ofResource r).Follows L :=
  Task.follows_ofExcept _

theorem follows_defaultsOf [Room] {type : String}
    (h : ∀ r, s.catalog.find? type = some r → (Question.fields r none []).IsIn s L) :
    (s.defaultsOf type).Follows L := by
  refine Task.follows_bind _ _ (follows_ofResource _) fun r hr => ?_
  cases hfind : s.catalog.find? type with
  | none => rw [Catalog.schema, hfind] at hr; cases hr
  | some r' =>
    rw [Catalog.schema, hfind] at hr
    obtain rfl := Except.ok.inj hr
    exact follows_resolve (h _ hfind)

theorem follows_childSelection [Room] {type : String} {requested : Option (List String)}
    (hdefaults : ∀ r, s.catalog.find? type = some r → (Question.fields r none []).IsIn s L)
    (hchosen : ∀ r, s.catalog.find? type = some r → (Question.fields r requested []).IsIn s L) :
    (s.childSelection type requested).Follows L := by
  refine Task.follows_bind _ _ (follows_ofResource _) fun r hr => ?_
  cases hfind : s.catalog.find? type with
  | none => rw [Catalog.schema, hfind] at hr; cases hr
  | some r' =>
    rw [Catalog.schema, hfind] at hr
    obtain rfl := Except.ok.inj hr
    refine Task.follows_bind _ _ (follows_resolveSorted (hchosen _ hfind)) fun chosen _ => ?_
    exact Task.follows_bind _ _ (follows_resolveSorted (hdefaults _ hfind)) fun _ _ => trivial

theorem follows_resolveNested [Room] {root : String} {nested : Entries (Option (List String))}
    (hdefaults : ∀ type r, s.catalog.find? type = some r → (Question.fields r none []).IsIn s L)
    (hchosen : ∀ e ∈ nested, ∀ r, s.catalog.find? e.1 = some r →
      (Question.fields r e.2 []).IsIn s L) : (s.resolveNested root nested).Follows L := by
  induction nested with
  | nil => trivial
  | cons e rest ih =>
    have hrest := ih fun e he => hchosen e (List.mem_cons_of_mem _ he)
    unfold resolveNested
    split
    · refine Task.follows_bind _ _ (follows_childSelection (hdefaults _)
        (hchosen e List.mem_cons_self)) fun chosen _ => ?_
      exact Task.follows_bind _ _ hrest fun _ _ => trivial
    · exact hrest

end Service

theorem Walk.visit_follows {w : Walk} {L : Legend ServiceError Metadata}
    (h : ∀ f type, (w.childFields f type).Follows L) (ancestors : List String) (s : ResourceSchema)
    (path : String) (names : List String) (p : LoadPlan) :
    (w.visit ancestors s path names p).Follows L := by
  fun_induction Walk.visit w ancestors s path names p with
  | case1 => trivial
  | case2 ancestors s path name rest p hget ih => exact ih
  | case3 ancestors s path name rest p f hget ihrest ihchild =>
    refine Task.follows_bind _ _ (Task.follows_ofExcept _) fun q _ => ?_
    cases hchild : w.catalog.child? ancestors f with
    | none => exact ihrest q
    | some child =>
      refine Task.follows_bind _ _ (h f child.1.type) fun names _ => ?_
      exact Task.follows_bind _ _ (ihchild q child names) fun q _ => ihrest q

namespace Service

variable {s : Service} {L : Legend ServiceError Metadata}

theorem follows_build [Room]
    (hdefaults : ∀ type r, s.catalog.find? type = some r → (Question.fields r none []).IsIn s L)
    (nested : Selection) (r : ResourceSchema) (names : List String) :
    ((s.walk nested).build r names).Follows L := by
  refine Task.follows_bind _ _ (Walk.visit_follows ?_ _ _ _ _ _) fun _ _ => trivial
  intro f type
  unfold Walk.childFields
  split
  · trivial
  · split
    · trivial
    · exact follows_defaultsOf (hdefaults type)

/-- The questions behind a plan: the defaults of any resource, the requests for embedded types, and
the plan itself. -/
def compileQuestions (s : Service) (r : ResourceSchema) (fields : List String)
    (nested : Entries (Option (List String))) : List Question :=
  (s.catalog.types.filterMap s.catalog.find?).map (.fields · none []) ++
    (nested.filterMap fun (type, requested) =>
      (s.catalog.find? type).map (.fields · requested [])) ++
    [.plan r (plannedFields r fields) (s.chosenNested r.type nested).sorted]

theorem mem_compileQuestions_defaults {type : String} {child : ResourceSchema}
    (h : s.catalog.find? type = some child) (r : ResourceSchema) (fields : List String)
    (nested : Entries (Option (List String))) :
    .fields child none [] ∈ s.compileQuestions r fields nested := by
  simp only [compileQuestions, List.mem_append, List.mem_map, List.mem_filterMap]
  exact .inl (.inl ⟨child, ⟨type, Catalog.mem_types_of_find? h, h⟩, rfl⟩)

theorem mem_compileQuestions_nested {nested : Entries (Option (List String))}
    {e : String × Option (List String)} (he : e ∈ nested) {child : ResourceSchema}
    (h : s.catalog.find? e.1 = some child) (r : ResourceSchema) (fields : List String) :
    .fields child e.2 [] ∈ s.compileQuestions r fields nested := by
  simp only [compileQuestions, List.mem_append, List.mem_filterMap]
  exact .inl (.inr ⟨e, he, by simp [h]⟩)

theorem follows_compile [Room] {r : ResourceSchema} {fields : List String}
    {nested : Entries (Option (List String))}
    (h : ∀ q ∈ s.compileQuestions r fields nested, q.IsIn s L) :
    (s.compile r fields nested).Follows L := by
  have hdefaults : ∀ type child, s.catalog.find? type = some child →
      (Question.fields child none []).IsIn s L := fun type child hchild =>
    h _ (mem_compileQuestions_defaults hchild r fields nested)
  have hchosen : ∀ e ∈ nested, ∀ child, s.catalog.find? e.1 = some child →
      (Question.fields child e.2 []).IsIn s L := fun e he child hchild =>
    h _ (mem_compileQuestions_nested he hchild r fields)
  have hplan : (Question.plan r (plannedFields r fields) (s.chosenNested r.type nested).sorted).IsIn
      s L := h _ (by simp [compileQuestions])
  refine Task.follows_bind _ _ (follows_resolveNested hdefaults hchosen) fun chosen hc => ?_
  rw [eval_resolveNested] at hc
  obtain rfl := Except.ok.inj hc
  refine Task.follows_bind _ _ (Task.follows_cached ?_ ?_) fun m _ => ?_
  · refine hplan.trans ?_
    rw [Task.eval_bind, eval_build, Question.answer]
    cases s.builtPlan (s.chosenNested r.type nested).sorted r (plannedFields r fields) <;> rfl
  · exact Task.follows_bind _ _ (follows_build hdefaults _ _ _) fun _ _ => trivial
  · cases m <;> trivial

end Service
end FieldPlan
