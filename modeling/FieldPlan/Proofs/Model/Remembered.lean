import FieldPlan.Proofs.Model.Paths
import FieldPlan.Proofs.Plan.Codec
import FieldPlan.Proofs.Service.Questions
/-!
# What is remembered of the models

A loader asks its cache four kinds of questions about the models: their columns, the kinds of these,
which names are relationships, and where they lead. A key stands for one question, since the name of
a class has no colons, so that plans are applied alike with and without a cache.
-/
namespace FieldPlan

open Cache

inductive ModelQuestion where
  | columns (m : Model)
  | columnKinds (m : Model)
  | relationship (m : Model) (name : String)
  | relatedModel (m : Model) (name : String)

namespace ModelQuestion

def model : ModelQuestion → Model
  | columns m | columnKinds m | relationship m _ | relatedModel m _ => m

def key (space : String) : ModelQuestion → String
  | columns m => Work.key space .columns [m.name]
  | columnKinds m => Work.key space .columnKinds [m.name]
  | relationship m name => Work.key space .relationship [m.name, name]
  | relatedModel m name => Work.key space .relatedModel [m.name, name]

def answer : ModelQuestion → Result ServiceError Metadata
  | columns m => .ok (.data (Json.ofStrings m.columnNames))
  | columnKinds m =>
    .ok (.data (.object (m.valueKinds.map fun (name, kind) => (name, .string kind))))
  | relationship m name => .ok (.data (.bool (m.relationship? name).isSome))
  | relatedModel m name =>
    match m.relationship? name with
    | some r => .ok (.data (.string r.target))
    | none => .error (.raised (.model (.unknownRelationship m.name name)))

/-- What the key of a question of a loader is about. -/
def topic : ModelQuestion → Topic
  | columns m => .columns m.name
  | columnKinds m => .columnKinds m.name
  | relationship m name => .relationship m.name name
  | relatedModel m name => .relatedModel m.name name

theorem key_eq (space : String) (q : ModelQuestion) :
    q.key space = q.topic.key space := by
  cases q <;> rfl

theorem plain_topic {q : ModelQuestion} (h : ':' ∉ q.model.name.toList) :
    q.topic.Plain := by
  cases q <;> exact h

theorem eq_of_key {space : String} {p q : ModelQuestion} (hp : ':' ∉ p.model.name.toList)
    (hq : ':' ∉ q.model.name.toList) (h : p.key space = q.key space)
    (hmodel : p.model.name = q.model.name → p.model = q.model) : p = q := by
  rw [key_eq, key_eq] at h
  have htopic := Topic.eq_of_key (plain_topic hp) (plain_topic hq) h
  cases p with
  | columns m =>
    cases q with
    | columns m' => exact congrArg columns (hmodel (Topic.columns.inj htopic))
    | _ => cases htopic
  | columnKinds m =>
    cases q with
    | columnKinds m' => exact congrArg columnKinds (hmodel (Topic.columnKinds.inj htopic))
    | _ => cases htopic
  | relationship m name =>
    cases q with
    | relationship m' name' =>
      obtain ⟨hname, rfl⟩ := Topic.relationship.inj htopic
      exact congrArg (relationship · name) (hmodel hname)
    | _ => cases htopic
  | relatedModel m name =>
    cases q with
    | relatedModel m' name' =>
      obtain ⟨hname, rfl⟩ := Topic.relatedModel.inj htopic
      exact congrArg (relatedModel · name) (hmodel hname)
    | _ => cases htopic

theorem decode_encode [Room] {q : ModelQuestion} (hq : q.model.columnNames.Nodup) {v : Metadata}
    (hv : q.answer = .ok v) {text : String} (h : Metadata.dataCodec.encode v = .ok text) :
    Metadata.dataCodec.decode text = some v := by
  cases q with
  | columns m =>
    obtain rfl := Except.ok.inj hv
    exact Metadata.decode_encode_names h
  | columnKinds m =>
    obtain rfl := Except.ok.inj hv
    refine Metadata.decode_encode_data (Json.storable_reading fun room => ?_) h
    refine @Json.Storable.object (room + 3) _ ?_ fun e he => ?_
    · have hnames : (m.valueKinds.map fun (name, kind) => (name, Json.string kind)).map (·.1) =
          m.columnNames := by
        simp [Model.valueKinds, Model.columnNames]
      rw [hnames]
      exact hq
    · obtain ⟨_, -, rfl⟩ := List.mem_map.mp he
      exact .string _ _
  | relationship m name =>
    obtain rfl := Except.ok.inj hv
    exact Metadata.decode_encode_data (.bool _ _) h
  | relatedModel m name =>
    cases hfound : m.relationship? name with
    | none =>
      simp only [answer, hfound] at hv
      cases hv
    | some r =>
      simp only [answer, hfound] at hv
      obtain rfl := Except.ok.inj hv
      exact Metadata.decode_encode_data (.string _ _) h

end ModelQuestion

/-- Names as classes and their attributes have them: classes without colons, attributes that differ
from each other, relationships that can stand in a path. -/
structure Mapping.Regular (mapping : Mapping) : Prop where
  classes : ∀ m ∈ mapping.models, ':' ∉ m.name.toList
  columns : ∀ m ∈ mapping.models, m.columnNames.Nodup
  relationships : mapping.PlainNames

namespace Loader

variable {l : Loader} {L : Legend ServiceError Metadata} {m : Model}

def Maps (l : Loader) (m : Model) : Prop := l.mapping.model? m.name = some m

theorem maps_of_model? {name : String} (h : l.mapping.model? name = some m) : l.Maps m := by
  have hname : m.name = name := by simpa using List.find?_some h
  rw [Maps, hname, h]

theorem Maps.mem (h : l.Maps m) : m ∈ l.mapping.models := List.mem_of_find?_eq_some h

theorem Steps.maps {p : LoadPlan} {before segments : List String} {steps : List PathStep}
    {last : Model} (h : l.Steps p m before segments steps last) (hm : l.Maps m) : l.Maps last := by
  induction h with
  | nil => exact hm
  | cons hleads _ _ ih => exact ih (maps_of_model? hleads.target)

theorem follows_modelError {α : Type} (e : ModelError) : (Work.modelError e : Work α).Follows L :=
  trivial

theorem follows_condition? (name? : Option String) (target : Model) :
    (l.condition? name? target).Follows L := by
  unfold condition?
  cases name?.filter (· != "") with
  | none => trivial
  | some n =>
    have hcondition : (l.condition n target).Follows L := by
      refine Task.follows_bind _ _ (Service.follows_ofResource _) fun c _ => ?_
      exact Task.follows_ofExcept _
    exact Task.follows_bind _ _ hcondition fun _ _ => trivial

variable [Room]

/-- A legend that has the answers to the questions about mapped models. -/
def Knows (l : Loader) (L : Legend ServiceError Metadata) : Prop :=
  ∀ q : ModelQuestion, l.Maps q.model →
    L (q.key l.keyPrefix) = some (Metadata.dataCodec, q.answer)

open Classical in
noncomputable def legend (l : Loader) : Legend ServiceError Metadata := fun key =>
  if h : ∃ q : ModelQuestion, l.Maps q.model ∧ q.key l.keyPrefix = key then
    some (Metadata.dataCodec, h.choose.answer)
  else none

theorem knows_legend (h : l.mapping.Regular) : l.Knows l.legend := by
  intro q hq
  have hexists : ∃ p : ModelQuestion, l.Maps p.model ∧ p.key l.keyPrefix = q.key l.keyPrefix :=
    ⟨q, hq, rfl⟩
  obtain ⟨hmaps, hkey⟩ := hexists.choose_spec
  have hsame : hexists.choose = q := by
    refine ModelQuestion.eq_of_key (h.classes _ hmaps.mem) (h.classes _ hq.mem) hkey fun hname => ?_
    rw [Maps, hname, hq] at hmaps
    exact (Option.some.inj hmaps).symm
  rw [legend, dif_pos hexists, hsame]

theorem legend_lossless (h : l.mapping.Regular) : l.legend.Lossless := by
  intro key codec v text hkey hencode
  unfold legend at hkey
  split at hkey
  · next hexists =>
    obtain ⟨rfl, hanswer⟩ := Prod.mk.inj (Option.some.inj hkey)
    exact ModelQuestion.decode_encode (h.columns _ hexists.choose_spec.1.mem) hanswer hencode
  · cases hkey

private theorem follows_cachedData {key : String} {body : Work Json}
    (hkey : L key = some (Metadata.dataCodec, (body.bind fun j => .pure (.data j)).eval))
    (hbody : body.Follows L) : (Work.cachedData key body).Follows L := by
  refine Task.follows_bind _ _ (Task.follows_cached hkey ?_) fun v _ => ?_
  · exact Task.follows_bind _ _ hbody fun _ _ => trivial
  · cases v <;> trivial

variable (hL : l.Knows L)
include hL

theorem follows_isRelation (hm : l.Maps m) (name : String) : (l.isRelation m name).Follows L :=
  follows_cachedData (hL (.relationship m name) hm) trivial

theorem follows_relatedModel (hm : l.Maps m) (name : String) :
    (l.relatedModel m name).Follows L := by
  refine Task.follows_bind _ _ (follows_cachedData ?_ ?_) fun j _ => ?_
  · refine (hL (.relatedModel m name) hm).trans ?_
    simp only [ModelQuestion.answer]
    cases m.relationship? name <;> rfl
  · cases m.relationship? name <;> trivial
  · cases j.string?.bind l.mapping.model? <;> trivial

theorem follows_steps (p : LoadPlan) (path : String) (hm : l.Maps m)
    (before segments : List String) : (l.steps p path m before segments).Follows L := by
  induction segments generalizing m before with
  | nil => trivial
  | cons segment rest ih =>
    refine Task.follows_bind _ _ (follows_isRelation hL hm segment) fun relation _ => ?_
    cases relation.isFalsy with
    | true => exact follows_modelError _
    | false =>
      refine Task.follows_bind _ _ (follows_relatedModel hL hm segment) fun target htarget => ?_
      obtain ⟨r, hleads⟩ := eval_relatedModel.mp htarget
      have htarget := maps_of_model? hleads.target
      cases m.relationship? segment with
      | none => exact follows_modelError _
      | some r =>
        refine Task.follows_bind _ _ (follows_condition? _ target) fun c _ => ?_
        exact Task.follows_bind _ _ (ih htarget (before ++ [segment])) fun _ _ => trivial

theorem follows_knownColumns {α : Type} (hm : l.Maps m) (f : List String → Work α)
    (hf : ∀ known, (f known).Follows L) :
    (do f (← Work.names (← Work.members (← l.columnNames m)))).Follows L := by
  have hcolumns : (l.columnNames m).Follows L :=
    follows_cachedData (hL (.columns m) hm) trivial
  refine Task.follows_bind _ _ hcolumns fun j _ => ?_
  have hmembers : (Work.members j).Follows L := by
    unfold Work.members
    split <;> trivial
  refine Task.follows_bind _ _ hmembers fun js _ => ?_
  exact Task.follows_bind _ _ (Service.follows_names js) fun known _ => hf known

theorem follows_projection (hm : l.Maps m) (columns : List String) :
    (l.projection m columns).Follows L := by
  refine follows_knownColumns hL hm _ fun known => ?_
  dsimp only
  split
  · trivial
  · split <;> trivial

theorem follows_option (p : LoadPlan) (hm : l.Maps m) (path : String) (load : RelationLoad) :
    (l.option p m path load).Follows L := by
  refine Task.follows_bind _ _ (follows_steps hL p path hm [] _) fun ⟨steps, last⟩ hsteps => ?_
  have hlast : l.Maps last := (eval_steps.mp hsteps).maps hm
  dsimp only
  cases (load.columns.getD []).isEmpty with
  | true => trivial
  | false => exact Task.follows_bind _ _ (follows_projection hL hlast _) fun _ _ => trivial

theorem follows_options (p : LoadPlan) (hm : l.Maps m) (loads : Entries RelationLoad) :
    (l.options p m loads).Follows L := by
  induction loads with
  | nil => trivial
  | cons e loads ih =>
    refine Task.follows_bind _ _ (follows_option hL p hm e.1 e.2) fun o _ => ?_
    exact Task.follows_bind _ _ ih fun _ _ => trivial

theorem follows_aggregatedColumn (hm : l.Maps m) (a : AggregateLoad) :
    (l.aggregatedColumn m a).Follows L := by
  have hnumeric (kind : AggregateKind) : (l.numericColumn kind m a.column).Follows L := by
    have hkinds : (l.columnKinds m).Follows L :=
      follows_cachedData (hL (.columnKinds m) hm) trivial
    refine Task.follows_bind _ _ hkinds fun kinds _ => ?_
    dsimp only
    split
    · trivial
    · split
      · trivial
      · split
        · trivial
        · split <;> trivial
  unfold aggregatedColumn
  cases a.kind with
  | count => trivial
  | sum => exact hnumeric .sum
  | average => exact hnumeric .average

theorem follows_aggregateColumn (hm : l.Maps m) (label : String) (a : AggregateLoad) :
    (l.aggregateColumn m label a).Follows L := by
  refine Task.follows_bind _ _ (follows_isRelation hL hm a.relation) fun relation _ => ?_
  cases relation.isFalsy with
  | true => exact follows_modelError _
  | false =>
    cases m.relationship? a.relation with
    | none => exact follows_modelError _
    | some r =>
      refine Task.follows_bind _ _ (follows_relatedModel hL hm a.relation) fun target ht => ?_
      obtain ⟨_, hleads⟩ := eval_relatedModel.mp ht
      have htarget := maps_of_model? hleads.target
      refine Task.follows_bind _ _ (follows_aggregatedColumn hL htarget a) fun column _ => ?_
      exact Task.follows_bind _ _ (follows_condition? _ target) fun _ _ => trivial

theorem follows_aggregates (hm : l.Maps m) (loads : Entries AggregateLoad) :
    (l.aggregates m loads).Follows L := by
  induction loads with
  | nil => trivial
  | cons e loads ih =>
    obtain ⟨label, a⟩ := e
    rw [aggregates]
    split
    · exact ih
    · refine Task.follows_bind _ _ (follows_aggregateColumn hL hm label a) fun c _ => ?_
      exact Task.follows_bind _ _ ih fun _ _ => trivial

/-- Applying a plan asks under each key what the key stands for. -/
theorem follows_apply (hm : l.Maps m) (p : LoadPlan) : (l.apply m p).Follows L := by
  refine Task.follows_bind _ _ (follows_options hL p hm p.relations) fun options _ => ?_
  exact Task.follows_bind _ _ (follows_aggregates hL hm p.aggregates) fun _ _ => trivial

end Loader
end FieldPlan
