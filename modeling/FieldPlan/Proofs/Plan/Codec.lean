import FieldPlan.Proofs.Json.RoundTrip
import FieldPlan.Proofs.Plan.Contributions
/-!
# Plans and lists of names in the store

A plan whose paths and aggregate keys are distinct is read back from the text it is stored as, and
so is a list of names.
-/
namespace FieldPlan

open Validation

private theorem text_string (s : String) : text (.string s) = .ok s := rfl

private theorem flag_bool (b : Bool) : flag (.bool b) = .ok b := rfl

private theorem nullable_optionalText (s : Option String) :
    nullable text (optionalText s) = .ok s := by
  cases s <;> rfl

theorem Validation.Checked.all_ok {α : Type} (as : List α) :
    Checked.all (as.map Except.ok) = (.ok as : Checked (List α)) := by
  induction as with
  | nil => rfl
  | cons a as ih =>
    simp only [Checked.all, List.map_cons, List.foldr_cons] at ih ⊢
    rw [ih]
    rfl

private theorem items_text (kind : FaultKind) (names : List String) :
    items kind text (Json.ofStrings names) = .ok names := by
  have hread : ((names.map Json.string).zipIdx.map fun e => (text e.1).under (toString e.2)) =
      names.map Except.ok := by
    calc
      _ = names.zipIdx.map (Except.ok ∘ Prod.fst) := by
        rw [List.zipIdx_map, List.map_map]
        rfl
      _ = names.map Except.ok := by rw [← List.map_map, List.zipIdx_map_fst]
  have hall := Checked.all_ok names
  rw [← hread] at hall
  exact hall

private theorem nullable_columns (columns : Option (List String)) :
    nullable (tuple text) ((columns.map Json.ofStrings).getD .null) = .ok columns := by
  cases columns with
  | none => rfl
  | some names =>
    change (tuple text (Json.ofStrings names)).map some = _
    rw [tuple, items_text]
    rfl

private theorem member_ok {α : Type} {entries : List (String × Json)} {name : String}
    {default? : Option α} {read : Reader α} {j : Json} {a : α} (hj : entries.lookup name = some j)
    (ha : read j = .ok a) : member entries name default? read = .ok a := by
  unfold member
  rw [hj]
  simp only [ha]
  rfl

private theorem and_ok {α β : Type} (f : α → β) (a : α) :
    Checked.and (.ok f) (.ok a) = .ok (f a) :=
  rfl

theorem RelationLoad.read_toData (l : RelationLoad) : record ofEntries l.toData = .ok l := by
  simp only [record, toData, ofEntries]
  rw [member_ok rfl (nullable_optionalText l.resource), member_ok rfl (nullable_columns l.columns),
    member_ok rfl (nullable_optionalText l.constraint), member_ok rfl (flag_bool l.many),
    member_ok rfl (flag_bool l.cyclic)]
  simp only [and_ok]

theorem AggregateLoad.read_toData (a : AggregateLoad) : record ofEntries a.toData = .ok a := by
  have hkind : word .oneOf AggregateKind.ofName? (.string a.kind.name) = .ok a.kind := by
    cases a.kind <;> rfl
  simp only [record, toData, ofEntries]
  rw [member_ok rfl (text_string a.relation), member_ok rfl hkind,
    member_ok rfl (nullable_optionalText a.column),
    member_ok rfl (nullable_optionalText a.constraint), member_ok rfl (text_string a.path)]
  simp only [and_ok]

theorem mapping_map {α : Type} {read : Reader α} {write : α → Json}
    (h : ∀ a, read (write a) = .ok a) (entries : Entries α) :
    mapping read (.object (entries.map fun e => (e.1, write e.2))) = .ok entries := by
  have hread : ((entries.map fun e => (e.1, write e.2)).map fun e =>
      Checked.under e.1 ((read e.2).map fun a => (e.1, a))) = entries.map Except.ok := by
    rw [List.map_map]
    refine List.map_congr_left fun e _ => ?_
    simp only [Function.comp, h]
    rfl
  have hall := Checked.all_ok entries
  rw [← hread] at hall
  exact hall

namespace LoadPlan

theorem ofData?_toData (p : LoadPlan) : ofData? p.toData = some p := by
  have hr := mapping_map RelationLoad.read_toData p.relations
  have ha := mapping_map AggregateLoad.read_toData p.aggregates
  simp only [ofData?, record, toData, ofEntries]
  rw [member_ok rfl hr, member_ok rfl ha]
  rfl

end LoadPlan

namespace Json

theorem storable_optionalText (room : Nat) (s : Option String) :
    Storable room (optionalText s) := by
  cases s with
  | none => exact .null room
  | some s => exact .string room s

theorem storable_ofStrings (room : Nat) (names : List String) :
    Storable (room + 1) (ofStrings names) := by
  apply Storable.array
  intro j hj
  obtain ⟨s, -, rfl⟩ := List.mem_map.mp hj
  exact .string room s

theorem storable_load (room : Nat) (l : RelationLoad) : Storable (room + 2) l.toData := by
  apply Storable.object
  · simp
  · intro e he
    simp only [List.mem_cons, List.not_mem_nil, or_false] at he
    rcases he with rfl | rfl | rfl | rfl | rfl
    · exact storable_optionalText _ _
    · cases l.columns with
      | none => exact .null _
      | some names => exact storable_ofStrings room names
    · exact storable_optionalText _ _
    · exact .bool _ _
    · exact .bool _ _

theorem storable_aggregate (room : Nat) (a : AggregateLoad) : Storable (room + 1) a.toData := by
  apply Storable.object
  · simp
  · intro e he
    simp only [List.mem_cons, List.not_mem_nil, or_false] at he
    rcases he with rfl | rfl | rfl | rfl | rfl
    · exact .string _ _
    · exact .string _ _
    · exact storable_optionalText _ _
    · exact storable_optionalText _ _
    · exact .string _ _

theorem storable_map {α : Type} {room : Nat} {write : α → Json}
    (h : ∀ a, Storable room (write a)) {entries : Entries α} (hkeys : entries.keys.Nodup) :
    Storable (room + 1) (.object (entries.map fun (key, a) => (key, write a))) := by
  apply Storable.object
  · rw [List.map_map]
    exact hkeys
  · intro e he
    obtain ⟨⟨key, a⟩, -, rfl⟩ := List.mem_map.mp he
    exact h a

theorem storable_plan (room : Nat) {p : LoadPlan} (h : p.DistinctKeys) :
    Storable (room + 4) p.toData := by
  apply Storable.object
  · simp
  · intro e he
    simp only [List.mem_cons, List.not_mem_nil, or_false] at he
    rcases he with rfl | rfl
    · exact storable_map (storable_load room) h.1
    · exact storable_map (storable_aggregate (room + 1)) h.2

/-- What is stored with room for four values within each other is stored. -/
theorem storable_reading [Room] {j : Json} (h : ∀ room, j.Storable (room + 4)) :
    j.Storable Room.reading := by
  obtain ⟨room, hroom⟩ := Nat.exists_eq_add_of_le' Room.four_le_reading
  exact hroom ▸ h room

end Json

namespace Metadata

variable [Room]

theorem decode_of_unreadable {text : String} (h : (Json.read text).toOption = none) :
    dataCodec.decode text = none ∧ planCodec.decode text = none := by
  constructor <;> simp only [dataCodec, planCodec, Cache.Codec.json, h, Option.bind_none]

private theorem encode_json {dump : Metadata → Except String Json} {load : Json → Option Metadata}
    {m : Metadata} {j : Json} (hdump : dump m = .ok j) {text : String}
    (h : (Cache.Codec.json dump load).encode m = .ok text) : text = j.storedText := by
  simp only [Cache.Codec.json, hdump, Bind.bind, Except.bind] at h
  split at h
  · cases h
  · exact (Except.ok.inj h).symm

theorem decode_encode_data {j : Json} (hj : j.Storable Room.reading) {text : String}
    (h : dataCodec.encode (.data j) = .ok text) : dataCodec.decode text = some (.data j) := by
  rw [encode_json rfl h]
  simp only [dataCodec, Cache.Codec.json, Json.read_storedText hj, Except.toOption,
    Option.bind_some]

theorem decode_encode_names {names : List String} {text : String}
    (h : dataCodec.encode (.data (Json.ofStrings names)) = .ok text) :
    dataCodec.decode text = some (.data (Json.ofStrings names)) :=
  decode_encode_data (Json.storable_reading fun _ => Json.storable_ofStrings _ names) h

theorem decode_encode_plan {p : LoadPlan} (hp : p.DistinctKeys) {text : String}
    (h : planCodec.encode (.plan p) = .ok text) : planCodec.decode text = some (.plan p) := by
  have hstorable := Json.storable_reading fun room => Json.storable_plan room hp
  rw [encode_json rfl h]
  simp only [planCodec, Cache.Codec.json, Json.read_storedText hstorable,
    Except.toOption, Option.bind_some, LoadPlan.ofData?_toData, Option.map_some]

end Metadata
end FieldPlan
