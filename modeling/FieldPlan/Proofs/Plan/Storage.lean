import FieldPlan.Proofs.Entries
import FieldPlan.Proofs.Json.Limits
import FieldPlan.Proofs.Plan.Codec
/-!
# Storing plans

Every plan can be written to a shared store, whatever its names are made of, and whoever reads the
store has the same plan again, with its entries in the same order. So different plans have
different texts.
-/
namespace FieldPlan

namespace Json

theorem Storable.hasLongInt_eq_false {room : Nat} {j : Json} (h : Storable room j) :
    j.hasLongInt = false := by
  induction h with
  | null room => rfl
  | bool room b => rfl
  | string room s => rfl
  | array _ ih =>
    simp only [hasLongInt]
    exact anyLongInt_eq_false ih
  | object _ _ ih =>
    simp only [hasLongInt]
    exact anyLongEntry_eq_false ih

end Json

namespace Cache

theorem Codec.encode_of_storable [Room] {ν : Type} {dump : ν → Except String Json}
    {load : Json → Option ν} {v : ν} {j : Json} {room : Nat} (hdump : dump v = .ok j)
    (hj : j.Storable room) : (Codec.json dump load).encode v = .ok j.storedText := by
  have hshort : j.checkDigits = .ok () := by
    rw [Json.checkDigits, hj.hasLongInt_eq_false]
    rfl
  simp [Codec.json, hdump, hshort, Bind.bind, Except.bind, pure, Except.pure]

theorem Store.fetch_of_publish {ν : Type} {s : Store SharedStore ν} {b : SharedStore}
    (hbackend : s.backend = some b) (hreads : b.failsRead = false) (hwrites : b.failsWrite = false)
    (key : String) {codec : Codec ν} {v : ν} {text : String} (hencode : codec.encode v = .ok text)
    (hdecode : codec.decode text = some v) :
    ∃ b', (s.publish key codec v).backend = some b' ∧
      ∀ reader : Store SharedStore ν, reader.backend = some b' →
        (reader.fetch key codec).1 = some v := by
  have hset : Backend.set b key text s.lifetime = (.ok (),
      { b with
        writes := b.writes + 1, texts := b.texts.set key text,
        lifetimes := b.lifetimes.set key s.lifetime }) := by
    simp [Backend.set, SharedStore.set, hwrites]
  refine ⟨(Backend.set b key text s.lifetime).2, ?_, ?_⟩
  · simp [publish, hbackend, hencode, hset]
  · intro reader hreader
    have hget : (Backend.get (Backend.set b key text s.lifetime).2 key).1 = .ok (some text) := by
      simp [hset, Backend.get, SharedStore.get, hreads, Entries.get?_set]
    simp only [fetch, hreader, hget, hdecode]

end Cache

namespace Metadata

variable [Room]

theorem encode_plan {p : LoadPlan} (hp : p.DistinctKeys) :
    planCodec.encode (.plan p) = .ok p.toData.storedText :=
  Cache.Codec.encode_of_storable rfl (Json.storable_plan 0 hp)

/-- A plan is written, and what is written is read back as this plan and no other. Where a working
backend takes the text, every store with this backend fetches the plan. -/
theorem plan_survives_storage {p : LoadPlan} (hp : p.DistinctKeys) :
    ∃ text, planCodec.encode (.plan p) = .ok text ∧ planCodec.decode text = some (.plan p) ∧
      (∀ q : LoadPlan, q.DistinctKeys → planCodec.encode (.plan q) = .ok text → q = p) ∧
      ∀ (s : Cache.Store Cache.SharedStore Metadata) (b : Cache.SharedStore) (key : String),
        s.backend = some b → b.failsRead = false → b.failsWrite = false →
        ∃ b', (s.publish key planCodec (.plan p)).backend = some b' ∧
          ∀ reader : Cache.Store Cache.SharedStore Metadata, reader.backend = some b' →
            (reader.fetch key planCodec).1 = some (.plan p) := by
  have hwritten := encode_plan hp
  have hread := decode_encode_plan hp hwritten
  refine ⟨p.toData.storedText, hwritten, hread, ?_, ?_⟩
  · intro q hq hsame
    have hother := decode_encode_plan hq hsame
    rw [hread] at hother
    injection hother with hother
    injection hother with hother
    exact hother.symm
  · intro s b key hbackend hreads hwrites
    exact Cache.Store.fetch_of_publish hbackend hreads hwrites key hwritten hread

end Metadata

namespace Escapes

attribute [local instance] Room.usual

/-- Absent, empty and projected columns, and names with quotes, line ends, accents and symbols. -/
def plan : LoadPlan where
  relations := [
    ("größe", ⟨none, none, some "it's \"new\"", true, false⟩),
    ("größe.line\nend", ⟨some "日本\\", some [], some "", false, true⟩),
    ("author", ⟨some "user", some ["id", "\t", "😀"], none, false, false⟩)]
  aggregates := [
    ("größe.total/\u0001", ⟨"marks", .sum, some "é", none, "größe"⟩),
    ("", ⟨"marks", .count, none, some "\"", ""⟩)]

theorem survives_storage :
    plan.DistinctKeys ∧
    ∃ text, Metadata.planCodec.encode (.plan plan) = .ok text ∧
      Metadata.planCodec.decode text = some (.plan plan) := by
  have hplan : plan.DistinctKeys := by decide
  obtain ⟨text, hwritten, hread, -, -⟩ := Metadata.plan_survives_storage hplan
  exact ⟨hplan, text, hwritten, hread⟩

end Escapes
end FieldPlan
