import FieldPlan.Proofs.Cache.Isolation
import FieldPlan.Proofs.Cache.Progress
/-!
# What a task asks for

The keys that a task remembers something under when everything is computed anew. A task of low rank
asks for no key of a high rank, and so leaves what is remembered there alone.
-/
namespace FieldPlan.Cache.Task

variable {β ε ν α : Type}

def asked : {α : Type} → Task ε ν α → List String
  | _, .pure _ => []
  | _, .fail _ => []
  | _, .note _ next => next.asked
  | _, .remember key _ body next => key :: (body.asked ++ (next body.eval).asked)

theorem asked_bind {γ : Type} (t : Task ε ν α) (f : α → Task ε ν γ) :
    (t.bind f).asked = t.asked ++ match t.eval with
      | .ok a => (f a).asked
      | .error _ => [] := by
  induction t with
  | pure a => rfl
  | fail e => rfl
  | note text next ih => exact ih f
  | remember key codec body next _ ih =>
    simp only [bind, asked, ih, eval, List.cons_append, List.append_assoc]

theorem asked_cached (key : String) (codec : Codec ν) (body : Task ε ν ν) :
    (cached key codec body).asked = key :: body.asked := by
  cases h : body.eval <;> simp [cached, asked, ofResult, h]

variable {rank : String → Nat} {n : Nat}

/-- No key of a higher rank is asked for. -/
theorem Below.rank_lt_of_mem_asked {t : Task ε ν α} (h : t.Below rank n) {key : String}
    (hkey : key ∈ t.asked) : rank key < n := by
  induction t generalizing n with
  | pure a => cases hkey
  | fail e => cases hkey
  | note text next ih => exact ih h hkey
  | remember k codec body next ihbody ihnext =>
    obtain ⟨hk, hbody, hnext⟩ := h
    rcases List.mem_cons.mp hkey with rfl | hkey
    · exact hk
    · rcases List.mem_append.mp hkey with hkey | hkey
      · exact Nat.lt_trans (ihbody hbody hkey) hk
      · exact ihnext _ (hnext _) hkey

theorem Free.mono {busy busy' : String → Prop} {t : Task ε ν α} (h : t.Free busy)
    (hbusy : ∀ key, busy' key → busy key) : t.Free busy' := by
  induction t generalizing busy busy' with
  | pure a => trivial
  | fail e => trivial
  | note text next ih => exact ih h hbusy
  | remember k codec body next ihbody ihnext =>
    obtain ⟨hk, hbody, hnext⟩ := h
    refine ⟨fun hbusy' => hk (hbusy k hbusy'), ihbody hbody fun key hkey => ?_,
      fun r => ihnext r (hnext r) hbusy⟩
    exact hkey.imp_right (hbusy key)

theorem Below.free {t : Task ε ν α} (h : t.Below rank n) : t.Free fun key => n ≤ rank key := by
  induction t generalizing n with
  | pure a => trivial
  | fail e => trivial
  | note text next ih => exact ih h
  | remember k codec body next ihbody ihnext =>
    obtain ⟨hk, hbody, hnext⟩ := h
    refine ⟨Nat.not_le_of_lt hk, (ihbody hbody).mono fun key hkey => ?_,
      fun r => ihnext r (hnext r)⟩
    rcases hkey with rfl | hkey
    · exact Nat.le_refl _
    · exact Nat.le_trans (Nat.le_of_lt hk) hkey

theorem free_bind {busy : String → Prop} {γ : Type} {t : Task ε ν α} {f : α → Task ε ν γ}
    (ht : t.Free busy) (hf : ∀ a, (f a).Free busy) : (t.bind f).Free busy := by
  induction t generalizing busy with
  | pure a => exact hf a
  | fail e => trivial
  | note text next ih => exact ih ht hf
  | remember k codec body next _ ih => exact ⟨ht.1, ht.2.1, fun r => ih r (ht.2.2 r) hf⟩

/-- Against a store in which nothing is under way, the task adds nothing under some keys. -/
def Leaves [Backend β] (busy : String → Prop) (t : Task ε ν α) (s : Store β ν) : Prop :=
  Kept busy s (t.run s).2 ∧ (t.run s).2.flights = []

variable [Backend β] {busy : String → Prop} {s : Store β ν}

theorem Free.leaves {t : Task ε ν α} (h : t.Free busy) (hidle : s.flights = []) :
    t.Leaves busy s := by
  have hrun := h.run (s := s) fun key f hf => by
    rw [hidle] at hf
    cases hf
  exact ⟨hrun.1, hrun.2.trans hidle⟩

theorem Leaves.pure (a : α) (hidle : s.flights = []) :
    (Task.pure a : Task ε ν α).Leaves busy s :=
  ⟨.refl s, hidle⟩

theorem Leaves.bind {γ : Type} {t : Task ε ν α} {f : α → Task ε ν γ} (ht : t.Leaves busy s)
    (hf : ∀ a, (t.run s).1 = .ok a → (f a).Leaves busy (t.run s).2) :
    (t.bind f).Leaves busy s := by
  obtain ⟨hkept, hflights⟩ := ht
  rw [Leaves, run_bind]
  revert hkept hflights hf
  rcases t.run s with ⟨a | e, s'⟩
  · exact fun _ hkept hflights => ⟨hkept, hflights⟩
  · rintro hf hkept -
    obtain ⟨hrest, hflights⟩ := hf e rfl
    exact ⟨hkept.trans hrest, hflights⟩

end FieldPlan.Cache.Task
