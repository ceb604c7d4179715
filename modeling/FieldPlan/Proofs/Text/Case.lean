import FieldPlan.Text.Case
/-!
# Lowering character by character

The full mapping to lower case makes several characters of one, and looks at the neighbours of a
sigma. Where it does neither, in ASCII for instance, a text is lowered character by character.
-/
namespace FieldPlan.Text

variable {c : Char} {cs : List Char}

theorem toNat_lt_of_toLower (h : c.toLower.toNat < 0x80) : c.toNat < 0x80 := by
  unfold Char.toLower at h
  split at h
  · next hupper => exact Nat.lt_of_le_of_lt hupper.2 (by decide)
  · exact h

theorem lowerChar_of_ascii (h : c.toNat < 0x80) : lowerChar c = [c.toLower] := by
  rw [lowerChar, if_pos h]

theorem lowerChar_of_kept (h : lowerChar c = [c]) : lowerChar c = [c.toLower] := by
  by_cases hascii : c.toNat < 0x80
  · exact lowerChar_of_ascii hascii
  · have hlower : c.toLower = c := by
      unfold Char.toLower
      split
      · next hupper => exact absurd (Nat.lt_of_le_of_lt hupper.2 (by decide)) hascii
      · rfl
    rw [hlower, h]

theorem lowerAfter_eq_map (h : ∀ c ∈ cs, lowerChar c = [c.toLower]) (before : List Char) :
    lowerAfter before cs = cs.map Char.toLower := by
  induction cs generalizing before with
  | nil => rfl
  | cons c cs ih =>
    rw [List.forall_mem_cons] at h
    have hsigma : c ≠ 'Σ' := by
      rintro rfl
      exact absurd h.1 (by decide)
    rw [lowerAfter, if_neg hsigma, h.1, ih h.2]
    rfl

/-- Characters of ASCII are lowered one by one. -/
theorem lowerAfter_of_ascii (h : ∀ c ∈ cs, c.toNat < 0x80) (before : List Char) :
    lowerAfter before cs = cs.map Char.toLower :=
  lowerAfter_eq_map (fun c hc => lowerChar_of_ascii (h c hc)) before

end FieldPlan.Text
