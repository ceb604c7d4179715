/-!
# Halves of surrogate pairs

An escape can name half of a surrogate pair, which is no character. A text keeps the half
`0xd800 + k` as the private character `0xf8000 + k`; what stores or reports such a text writes the
half again or refuses it.
-/
namespace FieldPlan.Text

/-- A code point that is half of a surrogate pair. -/
def isHalf (n : Nat) : Bool := 0xd800 ≤ n && n < 0xe000

/-- The character that stands for a half. -/
def ofHalf (n : Nat) : Char := Char.ofNat (n - 0xd800 + 0xf8000)

/-- The half that a character stands for. -/
def half? (c : Char) : Option Nat :=
  if 0xf8000 ≤ c.toNat && c.toNat < 0xf8800 then some (c.toNat - 0xf8000 + 0xd800) else none

/-- The character of a code point, halves included. -/
def ofCodePoint? (n : Nat) : Option Char :=
  if isHalf n then some (ofHalf n) else if n < 0x110000 then some (Char.ofNat n) else none

/-- No character stands for a half. -/
def isWellFormed (s : String) : Bool := s.toList.all fun c => (half? c).isNone

theorem toNat_ofNat {n : Nat} (h : n.isValidChar) : (Char.ofNat n).toNat = n := by
  rw [Char.ofNat, dif_pos h]
  rfl

/-- Every half is kept. -/
theorem half?_ofHalf {n : Nat} (h : isHalf n = true) : half? (ofHalf n) = some n := by
  obtain ⟨k, hk, rfl⟩ : ∃ k, k < 0x800 ∧ n = k + 0xd800 := by
    simp only [isHalf, Bool.and_eq_true, decide_eq_true_eq] at h
    exact ⟨n - 0xd800, by omega, by omega⟩
  have hv : Nat.isValidChar (k + 0xf8000) := by unfold Nat.isValidChar; omega
  have ht := toNat_ofNat hv
  simp only [half?, ofHalf, Nat.add_sub_cancel, ht]
  rw [if_pos (by simp; omega)]

end FieldPlan.Text
