/-!
# Bytes read as UTF-8

Every byte sequence is read: a sequence that is cut short or broken off gives one replacement
character for its longest correct beginning, and reading goes on at the byte that broke it.
-/
namespace FieldPlan.Text.Utf8

def replacement : Char := Char.ofNat 0xfffd

/-- What a first byte above ASCII announces. -/
structure Lead where
  /-- continuation bytes owed -/
  owed : Nat
  /-- the least and the greatest next byte -/
  low : Nat
  high : Nat
  /-- the bits the first byte carries -/
  bits : Nat

/-- The announcement of a first byte, none where no sequence starts with it. -/
def lead? (b : Nat) : Option Lead :=
  if 0xc2 ≤ b ∧ b ≤ 0xdf then some ⟨1, 0x80, 0xbf, b - 0xc0⟩
  else if b = 0xe0 then some ⟨2, 0xa0, 0xbf, 0⟩
  else if b = 0xed then some ⟨2, 0x80, 0x9f, 0xd⟩
  else if 0xe1 ≤ b ∧ b ≤ 0xef then some ⟨2, 0x80, 0xbf, b - 0xe0⟩
  else if b = 0xf0 then some ⟨3, 0x90, 0xbf, 0⟩
  else if 0xf1 ≤ b ∧ b ≤ 0xf3 then some ⟨3, 0x80, 0xbf, b - 0xf0⟩
  else if b = 0xf4 then some ⟨3, 0x80, 0x8f, 4⟩
  else none

/-- Reads the continuation bytes owed; stops in front of a byte that cannot continue. -/
def continuation (owed low high bits : Nat) (bytes : List Nat) : Option Nat × List Nat :=
  match owed, bytes with
  | 0, rest => (some bits, rest)
  | _ + 1, [] => (none, [])
  | n + 1, b :: rest =>
    if low ≤ b ∧ b ≤ high then continuation n 0x80 0xbf (64 * bits + b % 64) rest
    else (none, b :: rest)

theorem length_continuation_le (owed low high bits : Nat) (bytes : List Nat) :
    (continuation owed low high bits bytes).2.length ≤ bytes.length := by
  induction owed generalizing low high bits bytes with
  | zero => simp [continuation]
  | succ n ih =>
    cases bytes with
    | nil => simp [continuation]
    | cons b rest =>
      rw [continuation]
      split
      · exact Nat.le_succ_of_le (ih 0x80 0xbf _ rest)
      · simp

/-- The characters that bytes spell. -/
def decode : List Nat → List Char
  | [] => []
  | b :: rest =>
    if b < 0x80 then Char.ofNat b :: decode rest
    else match lead? b with
      | none => replacement :: decode rest
      | some l =>
        let step := continuation l.owed l.low l.high l.bits rest
        (match step.1 with
          | some n => Char.ofNat n
          | none => replacement) :: decode step.2
termination_by bytes => bytes.length
decreasing_by
  · exact Nat.lt_succ_self _
  · exact Nat.lt_succ_self _
  · exact Nat.lt_succ_of_le (length_continuation_le l.owed l.low l.high l.bits rest)

def encode (cs : List Char) : List Nat := (String.ofList cs).toUTF8.toList.map UInt8.toNat

/-- The characters that bytes spell, if every sequence is whole. -/
def decode? (bytes : List Nat) : Option (List Char) :=
  let cs := decode bytes
  if encode cs = bytes then some cs else none

end FieldPlan.Text.Utf8
