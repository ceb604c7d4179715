import FieldPlan.Json.Reader
/-!
# What the limits of reading refuse

A text is refused for an integer only if that has more digits than the limit, and an array of one
such integer is. What is made of names has no integers, so it can always be written.
-/
namespace FieldPlan.Json

theorem anyLongInt_eq_false {items : List Json}
    (h : ∀ j ∈ items, j.hasLongInt = false) : anyLongInt items = false := by
  induction items with
  | nil => rfl
  | cons j rest ih =>
    have hfirst := h j List.mem_cons_self
    have hrest := ih fun k hk => h k (List.mem_cons_of_mem j hk)
    simp [anyLongInt, hfirst, hrest]

theorem anyLongEntry_eq_false {entries : List (String × Json)}
    (h : ∀ e ∈ entries, e.2.hasLongInt = false) : anyLongEntry entries = false := by
  induction entries with
  | nil => rfl
  | cons e rest ih =>
    have hfirst := h e List.mem_cons_self
    have hrest := ih fun k hk => h k (List.mem_cons_of_mem e hk)
    simp [anyLongEntry, hfirst, hrest]

theorem hasLongInt_ofStrings (names : List String) : (ofStrings names).hasLongInt = false := by
  simp only [ofStrings, hasLongInt]
  refine anyLongInt_eq_false fun j hj => ?_
  obtain ⟨name, -, rfl⟩ := List.mem_map.mp hj
  rfl

/-- The fault is no integer that the limit allows. -/
def Fault.Respects (limit : Option Nat) (f : Fault) : Prop :=
  ∀ n, f = .longInteger n → limit.any (· < n) = true

variable {limit : Option Nat} {f : Fault}

private theorem bind_eq_error {α γ : Type} {x : Except Fault α} {k : α → Except Fault γ}
    (h : x >>= k = .error f) : x = .error f ∨ ∃ a, x = .ok a ∧ k a = .error f := by
  cases x with
  | error e =>
    obtain rfl := Except.error.inj h
    exact .inl rfl
  | ok a => exact .inr ⟨a, rfl, h⟩

theorem escapedChar_error {cs : List Char} (h : escapedChar cs = .error f) :
    f.Respects limit := by
  fun_cases escapedChar cs
  all_goals
    simp_all only [escapedChar]
    cases h
  all_goals
    intro n hn
    cases hn

theorem stringBody_error {cs : List Char} (h : stringBody cs = .error f) : f.Respects limit := by
  fun_induction stringBody cs with
  | case1 =>
    cases h
    intro n hn
    cases hn
  | case2 => cases h
  | case3 rest _ hescape =>
    obtain rfl := Except.error.inj h
    exact escapedChar_error hescape
  | case4 rest _ rest' _ _ _ hrest _ ih =>
    obtain rfl := Except.error.inj h
    exact ih hrest
  | case5 => cases h
  | case6 =>
    cases h
    intro n hn
    cases hn
  | case7 c rest _ _ _ _ hrest ih =>
    obtain rfl := Except.error.inj h
    exact ih hrest
  | case8 => cases h

theorem number_error {cs : List Char} (h : number limit cs = .error f) : f.Respects limit := by
  unfold number at h
  repeat' split at h
  all_goals cases h
  · intro n hn
    cases hn
  · next hlong =>
    intro n hn
    obtain rfl := Fault.longInteger.inj hn
    exact hlong

theorem scalar_error {cs : List Char} (h : scalar limit cs = .error f) : f.Respects limit := by
  unfold scalar at h
  repeat' split at h
  all_goals first
    | cases h
    | exact number_error h

/-- Whatever is read, an integer is refused only beyond the limit. -/
theorem read_error (fuel : Nat) :
    (∀ room cs, readValue limit fuel room cs = .error f → f.Respects limit) ∧
    (∀ room cs, readItems limit fuel room cs = .error f → f.Respects limit) ∧
    ∀ room entries cs, readEntries limit fuel room entries cs = .error f → f.Respects limit := by
  have hother {f : Fault} (h : ∀ n, f ≠ .longInteger n) : f.Respects limit := by
    intro n hn
    exact absurd hn (h n)
  induction fuel with
  | zero =>
    refine ⟨fun room cs h => ?_, fun room cs h => ?_, fun room entries cs h => ?_⟩
    all_goals
      cases h
      exact hother nofun
  | succ fuel ih =>
    obtain ⟨hvalue, hitems, hentries⟩ := ih
    refine ⟨fun room cs h => ?_, fun room cs h => ?_, fun room entries cs h => ?_⟩
    · unfold readValue at h
      split at h
      · rcases bind_eq_error h with h | ⟨a, -, h⟩
        · exact stringBody_error h
        · cases h
      · split at h
        · cases h
          exact hother nofun
        · split at h
          · cases h
          · rcases bind_eq_error h with h | ⟨a, -, h⟩
            · exact hitems _ _ h
            · cases h
      · split at h
        · split at h
          · cases h
            exact hother nofun
          · split at h
            · split at h
              · cases h
              · rcases bind_eq_error h with h | ⟨a, -, h⟩
                · exact hentries _ _ _ h
                · cases h
            · cases h
              exact hother nofun
        · exact scalar_error h
      · cases h
        exact hother nofun
    · unfold readItems at h
      rcases bind_eq_error h with h | ⟨⟨item, rest⟩, -, h⟩
      · exact hvalue _ _ h
      · dsimp only at h
        split at h
        · cases h
        · rcases bind_eq_error h with h | ⟨a, -, h⟩
          · exact hitems _ _ h
          · cases h
        · cases h
          exact hother nofun
    · unfold readEntries at h
      split at h
      · rcases bind_eq_error h with h | ⟨⟨key, rest⟩, -, h⟩
        · exact stringBody_error h
        · dsimp only at h
          split at h
          · rcases bind_eq_error h with h | ⟨⟨value, rest⟩, -, h⟩
            · exact hvalue _ _ h
            · dsimp only at h
              split at h
              · exact hentries _ _ _ h
              · split at h
                · cases h
                · cases h
                  exact hother nofun
              · cases h
                exact hother nofun
          · cases h
            exact hother nofun
      · cases h
        exact hother nofun

theorem lt_of_read_longInteger [Room] {s : String} {n : Nat} (h : read s = .error (.longInteger n)) :
    Text.maxIntegerDigits < n := by
  unfold read readWithin at h
  split at h
  · split at h
    · cases h
    · rcases bind_eq_error h with h | ⟨⟨j, tail⟩, -, h⟩
      · have hlimit := (read_error _).1 _ _ h n rfl
        simpa [Limits.standard] using hlimit
      · dsimp only at h
        split at h
        · cases h
        · cases h
  · cases h

def ones (n : Nat) : List Char := List.replicate n '1'

theorem wholeDigits_ones (n : Nat) (rest : List Char) :
    wholeDigits (ones (n + 1) ++ ']' :: rest) = some (ones (n + 1), ']' :: rest) := by
  have hones : ∀ c ∈ ones (n + 1), c.isDigit = true := by
    intro c hc
    rw [List.eq_of_mem_replicate hc]
    rfl
  have htake : (ones (n + 1) ++ ']' :: rest).takeWhile Char.isDigit = ones (n + 1) := by
    rw [List.takeWhile_append_of_pos hones, List.takeWhile_cons_of_neg (by decide),
      List.append_nil]
  have hdrop : (ones (n + 1) ++ ']' :: rest).dropWhile Char.isDigit = ']' :: rest := by
    rw [List.dropWhile_append_of_pos hones, List.dropWhile_cons_of_neg (by decide)]
  show some (_, _) = _
  rw [htake, hdrop]

theorem number_of_long {cs whole rest : List Char} (hsign : ∀ more, cs ≠ '-' :: more)
    (hwhole : wholeDigits cs = some (whole, rest)) (hfraction : fractionDigits rest = ([], rest))
    (hexponent : exponent? rest = (none, rest)) (hlong : limit.any (· < whole.length) = true) :
    number limit cs = .error (.longInteger whole.length) := by
  unfold number
  split
  · next negative body hsigned =>
    have hbody : body = cs := by
      split at hsigned
      · next more => exact absurd rfl (hsign more)
      · exact (Prod.mk.inj hsigned).2.symm
    rw [hbody, hwhole]
    simp [hfraction, hexponent, hlong]

section Ones

variable {limit n : Nat}

theorem number_ones (h : limit < n + 1) (rest : List Char) :
    number (some limit) (ones (n + 1) ++ ']' :: rest) = .error (.longInteger (n + 1)) := by
  have hlength : (ones (n + 1)).length = n + 1 := List.length_replicate
  have hlong : (some limit).any (· < (ones (n + 1)).length) = true := by
    rw [hlength]
    exact decide_eq_true h
  have hnumber : number (some limit) (ones (n + 1) ++ ']' :: rest) = _ :=
    number_of_long nofun (wholeDigits_ones n rest) rfl rfl hlong
  rwa [hlength] at hnumber

theorem readValue_ones (h : limit < n + 1) (fuel room : Nat) (rest : List Char) :
    readValue (some limit) (fuel + 1) room (ones (n + 1) ++ ']' :: rest) =
      .error (.longInteger (n + 1)) := by
  have hnumber := number_ones h rest
  have hcons : ones (n + 1) ++ ']' :: rest = '1' :: (ones n ++ ']' :: rest) := rfl
  rw [hcons] at hnumber ⊢
  simpa [readValue, scalar, word?] using hnumber

theorem readValue_array_ones (h : limit < n + 1) (fuel room : Nat) :
    readValue (some limit) (fuel + 3) (room + 1) ('[' :: (ones (n + 1) ++ [']'])) =
      .error (.longInteger (n + 1)) := by
  have hitems : readItems (some limit) (fuel + 2) room (ones (n + 1) ++ [']']) =
      .error (.longInteger (n + 1)) := by
    rw [readItems, readValue_ones h fuel room []]
    rfl
  have hblank : skipSpace (ones (n + 1) ++ [']']) = ones (n + 1) ++ [']'] := rfl
  simp only [readValue]
  rw [if_neg (Nat.succ_ne_zero room), hblank]
  show (readItems (some limit) (fuel + 2) room (ones (n + 1) ++ [']']) >>= _) = _
  rw [hitems]
  rfl

end Ones

theorem read_array_ones [Room] {n : Nat} (h : Text.maxIntegerDigits < n + 1) :
    read (String.ofList ('[' :: (ones (n + 1) ++ [']']))) = .error (.longInteger (n + 1)) := by
  obtain ⟨room, hroom⟩ := Nat.exists_eq_add_of_le' Room.four_le_reading
  unfold read readWithin Limits.standard
  rw [String.toList_ofList, hroom]
  dsimp only
  rw [if_neg (by decide)]
  show (readValue (some Text.maxIntegerDigits) (2 * (ones (n + 1) ++ [']']).length + 1 + 3)
    (room + 3 + 1) ('[' :: (ones (n + 1) ++ [']'])) >>= _) = _
  rw [readValue_array_ones h]
  rfl

end FieldPlan.Json
