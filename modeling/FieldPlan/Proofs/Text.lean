import FieldPlan.Text.Basic
import Mathlib.Data.List.DropRight
/-!
# Trimming and splitting

Trimming takes the blanks at both ends and nothing else, so that a trimmed text is trimmed no
further. A text is split the same way before and behind a separator.
-/
namespace FieldPlan.Text

section Trimming

variable {drop : Char → Bool} {cs front back : List Char}

theorem trimBy_eq_rdropWhile (drop : Char → Bool) (cs : List Char) :
    trimBy drop cs = (cs.dropWhile drop).rdropWhile drop := rfl

theorem mem_of_mem_trimBy {c : Char} (h : c ∈ trimBy drop cs) : c ∈ cs :=
  (List.dropWhile_sublist drop).mem ((List.rdropWhile_prefix drop _).mem h)

theorem trimBy_eq_nil (h : ∀ c ∈ cs, drop c) : trimBy drop cs = [] := by
  rw [trimBy, List.dropWhile_eq_nil_iff.mpr h]
  rfl

theorem trimBy_append_left (h : ∀ c ∈ front, drop c) :
    trimBy drop (front ++ cs) = trimBy drop cs := by
  rw [trimBy, List.dropWhile_append_of_pos h, trimBy]

theorem trimBy_append_right (h : ∀ c ∈ back, drop c) :
    trimBy drop (cs ++ back) = trimBy drop cs := by
  have hback : back.dropWhile drop = [] := List.dropWhile_eq_nil_iff.mpr h
  rw [trimBy, trimBy, List.dropWhile_append]
  by_cases hcs : (cs.dropWhile drop).isEmpty
  · rw [if_pos hcs, hback, List.isEmpty_iff.mp hcs]
  · rw [if_neg hcs, List.reverse_append, List.dropWhile_append_of_pos]
    exact fun c hc => h c (List.mem_reverse.mp hc)

theorem trimBy_rdropWhile (drop : Char → Bool) (cs : List Char) :
    trimBy drop (cs.rdropWhile drop) = trimBy drop cs := by
  have hback : ∀ c ∈ cs.rtakeWhile drop, drop c := fun c => List.mem_rtakeWhile_imp
  rw [← trimBy_append_right hback, List.rdropWhile_append_rtakeWhile]

theorem rdropWhile_append_cons {c : Char} (h : drop c = false) (cs rest : List Char) :
    (cs ++ c :: rest).rdropWhile drop = cs ++ c :: rest.rdropWhile drop := by
  have hreverse : (cs ++ c :: rest).reverse = rest.reverse ++ c :: cs.reverse := by simp
  have hkept : (c :: cs.reverse).dropWhile drop = c :: cs.reverse :=
    List.dropWhile_cons_of_neg (by simp [h])
  have hdrop : (rest.reverse ++ c :: cs.reverse).dropWhile drop =
      rest.reverse.dropWhile drop ++ c :: cs.reverse := by
    rw [List.dropWhile_append, hkept]
    split
    · next hnil => rw [List.isEmpty_iff.mp hnil, List.nil_append]
    · rfl
  rw [List.rdropWhile, hreverse, hdrop, List.rdropWhile]
  simp

theorem dropWhile_append_of_eq_self (hne : cs ≠ []) (h : cs.dropWhile drop = cs) :
    (cs ++ back).dropWhile drop = cs ++ back := by
  rw [List.dropWhile_append, h, if_neg (by simpa using hne)]

theorem rdropWhile_append_of_eq_self (hne : cs ≠ []) (h : cs.rdropWhile drop = cs) :
    (front ++ cs).rdropWhile drop = front ++ cs := by
  have hlast := List.rdropWhile_eq_self_iff.mp h hne
  rw [← List.dropLast_append_getLast hne, ← List.append_assoc]
  exact List.rdropWhile_concat_neg drop _ _ hlast

theorem trimBy_eq_self_iff :
    trimBy drop cs = cs ↔ cs.dropWhile drop = cs ∧ cs.rdropWhile drop = cs := by
  constructor
  · intro h
    have hshort : (trimBy drop cs).length ≤ (cs.dropWhile drop).length :=
      (List.rdropWhile_prefix drop (cs.dropWhile drop)).length_le
    rw [h] at hshort
    have hfront : cs.dropWhile drop = cs :=
      (List.dropWhile_suffix drop).eq_of_length_le hshort
    rw [trimBy_eq_rdropWhile, hfront] at h
    exact ⟨hfront, h⟩
  · rintro ⟨hfront, hback⟩
    rw [trimBy_eq_rdropWhile, hfront, hback]

theorem trimBy_of_forall (h : ∀ c ∈ cs, drop c = false) : trimBy drop cs = cs := by
  refine trimBy_eq_self_iff.mpr ⟨List.dropWhile_eq_self_iff.mpr fun hlength => ?_,
    List.rdropWhile_eq_self_iff.mpr fun hne => ?_⟩
  · simp [h _ (List.getElem_mem hlength)]
  · simp [h _ (List.getLast_mem hne)]

theorem trimBy_trimBy (drop : Char → Bool) (cs : List Char) :
    trimBy drop (trimBy drop cs) = trimBy drop cs := by
  refine trimBy_eq_self_iff.mpr ⟨?_, List.rdropWhile_idempotent drop (cs.dropWhile drop)⟩
  -- what is left begins as the text does once its front has been dropped
  obtain ⟨back, hback⟩ := List.rdropWhile_prefix drop (cs.dropWhile drop)
  cases htrim : trimBy drop cs with
  | nil => rfl
  | cons first rest =>
    have hfirst := List.head?_dropWhile_not drop cs
    rw [← hback, ← trimBy_eq_rdropWhile, htrim] at hfirst
    exact List.dropWhile_cons_of_neg (by simp_all)

theorem isBlank_of_letter {c : Char} (h : 65 ≤ c.toNat ∧ c.toNat ≤ 122) : isBlank c = false := by
  simp only [isBlank, isSpace, Bool.or_eq_false_iff, Bool.and_eq_false_iff, decide_eq_false_iff_not,
    beq_eq_false_iff_ne]
  omega

theorem trim_eq_self_iff {s : String} : trim s = s ↔ trimChars s.toList = s.toList := by
  rw [trim, ← String.toList_inj, String.toList_ofList]

theorem trim_trim (s : String) : trim (trim s) = trim s := by
  rw [trim_eq_self_iff, trim, String.toList_ofList]
  exact trimBy_trimBy isBlank s.toList

end Trimming

section Splitting

theorem splitChars_append (sep : Char) (cs ds : List Char) :
    splitChars sep (cs ++ sep :: ds) = splitChars sep cs ++ splitChars sep ds := by
  induction cs with
  | nil => simp [splitChars]
  | cons c cs ih =>
    rw [List.cons_append, splitChars, splitChars, ih]
    by_cases hc : c = sep
    · rw [if_pos hc, if_pos hc, List.cons_append]
    · rw [if_neg hc, if_neg hc]
      cases hs : splitChars sep cs with
      | nil => exact absurd hs (splitChars_ne_nil sep cs)
      | cons piece pieces => rfl

theorem splitChars_of_notMem {sep : Char} {cs : List Char} (h : sep ∉ cs) :
    splitChars sep cs = [cs] := by
  induction cs with
  | nil => rfl
  | cons c cs ih =>
    rw [List.mem_cons, not_or] at h
    rw [splitChars, if_neg (Ne.symm h.1), ih h.2]

theorem split_of_notMem {sep : Char} {s : String} (h : sep ∉ s.toList) : split sep s = [s] := by
  rw [split, splitChars_of_notMem h, List.map_singleton, String.ofList_toList]

theorem not_mem_of_mem_split {sep : Char} {s piece : String} (h : piece ∈ split sep s) :
    sep ∉ piece.toList := by
  obtain ⟨cs, hcs, rfl⟩ := List.mem_map.mp h
  rw [String.toList_ofList]
  exact not_mem_of_mem_splitChars hcs

theorem mem_of_mem_splitChars {sep c : Char} {cs piece : List Char}
    (h : piece ∈ splitChars sep cs) (hc : c ∈ piece) : c ∈ cs := by
  induction cs generalizing piece with
  | nil =>
    rw [List.mem_singleton.mp h] at hc
    cases hc
  | cons first rest ih =>
    rw [splitChars] at h
    cases hs : splitChars sep rest with
    | nil => exact absurd hs (splitChars_ne_nil sep rest)
    | cons p ps =>
      simp only [hs] at h ih
      split at h
      · rcases List.mem_cons.mp h with rfl | h
        · cases hc
        · exact List.mem_cons_of_mem first (ih h hc)
      · rcases List.mem_cons.mp h with rfl | h
        · rcases List.mem_cons.mp hc with rfl | hc
          · exact List.mem_cons_self
          · exact List.mem_cons_of_mem first (ih List.mem_cons_self hc)
        · exact List.mem_cons_of_mem first (ih (List.mem_cons_of_mem p h) hc)

theorem mem_of_mem_split {sep c : Char} {s piece : String} (h : piece ∈ split sep s)
    (hc : c ∈ piece.toList) : c ∈ s.toList := by
  obtain ⟨cs, hcs, rfl⟩ := List.mem_map.mp h
  rw [String.toList_ofList] at hc
  exact mem_of_mem_splitChars hcs hc

theorem cutChars_append {sep : Char} {cs : List Char} (h : sep ∉ cs) (rest : List Char) :
    cutChars sep (cs ++ sep :: rest) = (cs, some rest) := by
  induction cs with
  | nil => simp [cutChars]
  | cons c cs ih =>
    rw [List.mem_cons, not_or] at h
    rw [List.cons_append, cutChars, if_neg (Ne.symm h.1), ih h.2]

theorem cutChars_of_notMem {sep : Char} {cs : List Char} (h : sep ∉ cs) :
    cutChars sep cs = (cs, none) := by
  induction cs with
  | nil => rfl
  | cons c cs ih =>
    rw [List.mem_cons, not_or] at h
    rw [cutChars, if_neg (Ne.symm h.1), ih h.2]

theorem notMem_cutChars (sep : Char) (cs : List Char) : sep ∉ (cutChars sep cs).1 := by
  induction cs with
  | nil => exact List.not_mem_nil
  | cons c cs ih =>
    rw [cutChars]
    split
    · exact List.not_mem_nil
    · next hc => exact List.mem_cons.not.mpr (not_or.mpr ⟨Ne.symm hc, ih⟩)

theorem mem_of_mem_cutChars {sep c : Char} {cs : List Char} (h : c ∈ (cutChars sep cs).1) :
    c ∈ cs := by
  induction cs with
  | nil => cases h
  | cons first cs ih =>
    rw [cutChars] at h
    split at h
    · cases h
    · rcases List.mem_cons.mp h with rfl | h
      · exact List.mem_cons_self
      · exact List.mem_cons_of_mem first (ih h)

end Splitting

end FieldPlan.Text
