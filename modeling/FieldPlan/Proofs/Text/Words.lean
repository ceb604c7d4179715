import FieldPlan.Declaration
import FieldPlan.Proofs.Text.Case
/-!
# Identifiers and their words

An identifier is put together of words, each with a capital in front, and of acronyms. A word stays
whole between underscores. An acronym does not: each of its letters becomes a word, and an empty
word stands between them and a word that follows.
-/
namespace FieldPlan

namespace Text

/-- A character within a word: no capital, and kept when it is lowered. All small letters are. -/
def IsInner (c : Char) : Prop := isCapital c = false ∧ lowerChar c = [c]

instance (c : Char) : Decidable (IsInner c) := inferInstanceAs (Decidable (_ ∧ _))

def IsCapitalized (w : List Char) : Prop :=
  ∃ first second rest, w = first :: second :: rest ∧ isCapital first = true ∧
    ∀ c ∈ second :: rest, IsInner c

def IsAcronym (w : List Char) : Prop := 2 ≤ w.length ∧ ∀ c ∈ w, isCapital c = true

/-- Words that follow each other. Behind an acronym a capitalized word stands, or nothing. -/
inductive AreWords : List (List Char) → Prop
  | nil : AreWords []
  | capitalized {w : List Char} {ws : List (List Char)} (hw : IsCapitalized w)
    (hws : AreWords ws) : AreWords (w :: ws)
  | last {w : List Char} (hw : IsAcronym w) : AreWords [w]
  | acronym {w v : List Char} {ws : List (List Char)} (hw : IsAcronym w) (hv : IsCapitalized v)
    (hws : AreWords ws) : AreWords (w :: v :: ws)

/-- The words of an identifier, of which the first may be without capitals. -/
def IsIdentifier (ws : List (List Char)) : Prop :=
  AreWords ws ∨ ∃ w rest, ws = w :: rest ∧ w ≠ [] ∧ (∀ c ∈ w, IsInner c) ∧ AreWords rest

/-- The first word goes on with one of the letters a to z. -/
def goesOnSmall : List (List Char) → Bool
  | (_ :: c :: _) :: _ => isSmall c
  | _ => false

/-- What underscores are set between: words as they are and acronyms letter by letter, the letters
with an empty piece behind them if a word follows. -/
def pieces : List (List Char) → List (List Char)
  | [] => []
  | w :: ws =>
    if w.all isCapital then
      w.map (fun c => [c]) ++ (if goesOnSmall ws then [[]] else []) ++ pieces ws
    else w :: pieces ws

variable {w v cs : List Char} {ws : List (List Char)} {a b c : Char}

theorem isSmall_of_isCapital (h : isCapital c = true) : isSmall c = false := by
  simp only [isCapital, isSmall, Bool.and_eq_true, Bool.and_eq_false_iff, decide_eq_true_eq,
    decide_eq_false_iff_not, Char.le_def, UInt32.le_iff_toNat_le] at h ⊢
  left
  have hz : 'Z'.val.toNat < 'a'.val.toNat := by decide
  omega

/-! ## Setting underscores -/

theorem splitAcronyms_cons (h : isCapital a = false) (cs : List Char) :
    splitAcronyms (a :: cs) = a :: splitAcronyms cs := by
  match cs with
  | [] => rfl
  | [b] => rfl
  | b :: c :: rest => simp [splitAcronyms, h]

theorem splitAcronyms_cons_cons (h : isCapital b = false) (a : Char) (cs : List Char) :
    splitAcronyms (a :: b :: cs) = a :: splitAcronyms (b :: cs) := by
  cases cs with
  | nil => rfl
  | cons c rest => simp [splitAcronyms, h]

theorem splitAcronyms_inner (h : ∀ c ∈ w, IsInner c) (cs : List Char) :
    splitAcronyms (w ++ cs) = w ++ splitAcronyms cs := by
  induction w with
  | nil => rfl
  | cons c w ih =>
    rw [List.forall_mem_cons] at h
    rw [List.cons_append, splitAcronyms_cons h.1.1, ih h.2, List.cons_append]

theorem splitAcronyms_capitalized (h : IsCapitalized w) (cs : List Char) :
    splitAcronyms (w ++ cs) = w ++ splitAcronyms cs := by
  obtain ⟨first, second, rest, rfl, -, hinner⟩ := h
  have hsecond := (hinner second List.mem_cons_self).1
  have htail := splitAcronyms_inner hinner cs
  rw [List.cons_append] at htail
  rw [List.cons_append, List.cons_append, splitAcronyms_cons_cons hsecond, htail]
  rfl

theorem splitAcronyms_capitals (h : ∀ c ∈ w, isCapital c = true) : splitAcronyms w = w := by
  fun_induction splitAcronyms w with
  | case1 a b c rest hsplit ih =>
    rw [isSmall_of_isCapital (h c (by simp))] at hsplit
    simp at hsplit
  | case2 a b c rest hsplit ih => rw [ih fun d hd => h d (List.mem_cons_of_mem a hd)]
  | case3 => rfl

/-- Between capitals and a capitalized word an underscore is set. -/
theorem splitAcronyms_acronym (hne : w ≠ []) (h : ∀ c ∈ w, isCapital c = true)
    (ha : isCapital a = true) (hb : isCapital b = false) (cs : List Char) :
    splitAcronyms (w ++ a :: b :: cs) =
      w ++ (if isSmall b then ['_'] else []) ++ a :: b :: splitAcronyms cs := by
  induction w with
  | nil => exact absurd rfl hne
  | cons d w ih =>
    rw [List.forall_mem_cons] at h
    obtain ⟨hd, hw⟩ := h
    cases w with
    | nil =>
      simp only [List.cons_append, List.nil_append, splitAcronyms, hd, ha, Bool.and_true,
        splitAcronyms_cons_cons hb, splitAcronyms_cons hb]
      cases isSmall b <;> rfl
    | cons e w =>
      -- the third character is a capital, of this word or of the next
      have hthird : splitAcronyms (d :: (e :: w ++ a :: b :: cs)) =
          d :: splitAcronyms (e :: w ++ a :: b :: cs) := by
        cases w with
        | nil => simp [splitAcronyms, isSmall_of_isCapital ha]
        | cons f w => simp [splitAcronyms, isSmall_of_isCapital (hw f (by simp))]
      rw [List.cons_append, hthird, ih (by simp) hw]
      rfl

theorem splitCapitals_append (cs ds : List Char) :
    splitCapitals (cs ++ ds) = splitCapitals cs ++ splitCapitals ds :=
  List.flatMap_append

theorem splitCapitals_inner (h : ∀ c ∈ w, IsInner c) : splitCapitals w = w := by
  induction w with
  | nil => rfl
  | cons c w ih =>
    rw [List.forall_mem_cons] at h
    have hw := ih h.2
    simp only [splitCapitals] at hw
    simp [splitCapitals, h.1.1, hw]

theorem splitCapitals_capitalized (h : IsCapitalized w) : splitCapitals w = '_' :: w := by
  obtain ⟨first, second, rest, rfl, hfirst, hinner⟩ := h
  have htail := splitCapitals_inner hinner
  rw [splitCapitals] at htail
  rw [splitCapitals, List.flatMap_cons, htail, hfirst]
  rfl

theorem splitCapitals_capitals (h : ∀ c ∈ w, isCapital c = true) :
    splitCapitals w = (w.map fun c => [c]).flatMap fun p => '_' :: p := by
  induction w with
  | nil => rfl
  | cons c w ih =>
    rw [List.forall_mem_cons] at h
    have hw := ih h.2
    rw [splitCapitals] at hw
    rw [splitCapitals, List.flatMap_cons, hw, h.1]
    rfl

theorem IsCapitalized.all_eq_false (h : IsCapitalized w) : w.all isCapital = false := by
  obtain ⟨first, second, rest, rfl, -, hinner⟩ := h
  simp [(hinner second List.mem_cons_self).1]

theorem pieces_whole (h : w.all isCapital = false) (ws : List (List Char)) :
    pieces (w :: ws) = w :: pieces ws := by
  rw [pieces, if_neg (by simp [h])]

theorem pieces_acronym (h : IsAcronym w) (ws : List (List Char)) : pieces (w :: ws) =
    w.map (fun c => [c]) ++ (if goesOnSmall ws then [[]] else []) ++ pieces ws := by
  rw [pieces, if_pos (List.all_eq_true.mpr h.2)]

theorem splitCapitals_splitAcronyms (h : AreWords ws) :
    splitCapitals (splitAcronyms ws.flatten) = (pieces ws).flatMap fun p => '_' :: p := by
  induction h with
  | nil => rfl
  | @capitalized w ws hw hws ih =>
    rw [List.flatten_cons, splitAcronyms_capitalized hw, splitCapitals_append,
      splitCapitals_capitalized hw, ih, pieces_whole hw.all_eq_false, List.flatMap_cons]
  | @last w hw =>
    rw [List.flatten_singleton, splitAcronyms_capitals hw.2, splitCapitals_capitals hw.2,
      pieces_acronym hw]
    simp [goesOnSmall, pieces]
  | @acronym w v ws hw hv hws ih =>
    obtain ⟨first, second, rest, rfl, hfirst, hinner⟩ := id hv
    have hne : w ≠ [] := by
      rintro rfl
      exact absurd hw.1 (by simp)
    have hsplit : splitAcronyms (w ++ (first :: second :: rest ++ ws.flatten)) =
        w ++ (if isSmall second then ['_'] else []) ++
          (first :: second :: rest ++ splitAcronyms ws.flatten) := by
      have htail : ∀ c ∈ rest, IsInner c := fun c hc => hinner c (List.mem_cons_of_mem second hc)
      have hacronym := splitAcronyms_acronym hne hw.2 hfirst (hinner second List.mem_cons_self).1
        (rest ++ ws.flatten)
      rwa [splitAcronyms_inner htail] at hacronym
    have hmark : splitCapitals (if isSmall second then ['_'] else []) =
        (if isSmall second then [[]] else []).flatMap fun p => '_' :: p := by
      split <;> rfl
    rw [List.flatten_cons, List.flatten_cons, hsplit]
    simp only [splitCapitals_append, splitCapitals_capitals hw.2, hmark]
    rw [splitCapitals_capitalized hv, ih, pieces_acronym hw, pieces_whole hv.all_eq_false,
      List.flatMap_append, List.flatMap_append, List.flatMap_cons]
    rfl

/-! ## Underscores between pieces -/

theorem cons_intercalate {ps : List (List Char)} (h : ps ≠ []) :
    '_' :: ['_'].intercalate ps = ps.flatMap fun p => '_' :: p := by
  induction ps with
  | nil => exact absurd rfl h
  | cons p ps ih =>
    cases ps with
    | nil => simp [List.intercalate_singleton]
    | cons q ps =>
      rw [List.intercalate_cons_cons, List.flatMap_cons, ← ih (by simp)]
      simp

theorem mem_intercalate {ps : List (List Char)} (h : c ∈ ['_'].intercalate ps) :
    c = '_' ∨ c ∈ ps.flatten := by
  cases ps with
  | nil => cases h
  | cons p ps =>
    have hmem := List.mem_cons_of_mem '_' h
    rw [cons_intercalate (by simp)] at hmem
    obtain ⟨q, hq, hc⟩ := List.mem_flatMap.mp hmem
    exact (List.mem_cons.mp hc).imp_right fun hc => List.mem_flatten.mpr ⟨q, hq, hc⟩

theorem length_intercalate {ps : List (List Char)} (h : ps ≠ []) :
    (['_'].intercalate ps).length + 1 = ps.length + ps.flatten.length := by
  rw [← List.length_cons, cons_intercalate h]
  clear h
  induction ps with
  | nil => rfl
  | cons p ps ih =>
    rw [List.flatMap_cons, List.length_append, ih, List.flatten_cons, List.length_append]
    simp only [List.length_cons]
    omega

theorem map_intercalate (f : Char → Char) (hf : f '_' = '_') (ps : List (List Char)) :
    (['_'].intercalate ps).map f = ['_'].intercalate (ps.map (List.map f)) := by
  induction ps with
  | nil => rfl
  | cons p ps ih =>
    cases ps with
    | nil => simp [List.intercalate_singleton]
    | cons q ps =>
      simp only [List.map_cons] at ih ⊢
      simp only [List.intercalate_cons_cons, List.map_append, ih, List.map_cons, hf, List.map_nil]

/-! ## The pieces of an identifier -/

theorem flatten_pieces (ws : List (List Char)) : (pieces ws).flatten = ws.flatten := by
  induction ws with
  | nil => rfl
  | cons w ws ih =>
    have hletters : (w.map fun c => [c]).flatten = w := by simp [← List.flatMap_def]
    rw [pieces]
    split
    · rw [List.flatten_append, List.flatten_append, ih, hletters, List.flatten_cons]
      split <;> simp
    · rw [List.flatten_cons, ih, List.flatten_cons]

/-- Without acronyms the pieces are the words, and with acronyms there are more of them. -/
def TakesApart (ws : List (List Char)) : Prop :=
  (∀ w ∈ ws, ¬ IsAcronym w) ∧ pieces ws = ws ∨
    (∃ w ∈ ws, IsAcronym w) ∧ ws.length < (pieces ws).length

theorem TakesApart.length_le (h : TakesApart ws) : ws.length ≤ (pieces ws).length := by
  rcases h with ⟨-, hpieces⟩ | ⟨-, hlength⟩
  · exact Nat.le_of_eq (by rw [hpieces])
  · exact Nat.le_of_lt hlength

theorem TakesApart.cons_whole (h : TakesApart ws) (hw : w.all isCapital = false) :
    TakesApart (w :: ws) := by
  have hnot : ¬ IsAcronym w := fun hacronym => by
    rw [List.all_eq_true.mpr hacronym.2] at hw
    cases hw
  rw [TakesApart, pieces_whole hw]
  rcases h with ⟨hnone, hpieces⟩ | ⟨⟨v, hv, hacronym⟩, hlength⟩
  · exact .inl ⟨List.forall_mem_cons.mpr ⟨hnot, hnone⟩, by rw [hpieces]⟩
  · exact .inr ⟨⟨v, List.mem_cons_of_mem w hv, hacronym⟩, Nat.succ_lt_succ hlength⟩

theorem AreWords.takesApart (h : AreWords ws) : TakesApart ws := by
  induction h with
  | nil => exact .inl ⟨fun w hw => (nomatch hw), rfl⟩
  | capitalized hw hws ih => exact ih.cons_whole hw.all_eq_false
  | @last w hw =>
    refine .inr ⟨⟨w, List.mem_singleton_self w, hw⟩, ?_⟩
    have hletters := hw.1
    simp only [pieces_acronym hw, List.length_append, List.length_map, List.length_singleton]
    omega
  | @acronym w v ws hw hv hws ih =>
    refine .inr ⟨⟨w, List.mem_cons_self, hw⟩, ?_⟩
    have hletters := hw.1
    have hlength := ih.length_le
    simp only [pieces_acronym hw, pieces_whole hv.all_eq_false, List.length_append,
      List.length_map, List.length_cons]
    omega

theorem all_eq_false_of_inner (hne : w ≠ []) (h : ∀ c ∈ w, IsInner c) :
    w.all isCapital = false := by
  obtain ⟨c, hc⟩ := List.exists_mem_of_ne_nil w hne
  exact List.all_eq_false.mpr ⟨c, hc, by simp [(h c hc).1]⟩

theorem IsIdentifier.takesApart (h : IsIdentifier ws) : TakesApart ws := by
  rcases h with h | ⟨w, rest, rfl, hne, hinner, hrest⟩
  · exact h.takesApart
  · exact hrest.takesApart.cons_whole (all_eq_false_of_inner hne hinner)

/-! ## Lowering -/

theorem lowerChar_of_isCapital (h : isCapital c = true) : lowerChar c = [c.toLower] := by
  refine lowerChar_of_ascii ?_
  simp only [isCapital, Bool.and_eq_true, decide_eq_true_eq, Char.le_def,
    UInt32.le_iff_toNat_le] at h
  exact Nat.lt_of_le_of_lt h.2 (by decide)

theorem AreWords.lowerChar_eq (h : AreWords ws) : ∀ c ∈ ws.flatten, lowerChar c = [c.toLower] := by
  have hcapitalized {w : List Char} (hw : IsCapitalized w) :
      ∀ c ∈ w, lowerChar c = [c.toLower] := by
    obtain ⟨first, second, rest, rfl, hfirst, hinner⟩ := hw
    exact List.forall_mem_cons.mpr ⟨lowerChar_of_isCapital hfirst,
      fun c hc => lowerChar_of_kept (hinner c hc).2⟩
  have hacronym {w : List Char} (hw : IsAcronym w) : ∀ c ∈ w, lowerChar c = [c.toLower] :=
    fun c hc => lowerChar_of_isCapital (hw.2 c hc)
  induction h with
  | nil => exact fun c hc => nomatch hc
  | capitalized hw _ ih => exact List.forall_mem_append.mpr ⟨hcapitalized hw, ih⟩
  | last hw => exact List.forall_mem_append.mpr ⟨hacronym hw, fun c hc => nomatch hc⟩
  | acronym hw hv _ ih =>
    exact List.forall_mem_append.mpr ⟨hacronym hw, List.forall_mem_append.mpr ⟨hcapitalized hv, ih⟩⟩

theorem IsIdentifier.lowerChar_eq (h : IsIdentifier ws) :
    ∀ c ∈ ws.flatten, lowerChar c = [c.toLower] := by
  rcases h with h | ⟨w, rest, rfl, -, hinner, hrest⟩
  · exact h.lowerChar_eq
  · exact List.forall_mem_append.mpr
      ⟨fun c hc => lowerChar_of_kept (hinner c hc).2, hrest.lowerChar_eq⟩

/-- The pieces in lower case, with underscores between them. -/
def underscored (ps : List (List Char)) : String :=
  "_".intercalate (ps.map fun p => lower (String.ofList p))

theorem toList_underscored {ps : List (List Char)}
    (h : ∀ c ∈ ps.flatten, lowerChar c = [c.toLower]) :
    (underscored ps).toList = (['_'].intercalate ps).map Char.toLower := by
  have hpieces : (ps.map fun p => lower (String.ofList p)).map String.toList =
      ps.map (List.map Char.toLower) := by
    rw [List.map_map]
    refine List.map_congr_left fun p hp => ?_
    have hp : ∀ c ∈ p, lowerChar c = [c.toLower] := fun c hc =>
      h c (List.mem_flatten.mpr ⟨p, hp, hc⟩)
    simp [lower, lowerChars, lowerAfter_eq_map hp]
  rw [underscored, String.toList_intercalate, hpieces, map_intercalate _ rfl]
  rfl

theorem lowerChars_intercalate {ps : List (List Char)}
    (h : ∀ c ∈ ps.flatten, lowerChar c = [c.toLower]) :
    String.ofList (lowerChars (['_'].intercalate ps)) = underscored ps := by
  have hall : ∀ c ∈ ['_'].intercalate ps, lowerChar c = [c.toLower] := by
    intro c hc
    rcases mem_intercalate hc with rfl | hc
    · rfl
    · exact h c hc
  rw [lowerChars, lowerAfter_eq_map hall, ← toList_underscored h, String.ofList_toList]

theorem length_underscored {ps : List (List Char)} (hne : ps ≠ [])
    (h : ∀ c ∈ ps.flatten, lowerChar c = [c.toLower]) :
    (underscored ps).toList.length + 1 = ps.length + ps.flatten.length := by
  rw [toList_underscored h, List.length_map, length_intercalate hne]

/-! ## Snake case -/

theorem snakeCase_of_split {rest : List Char} (h : splitAcronyms cs = c :: rest) :
    snakeCase (String.ofList cs) = String.ofList (lowerChars (c :: splitCapitals rest)) := by
  rw [snakeCase, String.toList_ofList, h]

theorem head?_splitAcronyms (cs : List Char) : (splitAcronyms cs).head? = cs.head? := by
  fun_cases splitAcronyms cs <;> rfl

theorem AreWords.head_isCapital (h : AreWords ws) (hc : ws.flatten.head? = some c) :
    isCapital c = true := by
  cases h with
  | nil => cases hc
  | capitalized hw hws =>
    obtain ⟨first, second, rest, rfl, hfirst, -⟩ := hw
    exact Option.some.inj hc ▸ hfirst
  | last hw =>
    rw [List.flatten_singleton] at hc
    exact hw.2 c (List.mem_of_mem_head? hc)
  | @acronym w v ws hw hv hws =>
    cases w with
    | nil => exact absurd hw.1 (by simp)
    | cons d w => exact Option.some.inj hc ▸ hw.2 d List.mem_cons_self

/-- In front of the first capital no underscore is set, so that all of them are between pieces. -/
theorem AreWords.snakeCase_eq (h : AreWords ws) :
    snakeCase (String.ofList ws.flatten) =
      String.ofList (lowerChars (['_'].intercalate (pieces ws))) := by
  have hmarks := splitCapitals_splitAcronyms h
  cases hsplit : splitAcronyms ws.flatten with
  | nil =>
    rw [hsplit] at hmarks
    have hnone : pieces ws = [] := by
      cases hpieces : pieces ws with
      | nil => rfl
      | cons p ps =>
        rw [hpieces] at hmarks
        cases hmarks
    rw [snakeCase, String.toList_ofList, hsplit, hnone]
    rfl
  | cons c rest =>
    have hhead := head?_splitAcronyms ws.flatten
    rw [hsplit] at hhead
    have hcapital := h.head_isCapital hhead.symm
    have hfront : splitCapitals (c :: rest) = '_' :: c :: splitCapitals rest := by
      rw [splitCapitals, List.flatMap_cons, hcapital]
      rfl
    rw [hsplit, hfront] at hmarks
    have hne : pieces ws ≠ [] := by
      intro hnone
      rw [hnone] at hmarks
      cases hmarks
    rw [← cons_intercalate hne] at hmarks
    rw [snakeCase_of_split hsplit, (List.cons.inj hmarks).2]

theorem IsIdentifier.snakeCase_eq (h : IsIdentifier ws) :
    snakeCase (String.ofList ws.flatten) =
      String.ofList (lowerChars (['_'].intercalate (pieces ws))) := by
  rcases h with h | ⟨w, ws, rfl, hne, hinner, hws⟩
  · exact h.snakeCase_eq
  · have hpieces := pieces_whole (all_eq_false_of_inner hne hinner) ws
    have hmarks := splitCapitals_splitAcronyms hws
    cases w with
    | nil => exact absurd rfl hne
    | cons c w =>
      have hsplit : splitAcronyms (c :: w ++ ws.flatten) = c :: (w ++ splitAcronyms ws.flatten) :=
        splitAcronyms_inner hinner ws.flatten
      have hw : splitCapitals w = w :=
        splitCapitals_inner fun d hd => hinner d (List.mem_cons_of_mem c hd)
      have hjoin := cons_intercalate (List.cons_ne_nil (c :: w) (pieces ws))
      rw [List.flatMap_cons, ← hmarks] at hjoin
      rw [List.flatten_cons, snakeCase_of_split hsplit, splitCapitals_append, hw, hpieces,
        (List.cons.inj hjoin).2]
      rfl

theorem IsIdentifier.underscored_pieces_eq_iff (h : IsIdentifier ws) :
    underscored (pieces ws) = underscored ws ↔ ∀ w ∈ ws, ¬ IsAcronym w := by
  rcases h.takesApart with ⟨hnone, hpieces⟩ | ⟨⟨w, hw, hacronym⟩, hlonger⟩
  · exact iff_of_true (by rw [hpieces]) hnone
  · refine iff_of_false (fun heq => ?_) fun hnone => hnone w hw hacronym
    have hkept := h.lowerChar_eq
    have hlength := length_underscored (List.ne_nil_of_mem hw) hkept
    rw [← flatten_pieces ws] at hkept hlength
    have hlength' := length_underscored (List.ne_nil_of_length_pos (by omega)) hkept
    rw [heq] at hlength'
    omega

end Text

namespace ResourceIdentity

/-- The class is named so, with the ending `Resource` or with nothing that could be cut. -/
def IsNamed (r : ResourceIdentity) (name : String) : Prop :=
  r.className = name ++ "Resource" ∧ name ≠ "" ∨
    r.className = name ∧ (name = "Resource" ∨ ¬ "Resource".toList <:+ name.toList)

theorem baseName_eq {r : ResourceIdentity} {name : String} (h : r.IsNamed name) :
    r.baseName = name := by
  unfold baseName
  rcases h with ⟨hname, hne⟩ | ⟨hname, rfl | hending⟩
  · have hsuffix : "Resource".toList.isSuffixOf (name.toList ++ "Resource".toList) = true :=
      List.isSuffixOf_iff_suffix.mpr ⟨_, rfl⟩
    have hrest : (name.toList ++ "Resource".toList != "Resource".toList) = true := by
      simpa using hne
    simp only [hname, String.toList_append, hsuffix, hrest, Bool.and_self, if_true,
      List.length_append, Nat.add_sub_cancel, List.take_left', String.ofList_toList]
  · rw [hname]
    rfl
  · have hsuffix : "Resource".toList.isSuffixOf name.toList = false := by
      rw [← Bool.not_eq_true, List.isSuffixOf_iff_suffix]
      exact hending
    simp only [hname, hsuffix, Bool.false_and, Bool.false_eq_true, if_false]

end ResourceIdentity

open Text

/-- An identifier is written in lower case with underscores between the pieces of its words. These
are the words themselves if and only if none of them is an acronym. So is the type of a resource
that is given none. -/
theorem snakeCase_words {ws : List (List Char)} (h : IsIdentifier ws) :
    let name := String.ofList ws.flatten
    snakeCase name = underscored (pieces ws) ∧
    (snakeCase name = underscored ws ↔ ∀ w ∈ ws, ¬ IsAcronym w) ∧
    ∀ r : ResourceIdentity, r.givenType.filter (· != "") = none → r.IsNamed name →
      r.type = underscored (pieces ws) := by
  intro name
  have hname : snakeCase name = underscored (pieces ws) := by
    have hkept := h.lowerChar_eq
    rw [← flatten_pieces] at hkept
    rw [h.snakeCase_eq, lowerChars_intercalate hkept]
  refine ⟨hname, ?_, fun r hgiven hr => ?_⟩
  · rw [hname]
    exact h.underscored_pieces_eq_iff
  · rw [ResourceIdentity.type, hgiven, ResourceIdentity.baseName_eq hr]
    exact hname

theorem inner_of_all {w : List Char} (h : (w.all fun c => decide (IsInner c)) = true) :
    ∀ c ∈ w, IsInner c :=
  fun c hc => of_decide_eq_true (List.all_eq_true.mp h c hc)

theorem isIdentifier_blogPost : IsIdentifier ["Blog".toList, "Post".toList] :=
  .inl (.capitalized ⟨'B', 'l', ['o', 'g'], rfl, by decide, inner_of_all (by decide)⟩
    (.capitalized ⟨'P', 'o', ['s', 't'], rfl, by decide, inner_of_all (by decide)⟩ .nil))

theorem type_of_blogPostResource :
    snakeCase "BlogPost" = "blog_post" ∧
      ResourceIdentity.type ⟨"BlogPostResource", none⟩ = "blog_post" := by
  obtain ⟨hsnake, -, htype⟩ := snakeCase_words isIdentifier_blogPost
  have htext : underscored (pieces ["Blog".toList, "Post".toList]) = "blog_post" := by decide
  rw [htext] at hsnake htype
  exact ⟨hsnake, htype ⟨"BlogPostResource", none⟩ rfl (.inl ⟨rfl, by decide⟩)⟩

/-- An acronym does not stay one word, and the underscore behind it is doubled. -/
theorem acronym_taken_apart :
    IsIdentifier ["HTTP".toList, "Response".toList] ∧
      underscored ["HTTP".toList, "Response".toList] = "http_response" ∧
      snakeCase "HTTPResponse" = "h_t_t_p__response" :=
  ⟨.inl (.acronym ⟨by decide, List.all_eq_true.mp (by decide)⟩
    ⟨'R', 'e', ['s', 'p', 'o', 'n', 's', 'e'], rfl, by decide, inner_of_all (by decide)⟩ .nil),
    by decide, by decide⟩

end FieldPlan
