import FieldPlan.Proofs.Request.Names
import FieldPlan.Proofs.Text.Case
/-!
# Order clauses

An order value that is read without a problem gives one clause for each field that its tokens name:
that of the first token, in the order of these tokens. The fields are names without colons. A field
can be spelled with a sign in front or with a direction behind; blanks around the parts and the case
of the direction make no difference, except that blanks behind the sign stay in the field.
-/
namespace FieldPlan

/-- The letters of a direction's word, each in either case. -/
def Direction.IsSpelled (d : Direction) (word : String) : Prop :=
  word.toList.map Char.toLower = d.word.toList

namespace Direction

variable {d : Direction} {word : String}

theorem IsSpelled.toLower_mem (h : d.IsSpelled word) {c : Char} (hc : c ∈ word.toList) :
    97 ≤ c.toLower.toNat ∧ c.toLower.toNat ≤ 122 := by
  have hletters : d.word.toList.all fun c => 97 ≤ c.toNat && c.toNat ≤ 122 := by
    cases d <;> decide
  simpa using List.all_eq_true.mp hletters _ (h ▸ List.mem_map_of_mem hc)

theorem IsSpelled.letters (h : d.IsSpelled word) :
    ∀ c ∈ word.toList, 65 ≤ c.toNat ∧ c.toNat ≤ 122 := by
  intro c hc
  have hlower := h.toLower_mem hc
  unfold Char.toLower at hlower
  split at hlower
  · next hupper =>
    have hfirst : 65 ≤ c.toNat := hupper.1
    have hlast : c.toNat ≤ 90 := hupper.2
    omega
  · omega

theorem IsSpelled.lower_eq (h : d.IsSpelled word) : Text.lower word = d.word := by
  have hascii : ∀ c ∈ word.toList, c.toNat < 0x80 := by
    intro c hc
    have hlower := h.toLower_mem hc
    exact Text.toNat_lt_of_toLower (by omega)
  rw [Text.lower, Text.lowerChars, Text.lowerAfter_of_ascii hascii, h, String.ofList_toList]

theorem ofWord?_word (d : Direction) : ofWord? d.word = some d := by cases d <;> decide

theorem word_ne_empty (d : Direction) : d.word ≠ "" := by cases d <;> decide

end Direction

namespace Request

/-- A name that an order clause can be about. -/
structure IsField (f : String) : Prop extends IsName f where
  colon_notMem : ':' ∉ f.toList

def IsBlankText (s : String) : Prop := ∀ c ∈ s.toList, Text.isBlank c = true

/-- A blank stands right behind the sign of a token. -/
def HasBlankSign (token : String) : Prop :=
  ∃ b rest, token.toList = '-' :: b :: rest ∧ Text.isBlank b = true

variable {token f : String} {c : OrderClause}

/-! ## One token -/

theorem orderClause_sign {field : List Char} (hne : field ≠ []) (hcolon : ':' ∉ field) :
    orderClause (String.ofList ('-' :: field)) = .ok ⟨String.ofList field, .descending⟩ := by
  simp [orderClause, hne, hcolon]

def clauseFor (token field word : String) : Except Problem OrderClause :=
  if field = "" then .error (.orderClause token)
  else if word = "" then .ok ⟨field, .ascending⟩
  else match Direction.ofWord? word with
    | some d => .ok ⟨field, d⟩
    | none => .error (.orderDirection word field)

theorem orderClause_of_ne_sign (h : token.toList.head? ≠ some '-') :
    orderClause token = clauseFor token (Text.trim (Text.cut ':' token).1)
      (Text.lower (Text.trim ((Text.cut ':' token).2.getD ""))) := by
  unfold orderClause
  split
  · next field htoken =>
    rw [htoken] at h
    exact absurd rfl h
  · obtain ⟨field, direction⟩ := Text.cut ':' token
    dsimp only
    generalize Text.lower (Text.trim (direction.getD "")) = word
    unfold clauseFor
    cases Direction.ofWord? word <;> rfl

theorem clauseFor_eq_ok {field word : String} (h : clauseFor token field word = .ok c) :
    field ≠ "" ∧ c.field = field := by
  unfold clauseFor at h
  by_cases hfield : field = ""
  · rw [if_pos hfield] at h
    cases h
  · rw [if_neg hfield] at h
    refine ⟨hfield, ?_⟩
    split at h
    · rw [← Except.ok.inj h]
    · cases hword : Direction.ofWord? word with
      | none => simp [hword] at h
      | some d =>
        simp only [hword, Except.ok.injEq] at h
        rw [← h]

theorem trim_of_sign {field : String} (h : Text.trim ("-" ++ field) = "-" ++ field) :
    Text.trim field = field ∨ HasBlankSign ("-" ++ field) := by
  have hlist : ("-" ++ field).toList = '-' :: field.toList := by simp
  have hback := (Text.trimBy_eq_self_iff.mp (Text.trim_eq_self_iff.mp h)).2
  cases hfield : field.toList with
  | nil => exact .inl (Text.trim_eq_self_iff.mpr (by rw [hfield]; rfl))
  | cons b rest =>
    cases hb : Text.isBlank b with
    | true => exact .inr ⟨b, rest, by rw [hlist, hfield], hb⟩
    | false =>
      refine .inl (Text.trim_eq_self_iff.mpr (Text.trimBy_eq_self_iff.mpr ⟨?_, ?_⟩))
      · rw [hfield]
        exact List.dropWhile_cons_of_neg (by simp [hb])
      · have hkept := Text.rdropWhile_append_cons hb ['-'] rest
        rw [hlist, hfield] at hback
        have hboth : '-' :: b :: rest = '-' :: b :: rest.rdropWhile Text.isBlank :=
          hback.symm.trans hkept
        have hown := Text.rdropWhile_append_cons hb [] rest
        rw [hfield]
        exact hown.trans (List.cons.inj hboth).2.symm

theorem orderClause_spec (htoken : IsName token) (h : orderClause token = .ok c) :
    c.field ≠ "" ∧ ',' ∉ c.field.toList ∧ ':' ∉ c.field.toList ∧
      (Text.trim c.field = c.field ∨ HasBlankSign token) := by
  by_cases hsign : token.toList.head? = some '-'
  · obtain ⟨field, hfield⟩ : ∃ field, token = "-" ++ String.ofList field := by
      obtain ⟨field, hfield⟩ := List.head?_eq_some_iff.mp hsign
      refine ⟨field, String.toList_injective ?_⟩
      rw [hfield]
      simp
    subst hfield
    have hlist : ("-" ++ String.ofList field).toList = '-' :: field := by simp
    unfold orderClause at h
    rw [hlist] at h
    simp only at h
    split at h
    · cases h
    · next hvalid =>
      obtain rfl := Except.ok.inj h
      simp only [Bool.or_eq_true, List.isEmpty_iff, List.contains_iff_mem, not_or] at hvalid
      have hcomma := htoken.comma_notMem
      rw [hlist, List.mem_cons, not_or] at hcomma
      exact ⟨by simpa using hvalid.1, by simpa using hcomma.2, by simpa using hvalid.2,
        trim_of_sign htoken.trimmed⟩
  · rw [orderClause_of_ne_sign hsign] at h
    obtain ⟨hne, hfield⟩ := clauseFor_eq_ok h
    rw [hfield]
    have hmem {d : Char} (hd : d ∈ (Text.trim (Text.cut ':' token).1).toList) :
        d ∈ (Text.cutChars ':' token.toList).1 := by
      rw [Text.trim, String.toList_ofList] at hd
      simpa [Text.cut] using Text.mem_of_mem_trimBy hd
    refine ⟨hne, fun hd => ?_, fun hd => ?_, .inl (Text.trim_trim _)⟩
    · exact htoken.comma_notMem (Text.mem_of_mem_cutChars (hmem hd))
    · exact Text.notMem_cutChars ':' token.toList (hmem hd)

theorem trim_ne_of_hasBlankSign (hblank : HasBlankSign token) (h : orderClause token = .ok c) :
    Text.trim c.field ≠ c.field := by
  obtain ⟨b, rest, htoken, hb⟩ := hblank
  unfold orderClause at h
  rw [htoken] at h
  simp only at h
  split at h
  · cases h
  · obtain rfl := Except.ok.inj h
    intro htrim
    have hfront := (Text.trimBy_eq_self_iff.mp (Text.trim_eq_self_iff.mp htrim)).1
    rw [String.toList_ofList, List.dropWhile_cons_of_pos hb] at hfront
    have hlength := (List.dropWhile_sublist Text.isBlank (l := rest)).length_le
    rw [hfront, List.length_cons] at hlength
    omega

/-! ## All tokens -/

theorem clausesOf_cons_ok {seen rest : List String} (h : orderClause token = .ok c) :
    clausesOf seen (token :: rest) = if c.field ∈ seen then clausesOf seen rest
      else ⟨c :: (clausesOf (c.field :: seen) rest).value,
        (clausesOf (c.field :: seen) rest).problems⟩ := by
  rw [clausesOf, h]

/-- Without a problem every token is a clause. Of several on one field the first is kept, and the
fields stand in the order in which they are first named. -/
theorem clausesOf_spec {seen tokens : List String} (h : (clausesOf seen tokens).problems = []) :
    ∃ named : List OrderClause, tokens.map orderClause = named.map .ok ∧
      (clausesOf seen tokens).value.map (·.field) =
        unique ((named.map (·.field)).filter fun f => !seen.contains f) ∧
      ∀ c ∈ (clausesOf seen tokens).value,
        named.find? (fun d => !seen.contains d.field && d.field == c.field) = some c := by
  induction tokens generalizing seen with
  | nil => exact ⟨[], rfl, rfl, fun c hc => nomatch hc⟩
  | cons token rest ih =>
    cases hclause : orderClause token with
    | error p =>
      rw [clausesOf, hclause] at h
      cases h
    | ok c =>
      rw [clausesOf_cons_ok hclause] at h ⊢
      by_cases hseen : c.field ∈ seen
      · rw [if_pos hseen] at h ⊢
        obtain ⟨named, hnamed, hfields, hfirst⟩ := ih h
        refine ⟨c :: named, by rw [List.map_cons, hclause, hnamed, List.map_cons], ?_, ?_⟩
        · rw [List.map_cons, List.filter_cons_of_neg (by simpa using hseen)]
          exact hfields
        · intro d hd
          rw [List.find?_cons_of_neg (by simp [hseen])]
          exact hfirst d hd
      · rw [if_neg hseen] at h ⊢
        obtain ⟨named, hnamed, hfields, hfirst⟩ := ih h
        refine ⟨c :: named, by rw [List.map_cons, hclause, hnamed, List.map_cons], ?_, ?_⟩
        · rw [List.map_cons, List.map_cons, List.filter_cons_of_pos (by simpa using hseen),
            unique_cons, List.filter_filter, hfields]
          simp only [List.contains_cons, Bool.not_or]
        · intro d hd
          rcases List.mem_cons.mp hd with rfl | hd
          · exact List.find?_cons_of_pos (by simp [hseen])
          · have hlater := hfirst d hd
            have hkept := List.find?_some hlater
            simp only [List.contains_cons, beq_self_eq_true, Bool.and_true, Bool.not_eq_true',
              Bool.or_eq_false_iff, beq_eq_false_iff_ne] at hkept
            rw [List.find?_cons_of_neg (by simp [Ne.symm hkept.1]), ← hlater]
            congr 1
            funext e
            by_cases he : e.field = d.field
            · simp [he, hkept.1]
            · simp [beq_eq_false_iff_ne.mpr he]

theorem exists_tokens {j : Json} (h : (order "order" j).problems = []) :
    ∃ tokens, namesOf? j = some tokens ∧ (clausesOf [] tokens).problems = [] ∧
      (order "order" j).value = (clausesOf [] tokens).value := by
  unfold order at h ⊢
  have hvalue := names_value "order" j
  cases hnames : namesOf? j with
  | none =>
    simp only [hvalue, hnames] at h
    rw [names_problems_eq_nil_iff, hnames] at h
    cases h
  | some tokens =>
    simp only [hvalue, hnames] at h
    exact ⟨tokens, rfl, h, by simp only [hvalue, hnames]⟩

/-! ## Spellings of one clause -/

theorem order_of_token {s : String} (hcomma : ',' ∉ s.toList) (hne : Text.trim s ≠ "")
    (h : orderClause (Text.trim s) = .ok c) : order "order" (.string s) = .ok [c] := by
  have hnames : namesOf? (.string s) = some [Text.trim s] := by
    rw [namesOf?, texts?, Option.map_some, List.flatMap_cons, List.flatMap_nil, List.append_nil,
      namesIn_of_notMem hcomma hne]
    rfl
  unfold order
  simp only [names_value, hnames, clausesOf_cons_ok h]
  rfl

theorem trim_eq_ofList {s : String} (front cs back : List Char)
    (hs : s.toList = front ++ cs ++ back)
    (hfront : ∀ c ∈ front, Text.isBlank c) (hback : ∀ c ∈ back, Text.isBlank c) :
    Text.trim s = String.ofList (Text.trimChars cs) := by
  rw [Text.trim, hs, Text.trimChars, Text.trimBy_append_right hback,
    Text.trimBy_append_left hfront, Text.trimChars]

variable {lead gap after trail word : String}

theorem IsBlankText.notMem {b : String} (hb : IsBlankText b) {c : Char}
    (hc : Text.isBlank c = false) : c ∉ b.toList := by
  intro hmem
  rw [hb c hmem] at hc
  cases hc

theorem IsField.toList_ne_nil (hf : IsField f) : f.toList ≠ [] := by simpa using hf.ne_empty

theorem IsField.trimChars (hf : IsField f) :
    f.toList.dropWhile Text.isBlank = f.toList ∧ f.toList.rdropWhile Text.isBlank = f.toList :=
  Text.trimBy_eq_self_iff.mp (Text.trim_eq_self_iff.mp hf.trimmed)

theorem order_sign (hf : IsField f) (hlead : IsBlankText lead) (hgap : IsBlankText gap)
    (htrail : IsBlankText trail) :
    order "order" (.string (lead ++ "-" ++ gap ++ f ++ trail)) =
      .ok [⟨gap ++ f, .descending⟩] := by
  have hkept : Text.trimChars ('-' :: gap.toList ++ f.toList) = '-' :: gap.toList ++ f.toList := by
    refine Text.trimBy_eq_self_iff.mpr ⟨List.dropWhile_cons_of_neg (by decide), ?_⟩
    exact Text.rdropWhile_append_of_eq_self hf.toList_ne_nil hf.trimChars.2
  have htoken : Text.trim (lead ++ "-" ++ gap ++ f ++ trail) =
      String.ofList ('-' :: (gap.toList ++ f.toList)) := by
    rw [trim_eq_ofList lead.toList ('-' :: gap.toList ++ f.toList) trail.toList (by simp) hlead
      htrail, hkept]
    rfl
  have hcomma : Text.isBlank ',' = false := by decide
  have hcolon : Text.isBlank ':' = false := by decide
  refine order_of_token ?_ (by simp [htoken]) ?_
  · simp [hlead.notMem hcomma, hgap.notMem hcomma, htrail.notMem hcomma, hf.comma_notMem]
  · rw [htoken, orderClause_sign (by simp [hf.toList_ne_nil])
      (by simp [hgap.notMem hcolon, hf.colon_notMem])]
    simp

theorem trim_of_field (hf : IsField f) (hlead : IsBlankText lead) (rest : String) :
    Text.trim (lead ++ f ++ rest) =
      String.ofList ((f.toList ++ rest.toList).rdropWhile Text.isBlank) := by
  rw [trim_eq_ofList lead.toList (f.toList ++ rest.toList) [] (by simp) hlead (by simp),
    Text.trimChars, Text.trimBy_eq_rdropWhile,
    Text.dropWhile_append_of_eq_self hf.toList_ne_nil hf.trimChars.1]

theorem orderClause_colon (hf : IsField f) (hsign : f.toList.head? ≠ some '-')
    (hlead : IsBlankText lead) (hgap : IsBlankText gap) (after : String) :
    let s := lead ++ f ++ (gap ++ ":" ++ after)
    Text.trim s ≠ "" ∧
      orderClause (Text.trim s) = clauseFor (Text.trim s) f (Text.lower (Text.trim after)) := by
  intro s
  have htoken : Text.trim s = String.ofList
      (f.toList ++ gap.toList ++ ':' :: after.toList.rdropWhile Text.isBlank) := by
    have hrest : f.toList ++ (gap ++ ":" ++ after).toList =
        f.toList ++ gap.toList ++ ':' :: after.toList := by simp
    rw [trim_of_field hf hlead, hrest, Text.rdropWhile_append_cons (by decide)]
  have hcut : Text.cut ':' (Text.trim s) = (String.ofList (f.toList ++ gap.toList),
      some (String.ofList (after.toList.rdropWhile Text.isBlank))) := by
    have hcolon : ':' ∉ f.toList ++ gap.toList := by
      simp [hf.colon_notMem, hgap.notMem (c := ':') (by decide)]
    rw [htoken, Text.cut, String.toList_ofList, Text.cutChars_append hcolon]
    rfl
  have hfield : Text.trim (String.ofList (f.toList ++ gap.toList)) = f := by
    have hown : Text.trimChars f.toList = f.toList := Text.trim_eq_self_iff.mp hf.trimmed
    rw [trim_eq_ofList [] f.toList gap.toList (by simp) (by simp) hgap, hown,
      String.ofList_toList]
  have hafter : Text.trim (String.ofList (after.toList.rdropWhile Text.isBlank)) =
      Text.trim after := by
    rw [Text.trim, Text.trim, String.toList_ofList, Text.trimChars, Text.trimBy_rdropWhile,
      Text.trimChars]
  have hne := hf.toList_ne_nil
  refine ⟨by simp [htoken], ?_⟩
  rw [orderClause_of_ne_sign, hcut]
  · simp only [hfield, Option.getD_some, hafter]
  · rw [htoken, String.toList_ofList, List.append_assoc, List.head?_append_of_ne_nil _ hne]
    exact hsign

theorem order_direction (hf : IsField f) (hsign : f.toList.head? ≠ some '-')
    (hlead : IsBlankText lead) (hgap : IsBlankText gap) (hafter : IsBlankText after)
    (htrail : IsBlankText trail) {d : Direction} (hword : d.IsSpelled word) :
    order "order" (.string (lead ++ f ++ (gap ++ ":" ++ (after ++ word ++ trail)))) =
      .ok [⟨f, d⟩] := by
  obtain ⟨hne, hclause⟩ := orderClause_colon hf hsign hlead hgap (after ++ word ++ trail)
  have htrim : Text.trim (after ++ word ++ trail) = word := by
    rw [trim_eq_ofList after.toList word.toList trail.toList (by simp) hafter htrail,
      Text.trimChars, Text.trimBy_of_forall fun c hc => Text.isBlank_of_letter (hword.letters c hc),
      String.ofList_toList]
  have hcomma : Text.isBlank ',' = false := by decide
  have hword' : ',' ∉ word.toList := fun h => absurd (hword.letters ',' h) (by decide)
  refine order_of_token ?_ hne ?_
  · simp [hlead.notMem hcomma, hgap.notMem hcomma, hafter.notMem hcomma, htrail.notMem hcomma,
      hf.comma_notMem, hword']
  · rw [hclause, htrim, hword.lower_eq, clauseFor, if_neg hf.ne_empty, if_neg d.word_ne_empty,
      d.ofWord?_word]

theorem order_no_direction (hf : IsField f) (hsign : f.toList.head? ≠ some '-')
    (hlead : IsBlankText lead) (hgap : IsBlankText gap) (htrail : IsBlankText trail) :
    order "order" (.string (lead ++ f ++ (gap ++ ":" ++ trail))) = .ok [⟨f, .ascending⟩] := by
  obtain ⟨hne, hclause⟩ := orderClause_colon hf hsign hlead hgap trail
  have htrim : Text.trim trail = "" := by
    rw [Text.trim, Text.trimChars, Text.trimBy_eq_nil htrail]
  have hcomma : Text.isBlank ',' = false := by decide
  refine order_of_token ?_ hne ?_
  · simp [hlead.notMem hcomma, hgap.notMem hcomma, htrail.notMem hcomma, hf.comma_notMem]
  · rw [hclause, htrim, clauseFor, if_neg hf.ne_empty]
    exact if_pos rfl

theorem order_field (hf : IsField f) (hsign : f.toList.head? ≠ some '-')
    (hlead : IsBlankText lead) (htrail : IsBlankText trail) :
    order "order" (.string (lead ++ f ++ trail)) = .ok [⟨f, .ascending⟩] := by
  have hown : Text.trimChars f.toList = f.toList := Text.trim_eq_self_iff.mp hf.trimmed
  have htoken : Text.trim (lead ++ f ++ trail) = f := by
    rw [trim_eq_ofList lead.toList f.toList trail.toList (by simp) hlead htrail, hown,
      String.ofList_toList]
  have hcut : Text.cut ':' f = (f, none) := by
    rw [Text.cut, Text.cutChars_of_notMem hf.colon_notMem]
    simp
  have hcomma : Text.isBlank ',' = false := by decide
  refine order_of_token ?_ (by rw [htoken]; exact hf.ne_empty) ?_
  · simp [hlead.notMem hcomma, htrail.notMem hcomma, hf.comma_notMem]
  · rw [htoken, orderClause_of_ne_sign hsign, hcut]
    simp only [hf.trimmed, Option.getD_none]
    rw [clauseFor, if_neg hf.ne_empty]
    exact if_pos rfl

/-- The fields are trimmed, unless a token has a blank behind its sign. -/
theorem trimmed_iff {tokens : List String} {named clauses : List OrderClause}
    (htokens : ∀ token ∈ tokens, IsName token) (hnamed : tokens.map orderClause = named.map .ok)
    (hfields : clauses.map (·.field) = unique (named.map (·.field))) :
    (∀ c ∈ clauses, Text.trim c.field = c.field) ↔ ∀ token ∈ tokens, ¬ HasBlankSign token := by
  constructor
  · intro htrim token htoken hblank
    obtain ⟨d, hd, hclause⟩ : ∃ d ∈ named, .ok d = orderClause token := by
      have hmem := List.mem_map_of_mem (f := orderClause) htoken
      rw [hnamed] at hmem
      exact List.mem_map.mp hmem
    have hfield : d.field ∈ clauses.map (·.field) := by
      rw [hfields, mem_unique]
      exact List.mem_map_of_mem hd
    obtain ⟨c, hc, hsame⟩ := List.mem_map.mp hfield
    refine trim_ne_of_hasBlankSign hblank hclause.symm ?_
    rw [← hsame]
    exact htrim c hc
  · intro hnone c hc
    have hfield : c.field ∈ named.map (·.field) := by
      rw [← mem_unique, ← hfields]
      exact List.mem_map_of_mem hc
    obtain ⟨d, hd, hsame⟩ := List.mem_map.mp hfield
    obtain ⟨token, htoken, hclause⟩ : ∃ token ∈ tokens, orderClause token = .ok d := by
      have hmem : (.ok d : Except Problem OrderClause) ∈ tokens.map orderClause := by
        rw [hnamed]
        exact List.mem_map_of_mem hd
      exact List.mem_map.mp hmem
    obtain ⟨-, -, -, htrim | hblank⟩ := orderClause_spec (htokens token htoken) hclause
    · rwa [hsame] at htrim
    · exact absurd hblank (hnone token htoken)

/-- An order value that is read without a problem gives one clause a field, that of the first token
naming it, in the order of these tokens. The fields are names without colons, unless a token has a
blank behind its sign, which stays in the field. Each spelling of a field and a direction gives the
clause of the two. -/
theorem order_clauses (j : Json) (f lead gap after trail : String) :
    ((order "order" j).problems = [] →
      let clauses := (order "order" j).value
      ∃ tokens, (names "order" j).value = some tokens ∧
      ∃ named : List OrderClause, tokens.map orderClause = named.map .ok ∧
        (clauses.map (·.field)).Nodup ∧
        clauses.map (·.field) = unique (named.map (·.field)) ∧
        (∀ c ∈ clauses, named.find? (fun d => d.field == c.field) = some c) ∧
        (∀ c ∈ clauses, c.field ≠ "" ∧ ',' ∉ c.field.toList ∧ ':' ∉ c.field.toList) ∧
        ((∀ c ∈ clauses, Text.trim c.field = c.field) ↔
          ∀ token ∈ tokens, ¬ HasBlankSign token)) ∧
    (IsField f → f.toList.head? ≠ some '-' → IsBlankText lead → IsBlankText gap →
      IsBlankText after → IsBlankText trail →
        order "order" (.string (lead ++ "-" ++ gap ++ f ++ trail)) =
          .ok [⟨gap ++ f, .descending⟩] ∧
        (∀ (d : Direction) word, d.IsSpelled word →
          order "order" (.string (lead ++ f ++ (gap ++ ":" ++ (after ++ word ++ trail)))) =
            .ok [⟨f, d⟩]) ∧
        order "order" (.string (lead ++ f ++ (gap ++ ":" ++ trail))) = .ok [⟨f, .ascending⟩] ∧
        order "order" (.string (lead ++ f ++ trail)) = .ok [⟨f, .ascending⟩]) := by
  refine ⟨fun h => ?_, fun hf hsign hlead hgap hafter htrail => ?_⟩
  · obtain ⟨tokens, htokens, hproblems, hvalue⟩ := exists_tokens h
    obtain ⟨named, hnamed, hfields, hfirst⟩ := clausesOf_spec hproblems
    have hall : ((named.map (·.field)).filter fun f => !([] : List String).contains f) =
        named.map (·.field) := by simp
    have hnames := (namesOf?_spec htokens).2
    rw [hvalue]
    rw [hall] at hfields
    refine ⟨tokens, by rw [names_value, htokens], named, hnamed, ?_, hfields, ?_, ?_, ?_⟩
    · rw [hfields]
      exact nodup_unique _
    · intro c hc
      simpa using hfirst c hc
    · intro c hc
      have hmem : (.ok c : Except Problem OrderClause) ∈ tokens.map orderClause := by
        rw [hnamed]
        exact List.mem_map_of_mem (List.mem_of_find?_eq_some (hfirst c hc))
      obtain ⟨token, htoken, hclause⟩ := List.mem_map.mp hmem
      obtain ⟨hne, hcomma, hcolon, -⟩ := orderClause_spec (hnames token htoken) hclause
      exact ⟨hne, hcomma, hcolon⟩
    · exact trimmed_iff hnames hnamed hfields
  · refine ⟨order_sign hf hlead hgap htrail, fun d word hword => ?_, ?_, ?_⟩
    · exact order_direction hf hsign hlead hgap hafter htrail hword
    · exact order_no_direction hf hsign hlead hgap htrail
    · exact order_field hf hsign hlead htrail

theorem isField_name : IsField "name" where
  ne_empty := by decide
  trimmed := by decide
  comma_notMem := by decide
  colon_notMem := by decide

theorem order_of_name_and_mark :
    let j := Json.string "-name, mark ,name:asc"
    (order "order" j).problems = [] ∧ ((order "order" j).value.map (·.field)).Nodup ∧
      (order "order" j).value = [⟨"name", .descending⟩, ⟨"mark", .ascending⟩] ∧
      IsField "name" ∧ order "order" (.string " -name ") = .ok [⟨"name", .descending⟩] ∧
      order "order" (.string " name : DESC ") = .ok [⟨"name", .descending⟩] ∧
      order "order" (.string " name : ") = .ok [⟨"name", .ascending⟩] := by
  intro j
  have hread : order "order" j = .ok [⟨"name", .descending⟩, ⟨"mark", .ascending⟩] := rfl
  have hproblems : (order "order" j).problems = [] := by rw [hread]; rfl
  have hblank : IsBlankText " " := List.all_eq_true.mp (by decide)
  have hnone : IsBlankText "" := List.all_eq_true.mp (by decide)
  have hword : Direction.descending.IsSpelled "DESC" := by
    unfold Direction.IsSpelled
    decide
  obtain ⟨_, -, _, -, hnodup, -⟩ := (order_clauses j "" "" "" "" "").1 hproblems
  have hfield := isField_name
  obtain ⟨-, hdirection, hcolon, -⟩ := (order_clauses j "name" " " " " " " " ").2 hfield (by decide)
    hblank hblank hblank hblank
  obtain ⟨hsign, -⟩ := (order_clauses j "name" " " "" " " " ").2 hfield (by decide) hblank hnone
    hblank hblank
  have hdescending := hdirection .descending "DESC" hword
  exact ⟨hproblems, hnodup, by rw [hread]; rfl, isField_name, hsign, hdescending, hcolon⟩

/-- The blank behind the sign makes another field of it. -/
theorem order_blank_behind_sign :
    (order "order" (.string "- name")).problems = [] ∧
      (∃ c ∈ (order "order" (.string "- name")).value, Text.trim c.field ≠ c.field) ∧
      (order "order" (.string "- name")).value ≠ (order "order" (.string "name:desc")).value := by
  have hread : order "order" (.string "- name") = .ok [⟨" name", .descending⟩] := rfl
  have hcolon : order "order" (.string "name:desc") = .ok [⟨"name", .descending⟩] := rfl
  rw [hread, hcolon]
  refine ⟨rfl, ⟨⟨" name", .descending⟩, List.mem_singleton_self _, by decide⟩, ?_⟩
  show [OrderClause.mk " name" .descending] ≠ [⟨"name", .descending⟩]
  decide

end Request
end FieldPlan
