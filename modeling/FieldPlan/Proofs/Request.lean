import FieldPlan.Proofs.Entries
import FieldPlan.Proofs.Json.Limits
import FieldPlan.Query.Request
/-!
# Answers to requests

A request ends with a query or with the problems that were found, unless a limit is met: its filters
have an integer of too many digits, or values stand too deep within each other to be read or to be
shown in a message. Nothing turns a limit into an answer.
-/
namespace FieldPlan

namespace Text

theorem digitValue_lt {c : Char} {d : Nat} (h : digitValue c = some d) : d < 10 := by
  obtain ⟨z, -, hz⟩ := List.exists_of_findSome?_eq_some h
  by_cases hrange : (decide (z ≤ c.toNat) && decide (c.toNat < z + 10)) = true
  · rw [if_pos hrange] at hz
    simp only [Bool.and_eq_true, decide_eq_true_eq] at hrange
    have hd := Option.some.inj hz
    omega
  · rw [if_neg hrange] at hz
    cases hz

theorem lt_of_mem_groupedDigits {cs : List Char} {ds : List Nat}
    (h : groupedDigits digitValue cs = some ds) : ∀ d ∈ ds, d < 10 := by
  fun_induction groupedDigits digitValue cs generalizing ds with
  | case1 => cases h
  | case2 c =>
    obtain ⟨d, hd, rfl⟩ := Option.map_eq_some_iff.mp h
    intro x hx
    rw [List.mem_singleton.mp hx]
    exact digitValue_lt hd
  | case3 c rest ih =>
    obtain ⟨d, hd, rest', hrest, rfl⟩ : ∃ d, digitValue c = some d ∧
        ∃ rest', groupedDigits digitValue rest = some rest' ∧ d :: rest' = ds := by
      simpa [Option.bind_eq_some_iff] using h
    exact List.forall_mem_cons.mpr ⟨digitValue_lt hd, ih hrest⟩
  | case4 c rest _ _ ih =>
    obtain ⟨d, hd, rest', hrest, rfl⟩ : ∃ d, digitValue c = some d ∧
        ∃ rest', groupedDigits digitValue rest = some rest' ∧ d :: rest' = ds := by
      simpa [Option.bind_eq_some_iff] using h
    exact List.forall_mem_cons.mpr ⟨digitValue_lt hd, ih hrest⟩

theorem length_toDigits_ofDigits {ds : List Nat} (h : ∀ d ∈ ds, d < 10) {k : Nat} (hk : 0 < k)
    (hlength : ds.length ≤ k) : (Nat.toDigits 10 (ofDigits ds)).length ≤ k := by
  have hfold (n : Nat) : ds.foldl (fun n d => 10 * n + d) n < (n + 1) * 10 ^ ds.length := by
    clear hlength
    induction ds generalizing n with
    | nil => simp
    | cons d ds ih =>
      have hd := h d List.mem_cons_self
      have hrest := ih (fun d hd => h d (List.mem_cons_of_mem _ hd)) (10 * n + d)
      have hstep : 10 * n + d + 1 ≤ (n + 1) * 10 := by omega
      have hscale : (10 * n + d + 1) * 10 ^ ds.length ≤ (n + 1) * 10 * 10 ^ ds.length :=
        Nat.mul_le_mul_right _ hstep
      rw [List.length_cons, Nat.pow_succ, Nat.mul_comm _ 10, ← Nat.mul_assoc]
      exact Nat.lt_of_lt_of_le hrest hscale
  have hbound : ofDigits ds < 10 ^ ds.length := by
    have hzero := hfold 0
    rwa [Nat.zero_add, Nat.one_mul] at hzero
  have hgrow : 10 ^ ds.length ≤ 10 ^ k := Nat.pow_le_pow_right (by omega) hlength
  exact (Nat.length_toDigits_le_iff (by omega) hk).mpr (Nat.lt_of_lt_of_le hbound hgrow)

/-- An integer that a text spells can be shown. -/
theorem isLongInt_of_readInteger {s : String} {n : Int} (h : readInteger s = some n) :
    Json.isLongInt n = false := by
  simp only [readInteger, Option.bind_eq_bind, Option.bind_eq_some_iff] at h
  obtain ⟨ds, hds, hn⟩ := h
  by_cases hlength : ds.length ≤ maxIntegerDigits
  · rw [if_pos hlength] at hn
    have habs : n.natAbs = ofDigits ds := by
      rw [← Option.some.inj hn]
      unfold withSign
      split
      · exact Int.natAbs_neg _
      · rfl
    have hdigits : (Nat.toDigits 10 n.natAbs).length ≤ maxIntegerDigits := by
      rw [habs]
      exact length_toDigits_ofDigits (lt_of_mem_groupedDigits hds) (by decide) hlength
    exact decide_eq_false (Nat.not_lt.mpr hdigits)
  · rw [if_neg hlength] at hn
    cases hn

end Text

namespace Json

mutual

def height : Json → Nat
  | array items => itemHeight items + 1
  | object entries => entryHeight entries + 1
  | _ => 1

def itemHeight : List Json → Nat
  | [] => 0
  | j :: rest => max (height j) (itemHeight rest)

def entryHeight : List (String × Json) → Nat
  | [] => 0
  | (_, j) :: rest => max (height j) (entryHeight rest)

end

/-- Texts, and objects of such values: all that the pairs of a query string make up. -/
inductive IsTextual : Json → Prop
  | text (s : String) : IsTextual (.string s)
  | object {entries : Entries Json} (h : ∀ e ∈ entries, IsTextual e.2) :
    IsTextual (.object entries)

theorem entryLimit?_eq {room : Nat} {entries : List (String × Json)}
    (h : ∀ e ∈ entries, limitShown? room e.2 = if room < e.2.height then some .depth else none) :
    entryLimit? room entries = if room < entryHeight entries then some .depth else none := by
  induction entries with
  | nil => simp [entryLimit?, entryHeight]
  | cons e rest ih =>
    obtain ⟨key, j⟩ := e
    have hfirst := h (key, j) List.mem_cons_self
    have hrest := ih fun e he => h e (List.mem_cons_of_mem _ he)
    have hheight : entryHeight ((key, j) :: rest) = max j.height (entryHeight rest) := by
      rw [entryHeight]
    rw [entryLimit?, hfirst, hrest, hheight]
    by_cases hdeep : room < j.height
    · have hmax : room < max j.height (entryHeight rest) := by omega
      rw [if_pos hdeep, if_pos hmax]
      rfl
    · have hmax : room < max j.height (entryHeight rest) ↔ room < entryHeight rest := by omega
      rw [if_neg hdeep, Option.none_or]
      simp only [hmax]

theorem IsTextual.limitShown? {j : Json} (h : j.IsTextual) (room : Nat) :
    limitShown? room j = if room < j.height then some .depth else none := by
  induction h generalizing room with
  | text s =>
    cases room with
    | zero => rfl
    | succ room => simp [Json.limitShown?, height]
  | object _ ih =>
    cases room with
    | zero => simp [Json.limitShown?, height]
    | succ room =>
      simp only [Json.limitShown?, height, Nat.add_lt_add_iff_right]
      exact entryLimit?_eq fun e he => ih e he room

end Json

namespace Parameters

def Textual (entries : Entries Json) : Prop := ∀ e ∈ entries, e.2.IsTextual

theorem Textual.set {entries : Entries Json} (h : Textual entries) {j : Json} (hj : j.IsTextual)
    (key : String) : Textual (entries.set key j) := by
  intro e he
  rcases Entries.mem_set he with rfl | he
  · exact hj
  · exact h e he

theorem Textual.get? {entries : Entries Json} (h : Textual entries) {key : String} {j : Json}
    (hj : entries.get? key = some j) : j.IsTextual := h _ (Entries.mem_of_get? hj)

theorem Textual.below {entries : Entries Json} (h : Textual entries) (segment : String) :
    Textual (below entries segment) := by
  unfold Parameters.below
  cases hget : Entries.get? entries segment with
  | none => exact fun e he => nomatch he
  | some j =>
    cases h.get? hget with
    | text s =>
      intro e he
      rw [List.mem_singleton.mp he]
      exact .text s
    | object hinner => exact hinner

theorem Textual.insert {value : Json} (hvalue : value.IsTextual) {entries : Entries Json}
    (h : Textual entries) (segment : String) (path : List String) :
    Textual (insert value entries segment path) := by
  induction path generalizing entries segment with
  | nil =>
    unfold Parameters.insert
    cases hget : Entries.get? entries segment with
    | none => exact h.set hvalue segment
    | some j =>
      cases h.get? hget with
      | text s => exact h.set hvalue segment
      | object hinner =>
        have hset := Textual.set hinner hvalue primary
        exact h.set (.object hset) segment
  | cons next path ih =>
    unfold Parameters.insert
    exact h.set (.object (ih (h.below segment) next)) segment

theorem textual_nest (items : List (String × String)) : Textual (nest (Request.texts items)) := by
  refine List.foldlRecOn _ _ (fun e he => nomatch he) fun entries h item hitem => ?_
  obtain ⟨⟨key, value⟩, -, rfl⟩ := List.mem_map.mp hitem
  dsimp only
  cases QueryKey.ofString? key with
  | none => exact h
  | some k => exact h.insert (.text value) k.name k.segments

end Parameters

namespace Request

theorem pageSize_of_short (s : Settings) {n : Option Int}
    (h : ∀ i, n = some i → Json.isLongInt i = false) : ∃ size, pageSize s n = .ok size := by
  cases n with
  | none => exact ⟨_, rfl⟩
  | some i =>
    unfold pageSize
    by_cases hsmall : i ≤ s.maxLimit
    · exact ⟨i, if_pos hsmall⟩
    · exact ⟨s.maxLimit, by simp [hsmall, h i rfl]⟩

section

variable [Room]

/-- The parameters meet a limit: their filters cannot be read, or a number they give is none and is
too deep to be shown. -/
inductive Exceeds (raw : Entries Json) : Limit → Prop
  | digits {text : String} {n : Nat} (h : raw.get? "filters" = some (.string text))
    (hread : Json.read text = .error (.longInteger n)) (hlong : Text.maxIntegerDigits < n) :
    Exceeds raw (.digitsRead n)
  | nesting {text : String} (h : raw.get? "filters" = some (.string text))
    (hread : Json.read text = .error .tooDeep) : Exceeds raw .depth
  | showing {name : String} {j : Json} (hname : name = "limit" ∨ name = "page")
    (h : raw.get? name = some j) (hdeep : Room.showing < j.height) : Exceeds raw .depth

variable {raw : Entries Json} {cause : Limit}

theorem filters_of_text {text : String} (h : raw.get? "filters" = some (.string text)) :
    (∃ n, Json.read text = .error (.longInteger n) ∧ filters raw = .error (.digitsRead n)) ∨
      (Json.read text = .error .tooDeep ∧ filters raw = .error .depth) ∨
      (∀ n, Json.read text ≠ .error (.longInteger n)) ∧ Json.read text ≠ .error .tooDeep ∧
        ∃ part, filters raw = .ok part := by
  by_cases hempty : text = ""
  · subst hempty
    have hread : Json.read "" = .error .value := rfl
    simp [filters, h, hread]
  · cases hread : Json.read text with
    | ok j => cases j <;> simp [filters, h, hread]
    | error fault => cases fault <;> simp [filters, h, hread]

theorem filters_of_not_text (h : ∀ text, raw.get? "filters" ≠ some (.string text)) :
    ∃ part, filters raw = .ok part := by
  cases hget : raw.get? "filters" with
  | none => exact ⟨.ok none, by simp [filters, hget]⟩
  | some j =>
    cases j with
    | string text => exact absurd hget (h text)
    | _ => simp [filters, hget]

theorem positive_of_textual (h : Parameters.Textual raw) (name : String) :
    (∃ j, raw.get? name = some j ∧ Room.showing < j.height ∧
        positive raw name = .error .depth) ∨
      (∀ j, raw.get? name = some j → j.height ≤ Room.showing) ∧
        ∃ part, positive raw name = .ok part ∧
          ∀ n, part.value = some n → Json.isLongInt n = false := by
  cases hget : raw.get? name with
  | none =>
    refine .inr ⟨fun j hj => (nomatch hj), .ok none, ?_, fun n hn => (nomatch hn)⟩
    simp [positive, hget]
  | some j =>
    have hshown := (h.get? hget).limitShown? Room.showing
    cases h.get? hget with
    | text s =>
      have hlow : (Json.string s).height ≤ Room.showing := Room.one_le_showing
      refine .inr ⟨fun j hj => Option.some.inj hj ▸ hlow, ?_⟩
      rw [if_neg (Nat.not_lt.mpr hlow)] at hshown
      by_cases hempty : s = ""
      · exact ⟨.ok none, by simp [positive, hget, hempty], fun n hn => nomatch hn⟩
      · cases hnumber : (integer? (.string s)).filter (1 ≤ ·) with
        | none =>
          refine ⟨.bad none (.notPositive name (.string s)), ?_, fun n hn => nomatch hn⟩
          simp [positive, hget, hempty, hnumber, hshown]
        | some n =>
          refine ⟨.ok (some n), by simp [positive, hget, hempty, hnumber], fun m hm => ?_⟩
          obtain rfl := Option.some.inj hm
          exact Text.isLongInt_of_readInteger (Option.filter_eq_some_iff.mp hnumber).1
    | @object entries hentries =>
      by_cases hdeep : Room.showing < (Json.object entries).height
      · rw [if_pos hdeep] at hshown
        exact .inl ⟨_, rfl, hdeep, by simp [positive, hget, integer?, hshown]⟩
      · rw [if_neg hdeep] at hshown
        refine .inr ⟨fun j hj => Option.some.inj hj ▸ Nat.not_lt.mp hdeep,
          .bad none (.notPositive name (.object entries)), ?_, fun n hn => nomatch hn⟩
        simp [positive, hget, integer?, hshown]

theorem pagination_of_textual (s : Settings) (h : Parameters.Textual raw) :
    (pagination s raw = .error .depth ∧ ∃ name j, (name = "limit" ∨ name = "page") ∧
        raw.get? name = some j ∧ Room.showing < j.height) ∨
      (∀ name j, (name = "limit" ∨ name = "page") → raw.get? name = some j →
        j.height ≤ Room.showing) ∧ ∃ part, pagination s raw = .ok part := by
  rcases positive_of_textual h "limit" with ⟨j, hget, hdeep, hlimit⟩ | ⟨hlow, limit, hlimit, hshort⟩
  · refine .inl ⟨?_, "limit", j, .inl rfl, hget, hdeep⟩
    simp [pagination, hlimit, bind, Except.bind]
  · rcases positive_of_textual h "page" with ⟨j, hget, hdeep, hpage⟩ | ⟨hlow', page, hpage, -⟩
    · refine .inl ⟨?_, "page", j, .inr rfl, hget, hdeep⟩
      simp [pagination, hlimit, hpage, bind, Except.bind]
    · obtain ⟨size, hsize⟩ := pageSize_of_short s hshort
      refine .inr ⟨?_, ?_⟩
      · rintro name j (rfl | rfl) hget
        · exact hlow j hget
        · exact hlow' j hget
      · simp [pagination, hlimit, hpage, hsize, bind, Except.bind, pure, Except.pure]

theorem read_of_limit (s : Settings) (resource : Option String)
    (h : filters raw = .error cause ∨
      ∃ part, filters raw = .ok part ∧ pagination s raw = .error cause) :
    read s raw resource = .error (.limit cause) := by
  rcases h with h | ⟨part, hfilters, hpage⟩
  · have hlimit : (filters raw).mapError RequestError.limit = .error (.limit cause) := by
      rw [h]
      rfl
    simp [read, hlimit, bind, Except.bind]
  · have hread : (filters raw).mapError RequestError.limit = .ok part := by
      rw [hfilters]
      rfl
    have hlimit : (pagination s raw).mapError RequestError.limit = .error (.limit cause) := by
      rw [hpage]
      rfl
    simp [read, hread, hlimit, bind, Except.bind]

theorem read_of_ok (s : Settings) (resource : Option String) {f : Part (Option Json)}
    {p : Part Pagination} (hfilters : filters raw = .ok f) (hpage : pagination s raw = .ok p) :
    (∃ q, read s raw resource = .ok q) ∨
      ∃ problems, problems ≠ [] ∧ read s raw resource = .error (.malformed problems) := by
  have hread : (filters raw).mapError RequestError.limit = .ok f := by
    rw [hfilters]
    rfl
  have hpaged : (pagination s raw).mapError RequestError.limit = .ok p := by
    rw [hpage]
    rfl
  simp only [read, hread, hpaged, bind, Except.bind]
  split
  · exact .inl ⟨_, rfl⟩
  · next hsome =>
    refine .inr ⟨_, fun hnone => hsome ?_, rfl⟩
    rw [hnone]
    rfl

/-- Reading ends with a limit exactly if one is met. -/
theorem read_of_textual (s : Settings) (h : Parameters.Textual raw) (resource : Option String) :
    (∃ cause, Exceeds raw cause ∧ read s raw resource = .error (.limit cause)) ∨
      (∀ cause, ¬ Exceeds raw cause) ∧ ((∃ q, read s raw resource = .ok q) ∨
        ∃ problems, problems ≠ [] ∧ read s raw resource = .error (.malformed problems)) := by
  have hfilters : (∃ cause, Exceeds raw cause ∧ filters raw = .error cause) ∨
      (∀ text, raw.get? "filters" = some (.string text) →
        (∀ n, Json.read text ≠ .error (.longInteger n)) ∧ Json.read text ≠ .error .tooDeep) ∧
      ∃ part, filters raw = .ok part := by
    by_cases htext : ∃ text, raw.get? "filters" = some (.string text)
    · obtain ⟨text, htext⟩ := htext
      rcases filters_of_text htext with ⟨n, hread, herror⟩ | ⟨hread, herror⟩ | ⟨hlong, hdeep, hok⟩
      · have hlong := Json.lt_of_read_longInteger hread
        exact .inl ⟨.digitsRead n, .digits htext hread hlong, herror⟩
      · exact .inl ⟨.depth, .nesting htext hread, herror⟩
      · refine .inr ⟨fun other hother => ?_, hok⟩
        obtain rfl := Json.string.inj (Option.some.inj (htext.symm.trans hother))
        exact ⟨hlong, hdeep⟩
    · refine .inr ⟨fun text hget => absurd ⟨text, hget⟩ htext, filters_of_not_text ?_⟩
      exact fun text hget => htext ⟨text, hget⟩
  rcases hfilters with ⟨cause, hexceeds, herror⟩ | ⟨hread, f, hok⟩
  · exact .inl ⟨cause, hexceeds, read_of_limit s resource (.inl herror)⟩
  · rcases pagination_of_textual s h with ⟨hpage, name, j, hname, hget, hdeep⟩ | ⟨hlow, p, hpage⟩
    · have hlimit := read_of_limit s resource (.inr ⟨f, hok, hpage⟩)
      exact .inl ⟨.depth, .showing hname hget hdeep, hlimit⟩
    · refine .inr ⟨fun cause hexceeds => ?_, read_of_ok s resource hok hpage⟩
      cases hexceeds with
      | digits hget hlong => exact (hread _ hget).1 _ hlong
      | nesting hget hdeep => exact (hread _ hget).2 hdeep
      | showing hname hget hdeep => exact absurd (hlow _ _ hname hget) (Nat.not_le.mpr hdeep)

/-- Every request is answered, with a query or with the status 400 and the problems that were found,
unless it meets a limit. Then it has no answer. -/
theorem answered (s : Settings) (items : List (String × String)) (resource : Option String) :
    let raw := Parameters.nest (texts items)
    let result := readItems s (texts items) resource
    (∃ cause, Exceeds raw cause ∧ result = .error (.limit cause) ∧
        answer s items resource = .error (.failed cause)) ∨
      (∀ cause, ¬ Exceeds raw cause) ∧
      ((∃ q, result = .ok q ∧ answer s items resource = .ok q) ∨
        ∃ problems, problems ≠ [] ∧ result = .error (.malformed problems) ∧
          answer s items resource = .error (.answered 400 (problems.map (·.message)))) := by
  intro raw result
  have hanswer : answer s items resource = result.mapError RequestError.refusal := rfl
  rcases read_of_textual s (Parameters.textual_nest items) resource with
    ⟨cause, hexceeds, hlimit⟩ | ⟨hfree, ⟨q, hok⟩ | ⟨problems, hsome, hmalformed⟩⟩
  · have hresult : result = .error (.limit cause) := hlimit
    refine .inl ⟨cause, hexceeds, hresult, ?_⟩
    rw [hanswer, hresult]
    rfl
  · have hresult : result = .ok q := hok
    refine .inr ⟨hfree, .inl ⟨q, hresult, ?_⟩⟩
    rw [hanswer, hresult]
    rfl
  · have hresult : result = .error (.malformed problems) := hmalformed
    refine .inr ⟨hfree, .inr ⟨problems, hsome, hresult, ?_⟩⟩
    rw [hanswer, hresult]
    rfl

def longFilters (n : Nat) : List (String × String) :=
  [("filters", String.ofList ('[' :: (Json.ones n ++ [']'])))]

theorem readItems_longFilters (s : Settings) (resource : Option String) {n : Nat}
    (h : Text.maxIntegerDigits < n + 1) :
    readItems s (texts (longFilters (n + 1))) resource = .error (.limit (.digitsRead (n + 1))) := by
  let text := String.ofList ('[' :: (Json.ones (n + 1) ++ [']']))
  have hread : Json.read text = .error (.longInteger (n + 1)) := Json.read_array_ones h
  have hnest : Parameters.nest (texts (longFilters (n + 1))) = [("filters", .string text)] := rfl
  have hget : Entries.get? [("filters", Json.string text)] "filters" = some (.string text) := rfl
  apply read_of_limit
  left
  rw [hnest]
  rcases filters_of_text hget with ⟨m, hm, herror⟩ | ⟨hdeep, -⟩ | ⟨hshort, -⟩
  · rw [hread] at hm
    obtain rfl := Json.Fault.longInteger.inj (Except.error.inj hm)
    exact herror
  · rw [hread] at hdeep
    cases hdeep
  · exact absurd hread (hshort _)

end

attribute [local instance] Room.usual

/-- There is neither a query nor an answer for an integer of 4301 digits. -/
theorem longFilters_unanswered :
    let result := readItems {} (texts (longFilters 4301)) none
    let answer := answer {} (longFilters 4301) none
    (¬ ((∃ q, result = .ok q) ∨ ∃ problems, result = .error (.malformed problems))) ∧
    ¬ ((∃ q, answer = .ok q) ∨ ∃ errors, answer = .error (.answered 400 errors)) := by
  intro result answer
  have hresult : result = .error (.limit (.digitsRead 4301)) :=
    readItems_longFilters {} none (show Text.maxIntegerDigits < 4300 + 1 by decide)
  have hanswer : answer = result.mapError RequestError.refusal := rfl
  rw [hanswer, hresult]
  refine ⟨?_, ?_⟩
  · rintro (⟨q, hq⟩ | ⟨problems, hproblems⟩)
    · cases hq
    · cases hproblems
  · rintro (⟨q, hq⟩ | ⟨errors, herrors⟩)
    · cases hq
    · cases herrors

end Request
end FieldPlan
