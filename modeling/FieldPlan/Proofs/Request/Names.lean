import FieldPlan.Proofs.Names
import FieldPlan.Proofs.Text
import FieldPlan.Query.Request
/-!
# Names in a request

The names that a parameter gives are distinct, and each is a text without commas that is not empty
and has no blank at either end. A value of commas and blanks gives none.
-/
namespace FieldPlan.Request

/-- What can be a name in a list of names. -/
structure IsName (n : String) : Prop where
  ne_empty : n ≠ ""
  trimmed : Text.trim n = n
  comma_notMem : ',' ∉ n.toList

/-- At least one name, and none of them twice. -/
structure AreNames (names : List String) : Prop where
  ne_nil : names ≠ []
  nodup : names.Nodup
  isName : ∀ n ∈ names, IsName n

/-- Nothing but commas and blanks. -/
def HasNoName (s : String) : Prop := ∀ c ∈ s.toList, c = ',' ∨ Text.isBlank c = true

theorem isName_of_mem_namesIn {s n : String} (h : n ∈ namesIn s) : IsName n := by
  obtain ⟨hmem, hne⟩ := List.mem_filter.mp h
  obtain ⟨piece, hpiece, rfl⟩ := List.mem_map.mp hmem
  refine ⟨by simpa using hne, Text.trim_trim piece, fun hcomma => ?_⟩
  rw [Text.trim, String.toList_ofList] at hcomma
  exact Text.not_mem_of_mem_split hpiece (Text.mem_of_mem_trimBy hcomma)

theorem namesIn_of_hasNoName {s : String} (h : HasNoName s) : namesIn s = [] := by
  refine List.filter_eq_nil_iff.mpr fun n hn hne => ?_
  obtain ⟨piece, hpiece, rfl⟩ := List.mem_map.mp hn
  have hblank : ∀ c ∈ piece.toList, Text.isBlank c := by
    intro c hc
    rcases h c (Text.mem_of_mem_split hpiece hc) with rfl | hblank
    · exact absurd hc (Text.not_mem_of_mem_split hpiece)
    · exact hblank
  rw [Text.trim, Text.trimChars, Text.trimBy_eq_nil hblank] at hne
  cases hne

theorem namesIn_of_notMem {s : String} (hcomma : ',' ∉ s.toList) (hne : Text.trim s ≠ "") :
    namesIn s = [Text.trim s] := by
  rw [namesIn, Text.split_of_notMem hcomma, List.map_singleton]
  exact List.filter_cons_of_pos (by simpa using hne)

def texts? : Json → Option (List String)
  | .string s => some [s]
  | .array items => Json.strings? items
  | _ => none

/-- The names that a value gives, whatever it is reported under. -/
def namesOf? (j : Json) : Option (List String) :=
  (texts? j).map fun texts => unique (texts.flatMap namesIn)

section Values

variable {label : String} {j : Json} {ns : List String}

theorem names_eq (label : String) (j : Json) : names label j = match namesOf? j with
    | some ns => .ok (some ns)
    | none => .bad none (.notNames label) := by
  cases j with
  | string s => simp [names, namesOf?, texts?]
  | array items =>
    cases hitems : Json.strings? items with
    | none => simp [names, namesOf?, texts?, hitems]
    | some texts => simp [names, namesOf?, texts?, hitems]
  | _ => rfl

theorem names_value (label : String) (j : Json) : (names label j).value = namesOf? j := by
  rw [names_eq]
  cases namesOf? j <;> rfl

/-- Names are given, or a problem is reported. -/
theorem names_problems_eq_nil_iff : (names label j).problems = [] ↔ (namesOf? j).isSome := by
  rw [names_eq]
  cases namesOf? j with
  | none => simp [Part.bad]
  | some ns => simp [Part.ok]

theorem namesOf?_spec (h : namesOf? j = some ns) : ns.Nodup ∧ ∀ n ∈ ns, IsName n := by
  obtain ⟨texts, -, rfl⟩ := Option.map_eq_some_iff.mp h
  refine ⟨nodup_unique _, fun n hn => ?_⟩
  obtain ⟨text, -, hin⟩ := List.mem_flatMap.mp (mem_unique.mp hn)
  exact isName_of_mem_namesIn hin

theorem given_namesOf?_spec (h : given (namesOf? j) = some ns) : AreNames ns := by
  obtain ⟨hvalue, hne⟩ := Option.filter_eq_some_iff.mp h
  obtain ⟨hnodup, hname⟩ := namesOf?_spec hvalue
  exact ⟨by simpa using hne, hnodup, hname⟩

end Values

end FieldPlan.Request
