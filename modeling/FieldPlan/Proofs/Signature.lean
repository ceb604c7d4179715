import FieldPlan.Cache.Key
import FieldPlan.Proofs.Json.Limits
import FieldPlan.Signature
/-!
# Telling keys apart

The category in front tells the template of a key. A signature always has thirty-two characters, so
that the type of a resource and the signature behind it can be told apart, whatever characters the
type is made of; the name of a model, which has no colons, ends at the first colon. So a key has one
topic.
-/
namespace FieldPlan

theorem Text.length_hexDigits (width n : Nat) : (hexDigits width n).length = width := by
  induction width generalizing n with
  | zero => rfl
  | succ width ih => rw [hexDigits, List.length_append, ih, List.length_singleton]

namespace Digest

theorem length_littleEndian (width n : Nat) : (littleEndian width n).length = width := by
  induction width generalizing n with
  | zero => rfl
  | succ width ih => rw [littleEndian, List.length_cons, ih]

theorem length_wordHex (w : UInt32) : (wordHex w).length = 8 := by
  have hbytes (bytes : List UInt8) :
      (bytes.flatMap fun b => Text.hexDigits 2 b.toNat).length = 2 * bytes.length := by
    induction bytes with
    | nil => rfl
    | cons b bytes ih =>
      rw [List.flatMap_cons, List.length_append, Text.length_hexDigits, ih, List.length_cons]
      omega
  rw [wordHex, hbytes, length_littleEndian]

theorem length_md5 (s : String) : (md5 s).toList.length = 32 := by
  simp only [md5, Words.hex, String.toList_ofList, List.length_append, length_wordHex]

end Digest

theorem length_signature (payload : Json) : (signature payload).toList.length = 32 :=
  Digest.length_md5 payload.canonicalText

/-- Of two texts that end in equally long parts, both parts are equal. -/
private theorem append_inj_of_length {a b x y : String} (h : a ++ x = b ++ y)
    (hlength : x.toList.length = y.toList.length) : a = b ∧ x = y := by
  have hlist := congrArg String.toList h
  rw [String.toList_append, String.toList_append] at hlist
  obtain ⟨ha, hx⟩ := List.append_inj' hlist hlength
  exact ⟨String.toList_injective ha, String.toList_injective hx⟩

namespace Cache.Template

private def lead (space : String) : String := if space = "" then "" else space ++ ":"

private theorem fill_eq (space : String) (t : Template) (args : List String) :
    t.fill space args = lead space ++ ":".intercalate (t.category :: args) := by
  unfold fill lead
  split <;> simp

/-- Texts go into a key as they are. -/
theorem keyOf_texts (space : String) (t : Template) (args : List String) :
    t.keyOf space (args.map .string) = t.key space args := by
  have hplain : (args.map Json.string).map Json.plain = args := by
    rw [List.map_map]
    exact List.map_id args
  have hshort : Json.anyLongInt (args.map .string) = false := by
    simpa only [Json.ofStrings, Json.hasLongInt] using Json.hasLongInt_ofStrings args
  rw [keyOf, hplain, hshort]
  cases t.key space args with
  | ok key => rfl
  | error e => rfl

private theorem fill_inj {space : String} {t t' : Template} {args args' : List String}
    (h : t.fill space args = t'.fill space args') :
    ":".intercalate (t.category :: args) = ":".intercalate (t'.category :: args') := by
  rw [fill_eq, fill_eq] at h
  exact (String.append_right_inj _).mp h

theorem category_injective {t t' : Template} (h : t.category = t'.category) : t = t' := by
  cases t <;> cases t' <;> first | rfl | exact absurd h (by decide)

private theorem colon_notMem_category (t : Template) : ':' ∉ t.category.toList := by
  cases t <;> decide

private theorem toList_intercalate_cons (a b : String) (rest : List String) :
    (":".intercalate (a :: b :: rest)).toList =
      a.toList ++ ':' :: (":".intercalate (b :: rest)).toList := by
  simp [String.toList_intercalate, List.intercalate]

private theorem append_cons_inj {α : Type} [DecidableEq α] {mark : α} {a b c d : List α}
    (ha : mark ∉ a) (hb : mark ∉ b) (h : a ++ mark :: c = b ++ mark :: d) : a = b ∧ c = d := by
  induction a generalizing b with
  | nil =>
    cases b with
    | nil => exact ⟨rfl, (List.cons.inj h).2⟩
    | cons y b => exact absurd (List.cons.inj h).1 fun heq => hb (heq ▸ List.mem_cons_self)
  | cons x a ih =>
    cases b with
    | nil => exact absurd (List.cons.inj h).1 fun heq => ha (heq ▸ List.mem_cons_self)
    | cons y b =>
      obtain ⟨rfl, htail⟩ := List.cons.inj h
      obtain ⟨rfl, rfl⟩ := ih (fun hm => ha (List.mem_cons_of_mem x hm))
        (fun hm => hb (List.mem_cons_of_mem x hm)) htail
      exact ⟨rfl, rfl⟩

private theorem fill_cons_inj {space : String} {t t' : Template} {name name' : String}
    {rest rest' : List String}
    (h : t.fill space (name :: rest) = t'.fill space (name' :: rest')) :
    t = t' ∧ (":".intercalate (name :: rest)).toList = (":".intercalate (name' :: rest')).toList := by
  have hkey := congrArg String.toList (fill_inj h)
  rw [toList_intercalate_cons, toList_intercalate_cons] at hkey
  obtain ⟨hcategory, hrest⟩ :=
    append_cons_inj (colon_notMem_category t) (colon_notMem_category t') hkey
  exact ⟨category_injective (String.toList_injective hcategory), hrest⟩

theorem template_of_fill {space : String} {t t' : Template} {name name' : String}
    {rest rest' : List String}
    (h : t.fill space (name :: rest) = t'.fill space (name' :: rest')) : t = t' :=
  (fill_cons_inj h).1

theorem fill_one_inj {space : String} {t : Template} {name name' : String}
    (h : t.fill space [name] = t.fill space [name']) : name = name' := by
  have hrest := (fill_cons_inj h).2
  exact String.toList_injective (by simpa [String.toList_intercalate] using hrest)

theorem fill_two_inj {space : String} {t : Template} {name name' other other' : String}
    (hname : ':' ∉ name.toList) (hname' : ':' ∉ name'.toList)
    (h : t.fill space [name, other] = t.fill space [name', other']) :
    name = name' ∧ other = other' := by
  have hrest := (fill_cons_inj h).2
  rw [toList_intercalate_cons, toList_intercalate_cons] at hrest
  obtain ⟨hfirst, hsecond⟩ := append_cons_inj hname hname' hrest
  refine ⟨String.toList_injective hfirst, ?_⟩
  exact String.toList_injective (by simpa [String.toList_intercalate] using hsecond)

theorem fill_dotted_inj {space a b x y : String} {t : Template}
    (hlength : x.toList.length = y.toList.length)
    (h : t.fill space [a ++ "." ++ x] = t.fill space [b ++ "." ++ y]) : a = b ∧ x = y := by
  obtain ⟨hdotted, hlast⟩ := append_inj_of_length (fill_one_inj h) hlength
  exact ⟨(String.append_left_inj _).mp hdotted, hlast⟩

theorem fill_pair_inj {space a b x y : String} {t : Template}
    (hlength : x.toList.length = y.toList.length)
    (h : t.fill space [a, x] = t.fill space [b, y]) : a = b ∧ x = y := by
  have hrest := (fill_cons_inj h).2
  simp only [toList_intercalate_cons, String.intercalate_singleton] at hrest
  obtain ⟨hfirst, hlast⟩ := List.append_inj' hrest (by simpa using hlength)
  exact ⟨String.toList_injective hfirst, String.toList_injective (List.cons.inj hlast).2⟩

theorem space_of_fill {space space' : String} {t t' : Template} {args args' : List String}
    (hspace : space ≠ "") (hspace' : space' ≠ "") (hcolon : ':' ∉ space.toList)
    (hcolon' : ':' ∉ space'.toList) (h : t.fill space args = t'.fill space' args') :
    space = space' := by
  rw [fill, fill, if_neg hspace, if_neg hspace'] at h
  have hkey := congrArg String.toList h
  simp only [String.toList_append, List.append_assoc] at hkey
  exact String.toList_injective (append_cons_inj hcolon hcolon' hkey).1

theorem fill_resolvedFields_ne_plan (space name type sig : String) :
    resolvedFields.fill space [name] ≠ plan.fill space [type, sig] :=
  fun h => nomatch template_of_fill h

end Cache.Template

namespace Cache

/-- What a key is about. -/
inductive Topic where
  | fields (type signature : String)
  | plan (type signature : String)
  | columns (model : String)
  | columnKinds (model : String)
  | relationship (model name : String)
  | relatedModel (model name : String)
  deriving DecidableEq

namespace Topic

def template : Topic → Template
  | fields .. => .resolvedFields
  | plan .. => .plan
  | columns _ => .columns
  | columnKinds _ => .columnKinds
  | relationship .. => .relationship
  | relatedModel .. => .relatedModel

def args : Topic → List String
  | fields type signature => [type ++ "." ++ signature]
  | plan type signature => [type, signature]
  | columns model | columnKinds model => [model]
  | relationship model name | relatedModel model name => [model, name]

def key (space : String) (t : Topic) : String := t.template.fill space t.args

/-- Signatures have thirty-two characters, and names of models no colon. Types of resources and
names of relationships are any text. -/
def Plain : Topic → Prop
  | fields _ signature | plan _ signature => signature.toList.length = 32
  | columns model | columnKinds model | relationship model _ | relatedModel model _ =>
    ':' ∉ model.toList

variable {space : String} {p q : Topic}

theorem key_eq_ok (space : String) (t : Topic) :
    t.template.key space t.args = .ok (t.key space) := by
  cases t <;> rfl

theorem template_of_key (h : p.key space = q.key space) : p.template = q.template := by
  cases p <;> cases q <;> exact Template.template_of_fill h

theorem eq_of_key (hp : p.Plain) (hq : q.Plain) (h : p.key space = q.key space) : p = q := by
  have htemplate := template_of_key h
  cases p with
  | fields type signature =>
    cases q with
    | fields type' signature' =>
      obtain ⟨rfl, rfl⟩ := Template.fill_dotted_inj (hp.trans (Eq.symm hq)) h
      rfl
    | _ => cases htemplate
  | plan type signature =>
    cases q with
    | plan type' signature' =>
      obtain ⟨rfl, rfl⟩ := Template.fill_pair_inj (hp.trans (Eq.symm hq)) h
      rfl
    | _ => cases htemplate
  | columns model =>
    cases q with
    | columns model' => exact congrArg columns (Template.fill_one_inj h)
    | _ => cases htemplate
  | columnKinds model =>
    cases q with
    | columnKinds model' => exact congrArg columnKinds (Template.fill_one_inj h)
    | _ => cases htemplate
  | relationship model name =>
    cases q with
    | relationship model' name' =>
      obtain ⟨rfl, rfl⟩ := Template.fill_two_inj hp hq h
      rfl
    | _ => cases htemplate
  | relatedModel model name =>
    cases q with
    | relatedModel model' name' =>
      obtain ⟨rfl, rfl⟩ := Template.fill_two_inj hp hq h
      rfl
    | _ => cases htemplate

end Topic
end Cache
end FieldPlan
