import FieldPlan.Proofs.Model.Remembered
/-!
# One key for one topic

Whatever a service or a loader looks up has the key of a topic, and a key tells its topic. The types
of resources and the names of relationships may hold the marks that keys are joined with; what
stands beside them may not, or has a known length.
-/
namespace FieldPlan

open Cache

/-- Keys of one namespace are equal only for one topic, and keys of two namespaces without colons
never are. All that services and loaders look up has the key of such a topic. -/
theorem keys_told_apart (space : String) :
    (∀ t : Topic, t.template.key space t.args = .ok (t.key space) ∧
      t.template.keyOf space (t.args.map .string) = .ok (t.key space)) ∧
    (∀ p q : Topic, p.Plain → q.Plain → p.key space = q.key space → p = q) ∧
    (∀ other, space ≠ "" → other ≠ "" → ':' ∉ space.toList → ':' ∉ other.toList →
      space ≠ other → ∀ p q : Topic, p.key space ≠ q.key other) ∧
    (∀ (s : Service) (q : Question), s.settings.keyPrefix = space →
      (q.topic s).Plain ∧ q.key s = (q.topic s).key space ∧
        signature? (q.payload s) = .ok (signature (q.payload s))) ∧
    ∀ q : ModelQuestion, ':' ∉ q.model.name.toList →
      q.topic.Plain ∧ q.key space = q.topic.key space := by
  refine ⟨fun t => ?_, fun p q hp hq => Topic.eq_of_key hp hq, ?_, ?_, ?_⟩
  · have hkey := Topic.key_eq_ok space t
    exact ⟨hkey, (Template.keyOf_texts space t.template t.args).trans hkey⟩
  · intro other hspace hother hcolon hcolon' hne p q h
    exact hne (Template.space_of_fill hspace hother hcolon hcolon' h)
  · rintro s q rfl
    exact ⟨q.plain_topic s, q.key_eq s, q.signature?_payload s⟩
  · intro q hq
    exact ⟨ModelQuestion.plain_topic hq, q.key_eq space⟩

/-- A relationship with a colon in its name keeps its key for itself, and so do plans of types with
colons. The names of models are another matter. -/
theorem keys_with_colons :
    let digest := "0123456789abcdef0123456789abcdef"
    (Topic.relationship "User" "posts:author").key "app" ≠
      (Topic.relationship "User" "posts").key "app" ∧
    (Topic.plan "blog:post" digest).key "app" ≠ (Topic.plan "post" digest).key "app" ∧
    (Topic.plan "post" digest).key "app" ≠ (Topic.plan "post" digest).key "blog" ∧
    (Topic.relationship "User" "posts:author").key "app" =
      (Topic.relationship "User:posts" "author").key "app" := by
  intro digest
  obtain ⟨-, hsame, hspace, -⟩ := keys_told_apart "app"
  have huser : ':' ∉ "User".toList := by decide
  have hdigest : digest.toList.length = 32 := by decide
  have hrelations := hsame (.relationship "User" "posts:author") (.relationship "User" "posts")
    huser huser
  have hplans := hsame (.plan "blog:post" digest) (.plan "post" digest) hdigest hdigest
  refine ⟨fun h => absurd (hrelations h) (by decide), fun h => absurd (hplans h) (by decide), ?_,
    rfl⟩
  · exact hspace "blog" (by decide) (by decide) (by decide) (by decide) (by decide) _ _

end FieldPlan
