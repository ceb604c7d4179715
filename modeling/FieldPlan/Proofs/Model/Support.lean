import FieldPlan.Proofs.Model.Paths
/-!
# Plans that models support

A plan fits a model when each of its paths leads to a model that has the columns and allows the
constraint of the load there, and when each aggregate at the root can be taken. Such a plan can be
applied: on the way along a path each segment is a relationship, and the constraint that holds there
is one that the plan has at the path so far.
-/
namespace FieldPlan.Loader

variable {l : Loader} {m : Model} {p : LoadPlan}

structure Supports (l : Loader) (m : Model) (p : LoadPlan) : Prop where
  load : ∀ path load, (path, load) ∈ p.relations →
    ∃ target, l.mapping.follow? m (Text.split '.' path) = some target ∧
      (∀ n ∈ load.columns.getD [], n ∈ target.columnNames) ∧
        ∃ c, l.registry.Restricts load.constraint target c
  aggregate : ∀ e ∈ p.atRoot, ∃ c, l.IsAggregate m e c

private theorem Supports.exists_condition (h : l.Supports m p) {names : List String}
    (hne : names ≠ []) (hnames : ∀ n ∈ names, '.' ∉ n.toList) {target : Model}
    (htarget : l.mapping.follow? m names = some target) :
    ∃ c, l.registry.Restricts
      ((p.relations.get? (".".intercalate names)).bind (·.constraint)) target c := by
  cases hload : p.relations.get? (".".intercalate names) with
  | none => exact ⟨none, rfl⟩
  | some load =>
    obtain ⟨t, ht, -, c, hc⟩ := h.load _ load (Entries.mem_of_get? hload)
    rw [Text.split_intercalate hne hnames, htarget] at ht
    exact ⟨c, Option.some.inj ht ▸ hc⟩

/-- From any place on a path on, the steps are there: by induction on the names that are left. -/
private theorem Supports.exists_steps (h : l.Supports m p) {current last : Model}
    {before after : List String} (hnames : ∀ n ∈ before ++ after, '.' ∉ n.toList)
    (hbefore : l.mapping.follow? m before = some current)
    (hafter : l.mapping.follow? current after = some last) :
    ∃ steps, l.Steps p current before after steps last := by
  induction after generalizing before current with
  | nil =>
    obtain rfl := Option.some.inj hafter
    exact ⟨[], .nil⟩
  | cons segment rest ih =>
    obtain ⟨r, target, hleads, hrest⟩ := Mapping.follow?_cons.mp hafter
    have hhere : l.mapping.follow? m (before ++ [segment]) = some target := by
      rw [Mapping.follow?_append, hbefore, Option.bind_some, hleads.follow?]
    have happend : before ++ segment :: rest = before ++ [segment] ++ rest := by simp
    rw [happend] at hnames
    obtain ⟨c, hc⟩ := h.exists_condition (by simp)
      (fun n hn => hnames n (List.mem_append_left rest hn)) hhere
    obtain ⟨more, hmore⟩ := ih hnames hhere hrest
    exact ⟨_, .cons hleads hc hmore⟩

private theorem exists_forall₂ {α β : Type} {R : α → β → Prop} {items : List α}
    (h : ∀ a ∈ items, ∃ b, R a b) : ∃ others, List.Forall₂ R items others := by
  induction items with
  | nil => exact ⟨[], .nil⟩
  | cons a items ih =>
    obtain ⟨b, hb⟩ := h a List.mem_cons_self
    obtain ⟨others, hothers⟩ := ih fun c hc => h c (List.mem_cons_of_mem a hc)
    exact ⟨b :: others, .cons hb hothers⟩

theorem Supports.exists_apply [Room] (h : l.Supports m p) : ∃ st, (l.apply m p).eval = .ok st := by
  have hoption : ∀ e ∈ p.relations, ∃ o, l.IsOption p m e o := by
    rintro ⟨path, load⟩ hload
    obtain ⟨target, htarget, hcolumns, -⟩ := h.load path load hload
    obtain ⟨steps, hsteps⟩ : ∃ steps, l.Steps p m [] (Text.split '.' path) steps target :=
      h.exists_steps (fun n hn => Text.not_mem_of_mem_split hn) rfl htarget
    exact ⟨⟨path, steps, load.columns.getD []⟩, rfl, rfl, target, hsteps, hcolumns⟩
  obtain ⟨options, hoptions⟩ := exists_forall₂ hoption
  obtain ⟨aggregates, haggregates⟩ := exists_forall₂ h.aggregate
  exact ⟨_, eval_apply.mpr ⟨options, aggregates, hoptions, haggregates, rfl⟩⟩

end FieldPlan.Loader
