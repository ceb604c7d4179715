import FieldPlan.Proofs.Cache.Progress
import FieldPlan.Proofs.Service.Transparency
/-!
# Progress of the service

Computing a plan asks the cache for resolved fields, and resolving fields asks it for nothing. So
plans rank above resolved fields, and threads that share a service and a cache never block each
other for good, whatever they ask for and however their steps interleave.
-/
namespace FieldPlan

open Cache

namespace Cache.Task

variable {β ε ν α : Type}

/-- The outcome of a task as a value. -/
def attempt : {α : Type} → Task ε ν α → Task ε ν (Result ε α)
  | _, .pure a => .pure (.ok a)
  | _, .fail e => .pure (.error e)
  | _, .note text next => .note text next.attempt
  | _, .remember key codec body next => .remember key codec body fun r => (next r).attempt

theorem run_attempt [Backend β] (t : Task ε ν α) (s : Store β ν) :
    t.attempt.run s = (.ok (t.run s).1, (t.run s).2) := by
  induction t generalizing s with
  | pure a => rfl
  | fail e => rfl
  | note text next ih => exact ih _
  | remember key codec body next _ ih => exact ih _ _

theorem below_attempt {rank : String → Nat} {n : Nat} {t : Task ε ν α} (h : t.Below rank n) :
    t.attempt.Below rank n := by
  induction t with
  | pure a => trivial
  | fail e => trivial
  | note text next ih => exact ih h
  | remember key codec body next _ ih =>
    obtain ⟨hkey, hbody, hnext⟩ := h
    exact ⟨hkey, hbody, fun r => ih r (hnext r)⟩

end Cache.Task

/-- What a thread asks for: calls, each chosen by the outcomes of those before it. -/
inductive Session where
  | done
  | ask (c : Call) (next : Result ServiceError Answer → Session)

/-- A session answers the outcomes of its calls. A call that fails does not end it. -/
def Session.task [Room] (s : Service) : Session → Work (List (Result ServiceError Answer))
  | done => .pure []
  | ask c next =>
    .bind (c.task s).attempt fun r => .bind ((next r).task s) fun rs => .pure (r :: rs)

namespace Service

open Classical in
/-- The rank of a key: plans stand above everything else. -/
noncomputable def rank (s : Service) (key : String) : Nat :=
  if ∃ type sig, key = Template.plan.fill s.settings.keyPrefix [type, sig] then 1 else 0

variable (s : Service)

theorem rank_planKey (r : ResourceSchema) (names : List String) (nested : Selection) :
    s.rank (s.planKey r names nested) = 1 :=
  if_pos ⟨r.type, signature (planPayload names nested), rfl⟩

theorem rank_resolutionKey (r : ResourceSchema) (requested : Option (List String))
    (excluded : List String) : s.rank (s.resolutionKey r requested excluded) = 0 := by
  refine if_neg ?_
  rintro ⟨type, sig, h⟩
  exact Template.fill_resolvedFields_ne_plan _ _ _ _ h

variable {n : Nat}

theorem below_ofResource {α : Type} (r : Except ResourceError α) :
    (Work.ofResource r).Below s.rank n :=
  Task.below_ofExcept _

theorem below_names (js : List Json) : (Work.names js).Below s.rank n := by
  unfold Work.names
  split <;> trivial

variable [Room]

theorem below_resolveData (r : ResourceSchema) (requested : Option (List String))
    (excluded : List String) : (s.resolveData r requested excluded).Below s.rank 1 := by
  have hkey : s.rank (s.resolutionKey r requested excluded) < 1 := by
    rw [rank_resolutionKey]
    exact Nat.one_pos
  refine Task.below_bind (Task.below_bind (Task.below_cached hkey trivial) fun m => ?_) fun j => ?_
  · cases m <;> trivial
  · unfold Work.members
    split <;> trivial

theorem below_resolve (r : ResourceSchema) (requested : Option (List String))
    (excluded : List String) : (s.resolve r requested excluded).Below s.rank 1 :=
  Task.below_bind (s.below_resolveData r requested excluded) s.below_names

theorem below_resolveSorted (r : ResourceSchema) (requested : Option (List String)) :
    (s.resolveSorted r requested).Below s.rank 1 := by
  refine Task.below_bind (s.below_resolveData r requested []) fun js => ?_
  unfold Work.sortedNames
  split
  · exact Task.below_bind (s.below_names js) fun ns => trivial
  · trivial

theorem below_defaultsOf (type : String) : (s.defaultsOf type).Below s.rank 1 :=
  Task.below_bind (s.below_ofResource _) fun r => s.below_resolve r none []

theorem below_childSelection (type : String) (requested : Option (List String)) :
    (s.childSelection type requested).Below s.rank 1 := by
  refine Task.below_bind (s.below_ofResource _) fun r => ?_
  refine Task.below_bind (s.below_resolveSorted r requested) fun chosen => ?_
  exact Task.below_bind (s.below_resolveSorted r none) fun defaults => trivial

theorem below_resolveNested (root : String) (nested : Entries (Option (List String))) :
    (s.resolveNested root nested).Below s.rank 1 := by
  induction nested with
  | nil => trivial
  | cons e rest ih =>
    unfold resolveNested
    split
    · refine Task.below_bind (s.below_childSelection e.1 e.2) fun chosen => ?_
      exact Task.below_bind ih fun others => trivial
    · exact ih

end Service

/-- The walk asks for what its defaults ask for. -/
theorem Walk.below_visit {w : Walk} {rank : String → Nat} {n : Nat}
    (h : ∀ type, (w.defaults type).Below rank n) (ancestors : List String) (s : ResourceSchema)
    (path : String) (names : List String) (p : LoadPlan) :
    (w.visit ancestors s path names p).Below rank n := by
  have hchild : ∀ f type, (w.childFields f type).Below rank n := by
    intro f type
    unfold childFields
    split
    · trivial
    · split
      · trivial
      · exact h type
  fun_induction Walk.visit w ancestors s path names p with
  | case1 => trivial
  | case2 ancestors s path name rest p hget ih => exact ih
  | case3 ancestors s path name rest p f hget ihrest ihchild =>
    refine Task.below_bind (Task.below_ofExcept _) fun q => ?_
    cases w.catalog.child? ancestors f with
    | none => exact ihrest q
    | some child =>
      refine Task.below_bind (hchild f child.1.type) fun names => ?_
      exact Task.below_bind (ihchild q child names) fun q => ihrest q

namespace Service

variable (s : Service)

variable [Room]

theorem below_build (nested : Selection) (r : ResourceSchema) (names : List String) :
    ((s.walk nested).build r names).Below s.rank 1 :=
  Task.below_bind (Walk.below_visit s.below_defaultsOf _ _ _ _ _) fun _ => trivial

theorem below_compile (r : ResourceSchema) (fields : List String)
    (nested : Entries (Option (List String))) : (s.compile r fields nested).Below s.rank 2 := by
  have hnested := (s.below_resolveNested r.type nested).mono (Nat.le_succ 1)
  refine Task.below_bind hnested fun chosen => ?_
  have hrank := s.rank_planKey r (plannedFields r fields) chosen.sorted
  refine Task.below_bind (Task.below_cached ?_ ?_) fun m => ?_
  · rw [hrank]
    exact Nat.lt_succ_self 1
  · rw [hrank]
    exact Task.below_bind (s.below_build chosen.sorted r _) fun p => trivial
  · cases m <;> trivial

theorem below_planFor (r : ResourceSchema) : (s.planFor r).Below s.rank 2 := by
  have hfields := (s.below_resolve r (s.requestedFields r) []).mono (Nat.le_succ 1)
  refine Task.below_bind hfields fun fields => ?_
  exact Task.below_bind (s.below_compile r fields _) fun p => trivial

theorem below_call (c : Call) : (c.task s).Below s.rank 2 := by
  refine Task.below_bind (s.below_ofResource _) fun r => ?_
  cases c with
  | resolve ref requested excluded =>
    have hfields := (s.below_resolveData r requested excluded).mono (Nat.le_succ 1)
    exact Task.below_bind hfields fun names => trivial
  | compile ref fields nested =>
    exact Task.below_bind (s.below_compile r fields nested) fun p => trivial
  | plan ref query =>
    exact Task.below_bind ((s.withQuery query).below_planFor r) fun p => trivial

theorem below_session (session : Session) : (session.task s).Below s.rank 2 := by
  induction session with
  | done => trivial
  | ask c next ih =>
    refine Task.below_bind (Task.below_attempt (s.below_call c)) fun r => ?_
    exact Task.below_bind (ih r) fun rs => trivial

/-- Threads that carry out sessions against one cache never wait for themselves or in a circle, and
as long as one of them has not ended, one of them can step. -/
theorem no_deadlock {β : Type} [Backend β] (sessions : List Session) (backend : Option β)
    (capacity : Nat) (lifetime memoLifetime : Option Int) (moves : List Move) :
    let w := (Crew.start (sessions.map (Session.task s))
      (.start backend capacity lifetime memoLifetime)).run moves
    (∀ lock, lock ∈ w.shared.held ↔ ∃ t ∈ w.threads, t.Holds lock) ∧
    (∀ t ∈ w.threads, ∀ key lock, t.awaited? = some (key, lock) → ¬ t.Holds lock) ∧
    (∀ i, ¬ Relation.TransGen w.WaitsFor i i) ∧
    (none ∈ w.results? → ∃ i, (w.step? i).isSome) := by
  intro w
  have hord : Orderly w.stakes w.shared :=
    Crew.orderly_run (Crew.orderly_start _ backend capacity lifetime memoLifetime) moves
  have hapart : w.shared.store.LocksApart :=
    Crew.locksApart_run (Store.locksApart_start backend capacity lifetime memoLifetime) moves
  have hbelow : ∀ t ∈ w.threads, t.Below s.rank 2 := by
    refine Crew.below_run (Crew.below_start (fun task htask => ?_) _) moves
    obtain ⟨session, -, rfl⟩ := List.mem_map.mp htask
    exact s.below_session session
  have hcircle := Crew.not_circular hord hapart hbelow
  refine ⟨fun lock => ?_, fun t ht key lock hawaited hholds => ?_, hcircle, ?_⟩
  · rw [hord.mem_held_iff, Crew.exists_holds_iff]
  · obtain ⟨i, hi⟩ := List.mem_iff_getElem?.mp ht
    exact hcircle i (.single ⟨t, t, key, lock, hi, hi, hawaited, hholds⟩)
  · intro hunfinished
    obtain ⟨t, ht, hresult⟩ := List.mem_map.mp hunfinished
    obtain ⟨i, hi⟩ := List.mem_iff_getElem?.mp ht
    exact Crew.exists_step hord hapart hbelow hi hresult

end Service
end FieldPlan
