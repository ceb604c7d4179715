import FieldPlan.Cache.Store
/-!
# Tasks

Computations that remember intermediate values: a task ends with a value or a failure, leaves notes
in the log, or remembers the outcome of another task under a key. `run` carries a task out against
a store; `eval` computes everything anew, which is what `run` answers when nothing but the tasks
themselves has written to the store.
-/
namespace FieldPlan.Cache

inductive Task (ε ν : Type) : Type → Type 1 where
  | pure {α : Type} (a : α) : Task ε ν α
  | fail {α : Type} (e : Failure ε) : Task ε ν α
  | note {α : Type} (text : String) (next : Task ε ν α) : Task ε ν α
  | remember {α : Type} (key : String) (codec : Codec ν) (body : Task ε ν ν)
      (next : Result ε ν → Task ε ν α) : Task ε ν α

namespace Task

variable {ε ν : Type}

/-- One task after another; a failure ends both. -/
def bind {α γ : Type} : Task ε ν α → (α → Task ε ν γ) → Task ε ν γ
  | pure a, f => f a
  | fail e, _ => fail e
  | note text next, f => note text (next.bind f)
  | remember key codec body next, f => remember key codec body fun r => (next r).bind f

instance : Monad (Task ε ν) where
  pure := Task.pure
  bind := Task.bind

def ofResult {α : Type} : Result ε α → Task ε ν α
  | .ok a => pure a
  | .error e => fail e

def raise {α : Type} (e : ε) : Task ε ν α := fail (.raised e)

def ofExcept {α : Type} : Except ε α → Task ε ν α
  | .ok a => pure a
  | .error e => raise e

/-- Remembers the outcome of a task; its failure is not remembered. -/
def cached (key : String) (codec : Codec ν) (body : Task ε ν ν) : Task ε ν ν :=
  remember key codec body ofResult

/-- The outcome against a store. -/
def run {β : Type} [Backend β] : {α : Type} → Task ε ν α → Store β ν → Result ε α × Store β ν
  | _, pure a, s => (.ok a, s)
  | _, fail e, s => (.error e, s)
  | _, note text next, s => run next (s.warn (.note text))
  | _, remember key codec body next, s =>
    let ((r, _), s) := s.remember key codec fun s =>
      let (r, s) := run body s
      ((r, ()), s)
    run (next r) s

/-- The outcome without a store. -/
def eval : {α : Type} → Task ε ν α → Result ε α
  | _, pure a => .ok a
  | _, fail e => .error e
  | _, note _ next => eval next
  | _, remember _ _ body next => eval (next (eval body))

theorem eval_bind {α γ : Type} (t : Task ε ν α) (f : α → Task ε ν γ) :
    (t.bind f).eval = match t.eval with
      | .ok a => (f a).eval
      | .error e => .error e := by
  induction t with
  | pure a => rfl
  | fail e => rfl
  | note text next ih => exact ih f
  | remember key codec body next _ ih => exact ih (eval body) f

theorem run_bind {β : Type} [Backend β] {α γ : Type} (t : Task ε ν α) (f : α → Task ε ν γ)
    (s : Store β ν) :
    (t.bind f).run s = match t.run s with
      | (.ok a, s) => (f a).run s
      | (.error e, s) => (.error e, s) := by
  induction t generalizing s with
  | pure a => rfl
  | fail e => rfl
  | note text next ih => exact ih f _
  | remember key codec body next _ ih => simp only [bind, run, ih]

end Task
end FieldPlan.Cache
