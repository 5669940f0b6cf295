import KajovoDagmar.Library.Runs
import Mathlib.Logic.Function.Basic

/-! # Coroutines on an event loop

Coroutines share objects and hand over to each other only where they wait: for a condition on
what they share, or for the answer to a call of something outside.  A coroutine is the finite
tree of what it does between and after its waits.  An event loop has one main coroutine for each
input and any number of tasks, and a run is any order of their steps that the waits allow.

`Coro.Meets` is the rely-guarantee rule for one coroutine, `Sound` what it gives for all of them
in every run. -/

namespace Asyncio

/-- What the coroutines of a program share, run as tasks, raise and call. -/
structure Signature where
  Objects : Type
  Job : Type
  Exn : Type
  /-- The exception that a cancelled task finds where it waits. -/
  cancelled : Exn
  /-- What a call may fail with, and the exception that this raises. -/
  Failure : Type
  fail : Failure → Exn
  Op : Type
  Answer : Op → Type

/-- A task: whether its first step has run, whether `cancel()` has been called on it while it was
not done, and its outcome once it is. -/
structure Task (S : Signature) where
  job : S.Job
  started : Bool := false
  cancelled : Bool := false
  outcome : Option (Except S.Exn Unit) := none

structure Memory (S : Signature) where
  objects : S.Objects
  tasks : List (Task S) := []

variable {S : Signature} {α β : Type}

namespace Memory

/-- The task is done. -/
def done (n : ℕ) (m : Memory S) : Bool := (m.tasks[n]?).any fun t => t.outcome.isSome

def change (m : Memory S) (n : ℕ) (f : Task S → Task S) : Memory S :=
  { m with tasks := m.tasks.modify n f }

@[simp] theorem objects_change (m : Memory S) (n : ℕ) (f : Task S → Task S) :
    (m.change n f).objects = m.objects := rfl

@[simp] theorem length_change (m : Memory S) (n : ℕ) (f : Task S → Task S) :
    (m.change n f).tasks.length = m.tasks.length := List.length_modify ..

theorem getElem?_change_self {m : Memory S} {n : ℕ} {t : Task S} (f : Task S → Task S)
    (h : m.tasks[n]? = some t) : (m.change n f).tasks[n]? = some (f t) := by
  simp [change, h]

theorem getElem?_change_of_ne (m : Memory S) {n k : ℕ} (f : Task S → Task S) (h : k ≠ n) :
    (m.change n f).tasks[k]? = m.tasks[k]? := by
  simp [change, h.symm]

def begin (m : Memory S) (n : ℕ) : Memory S := m.change n fun t => { t with started := true }

def finish (m : Memory S) (n : ℕ) (r : Except S.Exn Unit) : Memory S :=
  m.change n fun t => { t with outcome := some r }

/-- `cancel()` has been called on the task. -/
def cancelledAt (m : Memory S) (n : ℕ) : Bool := (m.tasks[n]?).any Task.cancelled

end Memory

/-- A coroutine that returns an `α`. -/
inductive Coro (S : Signature) (α : Type) : Type where
  | ret (r : Except S.Exn α)
  | get (k : Memory S → Coro S α)
  | put (m : Memory S) (k : Coro S α)
  /-- It waits until the condition holds. -/
  | wait (p : Memory S → Bool) (k : Except S.Exn Unit → Coro S α)
  /-- It waits for the answer to a call. -/
  | call (o : S.Op) (k : Except S.Exn (S.Answer o) → Coro S α)

namespace Coro

/-- What follows a coroutine, given its outcome. -/
def andThen : Coro S α → (Except S.Exn α → Coro S β) → Coro S β
  | ret r, f => f r
  | get k, f => get fun m => (k m).andThen f
  | put m c, f => put m (c.andThen f)
  | wait p k, f => wait p fun x => (k x).andThen f
  | call o k, f => call o fun x => (k x).andThen f

instance : Monad (Coro S) where
  pure a := ret (.ok a)
  bind c f := c.andThen fun
    | .ok a => f a
    | .error e => ret (.error e)

instance : MonadExceptOf S.Exn (Coro S) where
  throw e := ret (.error e)
  tryCatch c f := c.andThen fun
    | .ok a => ret (.ok a)
    | .error e => f e

instance : MonadFinally (Coro S) where
  tryFinally' c f := c.andThen fun
    | .ok a => (f (some a)).andThen fun
      | .ok b => ret (.ok (a, b))
      | .error e => ret (.error e)
    | .error e => (f none).andThen fun
      | .ok _ => ret (.error e)
      | .error e => ret (.error e)

/-! ### What a coroutine does -/

/-- The shared objects. -/
def objects : Coro S S.Objects := get fun m => ret (.ok m.objects)

def modify (f : S.Objects → S.Objects) : Coro S Unit :=
  get fun m => put { m with objects := f m.objects } (ret (.ok ()))

/-- `asyncio.create_task`. -/
def createTask (job : S.Job) : Coro S ℕ :=
  get fun m => put { m with tasks := m.tasks ++ [{ job := job }] } (ret (.ok m.tasks.length))

/-- `task.done()`. -/
def isDone (n : ℕ) : Coro S Bool := get fun m => ret (.ok (m.done n))

/-- `task.cancel()`. -/
def cancel (n : ℕ) : Coro S Unit :=
  get fun m => put (m.change n fun t => { t with cancelled := t.outcome.isNone ∨ t.cancelled }) (ret (.ok ()))

/-- It waits until the condition holds. -/
def waitFor (p : Memory S → Bool) : Coro S Unit := wait p ret

def perform (o : S.Op) : Coro S (S.Answer o) := call o ret

/-- `await task`. -/
def join (n : ℕ) : Coro S Unit :=
  wait (Memory.done n) fun
    | .ok _ => get fun m => ret (((m.tasks[n]?).bind Task.outcome).getD (.ok ()))
    | .error e => ret (.error e)

/-! ### Running up to the next wait -/

/-- The coroutine and the memory at its next wait or at its end. -/
def run : Coro S α → Memory S → Coro S α × Memory S
  | get k, m => (k m).run m
  | put m c, _ => c.run m
  | c, m => (c, m)

/-- The coroutine goes on with what it has been waiting for. -/
def resumed (c : Coro S α) (reply : (o : S.Op) → Except S.Failure (S.Answer o)) (m : Memory S) :
    Option (Coro S α) :=
  match c with
  | wait p k => if p m then some (k (.ok ())) else none
  | call o k => some (k ((reply o).mapError S.fail))
  | _ => none

/-- The coroutine finds an exception where it waits. -/
def thrown (c : Coro S α) (e : S.Exn) : Option (Coro S α) :=
  match c with
  | wait _ k => some (k (.error e))
  | call _ k => some (k (.error e))
  | _ => none

end Coro

/-! ### The event loop -/

/-- What an event loop runs: a coroutine for each input and one for each task. -/
structure Program (S : Signature) where
  Input : Type
  main : Input → Coro S Unit
  body : ℕ → S.Job → Coro S Unit
  /-- What is done to the shared objects from outside. -/
  Move : Type
  move : Move → S.Objects → Option S.Objects

/-- A task that waits, and whether the exception of its cancellation has been thrown. -/
structure Suspended (S : Signature) where
  rest : Coro S Unit
  interrupted : Bool := false

structure State (S : Signature) where
  memory : Memory S
  /-- The main coroutine, unless the loop is ready for an input. -/
  main : Option (Coro S Unit) := none
  suspended : ℕ → Option (Suspended S) := fun _ => none

namespace State

/-- The main coroutine has run up to a wait or to its end. -/
def settleMain (s : State S) : Coro S Unit × Memory S → State S
  | (.ret _, m) => { s with memory := m, main := none }
  | (c, m) => { s with memory := m, main := some c }

/-- A task has run up to a wait or to its end. -/
def settle (s : State S) (n : ℕ) (interrupted : Bool) : Coro S Unit × Memory S → State S
  | (.ret r, m) => { s with memory := m.finish n r, suspended := Function.update s.suspended n none }
  | (c, m) => { s with
      memory := m, suspended := Function.update s.suspended n (some ⟨c, interrupted⟩) }

end State

inductive Event (P : Program S) where
  | input (x : P.Input)
  /-- The first step of a task. -/
  | start (n : ℕ)
  /-- A further step of a task, or of the main coroutine. -/
  | resume (who : Option ℕ) (reply : (o : S.Op) → Except S.Failure (S.Answer o))
  | move (e : P.Move)

/-- One step of the event loop.  A task that is cancelled before its first step never enters its
coroutine; one that is cancelled later finds the exception where it waits. -/
def step (P : Program S) (s : State S) : Event P → Option (State S)
  | .input x =>
    if s.main.isNone then some (s.settleMain ((P.main x).run s.memory)) else none
  | .start n => (s.memory.tasks[n]?).bind fun t =>
    if t.started ∨ t.outcome.isSome then none
    else if t.cancelled then
      some (s.settle n true (.ret (.error S.cancelled), s.memory.begin n))
    else some (s.settle n false ((P.body n t.job).run (s.memory.begin n)))
  | .resume none reply => s.main.bind fun c =>
    (c.resumed reply s.memory).map fun c => s.settleMain (c.run s.memory)
  | .resume (some n) reply => (s.suspended n).bind fun u =>
    if s.memory.cancelledAt n ∧ ¬u.interrupted then
      (u.rest.thrown S.cancelled).map fun c => s.settle n true (c.run s.memory)
    else (u.rest.resumed reply s.memory).map fun c => s.settle n u.interrupted (c.run s.memory)
  | .move e => (P.move e s.memory.objects).map fun o => { s with memory := { s.memory with objects := o } }

end Asyncio
