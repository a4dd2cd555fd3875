import Mathlib.Tactic.Common

/-!
# The protected queue

`t_pQueue` of `shared/src/queue.c`: a library queue, and a semaphore that counts its elements.
Each operation of the file is one or two atomic steps; `pQueue_put` is `push` and then `post`,
`pQueue_take` is `wait` and then `pop`.
-/

namespace SistemasOperativos

/-- `t_pQueue`, less its mutex: the mutex is held inside one atomic step only. -/
structure PQueue (α : Type*) where
  items : List α := []
  sem : ℕ := 0
deriving DecidableEq, Repr, Inhabited

namespace PQueue

variable {α : Type*}

/-- `queue_push` under the queue's mutex. -/
def push (q : PQueue α) (a : α) : PQueue α :=
  { q with items := q.items ++ [a] }

/-- `sem_post(&queue->sem)`. -/
def post (q : PQueue α) : PQueue α :=
  { q with sem := q.sem + 1 }

/-- `sem_wait(&queue->sem)`, blocking at zero. -/
def wait (q : PQueue α) : Option (PQueue α) :=
  match q.sem with
  | 0 => none
  | n + 1 => some { q with sem := n }

/-- `queue_pop` under the queue's mutex.  The library gives `NULL` on an empty queue, which
every caller dereferences: there is no step from there. -/
def pop (q : PQueue α) : Option (α × PQueue α) :=
  match q.items with
  | [] => none
  | a :: rest => some (a, { q with items := rest })

/-- `pQueue_is_empty`. -/
def isEmpty (q : PQueue α) : Bool :=
  q.items.isEmpty

@[simp] theorem items_push (q : PQueue α) (a : α) : (q.push a).items = q.items ++ [a] := rfl

@[simp] theorem items_post (q : PQueue α) : q.post.items = q.items := rfl

@[simp] theorem sem_push (q : PQueue α) (a : α) : (q.push a).sem = q.sem := rfl

@[simp] theorem sem_post (q : PQueue α) : q.post.sem = q.sem + 1 := rfl

/-- A wait that does not block takes one unit and leaves the elements alone. -/
theorem wait_eq_some {q q' : PQueue α} :
    q.wait = some q' ↔ q.sem = q'.sem + 1 ∧ q'.items = q.items := by
  obtain ⟨items, sem⟩ := q
  obtain ⟨items', sem'⟩ := q'
  cases sem <;> simp [wait, eq_comm, and_comm]

theorem pop_eq_some {q q' : PQueue α} {a : α} :
    q.pop = some (a, q') ↔ q.items = a :: q'.items ∧ q'.sem = q.sem := by
  obtain ⟨items, sem⟩ := q
  obtain ⟨items', sem'⟩ := q'
  cases items <;> simp [pop, eq_comm, and_assoc]

theorem isEmpty_iff {q : PQueue α} : q.isEmpty = true ↔ q.items = [] :=
  List.isEmpty_iff

end PQueue

end SistemasOperativos
