import SistemasOperativos.Library.Machine
import SistemasOperativos.Shared.PQueue

/-!
# Threads on one protected queue

Any number of threads call the operations of `shared/src/queue.c` on one queue.  A thread's state
names the operation it is in the middle of; what an operation does under the queue's mutex is one
step, and so is each use of the semaphore.  A closure or a comparator that calls an operation of
the queue itself (the mutex is recursive) takes that operation's steps.
-/

namespace SistemasOperativos

/-- `list_sort` of the commons library: it rearranges the list. -/
structure ListSort (α : Type*) where
  sort : (α → α → Bool) → List α → List α
  perm : ∀ algorithm l, (sort algorithm l).Perm l

/-- The merge sort of the core library. -/
def ListSort.merge {α : Type*} : ListSort α where
  sort algorithm l := l.mergeSort algorithm
  perm algorithm l := l.mergeSort_perm algorithm

/-- The operation a thread is in the middle of. -/
inductive QueueCall
  | idle
  /-- `pQueue_put` has pushed and not posted. -/
  | put
  /-- `pQueue_take` is past `sem_wait` and has not popped. -/
  | take
  /-- `pQueue_peek` is past `sem_wait` and has not looked. -/
  | peek
deriving DecidableEq, Repr

/-- A queue, the threads that use it, and what has happened; no step reads the history. -/
structure QueueThreads (α : Type*) where
  queue : PQueue α := {}
  threads : List QueueCall := []
  /-- The elements put, in the order they were pushed. -/
  put : List α := []
  /-- The elements taken, in the order they were popped. -/
  taken : List α := []
  /-- The takes that have popped an empty queue, which gives `NULL`. -/
  nullTakes : ℕ := 0
  /-- The peeks that have got past `sem_wait`. -/
  peeks : ℕ := 0
  /-- The queue has been sorted. -/
  sorted : Bool := false
deriving DecidableEq, Repr

/-- A step of one thread, or the creation of a thread. -/
inductive QueueAction (α : Type*)
  | create
  | push (i : ℕ) (elem : α)
  | post (i : ℕ)
  | wait (i : ℕ)
  | pop (i : ℕ)
  | waitPeek (i : ℕ)
  | peek (i : ℕ)
  | size (i : ℕ)
  | isEmpty (i : ℕ)
  | iterate (i : ℕ)
  | sort (i : ℕ) (algorithm : α → α → Bool)

namespace QueueThreads

variable {α : Type*}

/-- One step of thread `i`: `none` where the thread is at another point, or blocked.  A look at
the elements changes nothing. -/
def step (listSort : ListSort α) (action : QueueAction α) (s : QueueThreads α) :
    Option (QueueThreads α) :=
  match action with
  | .create => some { s with threads := s.threads ++ [.idle] }
  | .push i elem =>
      match s.threads[i]? with
      | some .idle =>
          some { s with
            queue := s.queue.push elem
            threads := s.threads.set i .put
            put := s.put ++ [elem] }
      | _ => none
  | .post i =>
      match s.threads[i]? with
      | some .put => some { s with queue := s.queue.post, threads := s.threads.set i .idle }
      | _ => none
  | .wait i =>
      match s.threads[i]?, s.queue.wait with
      | some .idle, some queue => some { s with queue := queue, threads := s.threads.set i .take }
      | _, _ => none
  | .pop i =>
      match s.threads[i]? with
      | some .take =>
          match s.queue.pop with
          | none =>
              some { s with nullTakes := s.nullTakes + 1, threads := s.threads.set i .idle }
          | some (elem, queue) =>
              some { s with
                queue := queue
                threads := s.threads.set i .idle
                taken := s.taken ++ [elem] }
      | _ => none
  | .waitPeek i =>
      match s.threads[i]?, s.queue.wait with
      | some .idle, some queue =>
          some { s with
            queue := queue
            threads := s.threads.set i .peek
            peeks := s.peeks + 1 }
      | _, _ => none
  | .peek i =>
      match s.threads[i]? with
      | some .peek => some { s with threads := s.threads.set i .idle }
      | _ => none
  | .size i | .isEmpty i | .iterate i =>
      match s.threads[i]? with
      | some .idle => some s
      | _ => none
  | .sort i algorithm =>
      match s.threads[i]? with
      | some .idle =>
          some { s with
            queue := { s.queue with items := listSort.sort algorithm s.queue.items }
            sorted := true }
      | _ => none

end QueueThreads

/-- A queue just created, and the threads that come to use it. -/
def queueThreads {α : Type*} (listSort : ListSort α) :
    Machine (QueueThreads α) (QueueAction α) where
  initial := {}
  step := QueueThreads.step listSort

end SistemasOperativos
