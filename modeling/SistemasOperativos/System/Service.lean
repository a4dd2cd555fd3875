import SistemasOperativos.System.Composition

/-!
# The order of service

What the threads of the kernel put on its eight queues and take from them, step by step: the
processes in the order in which they came to a queue, and in the order in which they left it.
-/

namespace SistemasOperativos

/-! ## Queues -/

/-- The queues of the kernel. -/
inductive KernelQueue
  | newQ | readyQ | memoryInitQ | memoryExitQ | blockedQ | suspendedBlockQ | suspendedReadyQ
  | exitQ
deriving DecidableEq, Repr

/-- A process is put on a queue, or taken from it. -/
inductive Transit
  | put (queue : KernelQueue) (serial : ℕ)
  | take (queue : KernelQueue) (serial : ℕ)
deriving DecidableEq, Repr

namespace Kernel

/-- The queue of that name. -/
def queueNamed (k : Kernel) : KernelQueue → PQueue Job
  | .newQ => k.newQ
  | .readyQ => k.readyQ
  | .memoryInitQ => k.memoryInitQ
  | .memoryExitQ => k.memoryExitQ
  | .blockedQ => k.blockedQ
  | .suspendedBlockQ => k.suspendedBlockQ
  | .suspendedReadyQ => k.suspendedReadyQ
  | .exitQ => k.exitQ

/-- The processes on a queue, the next to be taken first. -/
def waiting (k : Kernel) (queue : KernelQueue) : List ℕ :=
  (k.queueNamed queue).items.map Job.serial

/-- The pop of a queue. -/
def taking (k : Kernel) (queue : KernelQueue) : List Transit :=
  ((k.waiting queue).head?.map (Transit.take queue)).toList

/-- What the next step of `put_to_ready` puts on a queue. -/
def puttingToReady : PutToReady → List Transit
  | .push job => [.put .readyQ job.serial]
  | _ => []

/-- What the next step of a thread puts on a queue or takes from one. -/
def transits (k : Kernel) : KernelAction → List Transit
  | .console i =>
      match k.consoles[i]? with
      | some (_, .push job) => [.put .newQ job.serial]
      | _ => []
  | .toReady =>
      match k.toReadyThread with
      | .popSuspended => k.taking .suspendedReadyQ
      | .popNew => k.taking .newQ
      | .pushInit job => [.put .memoryInitQ job.serial]
      | .put state => puttingToReady state
      | _ => []
  | .toExec _ =>
      match k.toExecThread with
      | .pop => k.taking .readyQ
      | _ => []
  | .exitProcess =>
      match k.exitProcessThread with
      | .pop => k.taking .exitQ
      | .push job => [.put .memoryExitQ job.serial]
      | _ => []
  | .dispatchListener _ =>
      match k.dispatchThread with
      | .interruptPush job => [.put .readyQ job.serial]
      | .ioPush job => [.put .blockedQ job.serial]
      | .exitPush job => [.put .exitQ job.serial]
      | _ => []
  | .memoryListener _ =>
      match k.memoryThread with
      | .tablePop .. => k.taking .memoryInitQ
      | _ => []
  | .ioListener _ =>
      match k.ioThread with
      | .popBlocked => k.taking .blockedQ
      | .pushSuspended job => [.put .suspendedBlockQ job.serial]
      | .popSuspended => k.taking .suspendedBlockQ
      | .pushReady job => [.put .suspendedReadyQ job.serial]
      | .put state => puttingToReady state
      | _ => []
  | .consoleAccept _ | .consoleReceive .. | .memory _ => []

end Kernel

/-- The CPU has no part in the queues. -/
def System.transits : Action → System → List Transit
  | .kernel action, s => s.kernel.transits action
  | .cpu _, _ => []

/-! ## Logs -/

/-- The process that is put on the queue. -/
def Transit.puts (queue : KernelQueue) : Transit → Option ℕ
  | .put queue' serial => if queue' = queue then some serial else none
  | .take .. => none

/-- The process that is taken from the queue. -/
def Transit.takes (queue : KernelQueue) : Transit → Option ℕ
  | .put .. => none
  | .take queue' serial => if queue' = queue then some serial else none

/-- The processes that have come to a queue, in order. -/
def arrivals (queue : KernelQueue) (log : List Transit) : List ℕ :=
  log.filterMap (Transit.puts queue)

/-- The processes that have left a queue, in order. -/
def departures (queue : KernelQueue) (log : List Transit) : List ℕ :=
  log.filterMap (Transit.takes queue)

@[simp] theorem arrivals_nil (queue : KernelQueue) : arrivals queue [] = [] := rfl

@[simp] theorem departures_nil (queue : KernelQueue) : departures queue [] = [] := rfl

@[simp] theorem arrivals_append (queue : KernelQueue) (log more : List Transit) :
    arrivals queue (log ++ more) = arrivals queue log ++ arrivals queue more :=
  List.filterMap_append

@[simp] theorem departures_append (queue : KernelQueue) (log more : List Transit) :
    departures queue (log ++ more) = departures queue log ++ departures queue more :=
  List.filterMap_append

@[simp] theorem arrivals_put (queue queue' : KernelQueue) (serial : ℕ) :
    arrivals queue [.put queue' serial] = if queue' = queue then [serial] else [] := by
  simp only [arrivals, List.filterMap_cons, List.filterMap_nil, Transit.puts]
  split <;> simp_all

@[simp] theorem departures_put (queue queue' : KernelQueue) (serial : ℕ) :
    departures queue [.put queue' serial] = [] := rfl

@[simp] theorem arrivals_taking (k : Kernel) (queue queue' : KernelQueue) :
    arrivals queue (k.taking queue') = [] := by
  unfold Kernel.taking
  cases (k.waiting queue').head? <;> rfl

theorem departures_taking_of_ne {k : Kernel} {queue queue' : KernelQueue} (h : queue' ≠ queue) :
    departures queue (k.taking queue') = [] := by
  unfold Kernel.taking
  cases (k.waiting queue').head? with
  | none => rfl
  | some serial => simp [departures, Transit.takes, h]

/-- `put_to_ready` puts on the ready queue only. -/
theorem arrivals_puttingToReady {queue : KernelQueue} (h : queue ≠ .readyQ) (state : PutToReady) :
    arrivals queue (Kernel.puttingToReady state) = [] := by
  cases state <;> simp [Kernel.puttingToReady, Ne.symm h]

@[simp] theorem departures_puttingToReady (queue : KernelQueue) (state : PutToReady) :
    departures queue (Kernel.puttingToReady state) = [] := by
  cases state <;> rfl

end SistemasOperativos
