import SistemasOperativos.Library.Diagram
import SistemasOperativos.System.Places

/-!
# The states of a process

The abstract scheduler: a process is in one of seven states and moves along the edges of their
diagram; one process executes at a time, and the processes in memory are as many as the
multiprogramming level at most.

`Kernel.inState` says which queues, hands and packets stand for which state.  The listener that
has a PCB in its hands has read it from a queue and is about to pass it on: its process has left
the state of the queue once what the kernel waits for has happened (the tables of the process are
there, its burst has been charged, its suspension has been confirmed).
-/

namespace SistemasOperativos

/-- The states of a process. -/
inductive ProcessState
  | new | ready | exec | blocked | suspendedBlocked | suspendedReady | exit
deriving DecidableEq, Repr

namespace ProcessState

def all : List ProcessState :=
  [.new, .ready, .exec, .blocked, .suspendedBlocked, .suspendedReady, .exit]

theorem mem_all (state : ProcessState) : state ∈ all := by
  cases state <;> decide

theorem nodup_all : all.Nodup := by decide

/-- The edges of the diagram. -/
def edge : ProcessState → ProcessState → Bool
  | .new, .ready => true
  | .ready, .exec => true
  | .exec, .ready | .exec, .blocked | .exec, .exit => true
  | .blocked, .ready | .blocked, .suspendedBlocked => true
  | .suspendedBlocked, .suspendedReady => true
  | .suspendedReady, .ready => true
  | _, _ => false

/-- The states of a process that takes part in the multiprogramming. -/
def active : ProcessState → Bool
  | .ready | .exec | .blocked => true
  | _ => false

end ProcessState

/-- The scheduler the kernel implements. -/
def scheduler (multiprogrammingLevel : ℕ) : Diagram ProcessState where
  entry := .new
  edge := ProcessState.edge
  fits states :=
    decide (states.count .exec ≤ 1) && decide (states.countP ProcessState.active ≤ multiprogrammingLevel)

/-! ## The hands of the threads, state by state -/

/-- `to_ready` readies a process once it has its tables. -/
def ToReady.handsIn (pcbTableReady : ℕ) : ProcessState → ToReady → List Job
  | .ready, .put state => state.hands
  | .new, .put _ => []
  | .new, state => state.hands pcbTableReady
  | _, _ => []

/-- The dispatch listener, once it has charged the time executed. -/
def DispatchListener.handsIn : ProcessState → DispatchListener → List Job
  | .exec, .interrupted job | .exec, .io job => [job]
  | .ready, .interruptPush job => [job]
  | .blocked, .ioPush job => [job]
  | .exit, .exitPush job => [job]
  | _, _ => []

/-- `io_listener`, once the I/O is done or the suspension is confirmed. -/
def IoListener.handsIn : ProcessState → IoListener → List Job
  | .blocked, .stamp job | .blocked, .sendSuspend job | .blocked, .awaitSuspension job => [job]
  | .suspendedBlocked, .pushSuspended job => [job]
  | .suspendedReady, .pushReady job => [job]
  | .ready, .put state => state.hands
  | _, _ => []

/-! ## The state of a process -/

/-- The PCBs in the kernel and on the dispatch socket whose process is in a state. -/
def Kernel.inState (k : Kernel) : ProcessState → List Job
  | .new =>
      consoleHands k.consoles ++ k.newQ.items ++ k.toReadyThread.handsIn k.pcbTableReady .new ++
        k.memoryInitQ.items ++ k.memoryThread.hands
  | .ready =>
      k.toReadyThread.handsIn k.pcbTableReady .ready ++ k.ioThread.handsIn .ready ++
        k.dispatchThread.handsIn .ready ++ k.readyQ.items
  | .exec =>
      k.toExecThread.hands ++ k.toCpu ++ k.fromCpu.map Prod.snd ++ k.dispatchThread.handsIn .exec
  | .blocked => k.dispatchThread.handsIn .blocked ++ k.blockedQ.items ++ k.ioThread.handsIn .blocked
  | .suspendedBlocked => k.ioThread.handsIn .suspendedBlocked ++ k.suspendedBlockQ.items
  | .suspendedReady => k.ioThread.handsIn .suspendedReady ++ k.suspendedReadyQ.items
  | .exit =>
      k.dispatchThread.handsIn .exit ++ k.exitQ.items ++ k.exitProcessThread.hands ++
        k.memoryExitQ.items

namespace Contract

/-- The PCBs whose process is in a state: those at the CPU execute. -/
def inState (s : Contract) (state : ProcessState) : List Job :=
  s.kernel.inState state ++ if state = .exec then s.atCpu else []

/-- The state of a process. -/
def stateOf (s : Contract) (t : ℕ) : Option ProcessState :=
  Diagram.locate Job.serial ProcessState.all s.inState t

/-- The states of the processes admitted, in the order of their admission. -/
def states (s : Contract) : List ProcessState :=
  (List.range s.kernel.admitted.length).map fun t => (s.stateOf t).getD .new

end Contract

end SistemasOperativos
