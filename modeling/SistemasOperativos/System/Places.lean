import SistemasOperativos.Library.Tally
import SistemasOperativos.System.Composition

/-!
# Where a process can be

The queues of the kernel, the hands of its threads, the dispatch socket and the CPU: every
place at which a PCB can be, with its occupants.

A thread has a PCB in its hands from the pop that gave it to it to the push or send that
passes it on.  `to_ready` passes its PCB on to `memory_init_q` and has it back once
`pcb_table_ready` is posted; in between it is in the queue, or with `memory_listener`, which
has taken it from the queue and not yet posted.
-/

namespace SistemasOperativos

/-! ## The hands of the threads -/

def PutToReady.hands : PutToReady → List Job
  | .lock job | .push job => [job]
  | _ => []

/-- The hands of `to_ready`, given the value of `pcb_table_ready`. -/
def ToReady.hands (pcbTableReady : ℕ) : ToReady → List Job
  | .sendNew job | .pushInit job => [job]
  | .postInit job | .awaitTable job => if pcbTableReady = 0 then [] else [job]
  | .put state => state.hands
  | _ => []

/-- The PCB `to_ready` has passed on to `memory_init_q` and waits for. -/
def ToReady.waiting : ToReady → List Job
  | .postInit job | .awaitTable job => [job]
  | _ => []

def ToExec.hands : ToExec → List Job
  | .send job => [job]
  | _ => []

def ExitProcess.hands : ExitProcess → List Job
  | .send job | .push job => [job]
  | _ => []

def DispatchListener.hands : DispatchListener → List Job
  | .interrupted job | .interruptPush job | .io job | .ioPush job | .exitPush job => [job]
  | _ => []

/-- The PCB of a process that has not exited, in the hands of the dispatch listener. -/
def DispatchListener.runnable : DispatchListener → List Job
  | .interrupted job | .interruptPush job | .io job | .ioPush job => [job]
  | _ => []

/-- The PCB of a process that has exited, in the hands of the dispatch listener. -/
def DispatchListener.exiting : DispatchListener → List Job
  | .exitPush job => [job]
  | _ => []

/-- The PCBs `table_index_success` has taken from `memory_init_q`. -/
def MemoryListener.hands : MemoryListener → List Job
  | .tableScan _ _ found | .tableWait _ _ found | .tablePop _ _ found | .tablePost _ found => found
  | _ => []

def IoListener.hands : IoListener → List Job
  | .stamp job | .sendSuspend job | .awaitSuspension job | .pushSuspended job
  | .pushReady job => [job]
  | .put state => state.hands
  | _ => []

def ConsoleThread.hands : ConsoleThread → List Job
  | .count job | .number job | .push job => [job]
  | _ => []

/-- The PCB a console thread has created and not yet given its pid and program counter. -/
def ConsoleThread.fresh : ConsoleThread → List Job
  | .count job | .number job => [job]
  | _ => []

/-- The PCB a console thread is about to push. -/
def ConsoleThread.numbered : ConsoleThread → List Job
  | .push job => [job]
  | _ => []

/-- The hands of all console threads. -/
def consoleHands (consoles : List (Word × ConsoleThread)) : List Job :=
  consoles.flatMap fun console => console.2.hands

@[simp] theorem ToReady.waiting_mapWaiting (f : Job → Job) (state : ToReady) :
    (state.mapWaiting f).waiting = state.waiting.map f := by
  cases state <;> simp [mapWaiting, waiting]

/-! ## Places in the kernel -/

/-- The places at which the kernel, or the dispatch socket, keeps PCBs. -/
inductive Place
  | consoles | newQ | toReady | memoryInitQ | memoryListener | readyQ | toExec | toCpu | fromCpu
  | dispatchListener | blockedQ | ioListener | suspendedBlockQ | suspendedReadyQ | exitQ
  | exitProcess | memoryExitQ
deriving DecidableEq, Repr

def Place.all : List Place :=
  [.consoles, .newQ, .toReady, .memoryInitQ, .memoryListener, .readyQ, .toExec, .toCpu, .fromCpu,
    .dispatchListener, .blockedQ, .ioListener, .suspendedBlockQ, .suspendedReadyQ, .exitQ,
    .exitProcess, .memoryExitQ]

theorem Place.mem_all (place : Place) : place ∈ Place.all := by
  cases place <;> decide

theorem Place.nodup_all : Place.all.Nodup := by decide

namespace Kernel

/-- The PCBs at a place. -/
def occupants (k : Kernel) : Place → List Job
  | .consoles => consoleHands k.consoles
  | .newQ => k.newQ.items
  | .toReady => k.toReadyThread.hands k.pcbTableReady
  | .memoryInitQ => k.memoryInitQ.items
  | .memoryListener => k.memoryThread.hands
  | .readyQ => k.readyQ.items
  | .toExec => k.toExecThread.hands
  | .toCpu => k.toCpu
  | .fromCpu => k.fromCpu.map Prod.snd
  | .dispatchListener => k.dispatchThread.hands
  | .blockedQ => k.blockedQ.items
  | .ioListener => k.ioThread.hands
  | .suspendedBlockQ => k.suspendedBlockQ.items
  | .suspendedReadyQ => k.suspendedReadyQ.items
  | .exitQ => k.exitQ.items
  | .exitProcess => k.exitProcessThread.hands
  | .memoryExitQ => k.memoryExitQ.items

/-- All PCBs of the kernel and the dispatch socket. -/
def jobs (k : Kernel) : List Job :=
  Place.all.flatMap k.occupants

end Kernel

end SistemasOperativos
