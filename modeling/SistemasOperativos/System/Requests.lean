import SistemasOperativos.System.Composition
import SistemasOperativos.System.Places
import Mathlib.Data.Finset.Card

/-!
# The requests to the memory module

What the kernel asks of the memory module, process by process: a session is `PROCESS_NEW`, any
number of `PROCESS_SUSPEND` and `PROCESS_EXIT`, or the beginning of one.  A process is committed
from its `PROCESS_NEW` to its first `PROCESS_SUSPEND`, or to `PROCESS_EXIT`: that long the memory
module keeps frames for it.
-/

namespace SistemasOperativos

/-! ## Requests -/

/-- The headers of the requests. -/
inductive RequestKind
  | new | suspend | exit
deriving DecidableEq, Repr

def Request.kind : Request → RequestKind
  | .processNew .. => .new
  | .processSuspend .. => .suspend
  | .processExit .. => .exit

/-- What is asked, and for whom. -/
def Request.about (request : Request) : RequestKind × ℕ :=
  (request.kind, request.serial)

/-- The requests that a step of the kernel sends. -/
def Kernel.sends (k : Kernel) : KernelAction → List Request
  | .toReady =>
      match k.toReadyThread with
      | .sendNew job => [.processNew job.serial job.pcb.pid job.pcb.size]
      | _ => []
  | .exitProcess =>
      match k.exitProcessThread with
      | .send job =>
          [.processExit job.serial job.pcb.pid job.pcb.pageTable job.pcb.processFramesIndex]
      | _ => []
  | .ioListener _ =>
      match k.ioThread with
      | .sendSuspend job =>
          [.processSuspend job.serial job.pcb.pid job.pcb.pageTable job.pcb.processFramesIndex]
      | _ => []
  | _ => []

/-- The CPU sends nothing on the kernel's socket to the memory module. -/
def System.sends : Action → System → List Request
  | .kernel action, s => s.kernel.sends action
  | .cpu _, _ => []

/-! ## Sessions -/

/-- What has been asked about a process, in order. -/
def session (t : ℕ) (log : List Request) : List RequestKind :=
  (log.filter fun request => request.serial = t).map Request.kind

/-- `PROCESS_NEW`, any number of `PROCESS_SUSPEND`, `PROCESS_EXIT`, or the beginning of it. -/
def IsSession (kinds : List RequestKind) : Prop :=
  kinds = [] ∨ ∃ n, kinds = .new :: List.replicate n .suspend ∨
    kinds = .new :: List.replicate n .suspend ++ [.exit]

/-! ## Commitments -/

/-- What a request does to the processes committed. -/
def Request.commit (committed : Finset ℕ) : Request → Finset ℕ
  | .processNew serial _ _ => insert serial committed
  | .processSuspend serial _ _ _ | .processExit serial _ _ _ => committed.erase serial

/-- The processes that are committed once the requests have been served. -/
def commitments (log : List Request) : Finset ℕ :=
  log.foldl Request.commit ∅

@[simp] theorem commitments_append (log more : List Request) :
    commitments (log ++ more) = more.foldl Request.commit (commitments log) :=
  List.foldl_append

/-! ## Processes that are kept in memory -/

/-- The process for which `to_ready` has not asked yet. -/
def ToReady.unsent : ToReady → List Job
  | .sendNew job => [job]
  | _ => []

/-- The process for which `to_ready` has asked. -/
def ToReady.keeping (pcbTableReady : ℕ) : ToReady → List Job
  | .sendNew _ => []
  | state => state.hands pcbTableReady

/-- The process that `io_listener` has not asked to suspend. -/
def IoListener.keeping : IoListener → List Job
  | .stamp job | .sendSuspend job => [job]
  | .put state => state.hands
  | _ => []

/-- The process that `exit_process` has not asked to destroy. -/
def ExitProcess.keeping : ExitProcess → List Job
  | .send job => [job]
  | _ => []

/-- How often a process occurs where nothing has been asked for it. -/
def Kernel.unsent (k : Kernel) (t : ℕ) : ℕ :=
  Tally.tally Job.serial t (consoleHands k.consoles) + Tally.tally Job.serial t k.newQ.items +
    Tally.tally Job.serial t k.toReadyThread.unsent

/-- The PCBs where `PROCESS_NEW` has been sent, and no request that ends the commitment has been
sent since the process entered memory. -/
def Kernel.keeping (k : Kernel) : List Job :=
  k.toReadyThread.keeping k.pcbTableReady ++ k.memoryInitQ.items ++ k.memoryThread.hands ++
    k.readyQ.items ++ k.toExecThread.hands ++ k.toCpu ++ k.fromCpu.map Prod.snd ++
    k.dispatchThread.hands ++ k.blockedQ.items ++ k.ioThread.keeping ++ k.exitQ.items ++
    k.exitProcessThread.keeping

end SistemasOperativos
