import SistemasOperativos.Proofs.CpuContract
import SistemasOperativos.Proofs.TablesCarried
import SistemasOperativos.System.WithMemory

/-!
# Whose frame list a PCB names

The memory module makes one frame list for each `PROCESS_NEW`, and `table_index_success` writes its
index into the PCB.  From there on the PCB names the list of its own process, in every queue, in
the hands of every thread and at the CPU; and the requests that empty a list are for the list of
the process that gives it up.
-/

namespace SistemasOperativos

/-- The process for which the frame list was made. -/
def grantee (grants : List Grant) (index : Word) : Option ℕ :=
  (grants[index.toNat]?).map Grant.serial

theorem grantee_append {grants : List Grant} {index : Word} {serial : ℕ} (more : List Grant)
    (h : grantee grants index = some serial) : grantee (grants ++ more) index = some serial := by
  obtain ⟨grant, hgrant, rfl⟩ := Option.map_eq_some_iff.1 h
  have hlt := (List.getElem?_eq_some_iff.1 hgrant).1
  rw [grantee, List.getElem?_append_left hlt, hgrant]
  rfl

/-- The PCB names the frame list that was made for its process. -/
def Job.Granted (grants : List Grant) (job : Job) : Prop :=
  grantee grants job.pcb.processFramesIndex = some job.serial

/-- The process `io_listener` has asked to suspend. -/
def IoListener.retired : IoListener → List Job
  | .awaitSuspension job | .pushSuspended job | .pushReady job => [job]
  | _ => []

/-- The process `exit_process` has asked to destroy. -/
def ExitProcess.retired : ExitProcess → List Job
  | .push job => [job]
  | _ => []

/-- The frame list a request empties. -/
def Request.releases : Request → Option Word
  | .processSuspend _ _ _ index | .processExit _ _ _ index => some index
  | .processNew .. => none

/-- The frame list of a `PROCESS_MEMORY_READY`. -/
def Reply.frames : Reply → Option Word
  | .processMemoryReady _ _ index => some index
  | _ => none

namespace Kernel

variable {cfg : KernelConfig} {behaviour : MemoryBehaviour} {k k' : Kernel} {now : Word}
  {stale : ℕ → Pcb} {action : KernelAction} {grants : List Grant}

/-- The processes suspended, or exited, from the request to the memory module on. -/
def retired (k : Kernel) : List ℕ :=
  (k.ioThread.retired ++ k.suspendedBlockQ.items ++ k.suspendedReadyQ.items ++
    k.exitProcessThread.retired ++ k.memoryExitQ.items).map Job.serial

/-- `suspended_to_ready` takes no process from `suspended_ready_q`. -/
def NoneReturns (action : KernelAction) (k : Kernel) : Prop :=
  action = .toReady → k.toReadyThread ≠ .popSuspended

/-- Every PCB that has its tables names the frame list of its process. -/
structure Tabled (grants : List Grant) (k : Kernel) : Prop where
  toReady : ∀ job ∈ k.toReadyThread.tabled k.pcbTableReady, job.Granted grants
  readyQ : ∀ job ∈ k.readyQ.items, job.Granted grants
  toExec : ∀ job ∈ k.toExecThread.hands, job.Granted grants
  toCpu : ∀ job ∈ k.toCpu, job.Granted grants
  fromCpu : ∀ job ∈ k.fromCpu.map Prod.snd, job.Granted grants
  dispatch : ∀ job ∈ k.dispatchThread.hands, job.Granted grants
  blockedQ : ∀ job ∈ k.blockedQ.items, job.Granted grants
  io : ∀ job ∈ k.ioThread.hands, job.Granted grants
  suspendedBlockQ : ∀ job ∈ k.suspendedBlockQ.items, job.Granted grants
  suspendedReadyQ : ∀ job ∈ k.suspendedReadyQ.items, job.Granted grants
  exitQ : ∀ job ∈ k.exitQ.items, job.Granted grants
  exitProcess : ∀ job ∈ k.exitProcessThread.hands, job.Granted grants

theorem tabled_iff : k.Tabled grants ↔ k.TabledPcbs (Job.Granted grants) := by
  constructor
  · exact fun hk => { hk with }
  · exact fun hk => { hk with }

/-- The frame lists of the `PROCESS_MEMORY_READY` replies under way. -/
def promised (k : Kernel) : List Word :=
  k.fromMemory.filterMap Reply.frames ++
    (k.memoryThread.tables.map TableReply.processFramesIndex).toList

/-- What is under way is for the PCB `new_to_ready` has asked tables for. -/
structure Promises (grants : List Grant) (k : Kernel) : Prop where
  requests : ∀ serial ∈ k.asking, ∀ job ∈ k.toReadyThread.asked, job.serial = serial
  replies : ∀ index ∈ k.promised, ∀ job ∈ k.toReadyThread.asked,
    grantee grants index = some job.serial

/-- The requests that empty a frame list are for that of their own process, which has given it
up. -/
def Releases (grants : List Grant) (k : Kernel) : Prop :=
  ∀ request ∈ k.toMemory, ∀ index, request.releases = some index →
    grantee grants index = some request.serial ∧ request.serial ∈ k.retired

end Kernel
/-! ## At the CPU -/

namespace Cpu

variable {c c' : Cpu} {ports ports' : CpuPorts} {grants : List Grant}

/-- The PCBs on the sockets to the CPU name the frame lists of their processes. -/
def PortsGranted (grants : List Grant) (ports : CpuPorts) : Prop :=
  (∀ job ∈ ports.toCpu, job.Granted grants) ∧
    ∀ job ∈ ports.fromCpu.map Prod.snd, job.Granted grants

end Cpu
end SistemasOperativos
