import SistemasOperativos.Library.Machine
import SistemasOperativos.Kernel.Writes
import SistemasOperativos.Cpu.Cycle

/-!
# Kernel and CPU together

`System` composes the kernel with the CPU as coded; `Contract` composes it with any CPU that
keeps the contract of the dispatch socket: it answers each PCB it receives once, whenever it
likes, under whichever header it likes and with whatever contents.

The memory module is a parameter: a `MemoryBehaviour`.
-/

namespace SistemasOperativos

/-- The CPU's end of the sockets. -/
def Kernel.ports (k : Kernel) : CpuPorts :=
  ⟨k.toCpu, k.fromCpu, k.interrupts, k.history⟩

/-- The kernel after the CPU has used its end of the sockets. -/
def Kernel.withPorts (k : Kernel) (ports : CpuPorts) : Kernel :=
  { k with
    toCpu := ports.toCpu
    fromCpu := ports.fromCpu
    interrupts := ports.interrupts
    history := ports.history }

/-! ## Memory modules -/

/-- The pid a request is about. -/
def Request.pid : Request → Word
  | .processNew _ pid _ | .processSuspend _ pid _ _ | .processExit _ pid _ _ => pid

/-- The process a request is about. -/
def Request.serial : Request → ℕ
  | .processNew serial _ _ | .processSuspend serial _ _ _ | .processExit serial _ _ _ => serial

/-- The reply is one the handler of the request sends. -/
def Request.answeredBy : Request → Reply → Bool
  | .processNew _ pid _, .processMemoryReady pid' _ _ => pid = pid'
  | .processSuspend .., .processSuspensionReady => true
  | .processExit serial pid _ _, .processExitReady serial' pid' => serial = serial' ∧ pid = pid'
  | _, _ => false

/-- The memory module of `memory/src/memory.c`: one thread serves the kernel's requests in
order, with one reply to each; a request for pid 0 is dropped. -/
def inOrder : MemoryBehaviour
  | [], _ => none
  | request :: rest, reply =>
      if request.pid = 0 then inOrder rest reply
      else if request.answeredBy reply then some rest
      else none

/-- The request answered is the first that is not dropped. -/
theorem inOrder_eq_some {requests rest : List Request} {reply : Reply}
    (h : inOrder requests reply = some rest) :
    ∃ dropped request, requests = dropped ++ request :: rest ∧
      (∀ other ∈ dropped, other.pid = 0) ∧ request.pid ≠ 0 ∧ request.answeredBy reply = true := by
  induction requests with
  | nil => cases h
  | cons request requests ih =>
      simp only [inOrder] at h
      split at h
      · rename_i hpid
        obtain ⟨dropped, answered, rfl, hdropped, hanswered⟩ := ih h
        exact ⟨request :: dropped, answered, rfl, List.forall_mem_cons.2 ⟨hpid, hdropped⟩,
          hanswered⟩
      · rename_i hpid
        split at h <;> cases h
        exact ⟨[], request, rfl, by simp, hpid, ‹_›⟩

/-! ## The system as coded -/

/-- The kernel and the CPU. -/
structure System where
  kernel : Kernel
  cpu : Cpu

/-- A thread of the system moves. -/
inductive Action
  | kernel (action : KernelAction)
  | cpu (action : CpuAction)

/-- A console connects, or sends its program. -/
def KernelAction.ofConsole : KernelAction → Bool
  | .consoleAccept _ | .consoleReceive .. => true
  | _ => false

def Action.ofConsole : Action → Bool
  | .kernel action => action.ofConsole
  | .cpu _ => false

/-- The system after one action. -/
def System.step (cfg : KernelConfig) (behaviour : MemoryBehaviour) :
    Action → System → Option System
  | .kernel action, s =>
      match s.kernel.step cfg behaviour action with
      | none => none
      | some k => some { s with kernel := k }
  | .cpu action, s =>
      match s.cpu.step s.kernel.ports action with
      | none => none
      | some (c, ports) => some ⟨s.kernel.withPorts ports, c⟩

/-- The system, started. -/
def system (cfg : KernelConfig) (behaviour : MemoryBehaviour) : Machine System Action where
  initial := ⟨Kernel.start cfg, {}⟩
  step := System.step cfg behaviour

/-- A step is one of the kernel, which leaves the CPU alone, or one of the CPU, which uses its end
of the sockets. -/
theorem System.step_cases {cfg : KernelConfig} {behaviour : MemoryBehaviour} {action : Action}
    {s s' : System} (h : s.step cfg behaviour action = some s') :
    (∃ kernelAction k, action = .kernel kernelAction ∧
      s.kernel.step cfg behaviour kernelAction = some k ∧ s' = { s with kernel := k }) ∨
    ∃ cpuAction c ports, action = .cpu cpuAction ∧
      s.cpu.step s.kernel.ports cpuAction = some (c, ports) ∧
      s' = ⟨s.kernel.withPorts ports, c⟩ := by
  cases action with
  | kernel action =>
      simp only [step] at h
      split at h <;> cases h
      exact .inl ⟨action, _, rfl, ‹_›, rfl⟩
  | cpu action =>
      simp only [step] at h
      split at h <;> cases h
      exact .inr ⟨action, _, _, rfl, ‹_›, rfl⟩

/-! ## The kernel with any CPU that answers each dispatch once -/

/-- The kernel, and the PCBs its CPU has received and not answered. -/
structure Contract where
  kernel : Kernel
  atCpu : List Job

/-- The kernel moves, or the CPU receives a PCB, changes the contents of one it has, answers
one, or takes note of an `INTERRUPT`. -/
inductive ContractAction
  | kernel (action : KernelAction)
  | receive
  | change (i : ℕ) (pcb : Pcb) (events : List Event)
  | answer (i : ℕ) (header : KernelHeader)
  | note

/-- The events of a CPU at work on a PCB. -/
def Event.ofCpu : Event → Bool
  | .executed .. => true
  | _ => false

/-- The events of a CPU, at work or answering. -/
def Event.byCpu : Event → Bool
  | .executed .. | .answered .. => true
  | _ => false

theorem Event.byCpu_of_ofCpu {event : Event} (h : event.ofCpu = true) : event.byCpu = true := by
  cases event <;> simp_all [ofCpu, byCpu]

/-- The kernel with its CPU after one action. -/
def Contract.step (cfg : KernelConfig) (behaviour : MemoryBehaviour) :
    ContractAction → Contract → Option Contract
  | .kernel action, s =>
      match s.kernel.step cfg behaviour action with
      | none => none
      | some k => some { s with kernel := k }
  | .receive, s =>
      match s.kernel.toCpu with
      | [] => none
      | job :: rest => some ⟨{ s.kernel with toCpu := rest }, s.atCpu ++ [job]⟩
  | .change i pcb events, s =>
      match s.atCpu[i]? with
      | none => none
      | some job =>
          if events.all Event.ofCpu then
            some ⟨{ s.kernel with history := s.kernel.history ++ events },
              s.atCpu.set i { job with pcb := pcb }⟩
          else none
  | .answer i header, s =>
      match s.atCpu[i]? with
      | none => none
      | some job =>
          some ⟨{ s.kernel with
              fromCpu := s.kernel.fromCpu ++ [(header, job)]
              history := s.kernel.history ++ [.answered header job.serial] },
            s.atCpu.eraseIdx i⟩
  | .note, s =>
      match s.kernel.interrupts with
      | 0 => none
      | n + 1 => some { s with kernel := { s.kernel with interrupts := n } }

/-- The kernel with its CPU, started. -/
def contract (cfg : KernelConfig) (behaviour : MemoryBehaviour) :
    Machine Contract ContractAction where
  initial := ⟨Kernel.start cfg, []⟩
  step := Contract.step cfg behaviour

/-- What one action does, case by case. -/
theorem Contract.step_elim {cfg : KernelConfig} {behaviour : MemoryBehaviour}
    {action : ContractAction} {s s' : Contract} {motive : Contract → Prop}
    (h : s.step cfg behaviour action = some s')
    (kernel : ∀ action k, s.kernel.step cfg behaviour action = some k →
      motive { s with kernel := k })
    (receive : ∀ job rest, s.kernel.toCpu = job :: rest →
      motive ⟨{ s.kernel with toCpu := rest }, s.atCpu ++ [job]⟩)
    (change : ∀ i pcb events job, s.atCpu[i]? = some job → events.all Event.ofCpu →
      motive ⟨{ s.kernel with history := s.kernel.history ++ events },
        s.atCpu.set i { job with pcb := pcb }⟩)
    (answer : ∀ i header job, s.atCpu[i]? = some job →
      motive ⟨{ s.kernel with
          fromCpu := s.kernel.fromCpu ++ [(header, job)]
          history := s.kernel.history ++ [.answered header job.serial] }, s.atCpu.eraseIdx i⟩)
    (note : ∀ n, s.kernel.interrupts = n + 1 →
      motive { s with kernel := { s.kernel with interrupts := n } }) : motive s' := by
  cases action with
  | kernel action =>
      simp only [step] at h
      split at h <;> cases h
      exact kernel _ _ ‹_›
  | receive =>
      simp only [step] at h
      split at h <;> cases h
      exact receive _ _ ‹_›
  | change i pcb events =>
      simp only [step] at h
      split at h
      · cases h
      split at h <;> cases h
      exact change _ _ _ _ ‹_› ‹_›
  | answer i header =>
      simp only [step] at h
      split at h <;> cases h
      exact answer _ _ _ ‹_›
  | note =>
      simp only [step] at h
      split at h <;> cases h
      exact note _ ‹_›

/-- A step is one of the kernel, or uses the CPU's end of the sockets and adds events of the
CPU to the history. -/
theorem Contract.step_kernel {cfg : KernelConfig} {behaviour : MemoryBehaviour}
    {action : ContractAction} {s s' : Contract} (h : s.step cfg behaviour action = some s') :
    (∃ kernelAction, action = .kernel kernelAction ∧
      s.kernel.step cfg behaviour kernelAction = some s'.kernel) ∨
    ∃ ports events, s'.kernel = s.kernel.withPorts ports ∧
      ports.history = s.kernel.history ++ events ∧ ∀ event ∈ events, event.byCpu = true := by
  cases action with
  | kernel action =>
      simp only [step] at h
      split at h <;> cases h
      exact .inl ⟨action, rfl, ‹_›⟩
  | receive =>
      simp only [step] at h
      split at h <;> cases h
      rename_i job rest hto
      exact .inr ⟨{ s.kernel.ports with toCpu := rest }, [], rfl,
        (List.append_nil s.kernel.history).symm, nofun⟩
  | change i pcb events =>
      simp only [step] at h
      split at h
      · cases h
      split at h <;> cases h
      rename_i hevents
      exact .inr ⟨{ s.kernel.ports with history := s.kernel.history ++ events }, events, rfl, rfl,
        fun event hmem => Event.byCpu_of_ofCpu (List.all_eq_true.1 hevents event hmem)⟩
  | answer i header =>
      simp only [step] at h
      split at h <;> cases h
      rename_i job hget
      exact .inr ⟨{ s.kernel.ports with
          fromCpu := s.kernel.fromCpu ++ [(header, job)]
          history := s.kernel.history ++ [.answered header job.serial] },
        [.answered header job.serial], rfl, rfl, by simp [Event.byCpu]⟩
  | note =>
      simp only [step] at h
      split at h <;> cases h
      rename_i n hn
      exact .inr ⟨{ s.kernel.ports with interrupts := n }, [], rfl,
        (List.append_nil s.kernel.history).symm, nofun⟩

/-! ## Schedules

Runs of the threads up to points at which they can be observed, for the evaluation of
statements about the machines on concrete programs.
-/

/-- A configuration with small parameters. -/
def KernelConfig.small (sortingAlgorithm : SortingAlgorithm) : KernelConfig where
  sortingAlgorithm := sortingAlgorithm
  initialEstimate := 10
  alpha := 1 / 2
  multiprogrammingLevel := 2
  maxBlockedTime := 100
  listSort := SortBy.insertion sjfSort_total sjfSort_trans

/-- Console `i` connects through `socket` and its process is admitted to `new_q`. -/
def admission (i : ℕ) (socket : Word) (program : List Instruction) : List KernelAction :=
  [.consoleAccept socket, .consoleReceive i 64 program default] ++ List.replicate 5 (.console i)

/-- `to_ready` takes a process from `new_q`, and the memory module and its listener give it its
tables: the process is about to enter `put_to_ready`. -/
def initialization (pid : Word) : List KernelAction :=
  List.replicate 9 .toReady ++ [.memory (.processMemoryReady pid 0 0)] ++
    List.replicate 7 (.memoryListener default) ++ [.toReady]

/-- The schedule of the kernel, in the system or beside a CPU that keeps the contract. -/
def onKernel (actions : List KernelAction) : List Action :=
  actions.map .kernel

/-- The CPU's cycle takes `n` steps. -/
def onCycle (n : ℕ) : List Action :=
  List.replicate n (.cpu .cpuCycle)

end SistemasOperativos
