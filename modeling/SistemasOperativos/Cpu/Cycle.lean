import SistemasOperativos.Kernel.State

/-!
# The CPU

The threads of `cpu/src/cpu.c` that share the PCB: `cpu_cycle`, the dispatch thread in
`receive_pcb`, and the interruption thread in `receive_interruption`.

A READ, WRITE or COPY is an exchange with the memory module in the middle of `execute`; it
touches none of the data modelled here and counts as one step, which may never be taken.
-/

namespace SistemasOperativos

/-- The dispatch thread, in `receive_pcb`. -/
inductive Receiver
  | idle | load (job : Job) | post
deriving DecidableEq, Repr

/-- `cpu_cycle`, with `pcb_to_kernel`. -/
inductive Cycle
  | waitLoaded | postBussy | loop | fetch | execute (op : Operation) (params : List Word)
  | send (header : KernelHeader) | waitBussy (header : KernelHeader) | check | reset
deriving DecidableEq, Repr

/-- The globals of the CPU and the state of its threads. -/
structure Cpu where
  pcb : Job := default
  pcbLoaded : ℕ := 0
  cpuBussy : ℕ := 0
  newInterruption : Bool := false
  cycle : Cycle := .waitLoaded
  receiver : Receiver := .idle
  /-- An entry outside the `execute` table was called, or a missing parameter dereferenced. -/
  crashed : Bool := false
deriving DecidableEq, Repr

/-- `mutex_has_interruption` is held by `cpu_cycle`. -/
def Cycle.holdsInterruption : Cycle → Bool
  | .send .interruptDispatch | .waitBussy .interruptDispatch | .reset => true
  | _ => false

/-- The sockets between the kernel and the CPU, and the history. -/
structure CpuPorts where
  toCpu : List Job
  fromCpu : List (KernelHeader × Job)
  interrupts : ℕ
  history : List Event

namespace Cpu

/-- `receive_pcb` in the dispatch thread. -/
def receivePcb (c : Cpu) (ports : CpuPorts) : Option (Cpu × CpuPorts) :=
  match c.receiver with
  | .idle =>
      match ports.toCpu with
      | [] => none
      | job :: rest => some ({ c with receiver := .load job }, { ports with toCpu := rest })
  | .load job => some ({ c with pcb := job, receiver := .post }, ports)
  | .post => some ({ c with pcbLoaded := c.pcbLoaded + 1, receiver := .idle }, ports)

/-- `receive_interruption` in the interruption thread. -/
def receiveInterruption (c : Cpu) (ports : CpuPorts) : Option (Cpu × CpuPorts) :=
  match ports.interrupts with
  | 0 => none
  | n + 1 =>
      if c.cycle.holdsInterruption then none
      else some ({ c with newInterruption := true }, { ports with interrupts := n })

/-- `fetch_and_decode`: the instruction under the program counter, which moves on. -/
def fetchAndDecode (pcb : Pcb) : Option (Instruction × Operation × Pcb) :=
  match pcb.instructions[pcb.programCounter.toNat]? with
  | none => none
  | some instruction =>
      some (instruction, getOp instruction.id,
        { pcb with programCounter := pcb.programCounter + 1 })

/-- `execute[op](params)`, up to the send for the operations that give the PCB back. -/
def execute (c : Cpu) : Operation → List Word → Cpu
  | .noOp, _ :: _ => { c with cycle := .check }
  | .ioOp, time :: _ =>
      { c with
        pcb := { c.pcb with pcb := { c.pcb.pcb with pendingIoTime := time } }
        cycle := .send .ioCall }
  | .read, _ :: _ => { c with cycle := .check }
  | .copy, _ :: _ :: _ => { c with cycle := .check }
  | .write, _ :: _ :: _ => { c with cycle := .check }
  | .exitOp, _ => { c with cycle := .send .exitCall }
  | _, _ => { c with crashed := true }

/-- One step of `cpu_cycle`. -/
def cpuCycle (c : Cpu) (ports : CpuPorts) : Option (Cpu × CpuPorts) :=
  match c.cycle with
  | .waitLoaded =>
      match c.pcbLoaded with
      | 0 => none
      | n + 1 => some ({ c with pcbLoaded := n, cycle := .postBussy }, ports)
  | .postBussy => some ({ c with cpuBussy := c.cpuBussy + 1, cycle := .loop }, ports)
  | .loop =>
      if 0 < c.cpuBussy ∧ c.pcb.pcb.hasNext then some ({ c with cycle := .fetch }, ports)
      else some ({ c with cycle := .waitLoaded }, ports)
  | .fetch =>
      match fetchAndDecode c.pcb.pcb with
      | none => none
      | some (instruction, op, pcb) =>
          some ({ c with
              pcb := { c.pcb with pcb := pcb }
              cycle := .execute op instruction.params },
            { ports with history := ports.history ++ [.executed c.pcb.serial instruction] })
  | .execute op params => some (c.execute op params, ports)
  | .send header =>
      some ({ c with cycle := .waitBussy header },
        { ports with
          fromCpu := ports.fromCpu ++ [(header, c.pcb)]
          history := ports.history ++ [.answered header c.pcb.serial] })
  | .waitBussy header =>
      match c.cpuBussy with
      | 0 => none
      | n + 1 =>
          match header with
          | .interruptDispatch => some ({ c with cpuBussy := n, cycle := .reset }, ports)
          | _ => some ({ c with cpuBussy := n, cycle := .check }, ports)
  | .check =>
      if c.newInterruption then some ({ c with cycle := .send .interruptDispatch }, ports)
      else some ({ c with cycle := .loop }, ports)
  | .reset => some ({ c with newInterruption := false, cycle := .loop }, ports)

end Cpu

/-- A thread of the CPU moves. -/
inductive CpuAction
  | receivePcb | receiveInterruption | cpuCycle
deriving DecidableEq, Repr

/-- The CPU after one action.  A crashed CPU takes none. -/
def Cpu.step (c : Cpu) (ports : CpuPorts) (action : CpuAction) : Option (Cpu × CpuPorts) :=
  if c.crashed then none
  else
    match action with
    | .receivePcb => c.receivePcb ports
    | .receiveInterruption => c.receiveInterruption ports
    | .cpuCycle => c.cpuCycle ports

end SistemasOperativos
