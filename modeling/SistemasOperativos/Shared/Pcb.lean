import Mathlib.Tactic.Common

/-!
# Processes and process control blocks

The data that console, kernel and CPU exchange: instructions, programs and PCBs
(`shared/include/process_utils.h`, `shared/include/pcb_utils.h`), and the CPU's decoding of an
instruction (`cpu/src/utils.c`).
-/

namespace SistemasOperativos

/-- A `uint32_t`, or an `int` read through `BitVec.toInt`. -/
abbrev Word := BitVec 32

/-- The bytes of a C string, without its terminator. -/
abbrev CString := List UInt8

/-- A C string literal. -/
def ascii (text : List Char) : CString :=
  text.map fun c => UInt8.ofNat c.toNat

/-- `t_instruction`. -/
structure Instruction where
  id : CString
  params : List Word
deriving DecidableEq, Repr, Inhabited

/-- `t_pcb`. -/
structure Pcb where
  pid : Word
  size : Word
  clientSocket : Word
  instructions : List Instruction
  programCounter : Word
  pageTable : Word
  processFramesIndex : Word
  burstEstimation : Word
  blockedTime : Word
  pendingIoTime : Word
  leftBurstEstimation : Word
deriving DecidableEq, Repr, Inhabited

/-- `list_size(pcb->instructions)`, compared with the program counter as an unsigned word. -/
def Pcb.programSize (pcb : Pcb) : Word :=
  BitVec.ofNat 32 pcb.instructions.length

/-- The loop condition of `cpu_cycle` on the program counter. -/
def Pcb.hasNext (pcb : Pcb) : Bool :=
  pcb.programCounter < pcb.programSize

/-- Below the size of the program the program counter does not wrap. -/
theorem Pcb.toNat_programCounter_succ {pcb : Pcb} (h : pcb.hasNext = true) :
    (pcb.programCounter + 1).toNat = pcb.programCounter.toNat + 1 := by
  have h' : pcb.programCounter.toNat < (BitVec.ofNat 32 pcb.instructions.length).toNat := by
    simpa [hasNext, programSize, BitVec.lt_def] using h
  have hsize := (BitVec.ofNat 32 pcb.instructions.length).isLt
  rw [BitVec.toNat_add, show (1 : Word).toNat = 1 from rfl, Nat.mod_eq_of_lt (by omega)]

/-! ## Operations -/

/-- `enum operation`. -/
inductive Operation
  | noOp | ioOp | read | copy | write | exitOp | dead
deriving DecidableEq, Repr

/-- `get_op`. -/
def getOp (op : CString) : Operation :=
  if op = ascii ['N', 'O', '_', 'O', 'P'] then .noOp
  else if op = ascii ['I', '/', 'O'] then .ioOp
  else if op = ascii ['R', 'E', 'A', 'D'] then .read
  else if op = ascii ['W', 'R', 'I', 'T', 'E'] then .write
  else if op = ascii ['C', 'O', 'P', 'Y'] then .copy
  else if op = ascii ['E', 'X', 'I', 'T'] then .exitOp
  else .dead

/-- The instruction is an `EXIT`. -/
def Instruction.isExit (instruction : Instruction) : Bool :=
  getOp instruction.id = .exitOp

/-- The number of parameters an executor dereferences. -/
def Operation.arity : Operation → ℕ
  | .noOp | .ioOp | .read => 1
  | .copy | .write => 2
  | .exitOp | .dead => 0

/-- The operation is known and the instruction has the parameters its executor reads. -/
def Instruction.wellFormed (instruction : Instruction) : Bool :=
  getOp instruction.id ≠ .dead ∧ (getOp instruction.id).arity ≤ instruction.params.length

/-! ## Jobs -/

/-- A PCB together with the admission it descends from.  The code copies PCBs through packets
and compares them by `pid`; `serial` is the identity of the admitted process, kept as history
only and read by no step. -/
structure Job where
  serial : ℕ
  pcb : Pcb
deriving DecidableEq, Repr, Inhabited

end SistemasOperativos
