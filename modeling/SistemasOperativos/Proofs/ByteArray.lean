import SistemasOperativos.Library.Splice
import SistemasOperativos.Memory.Handlers

/-!
# The memory as an array of bytes

`memory_read` and `memory_write` copy four bytes at an address, without a look at the size of the
memory.  They take address 0 for a missing address and send nothing: the first word of the memory
is out of reach.
-/

open Splice

namespace SistemasOperativos

/-- A request of the CPU for the memory. -/
inductive MemoryCall
  | read (address : Word)
  | write (address value : Word)
deriving DecidableEq, Repr

namespace MemoryCall

variable {Swap : Type}

def address : MemoryCall → Word
  | .read address => address
  | .write address _ => address

/-- The handler of the request. -/
def serve : MemoryCall → Memory Swap → Option (Memory Swap × Option MemoryAnswer)
  | .read address, m => m.memoryRead address
  | .write address value, m => m.memoryWrite address value

/-! ## The array -/

/-- The four bytes of the request are bytes of the array. -/
def Inside (cfg : MemoryConfig) (call : MemoryCall) : Prop :=
  call.address.toNat + 4 ≤ cfg.memorySize

instance (cfg : MemoryConfig) (call : MemoryCall) : Decidable (call.Inside cfg) :=
  inferInstanceAs (Decidable (_ ≤ _))

/-- A write inside of the array puts the bytes of its value there, lowest first; no other request
changes the array. -/
def onArray (cfg : MemoryConfig) (array : ℕ → UInt8) (call : MemoryCall) : ℕ → UInt8 :=
  match call with
  | .read _ => array
  | .write address value =>
      if call.Inside cfg then overwrite array address.toNat value.bytes else array

/-- The answer to a request inside of the array. -/
def answerOf (array : ℕ → UInt8) : MemoryCall → MemoryAnswer
  | .read address => .readAnswer (Word.ofBytes (items array address.toNat 4))
  | .write _ _ => .writeSuccess

/-- The module does with the request what the array does. -/
def Agrees (cfg : MemoryConfig) (array : ℕ → UInt8) (call : MemoryCall) (m m' : Memory Swap) :
    Prop :=
  ∃ answer, call.serve m = some (m', answer) ∧
    Represents cfg.memorySize m'.memory (call.onArray cfg array) ∧
    (call.Inside cfg → answer = some (call.answerOf array))

/-- The module does with all requests of a list what the array does. -/
def AllAgree (cfg : MemoryConfig) : (ℕ → UInt8) → Memory Swap → List MemoryCall → Prop
  | _, _, [] => True
  | array, m, call :: rest =>
      ∃ m', call.Agrees cfg array m m' ∧ AllAgree cfg (call.onArray cfg array) m' rest

variable {cfg : MemoryConfig} {array : ℕ → UInt8} {m : Memory Swap}

theorem represents_start (cfg : MemoryConfig) (swap : Swap) :
    Represents cfg.memorySize (Memory.start cfg swap).memory fun _ => 0 :=
  ⟨List.length_replicate, fun _ hi => List.getElem?_replicate_of_lt hi⟩

end MemoryCall
end SistemasOperativos
