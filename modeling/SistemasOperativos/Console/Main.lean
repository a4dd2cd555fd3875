import SistemasOperativos.Console.Parser
import SistemasOperativos.Shared.Networking

/-!
# The console's `main`

What a console makes of its arguments, down to the bytes that it sends to the kernel
(`console/src/console.c`).
-/

namespace SistemasOperativos

/-- What `main` finds around it: a configuration with both properties or none, a kernel that
accepts connections or none, and the files that `open_file` can open. -/
structure ConsoleHost where
  configured : Bool
  connects : Bool
  openFile : CString → Option Bytes

/-- How far `main` comes before it sends anything. -/
inductive ConsoleStart
  /-- It ends before it is connected. -/
  | unconnected
  /-- `error_opening_file` locks `mutex_log` a second time, and never returns. -/
  | stuck
  /-- The file has no lines: it is connected, and ends. -/
  | noInstructions
  | sends (process : Process)
deriving DecidableEq, Repr

/-- `main`, as far as `process_packet`. -/
def consoleMain (host : ConsoleHost) (argv : List CString) : ConsoleStart :=
  match argv with
  | _ :: codePath :: processSize :: _ =>
      if ¬ host.configured then .unconnected
      else if ¬ host.connects then .unconnected
      else
        match host.openFile codePath with
        | none => .stuck
        | some file =>
            let instructionList := getCode file
            if instructionList.length = 0 then .noInstructions
            else .sends ⟨atoi processSize, instructionList⟩
  | _ => .unconnected

/-- `NEW_PROCESS`. -/
def newProcess : UInt8 := 0

/-- `process_packet`. -/
def processPacket (process : Process) : Packet where
  header := newProcess
  payload :=
    { offset := BitVec.ofNat 32 (streamAddProcess [] process).length
      stream := streamAddProcess [] process
      offset_le := by
        rw [BitVec.toNat_ofNat]
        exact Nat.mod_le _ _ }

/-- The bytes that `main` gives to `socket_send_packet`. -/
def ConsoleStart.bytes : ConsoleStart → Bytes
  | .sends process => (processPacket process).wire
  | _ => []

end SistemasOperativos
