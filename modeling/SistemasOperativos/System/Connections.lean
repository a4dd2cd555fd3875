import SistemasOperativos.Library.Machine
import SistemasOperativos.Memory.Handlers
import SistemasOperativos.Shared.Messages

/-!
# Connections of the memory module and the CPU

Which thread reads which connection.  The first connection of the memory module is read by
`cpu_handshake_listener` until the handshake; each one accepted after that, by `packet_handler`
in a thread of its own until a handler returns `false`.  The CPU reads its connection to the
memory module in `memory_handshake` only, and its dispatch connections by `packet_handler`.
-/

namespace SistemasOperativos

/-! ## Handlers -/

/-- The request the handler of a message carries out.  `found` is the frame list that
`get_frame_number` finds. -/
def Message.action (found : Option ℕ) : Message → Option MemoryAction
  | .processNew pid processSize => some (.processNew pid processSize)
  | .processSuspend pid pt1Index processFramesIndex =>
      some (.processSuspend pid pt1Index processFramesIndex)
  | .processExit pid pt1Index processFramesIndex =>
      some (.processExit pid pt1Index processFramesIndex)
  | .lvl1Table pt1Index entryIndex => some (.accessLvl1Table pt1Index entryIndex)
  | .lvl2Table pid pt2Index entryIndex processFramesIndex =>
      some (.accessLvl2Table pid pt2Index entryIndex processFramesIndex found)
  | .readCall address => some (.memoryRead address)
  | .writeCall address value => some (.memoryWrite address value)
  | _ => none

/-- The flag returned by the handler of the memory module: the handlers of the kernel's requests
return `true`, those of the CPU's requests `false`. -/
def MessageHeader.serve : MessageHeader → Bool
  | .processNew | .processSuspend | .processExit => true
  | _ => false

/-- The requests of the kernel. -/
def Message.ofKernel (message : Message) : Bool :=
  message.header.serve

/-- The flag `cpu_handshake` returns. -/
def cpuHandshakeServe : Bool := false

/-- The semaphores on which `mmu`, `readMem` and `writeMem` wait. -/
inductive CpuWait
  | waitingSecondTableNumber | waitingFrame | waitingReadAnswer | waitingWriteAnswer
deriving DecidableEq, Repr

/-- The semaphore posted by the CPU's handler of an answer. -/
def MemoryAnswer.posts : MemoryAnswer → Option CpuWait
  | .table2ToCpu _ => some .waitingSecondTableNumber
  | .frameToCpu _ => some .waitingFrame
  | .readAnswer _ => some .waitingReadAnswer
  | .writeSuccess => some .waitingWriteAnswer
  | _ => none

/-- `tableTwoIndex`, `received_frame` and `memRead`. -/
structure CpuAnswers where
  tableTwoIndex : Word := 0
  receivedFrame : Word := 0
  memRead : Word := 0
deriving DecidableEq, Repr

/-- What the CPU's handler of an answer stores: `receive_ptTwoIndex`, `receive_frame`,
`read_answer` and `write_answer`. -/
def MemoryAnswer.store : MemoryAnswer → CpuAnswers → CpuAnswers
  | .table2ToCpu pt2Index, answers => { answers with tableTwoIndex := pt2Index }
  | .frameToCpu frame, answers => { answers with receivedFrame := frame }
  | .readAnswer value, answers => { answers with memRead := value }
  | _, answers => answers

/-! ## State -/

/-- A connection of the memory module: the requests not yet read, whether a thread still serves
it, the request it is handling, and the answers the peer has not read. -/
structure Link where
  requests : List Message := []
  serve : Bool := true
  handling : Option Message := none
  answers : List MemoryAnswer := []
deriving DecidableEq, Repr

/-- A packet on a dispatch connection of the CPU.  The kernel sends `PCB_TO_CPU`. -/
inductive CpuPacket
  | pcbToCpu
  | answer (answer : MemoryAnswer)
deriving DecidableEq, Repr

/-- A dispatch connection of the CPU, with the packets its thread has not received. -/
structure DispatchLink where
  packets : List CpuPacket := []
  serve : Bool := true
deriving DecidableEq, Repr

/-- `memory_handshake` of the CPU: the header is to be sent, has been sent, has been answered with
`TABLE_INFO_TO_CPU`, and the answer has been received. -/
inductive Handshake
  | connected | requested | answered | done
deriving DecidableEq, Repr

/-- `execThread`: outside of its three requests, waiting for the answer to one, and in `mmu`
between its two packets. -/
inductive ExecPhase
  | idle
  | waiting (wait : CpuWait) (request : Message)
  | translating
deriving DecidableEq, Repr

structure Connections (Swap : Type) where
  memory : Memory Swap
  /-- The connection of `memory_server_socket`. -/
  cpu : Link := {}
  /-- The connections accepted by `server_listen` in the memory module. -/
  peers : List Link := []
  /-- The connections accepted by `server_listen` in the CPU. -/
  dispatches : List DispatchLink := []
  handshake : Handshake := .connected
  exec : ExecPhase := .idle
  /-- The values of the semaphores. -/
  posts : CpuWait → ℕ := fun _ => 0
  received : CpuAnswers := {}
  /-- The requests of the CPU.  History only. -/
  sent : List Message := []

/-- A connection of the memory module. -/
inductive LinkName
  | cpu
  | peer (n : ℕ)
deriving DecidableEq, Repr

/-- The steps of the threads of the memory module and the CPU, and of the kernel as their peer. -/
inductive ConnectionAction
  /-- `memory_handshake` sends its header. -/
  | handshakeHeader
  /-- `cpu_handshake_listener` receives it. -/
  | cpuHandshake
  /-- `memory_handshake` receives the answer. -/
  | tableInfo
  /-- `server_listen` of the memory module, and of the CPU for dispatch, accept a connection. -/
  | accept
  | acceptDispatch
  /-- The kernel sends to the memory module, receives from it, and sends a PCB to the CPU. -/
  | kernelRequest (n : ℕ) (message : Message)
  | kernelReceive (n : ℕ)
  | pcbToCpu (n : ℕ)
  /-- A `packet_handler` of the memory module receives a packet, and its handler runs; `heap` is
  what lies behind the payload. -/
  | read (name : LinkName)
  | handle (name : LinkName) (heap : Bytes) (found : Option ℕ)
  /-- A `packet_handler` of the CPU receives a packet and handles it. -/
  | receive (n : ℕ)
  /-- The requests of `mmu`, the first and the second, `readMem` and `writeMem`. -/
  | mmu (ptIndex fstLevelEntry : Word)
  | mmuSecond (pid scdLevelEntry framesIndex : Word)
  | readMem (fisicDir : Word)
  | writeMem (fisicDir value : Word)
  /-- `sem_wait` returns. -/
  | wake
deriving DecidableEq, Repr

namespace Connections

variable {Swap : Type}

/-! ## Steps -/

def link (s : Connections Swap) : LinkName → Option Link
  | .cpu => some s.cpu
  | .peer n => s.peers[n]?

def setLink (s : Connections Swap) (link : Link) : LinkName → Connections Swap
  | .cpu => { s with cpu := link }
  | .peer n => { s with peers := s.peers.set n link }

/-- A request goes out on `memory_server_socket`, and `execThread` waits for the answer. -/
def request (s : Connections Swap) (wait : CpuWait) (message : Message) : Connections Swap :=
  { s with
    cpu := { s.cpu with requests := s.cpu.requests ++ [message] }
    exec := .waiting wait message
    sent := s.sent ++ [message] }

/-- The thread that serves a connection receives a packet. -/
def read (name : LinkName) (s : Connections Swap) : Option (Connections Swap) :=
  match s.link name with
  | some { requests := message :: rest, serve := true, handling := none, answers } =>
      some (s.setLink ⟨rest, true, some message, answers⟩ name)
  | _ => none

/-- The handler of the packet received runs: the thread ends if it returns `false`. -/
def handle (cfg : MemoryConfig) (host : Host) (store : SwapStore Swap) (name : LinkName)
    (heap : Bytes) (found : Option ℕ) (s : Connections Swap) : Option (Connections Swap) :=
  match s.link name with
  | some { requests, serve := true, handling := some message, answers } => do
      let (taken, _) ← message.header.decode message.payload heap
      let action ← taken.action found
      let (memory, answer) ← s.memory.handle cfg host store action
      return { s with memory := memory }.setLink
        ⟨requests, message.header.serve, none, answers ++ answer.toList⟩ name
  | _ => none

/-- A thread of the CPU receives a packet on a dispatch connection.  The handlers return
`true`. -/
def receive (n : ℕ) (s : Connections Swap) : Option (Connections Swap) :=
  match s.dispatches[n]? with
  | some { packets := packet :: rest, serve := true } =>
      let s := { s with dispatches := s.dispatches.set n ⟨rest, true⟩ }
      match packet with
      | .pcbToCpu => some s
      | .answer answer =>
          some { s with
            received := answer.store s.received
            posts := fun wait => s.posts wait + if answer.posts = some wait then 1 else 0 }
  | _ => none

def step (cfg : MemoryConfig) (host : Host) (store : SwapStore Swap) :
    ConnectionAction → Connections Swap → Option (Connections Swap)
  | .handshakeHeader, s =>
      if s.handshake = .connected then some { s with handshake := .requested } else none
  | .cpuHandshake, s =>
      if s.handshake = .requested ∧ s.cpu.serve then
        some { s with
          handshake := .answered
          cpu := { s.cpu with serve := cpuHandshakeServe } }
      else none
  | .tableInfo, s =>
      if s.handshake = .answered then some { s with handshake := .done } else none
  | .accept, s =>
      -- `main` goes on to `server_listen` when the loop of the listener has ended
      if s.cpu.serve then none else some { s with peers := s.peers ++ [{}] }
  | .acceptDispatch, s =>
      if s.handshake = .done then some { s with dispatches := s.dispatches ++ [{}] } else none
  | .kernelRequest n message, s =>
      if message.ofKernel then
        (s.peers[n]?).map fun link =>
          { s with peers := s.peers.set n { link with requests := link.requests ++ [message] } }
      else none
  | .kernelReceive n, s =>
      (s.peers[n]?).map fun link =>
        { s with peers := s.peers.set n { link with answers := link.answers.tail } }
  | .pcbToCpu n, s =>
      (s.dispatches[n]?).map fun link =>
        { s with
          dispatches := s.dispatches.set n { link with packets := link.packets ++ [.pcbToCpu] } }
  | .read name, s => s.read name
  | .handle name heap found, s => s.handle cfg host store name heap found
  | .receive n, s => s.receive n
  | .mmu ptIndex fstLevelEntry, s =>
      if s.handshake = .done ∧ s.exec = .idle then
        some (s.request .waitingSecondTableNumber (.lvl1Table ptIndex fstLevelEntry))
      else none
  | .mmuSecond pid scdLevelEntry framesIndex, s =>
      if s.exec = .translating then
        some (s.request .waitingFrame
          (.lvl2Table pid s.received.tableTwoIndex scdLevelEntry framesIndex))
      else none
  | .readMem fisicDir, s =>
      if s.handshake = .done ∧ s.exec = .idle then
        some (s.request .waitingReadAnswer (.readCall fisicDir))
      else none
  | .writeMem fisicDir value, s =>
      if s.handshake = .done ∧ s.exec = .idle then
        some (s.request .waitingWriteAnswer (.writeCall fisicDir value))
      else none
  | .wake, s =>
      match s.exec with
      | .waiting wait _ =>
          if 0 < s.posts wait then
            some { s with
              posts := fun other => if other = wait then s.posts wait - 1 else s.posts other
              exec := if wait = .waitingSecondTableNumber then .translating else .idle }
          else none
      | _ => none

end Connections

/-- The CPU has connected to the memory module, which has just started. -/
def connections {Swap : Type} (cfg : MemoryConfig) (host : Host) (store : SwapStore Swap)
    (swap : Swap) : Machine (Connections Swap) ConnectionAction where
  initial := { memory := Memory.start cfg swap }
  step := Connections.step cfg host store

end SistemasOperativos
