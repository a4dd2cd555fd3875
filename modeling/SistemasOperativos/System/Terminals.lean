import SistemasOperativos.Console.Main
import SistemasOperativos.Shared.Readers
import SistemasOperativos.System.Composition

/-!
# The consoles beside the system

Each console has a connection to the kernel, and the kernel a thread that serves it
(`packet_handler`).  A console sends its packet as `send` accepts it, and ends at any time: with
the header it waits for, or before.  The thread receives what has been sent, cut as `recv` delivers
it, and waits for what is missing as long as the console has not ended.
-/

namespace SistemasOperativos

/-- A console and its connection. -/
structure Terminal where
  host : ConsoleHost
  argv : List CString
  /-- What `socket_send_packet` has still to send. -/
  unsent : Bytes
  /-- What has been sent and not received. -/
  inFlight : Bytes := []
  /-- The console has ended. -/
  closed : Bool := false
  /-- The thread that serves the connection, between two calls for a packet. -/
  reader : PacketReader := { arrivals := [] }

/-- The file of the program. -/
def Terminal.file (terminal : Terminal) : Bytes :=
  ((terminal.argv[1]?).bind terminal.host.openFile).getD []

/-- The program in the file, and the size given. -/
def Terminal.process (terminal : Terminal) : Process :=
  ⟨atoi ((terminal.argv[2]?).getD []), getCode terminal.file⟩

def Terminal.start (terminal : Terminal) : ConsoleStart :=
  consoleMain terminal.host terminal.argv

structure Terminals where
  system : System
  /-- In the order in which the kernel has accepted them. -/
  links : List Terminal := []
  /-- For each process the connection it has come on.  History only. -/
  origins : List ℕ := []
  /-- A packet had another header, or `stream_take_process` has read past it.  History only. -/
  strayed : Bool := false

/-- The steps of the consoles and their connections, and those of the system. -/
inductive TerminalAction
  | connect (host : ConsoleHost) (argv : List CString) (socket : Word)
  | send (i n : ℕ)
  | close (i : ℕ)
  | receive (i : ℕ) (garbage : UInt8) (arrivals : List (Arrival UInt8)) (blank : Pcb)
  | system (action : Action)

namespace Terminals

/-- A console connects, and `server_listen` accepts it. -/
def connect (cfg : KernelConfig) (behaviour : MemoryBehaviour) (host : ConsoleHost)
    (argv : List CString) (socket : Word) (s : Terminals) : Option Terminals :=
  match consoleMain host argv with
  | .unconnected => none
  | start => do
      let system ← s.system.step cfg behaviour (.kernel (.consoleAccept socket))
      return { s with
        system := system
        links := s.links ++ [{ host := host, argv := argv, unsent := start.bytes }] }

/-- `send` accepts `n + 1` bytes, or what there is. -/
def send (i n : ℕ) (s : Terminals) : Option Terminals :=
  match s.links[i]? with
  | none => none
  | some terminal =>
      if terminal.closed ∨ terminal.unsent = [] then none
      else
        some { s with
          links := s.links.set i { terminal with
            unsent := terminal.unsent.drop (n + 1)
            inFlight := terminal.inFlight ++ terminal.unsent.take (n + 1) } }

/-- The console ends. -/
def close (i : ℕ) (s : Terminals) : Option Terminals :=
  match s.links[i]? with
  | none => none
  | some terminal =>
      if terminal.closed then none
      else some { s with links := s.links.set i { terminal with closed := true } }

/-- `kernel_handlers[packet->header](packet, client_socket)` in console thread `i`. -/
def handle (cfg : KernelConfig) (behaviour : MemoryBehaviour) (i : ℕ) (packet : Packet)
    (blank : Pcb) (s : Terminals) : Option Terminals :=
  if packet.header = newProcess then
    match streamTakeProcess ⟨packet.payload.stream, packet.payload.offset.toNat⟩ with
    | none => some { s with strayed := true }
    | some (process, _) => do
        let system ← s.system.step cfg behaviour
          (.kernel (.consoleReceive i process.size process.instructions blank))
        return { s with system := system, origins := s.origins ++ [i] }
  else some { s with strayed := true }

/-- Console thread `i` calls `socket_receive_packet`, which finds what is in flight cut into
`arrivals`, and handles the packet. -/
def receive (cfg : KernelConfig) (behaviour : MemoryBehaviour) (i : ℕ) (garbage : UInt8)
    (arrivals : List (Arrival UInt8)) (blank : Pcb) (s : Terminals) : Option Terminals :=
  match s.links[i]?, s.system.kernel.consoles[i]? with
  | some terminal, some (_, .idle) =>
      if .failure ∉ arrivals ∧ Arrival.stream arrivals = terminal.inFlight ∧
          ¬ s.system.kernel.crashed then do
        -- `receive_process` returns `true`
        let reader ← PacketReader.step ⟨garbage, true⟩ { terminal.reader with arrivals := arrivals }
        let s := { s with
          links := s.links.set i { terminal with
            reader := reader
            inFlight := Arrival.stream reader.arrivals } }
        match (socketReceivePacket garbage arrivals).1 with
        | some packet => s.handle cfg behaviour i packet blank
        | none =>
            -- `recv` waits as long as the other end is open
            if terminal.closed then some s else none
      else none
  | _, _ => none

def step (cfg : KernelConfig) (behaviour : MemoryBehaviour) :
    TerminalAction → Terminals → Option Terminals
  | .connect host argv socket, s => s.connect cfg behaviour host argv socket
  | .send i n, s => s.send i n
  | .close i, s => s.close i
  | .receive i garbage arrivals blank, s => s.receive cfg behaviour i garbage arrivals blank
  | .system action, s =>
      if action.ofConsole then none
      else (s.system.step cfg behaviour action).map fun system => { s with system := system }

end Terminals

/-- The system, started, with no console connected. -/
def terminals (cfg : KernelConfig) (behaviour : MemoryBehaviour) :
    Machine Terminals TerminalAction where
  initial := ⟨(system cfg behaviour).initial, [], [], false⟩
  step := Terminals.step cfg behaviour

end SistemasOperativos
