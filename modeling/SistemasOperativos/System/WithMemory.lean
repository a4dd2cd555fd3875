import SistemasOperativos.Memory.Handlers
import SistemasOperativos.System.Composition

/-!
# Kernel, CPU and memory module together

`Whole` composes the system with the memory module as coded: the replies the kernel receives are
those that the handlers of its requests send.  The requests of the CPU come at any time, whatever
they are.
-/

namespace SistemasOperativos

/-! ## Requests of the kernel -/

/-- The request the handler carries out. -/
def Request.action : Request → MemoryAction
  | .processNew _ pid size => .processNew pid size
  | .processSuspend _ pid pageTable processFramesIndex =>
      .processSuspend pid pageTable processFramesIndex
  | .processExit _ pid pageTable processFramesIndex =>
      .processExit pid pageTable processFramesIndex

/-- The packet of a handler as the kernel receives it. -/
def Request.reply (request : Request) : MemoryAnswer → Option Reply
  | .processMemoryReady pid pt1Index processFramesIndex =>
      some (.processMemoryReady pid pt1Index processFramesIndex)
  | .processSuspensionReady => some .processSuspensionReady
  | .processExitReady pid => some (.processExitReady request.serial pid)
  | _ => none

/-- The requests of the CPU. -/
def MemoryAction.ofCpu : MemoryAction → Bool
  | .accessLvl1Table .. | .accessLvl2Table .. | .memoryRead _ | .memoryWrite .. => true
  | _ => false

/-! ## State -/

/-- For whom a frame list was made, and the number of frames it was given.  History only. -/
structure Grant where
  serial : ℕ
  frames : ℕ
deriving DecidableEq, Repr

structure Whole (Swap : Type) where
  system : System
  memory : Memory Swap
  /-- One for each frame list.  History only. -/
  grants : List Grant := []

/-- A thread of the kernel or the CPU moves, or the memory module serves a request of the kernel
or of the CPU. -/
inductive WholeAction
  | system (action : Action)
  | serve
  | access (action : MemoryAction)

namespace Whole

variable {Swap : Type}

/-- The grants of the frame lists that `memory` has more than before. -/
def newGrants (before memory : Memory Swap) (request : Request) : List Grant :=
  (memory.processesFrames.drop before.processesFrames.length).map fun process =>
    ⟨request.serial, process.frames.countP FrameEntry.assigned⟩

/-- The memory module serves the next request of the kernel.  Those for pid 0, which have no
reply and no effect, are dropped with it. -/
def serve (cfg : KernelConfig) (memoryCfg : MemoryConfig) (host : Host) (store : SwapStore Swap)
    (s : Whole Swap) : Option (Whole Swap) :=
  match s.system.kernel.toMemory.dropWhile fun request => request.pid = 0 with
  | [] => none
  | request :: _ => do
      let (memory, answer) ← s.memory.handle memoryCfg host store request.action
      let reply ← answer >>= request.reply
      let system ← s.system.step cfg inOrder (.kernel (.memory reply))
      return ⟨system, memory, s.grants ++ newGrants s.memory memory request⟩

def step (cfg : KernelConfig) (memoryCfg : MemoryConfig) (host : Host) (store : SwapStore Swap) :
    WholeAction → Whole Swap → Option (Whole Swap)
  | .system (.kernel (.memory _)), _ => none
  | .system action, s =>
      (s.system.step cfg inOrder action).map fun system => { s with system := system }
  | .serve, s => s.serve cfg memoryCfg host store
  | .access action, s =>
      if action.ofCpu then
        (s.memory.handle memoryCfg host store action).map fun result =>
          { s with memory := result.1 }
      else none

end Whole

/-- The three programs, started. -/
def whole {Swap : Type} (cfg : KernelConfig) (memoryCfg : MemoryConfig) (host : Host)
    (store : SwapStore Swap) (swap : Swap) : Machine (Whole Swap) WholeAction where
  initial := ⟨(system cfg inOrder).initial, Memory.start memoryCfg swap, []⟩
  step := Whole.step cfg memoryCfg host store

namespace Whole

variable {Swap : Type} {cfg : KernelConfig} {memoryCfg : MemoryConfig} {host : Host}
  {store : SwapStore Swap} {swap : Swap} {s s' : Whole Swap}

/-! ## Service -/

/-- `inOrder` drops the requests for pid 0. -/
theorem inOrder_dropWhile (requests : List Request) (reply : Reply) :
    inOrder requests reply = inOrder (requests.dropWhile fun request => request.pid = 0) reply := by
  induction requests with
  | nil => rfl
  | cons request requests ih =>
      by_cases hpid : request.pid = 0
      · rw [inOrder, if_pos hpid, List.dropWhile_cons_of_pos (by simpa using hpid), ih]
      · rw [List.dropWhile_cons_of_neg (by simpa using hpid)]

/-- What a handler sends is a reply to its request. -/
theorem answeredBy_of_handle {m m' : Memory Swap} {request : Request} {answer : MemoryAnswer}
    {reply : Reply} (hpid : request.pid ≠ 0)
    (h : m.handle memoryCfg host store request.action = some (m', some answer))
    (hreply : request.reply answer = some reply) : request.answeredBy reply = true := by
  cases request with
  | processNew serial pid size =>
      simp only [Request.pid] at hpid
      simp only [Request.action, Memory.handle, Memory.processNew, if_neg hpid,
        Option.some.injEq, Prod.mk.injEq] at h
      obtain ⟨-, rfl⟩ := h
      cases hreply
      simp [Request.answeredBy]
  | processSuspend serial pid pageTable processFramesIndex =>
      simp only [Request.pid] at hpid
      simp only [Request.action, Memory.handle, Memory.processSuspend, if_neg hpid] at h
      split at h
      · cases h
      · obtain ⟨_, -, heq⟩ := Option.map_eq_some_iff.1 h
        cases heq
        cases hreply
        rfl
  | processExit serial pid pageTable processFramesIndex =>
      simp only [Request.pid] at hpid
      simp only [Request.action, Memory.handle, Memory.processExit, if_neg hpid] at h
      obtain ⟨_, -, heq⟩ := Option.map_eq_some_iff.1 h
      cases heq
      cases hreply
      simp [Request.answeredBy, Request.serial]

theorem pid_of_dropWhile {requests rest : List Request} {request : Request}
    (h : (requests.dropWhile fun request => request.pid = 0) = request :: rest) :
    request.pid ≠ 0 := by
  have := List.head?_dropWhile_not (fun request : Request => decide (request.pid = 0)) requests
  rw [h] at this
  simpa using this

/-- The service of a request is a step of the system whose memory module serves in order. -/
theorem inOrder_reply {m m' : Memory Swap} {requests rest : List Request} {request : Request}
    {answer : MemoryAnswer} {reply : Reply}
    (hrequests : (requests.dropWhile fun request => request.pid = 0) = request :: rest)
    (h : m.handle memoryCfg host store request.action = some (m', some answer))
    (hreply : request.reply answer = some reply) : inOrder requests reply = some rest := by
  have hpid := pid_of_dropWhile hrequests
  rw [inOrder_dropWhile, hrequests, inOrder, if_neg hpid,
    if_pos (answeredBy_of_handle hpid h hreply)]

end Whole
end SistemasOperativos
