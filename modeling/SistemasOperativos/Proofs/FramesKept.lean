import SistemasOperativos.Proofs.FrameGrants
import SistemasOperativos.Proofs.FrameLists
import SistemasOperativos.Proofs.OnePlace
import SistemasOperativos.Proofs.Suspensions

/-!
# The frames of a dispatched process

A frame list is filled when it is made and emptied by the suspension or the exit of its process.
Nothing fills it again, so a process has its frames when it is dispatched as long as no process
comes back from a suspension.
-/

namespace SistemasOperativos

namespace Kernel

variable {k : Kernel} {grants : List Grant}

theorem Tabled.append (more : List Grant) (hk : k.Tabled grants) : k.Tabled (grants ++ more) :=
  tabled_iff.mpr ((tabled_iff.mp hk).imp fun _ => grantee_append more)

theorem Tabled.withPorts {ports : CpuPorts} (hk : k.Tabled grants)
    (hports : Cpu.PortsGranted grants ports) : (k.withPorts ports).Tabled grants :=
  tabled_iff.mpr ((tabled_iff.mp hk).withPorts hports.1 hports.2)

end Kernel

namespace Whole

variable {Swap : Type} {cfg : KernelConfig} {memoryCfg : MemoryConfig} {host : Host}
  {store : SwapStore Swap} {swap : Swap} {s s' : Whole Swap} {action : WholeAction}

/-- `suspended_to_ready` takes no process from `suspended_ready_q`; the CPU finds an interruption
only with a PCB to give back; and the index of a new frame list fits its field. -/
def NoneReturns (action : WholeAction) (s : Whole Swap) : Prop :=
  match action with
  | .system (.kernel .toReady) => s.system.kernel.toReadyThread ≠ .popSuspended
  | .system (.cpu .cpuCycle) => s.system.cpu.InterruptsHeld
  | .serve => s.memory.processesFrames.length < 2 ^ 32
  | _ => True

instance (action : WholeAction) (s : Whole Swap) : Decidable (NoneReturns action s) := by
  unfold NoneReturns
  split <;> infer_instance

/-- The frame lists of processes that have not given them up are full, and PCBs, requests and
replies name the lists of their own processes. -/
structure Kept (s : Whole Swap) : Prop where
  aligned : s.grants.length = s.memory.processesFrames.length
  full : ∀ k grant, s.grants[k]? = some grant → grant.serial ∉ s.system.kernel.retired →
    s.memory.Full k grant.frames
  tabled : s.system.kernel.Tabled s.grants
  held : ∀ job ∈ s.system.cpu.held, job.Granted s.grants
  promises : s.system.kernel.Promises s.grants
  releases : s.system.kernel.Releases s.grants

/-! ## The system inside -/

/-- A thread of the kernel or the CPU leaves the memory module alone. -/
theorem systemStep_elim {systemAction : Action}
    (h : step cfg memoryCfg host store (.system systemAction) s = some s') :
    (∀ reply, systemAction ≠ .kernel (.memory reply)) ∧
      ∃ system, s.system.step cfg inOrder systemAction = some system ∧
        s' = { s with system := system } := by
  have hmemory : ∀ reply, systemAction ≠ .kernel (.memory reply) := by
    rintro reply rfl
    cases h
  have hsystem : (s.system.step cfg inOrder systemAction).map
      (fun system => { s with system := system }) = some s' := by
    rw [← h, step]
    exact fun reply heq => hmemory reply heq
  obtain ⟨system, hstep, rfl⟩ := Option.map_eq_some_iff.1 hsystem
  exact ⟨hmemory, system, hstep, rfl⟩

/-- The kernel after the memory module has served a request. -/
def served (k : Kernel) (rest : List Request) (reply : Reply) : Kernel :=
  { k with toMemory := rest, fromMemory := k.fromMemory ++ [reply] }

/-- What the service of a request does. -/
theorem serve_elim (h : s.serve cfg memoryCfg host store = some s') :
    ∃ request rest memory answer reply,
      (s.system.kernel.toMemory.dropWhile (fun request => request.pid = 0) = request :: rest ∧
        request ∈ s.system.kernel.toMemory ∧ rest ⊆ s.system.kernel.toMemory ∧
        request.pid ≠ 0 ∧ request.answeredBy reply = true) ∧
      s.memory.handle memoryCfg host store request.action = some (memory, some answer) ∧
      request.reply answer = some reply ∧
      s.system.step cfg inOrder (.kernel (.memory reply)) = some s'.system ∧
      s' = ⟨⟨served s.system.kernel rest reply, s.system.cpu⟩, memory,
        s.grants ++ newGrants s.memory memory request⟩ := by
  unfold serve at h
  split at h
  · cases h
  rename_i request rest hrequests
  simp only [Option.bind_eq_bind, Option.bind_eq_some_iff, Option.pure_def, Option.some.injEq] at h
  obtain ⟨⟨memory, answer⟩, hhandle, reply, ⟨answer', hanswer, hreply⟩, system, hsystem, rfl⟩ := h
  obtain rfl : answer = some answer' := hanswer
  have hsub : ∀ other ∈ request :: rest, other ∈ s.system.kernel.toMemory := fun other hmem =>
    (List.dropWhile_sublist _).subset (hrequests ▸ hmem)
  have hpid := pid_of_dropWhile hrequests
  refine ⟨request, rest, memory, answer', reply, ⟨hrequests, hsub request List.mem_cons_self,
    fun other hmem => hsub other (List.mem_cons_of_mem _ hmem), hpid,
    answeredBy_of_handle hpid hhandle hreply⟩, hhandle, hreply, hsystem, ?_⟩
  have horder := inOrder_reply hrequests hhandle hreply
  simp only [System.step, Kernel.step, Kernel.memoryReplies, horder] at hsystem
  split at hsystem
  · cases hsystem
  rename_i k hk
  cases hsystem
  split at hk <;> cases hk
  rfl

/-- The runs of the system inside, under a guard that the memory module does not meet with. -/
theorem reachableBy_system {guard : WholeAction → Whole Swap → Prop}
    {guard' : Action → System → Prop}
    (hguard : ∀ action s, guard (.system action) s → guard' action s.system)
    (hmemory : ∀ reply t, guard' (.kernel (.memory reply)) t)
    (hs : (whole cfg memoryCfg host store swap).ReachableBy guard s) :
    (SistemasOperativos.system cfg inOrder).ReachableBy guard' s.system := by
  refine hs.invariant .initial fun action s s' hmeets hs h => ?_
  cases action with
  | system systemAction =>
      obtain ⟨-, system, hsystem, rfl⟩ := systemStep_elim h
      exact .step hs (hguard systemAction s hmeets) hsystem
  | serve =>
      obtain ⟨_, _, _, _, reply, -, -, -, hsystem, -⟩ := serve_elim h
      exact .step hs (hmemory reply _) hsystem
  | access memoryAction =>
      obtain ⟨-, h⟩ := Option.ite_none_right_eq_some.1 h
      obtain ⟨result, -, rfl⟩ := Option.map_eq_some_iff.1 h
      exact hs

theorem system_reachable (hs : (whole cfg memoryCfg host store swap).ReachableBy NoneReturns s) :
    (SistemasOperativos.system cfg inOrder).ReachableBy System.InterruptsHeld s.system := by
  refine reachableBy_system ?_ (fun reply t heq => nomatch heq) hs
  rintro action s hguard rfl
  exact hguard

/-! ## Steps of the kernel and the CPU -/

theorem newGrants_of_sameBut {memory : Memory Swap} {request : Request} {k : ℕ}
    (h : Memory.SameBut k s.memory memory) : newGrants s.memory memory request = [] := by
  have hlength := h.length
  simp only [Memory.frameNumbers, List.length_map] at hlength
  rw [newGrants, List.drop_eq_nil_of_le (Nat.le_of_eq hlength), List.map_nil]

theorem kept_initial : Kept (whole cfg memoryCfg host store swap).initial where
  aligned := rfl
  full _ _ h := nomatch h
  tabled := by constructor <;> exact fun _ h => nomatch h
  held _ h := nomatch h
  promises := ⟨fun _ h => (nomatch h), fun _ h => nomatch h⟩
  releases _ h := nomatch h

theorem tracked_reachable (hs : (whole cfg memoryCfg host store swap).Reachable s) :
    s.memory.Tracked memoryCfg := by
  refine hs.invariant (Memory.start_tracked swap) fun action s s' _ hs h => ?_
  cases action with
  | system systemAction =>
      obtain ⟨-, system, -, rfl⟩ := systemStep_elim h
      exact hs
  | serve =>
      obtain ⟨request, rest, memory, answer, reply, -, hhandle, -, -, rfl⟩ := serve_elim h
      exact Memory.handle_tracked hhandle hs
  | access memoryAction =>
      obtain ⟨-, h⟩ := Option.ite_none_right_eq_some.1 h
      obtain ⟨⟨memory, answer⟩, hhandle, rfl⟩ := Option.map_eq_some_iff.1 h
      exact Memory.handle_tracked hhandle hs

/-- The three programs with small parameters and one frame for each process. -/
def small : Machine (Whole (Word → ℕ → Bytes)) WholeAction :=
  whole (.small .fifo) (.small 1) .direct (pageStore (.small 1)) fun _ _ => []

/-- Actions of the kernel, the CPU and the programs. -/
def onSystem (actions : List Action) : List WholeAction := actions.map .system

/-- A process with an I/O longer than it may stay blocked is about to be dispatched. -/
def firstDispatch : List WholeAction :=
  onSystem (onKernel (admission 0 7 System.longIoProgram ++ List.replicate 9 .toReady)) ++
    [.serve] ++ onSystem (onKernel (List.replicate 7 (.memoryListener default) ++
      List.replicate 6 .toReady ++ List.replicate 5 (.toExec 0)))

/-- It executes its I/O and is suspended, and comes back to be dispatched again. -/
def secondDispatch : List WholeAction :=
  firstDispatch ++ onSystem (onKernel (List.replicate 3 (.toExec 0)) ++
    List.replicate 3 (.cpu .receivePcb) ++ onCycle 7 ++
    onKernel (List.replicate 6 (.dispatchListener 0) ++
      List.replicate 6 (.ioListener 0))) ++
  [.serve] ++ onSystem (onKernel (List.replicate 2 (.memoryListener default) ++
    List.replicate 12 (.ioListener 0) ++ List.replicate 10 .toReady ++
    List.replicate 5 (.toExec 0)))

end Whole
end SistemasOperativos
