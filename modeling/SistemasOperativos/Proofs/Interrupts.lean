import SistemasOperativos.Proofs.CpuContract
import SistemasOperativos.Proofs.Mutex

/-!
# Interrupts and their answers

Each caller of `put_to_ready` that waits on `interrupt_ready` has one interruption under way:
the header on the socket, the flag of the CPU, the preempted PCB on the dispatch socket,
`handle_interruption` at work on it, or the post of `interrupt_ready`.  Since a caller waits
with the mutex held, there is never more than one.
-/

open Tally

namespace SistemasOperativos

/-! ## Stages of an interruption -/

/-- `put_to_ready` waits on `interrupt_ready`. -/
def PutToReady.awaiting : PutToReady → ℕ
  | .await => 1
  | _ => 0

theorem PutToReady.awaiting_le_inside (state : PutToReady) : state.awaiting ≤ state.inside := by
  cases state <;> simp [awaiting, inside]

/-- The dispatch listener is inside `handle_interruption`. -/
def DispatchListener.interrupting : DispatchListener → ℕ
  | .interrupted _ | .interruptPush _ | .interruptPost | .interruptSignal | .interruptFree
  | .interruptReady => 1
  | _ => 0

/-- `cpu_cycle` has sent the preempted PCB and not yet reset the flag. -/
def Cycle.resetting : Cycle → Bool
  | .waitBussy .interruptDispatch | .reset => true
  | _ => false

/-- The number of preempted PCBs on the dispatch socket. -/
def preempted (fromCpu : List (KernelHeader × Job)) : ℕ :=
  tally Prod.fst .interruptDispatch fromCpu

namespace Cpu

variable {c c' : Cpu} {ports ports' : CpuPorts}

/-- The CPU has recorded an interruption and not yet sent a PCB for it. -/
def flagged (c : Cpu) : ℕ :=
  if c.newInterruption ∧ ¬ c.cycle.resetting then 1 else 0

/-- The flag stays set while `cpu_cycle` sends the preempted PCB. -/
def FlagKept (c : Cpu) : Prop :=
  c.cycle.holdsInterruption → c.newInterruption

/-- The interruptions on the way through the CPU. -/
def interruptions (c : Cpu) (ports : CpuPorts) : ℕ :=
  ports.interrupts + c.flagged + preempted ports.fromCpu

theorem receiveInterruption_interruptions (h : c.receiveInterruption ports = some (c', ports'))
    (hone : c.interruptions ports ≤ 1) :
    c'.interruptions ports' = c.interruptions ports ∧ c'.FlagKept := by
  unfold receiveInterruption at h
  split at h
  · cases h
  rename_i n hn
  split at h <;> cases h
  rename_i hfree
  refine ⟨?_, fun _ => rfl⟩
  have hresetting : c.cycle.resetting = false := by
    cases hat : c.cycle with
    | waitBussy header => cases header <;> simp_all [Cycle.holdsInterruption, Cycle.resetting]
    | reset => simp_all [Cycle.holdsInterruption]
    | _ => rfl
  simp only [interruptions, flagged, hn, hresetting] at hone ⊢
  split at hone <;> simp_all
  omega

theorem cpuCycle_interruptions (h : c.cpuCycle ports = some (c', ports')) (hc : c.FlagKept) :
    c'.interruptions ports' = c.interruptions ports ∧ c'.FlagKept := by
  unfold cpuCycle at h
  cases hat : c.cycle with
  | execute op params =>
      simp only [hat, Option.some.injEq, Prod.mk.injEq] at h
      obtain ⟨rfl, rfl⟩ := h
      unfold execute
      split
      all_goals simp [interruptions, flagged, FlagKept, hat, Cycle.resetting,
        Cycle.holdsInterruption]
  | send header =>
      simp only [hat, Option.some.injEq, Prod.mk.injEq] at h
      obtain ⟨rfl, rfl⟩ := h
      cases header
      all_goals simp_all [interruptions, flagged, FlagKept, preempted, one, Cycle.resetting,
        Cycle.holdsInterruption]
      omega
  | waitBussy header =>
      simp only [hat] at h
      cases header
      all_goals repeat' split at h
      all_goals cases h
      all_goals simp_all [interruptions, flagged, FlagKept, Cycle.resetting,
        Cycle.holdsInterruption]
  | _ =>
      simp only [hat] at h
      repeat' split at h
      all_goals cases h
      all_goals simp_all [interruptions, flagged, FlagKept, Cycle.resetting,
        Cycle.holdsInterruption]

theorem step_interruptions {action : CpuAction} (h : c.step ports action = some (c', ports'))
    (hone : c.interruptions ports ≤ 1) (hc : c.FlagKept) :
    c'.interruptions ports' = c.interruptions ports ∧ c'.FlagKept := by
  unfold step at h
  split at h
  · cases h
  cases action with
  | receivePcb =>
      simp only [receivePcb] at h
      repeat' split at h
      all_goals cases h
      all_goals exact ⟨rfl, hc⟩
  | receiveInterruption => exact receiveInterruption_interruptions h hone
  | cpuCycle => exact cpuCycle_interruptions h hc

end Cpu

namespace Kernel

variable {cfg : KernelConfig} {behaviour : MemoryBehaviour} {k k' : Kernel} {now : Word}
  {action : KernelAction}

/-- The interruptions under way in the kernel and on the sockets. -/
def interruptions (k : Kernel) : ℕ :=
  k.interrupts + preempted k.fromCpu + k.dispatchThread.interrupting + k.interruptReady

theorem step_interruptions (h : k.step cfg behaviour action = some k') :
    k'.interruptions + k.puts PutToReady.awaiting =
      k.interruptions + k'.puts PutToReady.awaiting := by
  have hstep := h
  have hwrites := step_writes h
  unfold step at h
  split at h
  · cases h
  cases action with
  | toReady =>
      simp only [toReady, putToReady] at h
      repeat' split at h
      all_goals cases h
      all_goals simp_all [interruptions, puts, ToReady.putting, PutToReady.awaiting]
      all_goals omega
  | ioListener now =>
      simp only [ioListener, putToReady] at h
      repeat' split at h
      all_goals cases h
      all_goals simp_all [interruptions, puts, IoListener.putting, PutToReady.awaiting]
      all_goals omega
  | dispatchListener now =>
      simp only [dispatchListener] at h
      repeat' split at h
      all_goals cases h
      all_goals simp_all [interruptions, puts, DispatchListener.interrupting, preempted, one]
      all_goals omega
  | _ =>
      rw [step_puts hstep (by simp) (by simp), hwrites.fields]
      rfl

end Kernel

/-! ## The interruptions of the system -/

namespace System

variable {cfg : KernelConfig} {behaviour : MemoryBehaviour} {s s' : System} {action : Action}

/-- Each caller of `put_to_ready` that waits on `interrupt_ready` has one interruption under
way. -/
structure InterruptionsMatched (s : System) : Prop where
  exclusive : s.kernel.Exclusive
  flagKept : s.cpu.FlagKept
  matched : s.kernel.interruptions + s.cpu.flagged = s.kernel.puts PutToReady.awaiting

/-- At most one interruption is under way. -/
theorem InterruptionsMatched.le_one (hs : s.InterruptionsMatched) :
    s.kernel.interruptions + s.cpu.flagged + s.kernel.toExecThread.inside ≤ 1 := by
  have hle := Kernel.puts_le PutToReady.awaiting_le_inside s.kernel
  have hone := hs.exclusive.le_one
  have hmatched := hs.matched
  omega

theorem step_interruptionsMatched (h : s.step cfg behaviour action = some s')
    (hs : s.InterruptionsMatched) : s'.InterruptionsMatched := by
  have hone := hs.le_one
  obtain ⟨hexclusive, hflag, hmatched⟩ := hs
  rcases step_cases h with ⟨action, k, rfl, hk, rfl⟩ | ⟨action, c, ports, rfl, hcpu, rfl⟩
  · have := Kernel.step_interruptions hk
    refine ⟨Kernel.step_exclusive hk hexclusive, hflag, ?_⟩
    simp only
    omega
  · have hports : s.cpu.interruptions s.kernel.ports ≤ 1 := by
      simp only [Kernel.interruptions, Cpu.interruptions, Kernel.ports] at hone ⊢
      omega
    obtain ⟨hkept, hflag'⟩ := Cpu.step_interruptions hcpu hports hflag
    refine ⟨hexclusive, hflag', ?_⟩
    simp only [Cpu.interruptions, Kernel.interruptions, Kernel.ports, Kernel.withPorts,
      Kernel.puts] at hkept hmatched ⊢
    omega

theorem interruptionsMatched_of_reachable (hs : (system cfg behaviour).Reachable s) :
    s.InterruptionsMatched :=
  hs.invariant (⟨Kernel.start_exclusive cfg, nofun, rfl⟩ :
    InterruptionsMatched ⟨Kernel.start cfg, {}⟩) fun _ _ _ _ hs h => step_interruptionsMatched h hs

end System

/-! ## FIFO never interrupts -/

/-- `put_to_ready` is in the branch that replans. -/
def PutToReady.replanning : PutToReady → ℕ
  | .test | .interrupt | .await | .sort => 1
  | _ => 0

theorem PutToReady.awaiting_le_replanning (state : PutToReady) :
    state.awaiting ≤ state.replanning := by
  cases state <;> simp [awaiting, replanning]

theorem Kernel.step_not_replanning {cfg : KernelConfig} {behaviour : MemoryBehaviour}
    {k k' : Kernel} {action : KernelAction} (hfifo : cfg.sortingAlgorithm = .fifo)
    (h : k.step cfg behaviour action = some k') (hk : k.puts PutToReady.replanning = 0) :
    k'.puts PutToReady.replanning = 0 := by
  have hstep := h
  unfold step at h
  split at h
  · cases h
  cases action with
  | toReady =>
      simp only [toReady, putToReady, hfifo] at h
      repeat' split at h
      all_goals cases h
      all_goals simp_all [puts, ToReady.putting, PutToReady.replanning]
  | ioListener now =>
      simp only [ioListener, putToReady, hfifo] at h
      repeat' split at h
      all_goals cases h
      all_goals simp_all [puts, IoListener.putting, PutToReady.replanning]
  | _ => rw [step_puts hstep (by simp) (by simp), hk]

namespace System

variable {cfg : KernelConfig} {behaviour : MemoryBehaviour} {s s' : System} {action : Action}

theorem not_replanning_of_reachable (hfifo : cfg.sortingAlgorithm = .fifo)
    (hs : (system cfg behaviour).Reachable s) : s.kernel.puts PutToReady.replanning = 0 := by
  refine hs.invariant ?initial ?step
  case initial => rfl
  case step =>
    intro action s s' _ hs h
    rcases step_cases h with ⟨action, k, rfl, hstep, rfl⟩ | ⟨action, c, ports, rfl, -, rfl⟩
    · exact Kernel.step_not_replanning hfifo hstep hs
    · exact hs

/-- Under FIFO nobody waits on `interrupt_ready`. -/
theorem awaiting_eq_zero (hfifo : cfg.sortingAlgorithm = .fifo)
    (hs : (system cfg behaviour).Reachable s) : s.kernel.puts PutToReady.awaiting = 0 := by
  have hreplanning := not_replanning_of_reachable hfifo hs
  have hle := Kernel.puts_le PutToReady.awaiting_le_replanning s.kernel
  omega

/-- Under FIFO no interruption is ever under way. -/
theorem interruptions_eq_zero (hfifo : cfg.sortingAlgorithm = .fifo)
    (hs : (system cfg behaviour).Reachable s) :
    s.kernel.interruptions = 0 ∧ s.cpu.flagged = 0 := by
  have hawaiting := awaiting_eq_zero hfifo hs
  have hmatched := (interruptionsMatched_of_reachable hs).matched
  omega

/-- Under FIFO every run is one of the kernel beside a CPU that keeps the contract. -/
theorem reachableBy_interruptsHeld (hfifo : cfg.sortingAlgorithm = .fifo)
    (hs : (system cfg behaviour).Reachable s) :
    (system cfg behaviour).ReachableBy InterruptsHeld s := by
  refine hs.guarded fun action s _ hs _ _ hat hnew => ?_
  have hflagged := (interruptions_eq_zero hfifo hs).2
  simp [Cpu.flagged, hat, hnew, Cycle.resetting] at hflagged

end System
end SistemasOperativos
