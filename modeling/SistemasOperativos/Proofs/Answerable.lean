import SistemasOperativos.Proofs.Dispatch
import SistemasOperativos.Proofs.Interrupts

/-!
# Interrupts the CPU can answer

`put_to_ready` decides to interrupt on `cpu_free`, and then waits on `interrupt_ready` with the
mutex held.  The wait ends only if the CPU finds the interruption while it has a PCB.  That
is so as long as `cpu_free` is zero because of a PCB at the CPU or on its way there, and
`cpu_cycle` takes no other way out of its loop while the interruption is outstanding.
-/

open Tally

namespace SistemasOperativos

/-- `put_to_ready` has decided to interrupt and not yet sent the header. -/
def PutToReady.deciding : PutToReady → ℕ
  | .interrupt => 1
  | _ => 0

theorem PutToReady.deciding_add_awaiting_le_inside (state : PutToReady) :
    state.deciding + state.awaiting ≤ state.inside := by
  cases state <;> simp [deciding, awaiting, inside]

/-! ## The CPU -/

namespace Cpu

variable {c c' : Cpu} {ports ports' : CpuPorts} {action : CpuAction}

/-- A PCB has been received, and `cpu_cycle` will come to it or is at work on it. -/
def engaged (c : Cpu) : Prop :=
  c.receiver ≠ .idle ∨ 0 < c.pcbLoaded ∨ c.cycle = .postBussy ∨
    (c.cycle ≠ .waitLoaded ∧ c.cycle.answered < c.cpuBussy)

/-- The CPU has a PCB or will receive one, and can send it back. -/
structure CanAnswer (c : Cpu) (ports : CpuPorts) : Prop where
  running : c.crashed = false
  bussy : c.cycle.answered ≤ c.cpuBussy
  pcb : ports.toCpu ≠ [] ∨ c.engaged

/-- The next step of `cpu_cycle` ends its work on the PCB other than by an interruption: it
sends the PCB back under another header, comes to the end of the program, or fails in an
instruction. -/
def Drops (c : Cpu) : Prop :=
  match c.cycle with
  | .send header => header ≠ .interruptDispatch
  | .loop => 0 < c.cpuBussy ∧ ¬ c.pcb.pcb.hasNext
  | .execute op params => (c.execute op params).crashed
  | _ => False

instance (c : Cpu) : Decidable c.engaged :=
  inferInstanceAs (Decidable (_ ∨ _))

instance (c : Cpu) (ports : CpuPorts) : Decidable (c.CanAnswer ports) :=
  decidable_of_iff (c.crashed = false ∧ c.cycle.answered ≤ c.cpuBussy ∧
      (ports.toCpu ≠ [] ∨ c.engaged))
    ⟨fun ⟨running, bussy, pcb⟩ => ⟨running, bussy, pcb⟩,
      fun ⟨running, bussy, pcb⟩ => ⟨running, bussy, pcb⟩⟩

instance (c : Cpu) : Decidable c.Drops := by
  unfold Drops
  split <;> infer_instance

/-- An engaged CPU holds a PCB. -/
theorem held_ne_nil_of_engaged (hc : c.engaged) : c.held ≠ [] := by
  have hstored : 0 < c.stored → c.held ≠ [] := by
    intro hpos hnil
    have hlength := congrArg List.length hnil
    simp only [held, List.length_append, List.length_replicate, List.length_nil] at hlength
    omega
  rcases hc with hreceiver | hloaded | hposting | ⟨-, hbussy⟩
  · cases hat : c.receiver with
    | idle => exact absurd hat hreceiver
    | load job => simp [held, hat, Receiver.loading]
    | post => exact hstored (by simp only [stored, hat, Receiver.posting]; omega)
  · exact hstored (by simp only [stored]; omega)
  · exact hstored (by simp only [stored, hposting, Cycle.starting]; omega)
  · exact hstored (by simp only [stored]; omega)

theorem receivePcb_canAnswer (h : c.receivePcb ports = some (c', ports'))
    (hc : c.CanAnswer ports) : c'.CanAnswer ports' := by
  obtain ⟨hrunning, hbussy, -⟩ := hc
  unfold receivePcb at h
  repeat' split at h
  all_goals cases h
  all_goals exact ⟨hrunning, hbussy, .inr (by simp [engaged])⟩

/-- `cpu_cycle` stays able to answer unless it drops its PCB or answers. -/
theorem cpuCycle_canAnswer (h : c.cpuCycle ports = some (c', ports')) (hdrops : ¬ c.Drops)
    (hanswers : c.cycle ≠ .send .interruptDispatch) (hc : c.CanAnswer ports) :
    c'.CanAnswer ports' := by
  obtain ⟨hrunning, hbussy, hpcb⟩ := hc
  unfold cpuCycle at h
  cases hat : c.cycle with
  | waitLoaded =>
      simp only [hat] at h
      split at h <;> cases h
      exact ⟨hrunning, Nat.zero_le _, .inr (by simp [engaged])⟩
  | postBussy =>
      simp only [hat, Option.some.injEq, Prod.mk.injEq] at h
      obtain ⟨rfl, rfl⟩ := h
      exact ⟨hrunning, Nat.zero_le _, .inr (by simp [engaged, Cycle.answered])⟩
  | loop =>
      simp only [hat] at h
      split at h <;> cases h
      · exact ⟨hrunning, Nat.zero_le _, by simp_all [engaged, Cycle.answered]⟩
      · -- the loop ends with no PCB to give back
        have hzero : c.cpuBussy = 0 := by
          simp only [Drops, hat] at hdrops
          grind
        exact ⟨hrunning, Nat.zero_le _, by simp_all [engaged, Cycle.answered]⟩
  | execute op params =>
      simp only [hat, Option.some.injEq, Prod.mk.injEq] at h
      obtain ⟨rfl, rfl⟩ := h
      simp only [Drops, hat] at hdrops
      revert hdrops
      unfold execute
      split
      all_goals intro hdrops
      all_goals first
        | exact absurd rfl hdrops
        | exact ⟨hrunning, Nat.zero_le _, by simp_all [engaged, Cycle.answered]⟩
  | send header => cases header <;> simp_all [Drops]
  | _ =>
      simp only [hat] at h
      repeat' split at h
      all_goals cases h
      all_goals refine ⟨hrunning, Nat.zero_le _, ?_⟩
      all_goals simp_all [engaged, Cycle.answered]

/-- The interruptions sent and not yet answered. -/
def unanswered (c : Cpu) (ports : CpuPorts) : ℕ :=
  ports.interrupts + c.flagged

theorem step_unanswered (h : c.step ports action = some (c', ports')) :
    c'.unanswered ports' ≤ c.unanswered ports := by
  unfold step at h
  split at h
  · cases h
  cases action with
  | cpuCycle =>
      simp only [cpuCycle] at h
      cases hat : c.cycle with
      | execute op params =>
          simp only [hat, Option.some.injEq, Prod.mk.injEq] at h
          obtain ⟨rfl, rfl⟩ := h
          unfold execute
          split <;> simp [unanswered, flagged, hat, Cycle.resetting]
      | _ =>
          simp only [hat] at h
          repeat' split at h
          all_goals cases h
          all_goals simp [unanswered, flagged, hat, Cycle.resetting]
          all_goals grind
  | receiveInterruption =>
      simp only [receiveInterruption] at h
      repeat' split at h
      all_goals cases h
      simp only [unanswered, flagged]
      repeat' split
      all_goals simp_all
  | receivePcb =>
      simp only [receivePcb] at h
      repeat' split at h
      all_goals cases h
      all_goals exact Nat.le_refl _

end Cpu

/-! ## The kernel -/

namespace Kernel

variable {cfg : KernelConfig} {behaviour : MemoryBehaviour} {k k' : Kernel}
  {action : KernelAction}

/-- The step is the one in which `put_to_ready` finds `cpu_free` zero, and so decides to
interrupt. -/
def Decides (k : Kernel) : KernelAction → Prop
  | .toReady => k.toReadyThread = .put .test ∧ k.cpuFree = 0
  | .ioListener _ => k.ioThread = .put .test ∧ k.cpuFree = 0
  | _ => False

instance (k : Kernel) (action : KernelAction) : Decidable (k.Decides action) :=
  match action with
  | .toReady => inferInstanceAs (Decidable (_ ∧ _))
  | .ioListener _ => inferInstanceAs (Decidable (_ ∧ _))
  | .memory _ | .memoryListener _ | .consoleAccept _ | .console _ | .consoleReceive .. | .toExec _
  | .exitProcess | .dispatchListener _ => inferInstanceAs (Decidable False)

/-- The interruptions decided on or sent. -/
def decided (k : Kernel) : ℕ :=
  k.puts PutToReady.deciding + k.interrupts

theorem step_decided (h : k.step cfg behaviour action = some k') (hdecides : ¬ k.Decides action) :
    k'.decided ≤ k.decided := by
  have hstep := h
  have hwrites := step_writes h
  unfold step at h
  split at h
  · cases h
  cases action with
  | toReady =>
      simp only [toReady, putToReady] at h
      repeat' split at h
      all_goals cases h
      all_goals simp_all [decided, puts, ToReady.putting, PutToReady.deciding, Decides]
      all_goals omega
  | ioListener now =>
      simp only [ioListener, putToReady] at h
      repeat' split at h
      all_goals cases h
      all_goals simp_all [decided, puts, IoListener.putting, PutToReady.deciding, Decides]
      all_goals omega
  | _ =>
      rw [decided, step_puts hstep (by simp) (by simp), hwrites.fields]
      exact Nat.le_refl _

end Kernel

/-! ## The system -/

namespace System

variable {cfg : KernelConfig} {behaviour : MemoryBehaviour} {s s' : System} {action : Action}

/-- `put_to_ready` never waits on `interrupt_ready` with no PCB at the CPU or in flight and no
post under way, and the CPU can answer every `INTERRUPT` it has not answered. -/
structure InterruptsAnswerable (s : System) : Prop where
  notStuck : 0 < s.kernel.puts PutToReady.awaiting →
    s.cpu.held ≠ [] ∨ s.kernel.toCpu ≠ [] ∨ s.kernel.fromCpu ≠ [] ∨
      0 < s.kernel.dispatchThread.interrupting ∨ 0 < s.kernel.interruptReady
  answerable : 0 < s.kernel.interrupts + s.cpu.flagged → s.cpu.CanAnswer s.kernel.ports

/-- The interruptions decided on and not yet answered. -/
def outstanding (s : System) : ℕ :=
  s.kernel.decided + s.cpu.flagged

/-- `put_to_ready` decides to interrupt only a CPU that can answer, and `cpu_cycle` does not
drop its PCB while an interruption is outstanding. -/
def InterruptsMeet (action : Action) (s : System) : Prop :=
  match action with
  | .kernel action => s.kernel.Decides action → s.cpu.CanAnswer s.kernel.ports
  | .cpu .cpuCycle => 0 < s.outstanding → ¬ s.cpu.Drops
  | .cpu _ => True

instance (action : Action) (s : System) : Decidable (InterruptsMeet action s) :=
  match action with
  | .kernel action => inferInstanceAs (Decidable (s.kernel.Decides action → _))
  | .cpu .cpuCycle => inferInstanceAs (Decidable (_ → _))
  | .cpu .receivePcb | .cpu .receiveInterruption => inferInstanceAs (Decidable True)

/-- With one interruption recorded there is no other. -/
theorem InterruptionsMatched.outstanding_le_one (hs : s.InterruptionsMatched) :
    s.outstanding ≤ 1 := by
  have hle := Kernel.puts_le PutToReady.deciding_add_awaiting_le_inside s.kernel
  have hadd : s.kernel.puts (fun state => state.deciding + state.awaiting) =
      s.kernel.puts PutToReady.deciding + s.kernel.puts PutToReady.awaiting := by
    simp only [Kernel.puts]
    cases s.kernel.toReadyThread.putting <;> cases s.kernel.ioThread.putting <;> simp
    omega
  have hone := hs.exclusive.le_one
  have hmatched := hs.matched
  simp only [outstanding, Kernel.decided, Kernel.interruptions] at hmatched ⊢
  omega

theorem step_canAnswer (h : s.step cfg behaviour action = some s') (hmeet : InterruptsMeet action s)
    (hmatched : s.InterruptionsMatched)
    (hs : 0 < s.outstanding → s.cpu.CanAnswer s.kernel.ports) (hout : 0 < s'.outstanding) :
    s'.cpu.CanAnswer s'.kernel.ports := by
  rcases step_cases h with ⟨action, k, rfl, hk, rfl⟩ | ⟨action, c, ports, rfl, hcpu, rfl⟩
  · obtain ⟨jobs, htoCpu, -⟩ := Kernel.step_dispatches hk
    have hbefore : s.cpu.CanAnswer s.kernel.ports := by
      by_cases hdecides : s.kernel.Decides action
      · exact hmeet hdecides
      · have hle := Kernel.step_decided hk hdecides
        refine hs ?_
        simp only [outstanding] at hout ⊢
        omega
    refine ⟨hbefore.running, hbefore.bussy, ?_⟩
    rcases hbefore.pcb with hto | hengaged
    · exact .inl (by simp [Kernel.ports, htoCpu, show s.kernel.toCpu ≠ [] from hto])
    · exact .inr hengaged
  · have hle := Cpu.step_unanswered hcpu
    have hbefore : 0 < s.outstanding := by
      simp only [outstanding, Kernel.decided, Cpu.unanswered, Kernel.ports, Kernel.withPorts,
        Kernel.puts] at hle hout ⊢
      omega
    have hcan := hs hbefore
    unfold Cpu.step at hcpu
    rw [if_neg (by simp [hcan.running])] at hcpu
    cases action with
    | receivePcb => exact Cpu.receivePcb_canAnswer hcpu hcan
    | receiveInterruption =>
        simp only [Cpu.receiveInterruption] at hcpu
        repeat' split at hcpu
        all_goals cases hcpu
        exact ⟨hcan.running, hcan.bussy, hcan.pcb⟩
    | cpuCycle =>
        refine Cpu.cpuCycle_canAnswer hcpu (hmeet hbefore) (fun hat => ?_) hcan
        -- the answer to the one interruption outstanding
        have hone := hmatched.outstanding_le_one
        have hnew : s.cpu.newInterruption = true :=
          hmatched.flagKept (by simp [hat, Cycle.holdsInterruption])
        simp only [Cpu.cpuCycle, hat, Option.some.injEq, Prod.mk.injEq] at hcpu
        obtain ⟨rfl, rfl⟩ := hcpu
        simp [outstanding, Kernel.decided, Cpu.flagged, hat, hnew, Cycle.resetting,
          Kernel.withPorts, Kernel.ports, Kernel.puts] at hone hout
        omega

/-- In every run in which `put_to_ready` decides to interrupt only a CPU that can answer, and
`cpu_cycle` does not drop its PCB while an interruption is outstanding, no wait on
`interrupt_ready` is stuck. -/
theorem interrupts_answerable (hs : (system cfg behaviour).ReachableBy InterruptsMeet s) :
    s.InterruptsAnswerable := by
  have hcan : 0 < s.outstanding → s.cpu.CanAnswer s.kernel.ports := by
    refine hs.invariant_of (fun _ h => interruptionsMatched_of_reachable h.reachable)
      ?initial ?step
    case initial => exact nofun
    case step =>
      exact fun _ _ _ hmeet hmatched hs h hout => step_canAnswer h hmeet hmatched hs hout
  refine ⟨fun hawaiting => ?_, fun hunanswered => hcan ?_⟩
  · have hmatched := (interruptionsMatched_of_reachable hs.reachable).matched
    by_cases hout : 0 < s.outstanding
    · rcases (hcan hout).pcb with hto | hengaged
      · exact .inr (.inl hto)
      · exact .inl (Cpu.held_ne_nil_of_engaged hengaged)
    · have hpreempted : 0 < preempted s.kernel.fromCpu → s.kernel.fromCpu ≠ [] := by
        rintro hpos hnil
        simp [preempted, hnil] at hpos
      simp only [outstanding, Kernel.decided, Kernel.interruptions] at hout hmatched
      rcases Nat.eq_zero_or_pos (preempted s.kernel.fromCpu) with hzero | hpos
      · exact .inr (.inr (.inr (by omega)))
      · exact .inr (.inr (.inl (hpreempted hpos)))
  · simp only [outstanding, Kernel.decided]
    omega

/-- A process is at the CPU and `put_to_ready` has interrupted it for the next. -/
theorem interrupts_answerable_small : ∃ s,
    (system (.small .srt) inOrder).ReachableBy InterruptsMeet s ∧
    (s.kernel.puts PutToReady.awaiting = 1 ∧ s.kernel.interrupts = 1) ∧
    s.InterruptsAnswerable := by
  obtain ⟨s, hs, htest⟩ := Machine.exists_reachableBy_of_run (system (.small .srt) inOrder)
    InterruptsMeet
    (onKernel (admission 0 7 ioProgram ++ initialization 1 ++ List.replicate 7 .toReady ++
      List.replicate 8 (.toExec 0)) ++ List.replicate 3 (.cpu .receivePcb) ++ onCycle 2 ++
      onKernel (admission 1 8 ioProgram ++ initialization 2 ++ List.replicate 5 .toReady))
    (fun s => s.kernel.puts PutToReady.awaiting = 1 ∧ s.kernel.interrupts = 1)
    (by decide +kernel)
  exact ⟨s, hs, by simpa using htest, interrupts_answerable hs⟩

/-- `to_exec` takes `cpu_free` for the first process and then waits for the mutex, which
`put_to_ready` holds for the second. -/
def interruptedIdle : List Action :=
  onKernel (admission 0 7 ioProgram ++ initialization 1 ++ List.replicate 7 .toReady ++
    List.replicate 2 (.toExec 0) ++ admission 1 8 ioProgram ++ initialization 2 ++
    List.replicate 5 .toReady)

/-- `put_to_ready` then interrupts a CPU that has never had a PCB. -/
theorem not_interrupts_answerable : ∃ s, (system (.small .srt) inOrder).Reachable s ∧
    (s.kernel.toReadyThread = .put .await ∧ s.kernel.toExecThread = .lock ∧
      s.cpu = {} ∧ s.kernel.toCpu = [] ∧ s.kernel.fromCpu = [] ∧
      s.kernel.dispatchThread = .idle ∧ s.kernel.interruptReady = 0) ∧
    ¬ s.InterruptsAnswerable := by
  obtain ⟨s, hs, htest⟩ := Machine.exists_reachable_of_run (system (.small .srt) inOrder)
    interruptedIdle
    (fun s => s.kernel.toReadyThread = .put .await ∧ s.kernel.toExecThread = .lock ∧
      s.cpu = {} ∧ s.kernel.toCpu = [] ∧ s.kernel.fromCpu = [] ∧
      s.kernel.dispatchThread = .idle ∧ s.kernel.interruptReady = 0)
    (by decide +kernel)
  have hat := of_decide_eq_true htest
  refine ⟨s, hs, hat, fun hanswerable => ?_⟩
  obtain ⟨hput, -, hcpu, hto, hfrom, hdispatch, hready⟩ := hat
  have hawaiting : 0 < s.kernel.puts PutToReady.awaiting := by
    simp only [Kernel.puts, hput, ToReady.putting, onPut_some, PutToReady.awaiting]
    omega
  have hstuck := hanswerable.notStuck hawaiting
  rw [hcpu, hto, hfrom, hdispatch, hready] at hstuck
  revert hstuck
  decide

end System
end SistemasOperativos
