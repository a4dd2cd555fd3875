import SistemasOperativos.Proofs.Conservation
import SistemasOperativos.Proofs.CpuContract
import SistemasOperativos.Proofs.History

/-!
# Dispatches and their answers

`to_exec` sends a PCB to the CPU, and the CPU sends it back once.  The history pairs the two:
the processes answered are, in order, those dispatched, but for the one at the CPU or on its way
there.  The CPU keeps to this as long as it does not find an interruption after it has given its
PCB back, and does not run out of instructions while it has one.
-/

open Tally

namespace SistemasOperativos

/-! ## The history of the dispatch socket -/

/-- The process an event dispatches. -/
def Event.dispatches : Event → Option ℕ
  | .dispatched serial => some serial
  | _ => none

/-- The process an event answers for. -/
def Event.answers : Event → Option ℕ
  | .answered _ serial => some serial
  | _ => none

/-- The processes dispatched, in order. -/
def dispatches (history : List Event) : List ℕ :=
  history.filterMap Event.dispatches

/-- The processes whose PCB has been sent back, in order. -/
def answers (history : List Event) : List ℕ :=
  history.filterMap Event.answers

@[simp] theorem dispatches_append (history events : List Event) :
    dispatches (history ++ events) = dispatches history ++ dispatches events :=
  List.filterMap_append

@[simp] theorem answers_append (history events : List Event) :
    answers (history ++ events) = answers history ++ answers events :=
  List.filterMap_append

theorem dispatches_of_ofCpu {events : List Event} (h : events.all Event.ofCpu) :
    dispatches events = [] ∧ answers events = [] := by
  constructor <;> refine List.filterMap_eq_nil_iff.2 fun event hmem => ?_ <;>
    have := List.all_eq_true.1 h event hmem <;>
    cases event <;> simp_all [Event.ofCpu, Event.dispatches, Event.answers]

namespace Kernel

variable {cfg : KernelConfig} {behaviour : MemoryBehaviour} {k k' : Kernel}
  {action : KernelAction}

/-- Events of the kernel answer nothing. -/
theorem answers_of_kernel {events : List Event} (h : ∀ event ∈ events, event.byCpu = false) :
    answers events = [] := by
  refine List.filterMap_eq_nil_iff.2 fun event hmem => ?_
  have := h event hmem
  cases event <;> simp_all [Event.byCpu, Event.answers]

/-- Only `to_exec` adds a dispatch. -/
theorem dispatches_of_adds {events : List Event}
    (hadds : ∀ event ∈ events, k.Adds action event) (hother : ∀ now, action ≠ .toExec now) :
    dispatches events = [] := by
  refine List.filterMap_eq_nil_iff.2 fun event hmem => ?_
  have hadd := hadds event hmem
  cases event with
  | dispatched serial =>
      obtain ⟨job, -, -, now, rfl⟩ := hadd
      exact absurd rfl (hother now)
  | _ => rfl

/-- Only `to_exec` sends to the CPU. -/
theorem step_toCpu (h : k.step cfg behaviour action = some k')
    (hother : ∀ now, action ≠ .toExec now) : k'.toCpu = k.toCpu := by
  have hwrites := step_writes h
  unfold step at h
  split at h
  · cases h
  cases action with
  | toExec now => exact absurd rfl (hother now)
  | _ => rw [hwrites.fields]; rfl

/-- The kernel dispatches what it sends to the CPU. -/
theorem step_dispatches (h : k.step cfg behaviour action = some k') :
    ∃ jobs, k'.toCpu = k.toCpu ++ jobs ∧
      dispatches k'.history = dispatches k.history ++ jobs.map Job.serial := by
  by_cases hexec : ∃ now, action = .toExec now
  · obtain ⟨now, rfl⟩ := hexec
    simp only [step, toExec] at h
    repeat' split at h
    all_goals cases h
    all_goals first
      | exact ⟨[_], rfl, by simp [dispatches, Event.dispatches]⟩
      | exact ⟨[], (List.append_nil _).symm, by simp [dispatches, Event.dispatches]⟩
  · have hother := fun now heq => hexec ⟨now, heq⟩
    obtain ⟨events, hevents, hadds⟩ := step_adds h
    refine ⟨[], ?_, ?_⟩
    · rw [step_toCpu h hother, List.append_nil]
    · rw [hevents, dispatches_append, dispatches_of_adds hadds hother, List.map_nil]

end Kernel
/-! ## The pairing -/

namespace Contract

variable {cfg : KernelConfig} {behaviour : MemoryBehaviour} {s s' : Contract}
  {action : ContractAction}

/-- The processes dispatched are, in order, those answered, the one at the CPU and the one on
its way there. -/
def Paired (s : Contract) : Prop :=
  dispatches s.kernel.history =
    answers s.kernel.history ++ (s.atCpu ++ s.kernel.toCpu).map Job.serial

theorem step_paired (h : s.step cfg behaviour action = some s') (hone : s.OneToken)
    (hs : s.Paired) : s'.Paired := by
  have hone := hone.atCpu_le_one
  refine step_elim h ?kernel ?receive ?change ?answer ?note
  case kernel =>
    intro action k' hk
    obtain ⟨jobs, htoCpu, hdispatches⟩ := Kernel.step_dispatches hk
    obtain ⟨events, hevents, hkernel⟩ := Kernel.step_history hk
    have hanswers : answers k'.history = answers s.kernel.history := by
      rw [hevents, answers_append, Kernel.answers_of_kernel hkernel, List.append_nil]
    simp only [Paired] at hs ⊢
    rw [hdispatches, hs, hanswers, htoCpu]
    simp
  case receive =>
    intro job rest hto
    simp only [Paired] at hs ⊢
    rw [hs, hto]
    simp
  case change =>
    intro i pcb events job hget hevents
    obtain ⟨hdispatches, hanswers⟩ := dispatches_of_ofCpu hevents
    have hserials : (s.atCpu.set i { job with pcb := pcb }).map Job.serial =
        s.atCpu.map Job.serial := by
      refine List.ext_getElem? fun j => ?_
      rw [List.map_set, List.getElem?_set]
      split
      · rename_i heq
        obtain ⟨hlt, hjob⟩ := List.getElem?_eq_some_iff.1 hget
        simp [← heq, hlt, hjob]
      · rfl
    simp only [Paired] at hs ⊢
    simp [hdispatches, hanswers, hs, hserials]
  case answer =>
    intro i header job hget
    -- the CPU has one PCB and none is on its way
    obtain ⟨other, hatCpu⟩ : ∃ other, s.atCpu = [other] := by
      have hi := (List.getElem?_eq_some_iff.1 hget).1
      exact List.length_eq_one_iff.1 (by omega)
    obtain rfl : i = 0 := by
      have hi := (List.getElem?_eq_some_iff.1 hget).1
      simp only [hatCpu, List.length_singleton] at hi
      omega
    obtain rfl : other = job := by simpa [hatCpu] using hget
    have htoCpu : s.kernel.toCpu = [] := by
      simp only [hatCpu, List.length_singleton] at hone
      exact List.eq_nil_of_length_eq_zero (by omega)
    simp only [Paired] at hs ⊢
    simp_all [dispatches, answers, Event.dispatches, Event.answers]
  case note => exact fun n hn => hs

theorem paired_of_reachable (hs : (contract cfg behaviour).Reachable s) : s.Paired := by
  refine hs.invariant_of (fun _ => oneToken_of_reachable) ?initial ?step
  case initial => rfl
  case step => exact fun _ _ _ _ hone hs h => step_paired h hone hs

end Contract

/-! ## The CPU as coded -/

namespace System

variable {cfg : KernelConfig} {behaviour : MemoryBehaviour} {s s' : System}

/-- Each dispatch is answered once, for the process dispatched: the processes answered are a
prefix of those dispatched; when `cpu_cycle` waits for a PCB all dispatches the CPU has received
are answered; `cpu_free` is at most one; and no process is in `ready_q` and in `blocked_q` or
`exit_q`. -/
structure AnswersOnce (s : System) : Prop where
  answered : answers s.kernel.history <+: dispatches s.kernel.history
  waiting : s.cpu.cycle = .waitLoaded → s.cpu.receiver = .idle → s.cpu.pcbLoaded = 0 →
    dispatches s.kernel.history =
      answers s.kernel.history ++ s.kernel.toCpu.map Job.serial
  cpuFree : s.kernel.cpuFree ≤ 1
  apart : ∀ t, t ∈ s.kernel.readyQ.items.map Job.serial →
    t ∉ s.kernel.blockedQ.items.map Job.serial ∧ t ∉ s.kernel.exitQ.items.map Job.serial

/-- `cpu_cycle` does not come to the end of the program while it has a PCB to give back. -/
def HasNext (action : Action) (s : System) : Prop :=
  action = .cpu .cpuCycle → s.cpu.cycle = .loop → 0 < s.cpu.cpuBussy → s.cpu.pcb.pcb.hasNext

/-- A step of `cpu_cycle` neither finds an interruption after it has given its PCB back nor
comes to the end of the program before. -/
def GivesBack (action : Action) (s : System) : Prop :=
  InterruptsHeld action s ∧ HasNext action s

instance (action : Action) (s : System) : Decidable (GivesBack action s) :=
  match action with
  | .cpu .cpuCycle =>
      decidable_of_iff (s.cpu.InterruptsHeld ∧
          (s.cpu.cycle = .loop → 0 < s.cpu.cpuBussy → s.cpu.pcb.pcb.hasNext))
        ⟨fun h => ⟨fun _ => h.1, fun _ => h.2⟩, fun h => ⟨h.1 rfl, h.2 rfl⟩⟩
  | .cpu .receivePcb | .cpu .receiveInterruption | .kernel _ => isTrue ⟨nofun, nofun⟩

/-- While `cpu_cycle` waits for a PCB it has none to give back. -/
theorem cpuBussy_of_waiting (hs : (system cfg behaviour).ReachableBy GivesBack s)
    (hwaiting : s.cpu.cycle = .waitLoaded ∨ s.cpu.cycle = .postBussy) : s.cpu.cpuBussy = 0 := by
  revert hwaiting
  refine hs.invariant ?initial ?step
  case initial => exact fun _ => rfl
  case step =>
    rintro action s s' ⟨-, hnext⟩ hs h
    rcases step_cases h with ⟨action, k, rfl, -, rfl⟩ | ⟨action, c, ports, rfl, hstep, rfl⟩
    · exact hs
    · unfold Cpu.step at hstep
      split at hstep
      · cases hstep
      cases action with
      | cpuCycle =>
          have hnext := hnext rfl
          simp only [Cpu.cpuCycle] at hstep
          cases hat : s.cpu.cycle with
          | waitLoaded =>
              simp only [hat] at hstep
              split at hstep <;> cases hstep
              exact fun _ => hs (.inl hat)
          | loop =>
              simp only [hat] at hstep
              split at hstep <;> cases hstep
              · simp
              · rename_i hleave
                intro _
                by_contra hbussy
                have hpos : 0 < s.cpu.cpuBussy := Nat.pos_of_ne_zero hbussy
                exact hleave ⟨hpos, hnext hat hpos⟩
          | execute op params =>
              simp only [hat, Option.some.injEq, Prod.mk.injEq] at hstep
              obtain ⟨rfl, rfl⟩ := hstep
              unfold Cpu.execute
              split <;> simp [hat]
          | _ =>
              simp only [hat] at hstep
              repeat' split at hstep
              all_goals cases hstep
              all_goals simp
      | _ =>
          simp only [Cpu.receivePcb, Cpu.receiveInterruption] at hstep
          repeat' split at hstep
          all_goals cases hstep
          all_goals exact hs

/-- A process in `ready_q` is in no other queue. -/
theorem apart_of_conserved (hs : s.toContract.Conserved) {t : ℕ}
    (ht : t ∈ s.kernel.readyQ.items.map Job.serial) :
    t ∉ s.kernel.blockedQ.items.map Job.serial ∧ t ∉ s.kernel.exitQ.items.map Job.serial := by
  have hone := hs.tally_le_one t
  simp only [toContract, Kernel.tally_jobs] at hone
  have hready : 0 < tally Job.serial t s.kernel.readyQ.items := by
    rw [tally_eq_count]
    exact List.count_pos_iff.2 ht
  constructor <;> rw [← List.count_eq_zero, ← tally_eq_count] <;> omega

/-- A program whose first instruction gives its PCB back. -/
def ioProgram : List Instruction :=
  [⟨ascii ['I', '/', 'O'], [5]⟩, ⟨ascii ['E', 'X', 'I', 'T'], []⟩]

/-- In every run in which `cpu_cycle` neither finds an interruption after it has given its PCB
back nor comes to the end of a program before, each dispatch is answered once. -/
theorem answers_once (hs : (system cfg behaviour).ReachableBy GivesBack s) : s.AnswersOnce := by
  obtain ⟨-, hcontract⟩ := toContract_reachable (hs.mono fun _ _ h => h.1)
  have hpaired := Contract.paired_of_reachable hcontract
  have hone := (Contract.oneToken_of_reachable hcontract).atCpu_le_one
  have hconserved := Contract.conserved_of_reachable hcontract
  simp only [Contract.Paired, toContract] at hpaired hone
  refine ⟨hpaired ▸ List.prefix_append _ _, fun hcycle hreceiver hloaded => ?_, by omega,
    fun t ht => apart_of_conserved hconserved ht⟩
  have hheld : s.cpu.held = [] := by
    have := cpuBussy_of_waiting hs (.inl hcycle)
    simp [Cpu.held, Cpu.stored, hcycle, hreceiver, hloaded, this, Receiver.loading,
      Receiver.posting, Cycle.starting]
  rw [hpaired, hheld, List.nil_append]

/-- A process is dispatched, executes its I/O and is answered for once. -/
theorem answers_once_small : ∃ s, (system (.small .srt) inOrder).ReachableBy GivesBack s ∧
    (answers s.kernel.history = [0] ∧ s.cpu.cycle = .waitLoaded) ∧ s.AnswersOnce := by
  obtain ⟨s, hs, htest⟩ := Machine.exists_reachableBy_of_run (system (.small .srt) inOrder)
    GivesBack
    (onKernel (admission 0 7 ioProgram ++ initialization 1 ++ List.replicate 7 .toReady ++
      List.replicate 8 (.toExec 0)) ++ List.replicate 3 (.cpu .receivePcb) ++ onCycle 9)
    (fun s => answers s.kernel.history = [0] ∧ s.cpu.cycle = .waitLoaded)
    (by decide +kernel)
  exact ⟨s, hs, by simpa using htest, answers_once hs⟩

/-- Under SRT, a process is dispatched and executes its I/O while `put_to_ready` interrupts for
the next: the CPU sends the PCB under IO_CALL and again under INTERRUPT_DISPATCH. -/
def interruptedIo : List Action :=
  onKernel (admission 0 7 ioProgram ++ initialization 1 ++ List.replicate 7 .toReady ++
    List.replicate 8 (.toExec 0) ++ admission 1 8 ioProgram ++ initialization 2 ++
    List.replicate 5 .toReady) ++ List.replicate 3 (.cpu .receivePcb) ++ onCycle 7 ++
    [.cpu .receiveInterruption] ++ onCycle 2 ++ onKernel (List.replicate 12 (.dispatchListener 0))

/-- The process is then in `blocked_q` and in `ready_q`, and `cpu_free` is two. -/
theorem not_answers_once : ∃ s, (system (.small .srt) inOrder).Reachable s ∧
    answers s.kernel.history = [0, 0] ∧ dispatches s.kernel.history = [0] ∧
    0 ∈ s.kernel.blockedQ.items.map Job.serial ∧ s.kernel.cpuFree = 2 ∧ ¬ s.AnswersOnce := by
  obtain ⟨s, hs, htest⟩ := Machine.exists_reachable_of_run (system (.small .srt) inOrder)
    interruptedIo
    (fun s => answers s.kernel.history = [0, 0] ∧ dispatches s.kernel.history = [0] ∧
      0 ∈ s.kernel.blockedQ.items.map Job.serial ∧ s.kernel.cpuFree = 2)
    (by decide +kernel)
  obtain ⟨hanswers, hdispatches, hblocked, hfree⟩ := of_decide_eq_true htest
  refine ⟨s, hs, hanswers, hdispatches, hblocked, hfree, fun honce => ?_⟩
  have := honce.cpuFree
  omega

end System
end SistemasOperativos
