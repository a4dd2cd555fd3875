import SistemasOperativos.Proofs.History
import SistemasOperativos.Proofs.OnePlace

/-!
# Programs run in order

The instructions the CPU has executed for a process are the part of its program before its
program counter, until the first EXIT.  The program counter travels in the PCB; the invariant
says so of the PCB wherever it is, with the places of exited processes apart.  Predicates on
PCBs are carried as weights, zero where they hold, so that the conservation of weights moves
them along with the PCBs.
-/

open Tally

namespace SistemasOperativos

/-! ## What has been executed -/

/-- The instruction an event executes for a process. -/
def Event.executes (t : ℕ) : Event → Option Instruction
  | .executed serial instruction => if serial = t then some instruction else none
  | _ => none

/-- The instructions the CPU has executed for a process, over all its dispatches. -/
def executedBy (t : ℕ) (history : List Event) : List Instruction :=
  history.filterMap (Event.executes t)

/-- No instruction of the list is an EXIT. -/
def NoExit (instructions : List Instruction) : Prop :=
  ∀ instruction ∈ instructions, instruction.isExit = false

@[simp] theorem executedBy_append (t : ℕ) (history events : List Event) :
    executedBy t (history ++ events) = executedBy t history ++ executedBy t events :=
  List.filterMap_append

theorem executedBy_eq_nil {t : ℕ} {events : List Event}
    (h : ∀ event ∈ events, event.byCpu = false) : executedBy t events = [] := by
  refine List.filterMap_eq_nil_iff.2 fun event hmem => ?_
  have := h event hmem
  cases event <;> simp_all [Event.byCpu, Event.executes]

namespace Kernel

/-- The PCB is that of an admitted process that has executed the instructions before its
program counter, none of them an EXIT. -/
structure OnTrack (k : Kernel) (job : Job) : Prop where
  program : k.admitted[job.serial]? = some job.pcb.instructions
  executed : executedBy job.serial k.history =
    job.pcb.instructions.take job.pcb.programCounter.toNat
  noExit : NoExit (executedBy job.serial k.history)

/-- The process has executed its program through the first EXIT. -/
def Finished (k : Kernel) (t : ℕ) : Prop :=
  ∃ before exit after, k.admitted[t]? = some (before ++ exit :: after) ∧
    executedBy t k.history = before ++ [exit] ∧ exit.isExit = true ∧ NoExit before

/-- The process has the same program and has executed the same instructions. -/
structure Agree (k k' : Kernel) (t : ℕ) : Prop where
  program : ∀ program, k.admitted[t]? = some program → k'.admitted[t]? = some program
  executed : executedBy t k'.history = executedBy t k.history

variable {k k' : Kernel} {t : ℕ} {job : Job}

theorem Finished.not_noExit (h : k.Finished t) : ¬ NoExit (executedBy t k.history) := by
  obtain ⟨before, exit, after, -, hexecuted, hexit, -⟩ := h
  intro hno
  have := hno exit (by simp [hexecuted])
  simp [hexit] at this

theorem OnTrack.of_agree (h : k.OnTrack job) (hagree : Agree k k' job.serial) :
    k'.OnTrack job := by
  refine ⟨hagree.program _ h.program, ?_, ?_⟩
  · rw [hagree.executed, h.executed]
  · rw [hagree.executed]; exact h.noExit

theorem Finished.of_agree (h : k.Finished t) (hagree : Agree k k' t) : k'.Finished t := by
  obtain ⟨before, exit, after, hprogram, hexecuted, hexit, hno⟩ := h
  exact ⟨before, exit, after, hagree.program _ hprogram, by rw [hagree.executed, hexecuted],
    hexit, hno⟩

end Kernel

section Weights

open Classical

/-- Zero where a predicate on PCBs holds. -/
noncomputable def unmet (p : Job → Prop) (job : Job) : ℕ :=
  if p job then 0 else 1

theorem unmet_eq_zero {p : Job → Prop} {job : Job} : unmet p job = 0 ↔ p job := by
  simp [unmet]

theorem unmet_congr {p : Job → Prop} {a b : Job} (h : p a ↔ p b) : unmet p a = unmet p b := by
  unfold unmet
  split <;> split <;> simp_all

theorem unmet_le {p q : Job → Prop} {v : Job → ℕ} (h : ∀ job, v job = 0 → p job → q job)
    (job : Job) : unmet q job ≤ unmet p job + v job := by
  have := h job
  unfold unmet
  split
  · exact Nat.zero_le _
  · split
    · have : v job ≠ 0 := fun hv => by simp_all
      omega
    · omega

/-- The tally of a process is below the weight of what fails for it. -/
theorem one_le_unmet {p : Job → Prop} {t : ℕ} (h : ∀ job : Job, job.serial = t → ¬ p job)
    (job : Job) : one Job.serial t job ≤ unmet p job + 0 := by
  unfold one unmet
  split
  · rename_i heq
    rw [if_neg (h job heq)]
  · exact Nat.zero_le _

end Weights

theorem onProgress_onTrack (k : Kernel) : OnProgress (unmet k.OnTrack) := by
  intro a b hab
  simp only [Job.progress, Prod.mk.injEq] at hab
  obtain ⟨hserial, hinstructions, hcounter⟩ := hab
  refine unmet_congr ⟨fun h => ⟨?_, ?_, ?_⟩, fun h => ⟨?_, ?_, ?_⟩⟩
  · exact hserial ▸ hinstructions ▸ h.program
  · exact hserial ▸ hinstructions ▸ hcounter ▸ h.executed
  · exact hserial ▸ h.noExit
  · exact hserial ▸ hinstructions ▸ h.program
  · exact hserial ▸ hinstructions ▸ hcounter ▸ h.executed
  · exact hserial ▸ h.noExit

theorem onProgress_finished (k : Kernel) : OnProgress (unmet fun job => k.Finished job.serial) := by
  intro a b hab
  simp only [Job.progress, Prod.mk.injEq] at hab
  exact unmet_congr (by rw [hab.1])

namespace Kernel

variable {cfg : KernelConfig} {behaviour : MemoryBehaviour} {k k' : Kernel}
  {action : KernelAction} {w w' v : Job → ℕ}

/-! ## Comparing weights -/

theorem freshWeight_le (h : ∀ job, w' job ≤ w job + v job) (k : Kernel) :
    k.freshWeight w' ≤ k.freshWeight w + k.freshWeight v :=
  weigh_le (fun _ => weigh_le (fun _ => h _) _) _

theorem runnableWeight_le (h : ∀ job, w' job ≤ w job + v job) (k : Kernel) :
    k.runnableWeight w' ≤ k.runnableWeight w + k.runnableWeight v := by
  have hle := weigh_le h
  have hconsoles : weigh (fun console => weigh w' console.2.numbered) k.consoles ≤
      weigh (fun console => weigh w console.2.numbered) k.consoles +
        weigh (fun console => weigh v console.2.numbered) k.consoles :=
    weigh_le (fun _ => hle _) _
  have := hle k.newQ.items
  have := hle (k.toReadyThread.hands k.pcbTableReady)
  have := hle k.memoryInitQ.items
  have := hle k.memoryThread.hands
  have := hle k.readyQ.items
  have := hle k.toExecThread.hands
  have := hle k.toCpu
  have := hle (runnableReturns k.fromCpu)
  have := hle k.dispatchThread.runnable
  have := hle k.blockedQ.items
  have := hle k.ioThread.hands
  have := hle k.suspendedBlockQ.items
  have := hle k.suspendedReadyQ.items
  unfold runnableWeight
  omega

theorem exitingWeight_le (h : ∀ job, w' job ≤ w job + v job) (k : Kernel) :
    k.exitingWeight w' ≤ k.exitingWeight w + k.exitingWeight v := by
  have hle := weigh_le h
  have := hle (exitReturns k.fromCpu)
  have := hle k.dispatchThread.exiting
  have := hle k.exitQ.items
  have := hle k.exitProcessThread.hands
  have := hle k.memoryExitQ.items
  unfold exitingWeight
  omega

theorem weights_zero (k : Kernel) : k.freshWeight (fun _ => 0) + k.runnableWeight (fun _ => 0) +
    k.exitingWeight (fun _ => 0) = 0 := by
  have hzero : ∀ {α : Type} (l : List α), weigh (fun _ => 0) l = 0 := by simp [weigh]
  simp only [freshWeight, runnableWeight, exitingWeight, hzero]

/-! ## The invariant of the kernel -/

/-- The PCBs of processes that have not exited are on track, those of the others have
finished, and only admitted processes have executed anything. -/
structure InOrder (k : Kernel) : Prop where
  alive : k.freshWeight (unmet k.OnTrack) + k.runnableWeight (unmet k.OnTrack) = 0
  exiting : k.exitingWeight (unmet fun job => k.Finished job.serial) = 0
  known : ∀ t, k.admitted.length ≤ t → executedBy t k.history = []
  answered : ∀ t, .answered .exitCall t ∈ k.history → k.Finished t

theorem unmet_onTrack_le (hagree : ∀ job : Job, v job = 0 → Agree k k' job.serial) (job : Job) :
    unmet k'.OnTrack job ≤ unmet k.OnTrack job + v job :=
  unmet_le (fun job hv h => h.of_agree (hagree job hv)) job

theorem unmet_finished_le (hagree : ∀ job : Job, v job = 0 → Agree k k' job.serial) (job : Job) :
    unmet (fun job => k'.Finished job.serial) job ≤
      unmet (fun job => k.Finished job.serial) job + v job :=
  unmet_le (fun job hv h => h.of_agree (hagree job hv)) job

theorem agree_step (h : k.step cfg behaviour action = some k') (t : ℕ) : Agree k k' t := by
  obtain ⟨events, hevents, hkernel⟩ := step_history h
  refine ⟨fun program hprogram => ?_, by simp [hevents, executedBy_eq_nil hkernel]⟩
  rcases step_receives h with ⟨i, size, instructions, blank, -, hreceive⟩ | ⟨-, hadmitted⟩
  · obtain ⟨job, -, -, hadmitted, -, -⟩ := consoleReceive_weight hreceive
    have ht := (List.getElem?_eq_some_iff.1 hprogram).1
    rw [hadmitted, List.getElem?_append_left ht, hprogram]
  · rw [hadmitted, hprogram]

/-- A process just received is on track: it has executed nothing. -/
theorem onTrack_received {job : Job} (hknown : executedBy job.serial k.history = [])
    (hserial : job.serial = k.admitted.length)
    (hadmitted : k'.admitted = k.admitted ++ [job.pcb.instructions])
    (hhistory : k'.history = k.history) : k'.OnTrack job.restart := by
  refine ⟨?_, ?_, ?_⟩
  · simp [hadmitted, Job.restart, hserial]
  · simp [hhistory, Job.restart, hknown]
  · simp [hhistory, Job.restart, hknown, NoExit]

/-- The invariant moves to a kernel that agrees on every process but those `v` counts, if
these occur nowhere and nothing is added that is not on track, or not finished. -/
theorem InOrder.transfer (hk : k.InOrder)
    (hagree : ∀ job : Job, v job = 0 → Agree k k' job.serial)
    (hnone : k.freshWeight v + k.runnableWeight v + k.exitingWeight v = 0)
    (halive : k'.freshWeight (unmet k'.OnTrack) + k'.runnableWeight (unmet k'.OnTrack) =
      k.freshWeight (unmet k'.OnTrack) + k.runnableWeight (unmet k'.OnTrack))
    (hexiting : k'.exitingWeight (unmet fun job => k'.Finished job.serial) =
      k.exitingWeight (unmet fun job => k'.Finished job.serial))
    (hknown : ∀ t, k'.admitted.length ≤ t → executedBy t k'.history = [])
    (hanswered : ∀ t, .answered .exitCall t ∈ k'.history → k'.Finished t) : k'.InOrder := by
  have honTrack := unmet_onTrack_le hagree
  have hfinished := unmet_finished_le hagree
  have hfresh := freshWeight_le honTrack k
  have hrunnable := runnableWeight_le honTrack k
  have hexit := exitingWeight_le hfinished k
  have := hk.alive
  have := hk.exiting
  exact ⟨by omega, by omega, hknown, hanswered⟩

theorem step_inOrder (h : k.step cfg behaviour action = some k') (hinit : k.InitHandshake)
    (hk : k.InOrder) : k'.InOrder := by
  have hagree := agree_step h
  obtain ⟨events, hevents, hkernel⟩ := step_history h
  have hanswered : ∀ t, .answered .exitCall t ∈ k'.history → k'.Finished t := by
    intro t ht
    refine (hk.answered t ?_).of_agree (hagree t)
    rw [hevents, List.mem_append] at ht
    rcases ht with ht | ht
    · exact ht
    · simpa [Event.byCpu] using hkernel _ ht
  rcases step_receives h with ⟨i, size, instructions, blank, -, hreceive⟩ | ⟨hother, hadmitted⟩
  · obtain ⟨job, hserial, rfl, hadmitted, hhistory, hweight⟩ := consoleReceive_weight hreceive
    have hjob : k'.OnTrack job.restart :=
      onTrack_received (hk.known _ (by omega)) hserial hadmitted hhistory
    refine hk.transfer (fun job _ => hagree job.serial) (weights_zero k) ?_ (hweight _).2.2
      (fun t ht => ?_) hanswered
    · obtain ⟨hfresh, hrunnable, -⟩ := hweight (unmet k'.OnTrack)
      rw [hfresh, hrunnable, unmet_eq_zero.2 hjob, Nat.add_zero]
    · rw [(hagree t).executed]
      exact hk.known t (by simp [hadmitted] at ht; omega)
  · refine hk.transfer (fun job _ => hagree job.serial) (weights_zero k)
      (step_sameWeight (onProgress_onTrack k') h hinit hother).alive
      (step_sameWeight (onProgress_finished k') h hinit hother).exiting (fun t ht => ?_) hanswered
    rw [(hagree t).executed]
    exact hk.known t (hadmitted ▸ ht)

end Kernel

/-! ## The invariant of the CPU -/

/-- `cpu_cycle` has fetched an EXIT and not yet sent the PCB. -/
def Cycle.exiting : Cycle → Bool
  | .execute .exitOp _ | .send .exitCall => true
  | _ => false

namespace Cpu

variable {c c' : Cpu} {k : Kernel} {ports ports' : CpuPorts}

/-- The PCBs at the CPU are on track, or finished once an EXIT has been fetched. -/
structure InOrder (k : Kernel) (c : Cpu) : Prop where
  loading : ∀ job ∈ c.receiver.loading, k.OnTrack job
  stored : 0 < c.stored → c.cycle.exiting = false → k.OnTrack c.pcb
  exiting : c.cycle.exiting = true → k.Finished c.pcb.serial
  fetching : c.cycle = .fetch → c.pcb.pcb.hasNext = true

theorem InOrder.of_agree {k' : Kernel} (hc : c.InOrder k) (hagree : ∀ t, Kernel.Agree k k' t) :
    c.InOrder k' :=
  ⟨fun job hmem => (hc.loading job hmem).of_agree (hagree _),
    fun hstored hexiting => (hc.stored hstored hexiting).of_agree (hagree _),
    fun hexiting => (hc.exiting hexiting).of_agree (hagree _), hc.fetching⟩

/-- Using the sockets leaves programs and executions alone, but for the events of the CPU. -/
theorem agree_withPorts {events : List Event} (hhistory : ports.history = k.history ++ events)
    (t : ℕ) (hevents : executedBy t events = []) : Kernel.Agree k (k.withPorts ports) t := by
  refine ⟨fun program h => h, ?_⟩
  show executedBy t ports.history = executedBy t k.history
  rw [hhistory, executedBy_append, hevents, List.append_nil]

theorem agree_of_history_eq (k : Kernel) (ports : CpuPorts) (h : ports.history = k.history)
    (t : ℕ) : Kernel.Agree k (k.withPorts ports) t :=
  ⟨fun _ hprogram => hprogram, congrArg (executedBy t) h⟩

/-- A step that changes neither the PCB nor what is known of it. -/
theorem InOrder.still (hc : c.InOrder k) (hpcb : c'.pcb = c.pcb)
    (hreceiver : c'.receiver = c.receiver) (hstored : c'.stored = c.stored)
    (hexiting : c'.cycle.exiting = c.cycle.exiting)
    (hfetching : c'.cycle = .fetch → c.pcb.pcb.hasNext = true) : c'.InOrder k := by
  refine ⟨?_, ?_, ?_, ?_⟩
  · rw [hreceiver]; exact hc.loading
  · rw [hpcb, hstored, hexiting]; exact hc.stored
  · rw [hpcb, hexiting]; exact hc.exiting
  · rw [hpcb]; exact hfetching

theorem stored_pos_of_working (hsound : c.Sound) (hworking : c.cycle.working = true)
    (hunanswered : c.cycle.answered = 0) : 0 < c.stored := by
  have := hsound hworking
  simp only [stored, hunanswered]
  omega

theorem receivePcb_inOrder (h : c.receivePcb k.ports = some (c', ports'))
    (hone : k.toCpu.length + c.held.length ≤ 1) (hsound : c.Sound) (hc : c.InOrder k)
    (hk : k.InOrder) : (k.withPorts ports').InOrder ∧ c'.InOrder (k.withPorts ports') := by
  have hlength : k.toCpu.length + c.receiver.loading.length + c.stored ≤ 1 := by
    simpa [held, Nat.add_assoc] using hone
  unfold receivePcb at h
  cases hat : c.receiver with
  | idle =>
      simp only [hat] at h
      split at h <;> cases h
      rename_i job rest hto
      have hto : k.toCpu = job :: rest := hto
      have hagree := agree_of_history_eq k { k.ports with toCpu := rest } rfl
      -- the PCB on the socket is one of those on track
      have hjob : k.OnTrack job := by
        have := hk.alive
        simp only [Kernel.runnableWeight, hto, weigh_cons] at this
        exact unmet_eq_zero.1 (by omega)
      have hzero := unmet_eq_zero.2 (hjob.of_agree (hagree _))
      refine ⟨hk.transfer (fun job _ => hagree job.serial) (Kernel.weights_zero k) ?_ rfl
        (fun t ht => ?_) (fun t ht => ?_), ?_⟩
      · simp only [Kernel.freshWeight, Kernel.runnableWeight, Kernel.withPorts, Kernel.ports, hto,
          weigh_cons] at hzero ⊢
        omega
      · exact hk.known t ht
      · exact (hk.answered t ht).of_agree (hagree t)
      · have hstored : c.stored = 0 := by simp [hto] at hlength; omega
        refine ⟨?_, fun hpos => ?_, fun hexiting => ?_, fun hfetch => ?_⟩
        · simpa [Receiver.loading] using hjob.of_agree (hagree _)
        · simp_all [stored, Receiver.posting]
        · exact (hc.exiting hexiting).of_agree (hagree _)
        · exact hc.fetching hfetch
  | load job =>
      simp only [hat, Option.some.injEq, Prod.mk.injEq] at h
      obtain ⟨rfl, rfl⟩ := h
      have hstored : c.stored = 0 := by
        simp only [hat, Receiver.loading, List.length_singleton] at hlength
        omega
      have hjob : k.OnTrack job := hc.loading job (by simp [hat, Receiver.loading])
      refine ⟨hk, by simp [Receiver.loading], fun _ _ => hjob, fun hexiting => ?_, fun hfetch => ?_⟩
      · have hworking : c.cycle.working = true ∧ c.cycle.answered = 0 := by
          revert hexiting
          cases c.cycle <;> simp [Cycle.exiting, Cycle.working, Cycle.answered]
        have := stored_pos_of_working hsound hworking.1 hworking.2
        omega
      · have hfetch : c.cycle = .fetch := hfetch
        have := stored_pos_of_working hsound (by simp [hfetch, Cycle.working])
          (by simp [hfetch, Cycle.answered])
        omega
  | post =>
      simp only [hat, Option.some.injEq, Prod.mk.injEq] at h
      obtain ⟨rfl, rfl⟩ := h
      refine ⟨hk, by simp [Receiver.loading], fun hpos => hc.stored ?_, hc.exiting, hc.fetching⟩
      simp only [stored, hat, Receiver.posting] at hpos ⊢
      omega

theorem execute_inOrder {op : Operation} {params : List Word} (hat : c.cycle = .execute op params)
    (hsound : c.Sound) (hc : c.InOrder k) : (c.execute op params).InOrder k := by
  have hpos : 0 < c.stored :=
    stored_pos_of_working hsound (by simp [hat, Cycle.working]) (by simp [hat, Cycle.answered])
  cases op with
  | exitOp =>
      refine hc.still rfl rfl ?_ (by simp [execute, hat, Cycle.exiting])
        (by simp [execute])
      simp [execute, stored, hat, Cycle.starting, Cycle.answered]
  | ioOp =>
      have honTrack := hc.stored hpos (by simp [hat, Cycle.exiting])
      cases params with
      | nil => exact hc.still rfl rfl rfl rfl (by simp [execute, hat])
      | cons time rest =>
          -- the I/O time is not part of the progress
          exact ⟨hc.loading, fun _ _ => ⟨honTrack.program, honTrack.executed, honTrack.noExit⟩,
            by simp [execute, Cycle.exiting], by simp [execute]⟩
  | _ =>
      unfold execute
      split
      all_goals simp_all
      all_goals refine hc.still rfl rfl ?_ ?_ ?_
      all_goals simp [stored, hat, Cycle.starting, Cycle.answered, Cycle.exiting]

/-- `fetch_and_decode` executes the next instruction of the program. -/
theorem fetch_inOrder {instruction : Instruction} {op : Operation} {pcb : Pcb}
    (hat : c.cycle = .fetch) (hfetch : fetchAndDecode c.pcb.pcb = some (instruction, op, pcb))
    (hloading : c.receiver.loading = []) (hstored : c.stored = 1)
    (hnone : tally Job.serial c.pcb.serial k.jobs = 0) (hc : c.InOrder k) (hk : k.InOrder) :
    let k' := k.withPorts
      { k.ports with history := k.history ++ [.executed c.pcb.serial instruction] }
    let c' := { c with
      pcb := { c.pcb with pcb := pcb }
      cycle := .execute op instruction.params }
    k'.InOrder ∧ c'.InOrder k' := by
  intro k' c'
  have honTrack := hc.stored (by omega) (by simp [hat, Cycle.exiting])
  have hnext := hc.fetching hat
  -- the instruction is the one under the program counter, which moves on by one
  obtain ⟨hget, rfl, hpcb⟩ : c.pcb.pcb.instructions[c.pcb.pcb.programCounter.toNat]? =
      some instruction ∧ op = getOp instruction.id ∧
      pcb = { c.pcb.pcb with programCounter := c.pcb.pcb.programCounter + 1 } := by
    unfold fetchAndDecode at hfetch
    split at hfetch <;> cases hfetch
    exact ⟨‹_›, rfl, rfl⟩
  have hexecuted : executedBy c.pcb.serial k'.history =
      executedBy c.pcb.serial k.history ++ [instruction] := by
    show executedBy _ (k.history ++ _) = _
    simp [executedBy, Event.executes]
  have hagree : ∀ t, t ≠ c.pcb.serial → Kernel.Agree k k' t := fun t ht =>
    agree_withPorts rfl t (by simp [executedBy, Event.executes, ht.symm])
  have hserial : c.pcb.serial < k.admitted.length := (List.getElem?_eq_some_iff.1 honTrack.program).1
  refine ⟨hk.transfer (v := one Job.serial c.pcb.serial) (fun job hv => hagree _ fun heq => ?_) ?_
    rfl rfl (fun t ht => ?_) (fun t ht => ?_), fun job hmem => ?_, fun _ hexiting => ?_,
    fun hexiting => ?_, nofun⟩
  · simp [one, heq] at hv
  · rw [← Kernel.tally_jobs_eq_weight]
    exact hnone
  · have ht : k.admitted.length ≤ t := ht
    rw [(hagree t (by omega)).executed]
    exact hk.known t ht
  · have hold : Event.answered .exitCall t ∈ k.history := by
      have ht : Event.answered .exitCall t ∈ k.history ++ _ := ht
      simpa using ht
    refine (hk.answered t hold).of_agree (hagree t fun heq => ?_)
    -- a process that has sent EXIT_CALL is not at the CPU
    exact (hk.answered t hold).not_noExit (heq ▸ honTrack.noExit)
  · simp [c', hloading] at hmem
  · have hinstructions : pcb.instructions = c.pcb.pcb.instructions := by rw [hpcb]
    have hno : instruction.isExit = false := by
      cases hop : getOp instruction.id <;>
        simp_all [c', Cycle.exiting, Instruction.isExit]
    refine ⟨honTrack.program.trans (congrArg some hinstructions.symm), ?_, ?_⟩
    · show executedBy c.pcb.serial k'.history = pcb.instructions.take pcb.programCounter.toNat
      rw [hexecuted, honTrack.executed, hpcb, Pcb.toNat_programCounter_succ hnext,
        List.take_add_one, hget, Option.toList_some]
    · show NoExit (executedBy c.pcb.serial k'.history)
      intro other hmem
      rw [hexecuted, List.mem_append, List.mem_singleton] at hmem
      rcases hmem with hmem | rfl
      · exact honTrack.noExit other hmem
      · exact hno
  · have hexit : instruction.isExit = true := by
      cases hop : getOp instruction.id <;>
        simp_all [c', Cycle.exiting, Instruction.isExit]
    refine ⟨executedBy c.pcb.serial k.history, instruction,
      c.pcb.pcb.instructions.drop (c.pcb.pcb.programCounter.toNat + 1), ?_, hexecuted, hexit,
      honTrack.noExit⟩
    obtain ⟨hlt, hget⟩ := List.getElem?_eq_some_iff.1 hget
    refine honTrack.program.trans ?_
    rw [honTrack.executed, ← hget, ← List.drop_eq_getElem_cons hlt, List.take_append_drop]

/-- Sending the PCB takes what is known of it to the dispatch socket. -/
theorem send_inOrder {header : KernelHeader} (hat : c.cycle = .send header)
    (hloading : c.receiver.loading = []) (hstored : c.stored = 1) (hsound : c.Sound)
    (hc : c.InOrder k) (hk : k.InOrder) :
    let k' := k.withPorts
      { k.ports with
        fromCpu := k.fromCpu ++ [(header, c.pcb)]
        history := k.history ++ [.answered header c.pcb.serial] }
    let c' := { c with cycle := .waitBussy header }
    k'.InOrder ∧ c'.InOrder k' := by
  intro k' c'
  have hagree : ∀ t, Kernel.Agree k k' t := fun t => agree_withPorts rfl t rfl
  have hexit : header = .exitCall → k'.Finished c.pcb.serial := fun heq =>
    (hc.exiting (by simp [hat, heq, Cycle.exiting])).of_agree (hagree _)
  have hcontinue : header ≠ .exitCall → k'.OnTrack c.pcb := fun hne =>
    (hc.stored (by omega) (by cases header <;> simp_all [Cycle.exiting])).of_agree (hagree _)
  have hbussy := hsound (by simp [hat, Cycle.working])
  refine ⟨hk.transfer (fun job _ => hagree job.serial) (Kernel.weights_zero k) ?_ ?_
    (fun t ht => ?_) (fun t ht => ?_), fun job hmem => ?_, fun hpos => ?_,
    by simp [c', Cycle.exiting], by simp [c']⟩
  · have hzero : header ≠ .exitCall → unmet k'.OnTrack c.pcb = 0 := fun hne =>
      unmet_eq_zero.2 (hcontinue hne)
    cases header <;> simp_all [Kernel.freshWeight, Kernel.runnableWeight, k', Kernel.withPorts,
      Kernel.ports, Kernel.runnableReturns]
  · have hzero : header = .exitCall → unmet (fun job => k'.Finished job.serial) c.pcb = 0 :=
      fun heq => unmet_eq_zero.2 (hexit heq)
    cases header <;> simp_all [Kernel.exitingWeight, k', Kernel.withPorts,
      Kernel.ports, Kernel.exitReturns]
  · rw [(hagree t).executed]
    exact hk.known t ht
  · have ht : Event.answered .exitCall t ∈ k.history ++ [.answered header c.pcb.serial] := ht
    rw [List.mem_append, List.mem_singleton] at ht
    rcases ht with hold | hnew
    · exact (hk.answered t hold).of_agree (hagree t)
    · obtain ⟨rfl, rfl⟩ : KernelHeader.exitCall = header ∧ t = c.pcb.serial := by
        simpa using hnew
      exact hexit rfl
  · simp [c', hloading] at hmem
  · simp [c', stored, hbussy, Cycle.starting, Cycle.answered] at hpos
    simp only [stored, hat, Cycle.answered] at hstored
    omega

theorem cpuCycle_inOrder (h : c.cpuCycle k.ports = some (c', ports')) (hone : c.held.length ≤ 1)
    (hsound : c.Sound) (hnone : ∀ job ∈ c.held, tally Job.serial job.serial k.jobs = 0) (hc : c.InOrder k)
    (hk : k.InOrder) : (k.withPorts ports').InOrder ∧ c'.InOrder (k.withPorts ports') := by
  have hlength : c.receiver.loading.length + c.stored ≤ 1 := by simpa [held] using hone
  unfold cpuCycle at h
  cases hat : c.cycle with
  | fetch =>
      simp only [hat] at h
      split at h <;> cases h
      have hpos := stored_pos_of_working hsound (by simp [hat, Cycle.working])
        (by simp [hat, Cycle.answered])
      obtain ⟨hloading, hpcbs⟩ := held_of_stored hone (by omega)
      exact fetch_inOrder hat ‹_› hloading (by omega) (hnone _ (by simp [hpcbs])) hc hk
  | execute op params =>
      simp only [hat, Option.some.injEq, Prod.mk.injEq] at h
      obtain ⟨rfl, rfl⟩ := h
      exact ⟨hk, execute_inOrder hat hsound hc⟩
  | send header =>
      simp only [hat, Option.some.injEq, Prod.mk.injEq] at h
      obtain ⟨rfl, rfl⟩ := h
      have hpos := stored_pos_of_working hsound (by simp [hat, Cycle.working])
        (by simp [hat, Cycle.answered])
      obtain ⟨hloading, -⟩ := held_of_stored hone (by omega)
      exact send_inOrder hat hloading (by omega) hsound hc hk
  | waitBussy header =>
      simp only [hat] at h
      have hbussy := hsound (by simp [hat, Cycle.working])
      repeat' split at h
      all_goals cases h
      all_goals refine ⟨hk, hc.still rfl rfl ?_ ?_ (by simp)⟩
      all_goals simp_all [stored, Cycle.starting, Cycle.answered, Cycle.exiting]
  | waitLoaded =>
      simp only [hat] at h
      split at h <;> cases h
      refine ⟨hk, hc.still rfl rfl ?_ (by simp [hat, Cycle.exiting]) (by simp)⟩
      simp_all [stored, Cycle.starting, Cycle.answered]
      omega
  | postBussy =>
      simp only [hat, Option.some.injEq, Prod.mk.injEq] at h
      obtain ⟨rfl, rfl⟩ := h
      refine ⟨hk, hc.still rfl rfl ?_ (by simp [hat, Cycle.exiting]) (by simp)⟩
      simp_all [stored, Cycle.starting, Cycle.answered]
      omega
  | loop =>
      simp only [hat] at h
      split at h <;> cases h
      all_goals refine ⟨hk, hc.still rfl rfl ?_ (by simp [hat, Cycle.exiting]) ?_⟩
      all_goals simp_all [stored, Cycle.starting, Cycle.answered]
  | check =>
      simp only [hat] at h
      split at h <;> cases h
      all_goals refine ⟨hk, hc.still rfl rfl ?_ (by simp [hat, Cycle.exiting]) (by simp)⟩
      all_goals simp [stored, hat, Cycle.starting, Cycle.answered]
  | reset =>
      simp only [hat, Option.some.injEq, Prod.mk.injEq] at h
      obtain ⟨rfl, rfl⟩ := h
      refine ⟨hk, hc.still rfl rfl ?_ (by simp [hat, Cycle.exiting]) (by simp)⟩
      simp [stored, hat, Cycle.starting, Cycle.answered]

theorem step_inOrder {action : CpuAction} (h : c.step k.ports action = some (c', ports'))
    (hone : k.toCpu.length + c.held.length ≤ 1) (hsound : c.Sound)
    (hnone : ∀ job ∈ c.held, tally Job.serial job.serial k.jobs = 0) (hc : c.InOrder k)
    (hk : k.InOrder) : (k.withPorts ports').InOrder ∧ c'.InOrder (k.withPorts ports') := by
  unfold step at h
  split at h
  · cases h
  cases action with
  | receivePcb => exact receivePcb_inOrder h hone hsound hc hk
  | receiveInterruption =>
      simp only [receiveInterruption] at h
      split at h
      · cases h
      rename_i n hn
      split at h <;> cases h
      have hagree := agree_of_history_eq k { k.ports with interrupts := n } rfl
      exact ⟨hk.transfer (fun job _ => hagree job.serial) (Kernel.weights_zero k) rfl rfl hk.known
        fun t ht => (hk.answered t ht).of_agree (hagree t),
        InOrder.of_agree ⟨hc.loading, hc.stored, hc.exiting, hc.fetching⟩ hagree⟩
  | cpuCycle => exact cpuCycle_inOrder h (by omega) hsound hnone hc hk

end Cpu

/-! ## Running in order -/

/-- The instructions executed are a prefix of the program with nothing after an EXIT. -/
def RunsInOrder (program executed : List Instruction) : Prop :=
  executed <+: program ∧
    ∀ before exit rest, executed = before ++ exit :: rest → exit.isExit = true → rest = []

theorem Kernel.OnTrack.runsInOrder {k : Kernel} {job : Job} {program : List Instruction}
    (h : k.OnTrack job) (hprogram : k.admitted[job.serial]? = some program) :
    RunsInOrder program (executedBy job.serial k.history) := by
  obtain rfl : job.pcb.instructions = program := Option.some.inj (h.program.symm.trans hprogram)
  refine ⟨h.executed ▸ List.take_prefix _ _, fun before exit rest heq hexit => ?_⟩
  have := h.noExit exit (by simp [heq])
  simp [hexit] at this

theorem Kernel.Finished.runsInOrder {k : Kernel} {t : ℕ} {program : List Instruction}
    (h : k.Finished t) (hprogram : k.admitted[t]? = some program) :
    RunsInOrder program (executedBy t k.history) := by
  obtain ⟨before, exit, after, hadmitted, hexecuted, -, hno⟩ := h
  obtain rfl : before ++ exit :: after = program := Option.some.inj (hadmitted.symm.trans hprogram)
  rw [hexecuted]
  refine ⟨⟨after, by simp⟩, fun before' exit' rest heq hexit => ?_⟩
  -- an EXIT with something behind it would be among those before the last
  rcases List.eq_nil_or_concat rest with rfl | ⟨rest, last, rfl⟩
  · rfl
  · have hinit : before = before' ++ exit' :: rest := by
      have hconcat : before ++ [exit] = (before' ++ exit' :: rest) ++ [last] := by simp [heq]
      exact (List.append_inj' hconcat rfl).1
    have := hno exit' (by simp [hinit])
    simp [hexit] at this

/-! ## The system -/

namespace System

variable {cfg : KernelConfig} {behaviour : MemoryBehaviour} {s : System} {t : ℕ}

/-- In runs in which the CPU finds interruptions only with a PCB to give back, every PCB is on
track or finished. -/
theorem inOrder_of_reachable (hs : (system cfg behaviour).ReachableBy InterruptsHeld s) :
    s.kernel.InOrder ∧ s.cpu.InOrder s.kernel := by
  refine hs.invariant_of (fun _ => toContract_reachable) ?initial ?step
  case initial =>
    refine ⟨⟨rfl, rfl, fun _ _ => rfl, nofun⟩, nofun, nofun, nofun, nofun⟩
  case step =>
    rintro action s s' - ⟨hsound, hcontract⟩ ⟨hk, hc⟩ h
    have hconserved := Contract.conserved_of_reachable hcontract
    have hone := (Contract.oneToken_of_reachable hcontract).atCpu_le_one
    rcases step_cases h with ⟨action, k, rfl, hstep, rfl⟩ | ⟨action, c, ports, rfl, hstep, rfl⟩
    · exact ⟨Kernel.step_inOrder hstep hconserved.handshake hk,
        hc.of_agree (Kernel.agree_step hstep)⟩
    · simp only [toContract] at hone
      refine Cpu.step_inOrder hstep (by omega) hsound (fun job hmem => ?_) hc hk
      -- what the CPU holds occurs nowhere in the kernel
      have := hconserved.tally_le_one job.serial
      have : 0 < tally Job.serial job.serial s.cpu.held := tally_pos.2 ⟨job, hmem, rfl⟩
      simp only [toContract] at *
      omega

/-- Every admitted process runs in order, wherever its PCB is. -/
theorem runsInOrder_of_inOrder (hconserved : s.toContract.Conserved) (hk : s.kernel.InOrder)
    (hc : s.cpu.InOrder s.kernel) {program : List Instruction}
    (hprogram : s.kernel.admitted[t]? = some program) :
    RunsInOrder program (executedBy t s.kernel.history) := by
  by_contra hnot
  have ht := (List.getElem?_eq_some_iff.1 hprogram).1
  have honce := (hconserved.once t).trans (Kernel.admittedCount_of_lt ht)
  -- otherwise no PCB of the process is on track, and it has not finished
  have honTrack : ∀ job, one Job.serial t job ≤ unmet s.kernel.OnTrack job + 0 :=
    one_le_unmet fun job heq h => hnot (heq ▸ h.runsInOrder (heq ▸ hprogram))
  have hfinished : ∀ job, one Job.serial t job ≤
      unmet (fun job => s.kernel.Finished job.serial) job + 0 :=
    one_le_unmet fun job heq h => hnot (heq ▸ h.runsInOrder (heq ▸ hprogram))
  have hfresh := Kernel.freshWeight_le honTrack s.kernel
  have hrunnable := Kernel.runnableWeight_le honTrack s.kernel
  have hexiting := Kernel.exitingWeight_le hfinished s.kernel
  have hzero := s.kernel.weights_zero
  have halive := hk.alive
  have hexit := hk.exiting
  have hjobs := s.kernel.tally_jobs_eq_weight t
  have hheld : 0 < tally Job.serial t s.cpu.held := by
    simp only [toContract] at honce
    omega
  obtain ⟨job, hmem, rfl⟩ := tally_pos.1 hheld
  rw [Cpu.held, List.mem_append, List.mem_replicate] at hmem
  rcases hmem with hloading | ⟨hstored, rfl⟩
  · exact hnot ((hc.loading job hloading).runsInOrder hprogram)
  · cases hat : s.cpu.cycle.exiting with
    | true => exact hnot ((hc.exiting hat).runsInOrder hprogram)
    | false => exact hnot ((hc.stored (by omega) hat).runsInOrder hprogram)

/-- Under FIFO the instructions executed for each process, over all its dispatches, are a prefix
of its program, nothing is executed after an EXIT, and when EXIT_CALL is sent they are the
program through its first EXIT. -/
theorem programs_in_order (hfifo : cfg.sortingAlgorithm = .fifo)
    (hs : (system cfg behaviour).Reachable s) {program : List Instruction}
    (hprogram : s.kernel.admitted[t]? = some program) :
    executedBy t s.kernel.history <+: program ∧
    (∀ before exit rest, executedBy t s.kernel.history = before ++ exit :: rest →
      exit.isExit = true → rest = []) ∧
    (.answered .exitCall t ∈ s.kernel.history → ∃ before exit after,
      program = before ++ exit :: after ∧ executedBy t s.kernel.history = before ++ [exit] ∧
      exit.isExit = true ∧ ∀ instruction ∈ before, instruction.isExit = false) := by
  have hguarded := reachableBy_interruptsHeld hfifo hs
  have hconserved := Contract.conserved_of_reachable (toContract_reachable hguarded).2
  obtain ⟨hk, hc⟩ := inOrder_of_reachable hguarded
  obtain ⟨htaken, hlast⟩ := runsInOrder_of_inOrder hconserved hk hc hprogram
  refine ⟨htaken, hlast, fun hanswered => ?_⟩
  obtain ⟨before, exit, after, hadmitted, hexecuted, hexit, hno⟩ := hk.answered t hanswered
  exact ⟨before, exit, after, Option.some.inj (hprogram.symm.trans hadmitted), hexecuted, hexit,
    hno⟩

/-- A program with an instruction behind its EXIT, run until EXIT_CALL is sent. -/
theorem programs_in_order_small :
    let program : List Instruction := [⟨ascii ['N', 'O', '_', 'O', 'P'], [1]⟩,
      ⟨ascii ['E', 'X', 'I', 'T'], []⟩, ⟨ascii ['N', 'O', '_', 'O', 'P'], [1]⟩]
    ∃ s, (system (.small .fifo) inOrder).Reachable s ∧
      .answered .exitCall 0 ∈ s.kernel.history ∧
      executedBy 0 s.kernel.history <+: program ∧ ∃ before exit after,
        program = before ++ exit :: after ∧ executedBy 0 s.kernel.history = before ++ [exit] ∧
        exit.isExit = true := by
  intro program
  obtain ⟨s, hs, htest⟩ := Machine.exists_reachable_of_run (system (.small .fifo) inOrder)
    (onKernel (admission 0 7 program ++ initialization 1 ++ List.replicate 5 .toReady ++
      List.replicate 8 (.toExec 0)) ++ List.replicate 3 (.cpu .receivePcb) ++ onCycle 10)
    (fun s => s.kernel.admitted[0]? = some program ∧ .answered .exitCall 0 ∈ s.kernel.history)
    (by decide +kernel)
  obtain ⟨hprogram, hanswered⟩ := of_decide_eq_true htest
  obtain ⟨htaken, -, hexit⟩ := programs_in_order rfl hs hprogram
  obtain ⟨before, exit, after, hsplit, hexecuted, hisExit, -⟩ := hexit hanswered
  exact ⟨s, hs, hanswered, htaken, before, exit, after, hsplit, hexecuted, hisExit⟩

end System
end SistemasOperativos
