import SistemasOperativos.Proofs.CpuToken

/-!
# The CPU keeps the contract of the dispatch socket

The CPU's globals and threads are read as a list of PCBs received and not answered (`held`).
As long as `cpu_cycle` finds an interruption only with a PCB to give back, every step of the
CPU is one of the contract, or changes nothing the contract sees.
-/

namespace SistemasOperativos

/-! ## What the CPU holds -/

/-- The PCB the dispatch thread has received and not yet stored. -/
def Receiver.loading : Receiver → List Job
  | .load job => [job]
  | _ => []

/-- The dispatch thread has stored a PCB and not yet posted `pcb_loaded`. -/
def Receiver.posting : Receiver → ℕ
  | .post => 1
  | _ => 0

/-- `cpu_cycle` has taken `pcb_loaded` and not yet posted `cpu_bussy`. -/
def Cycle.starting : Cycle → ℕ
  | .postBussy => 1
  | _ => 0

/-- `pcb_to_kernel` has sent the PCB and not yet taken `cpu_bussy`. -/
def Cycle.answered : Cycle → ℕ
  | .waitBussy _ => 1
  | _ => 0

/-- `cpu_cycle` is at work on the PCB. -/
def Cycle.working : Cycle → Bool
  | .fetch | .execute .. | .send _ | .waitBussy _ => true
  | _ => false

namespace Cpu

variable {c c' : Cpu} {ports ports' : CpuPorts}

/-- The units that stand for a PCB stored in the global and not answered. -/
def stored (c : Cpu) : ℕ :=
  c.receiver.posting + c.pcbLoaded + c.cycle.starting + (c.cpuBussy - c.cycle.answered)

/-- The PCBs received and not answered. -/
def held (c : Cpu) : List Job :=
  c.receiver.loading ++ List.replicate c.stored c.pcb

/-- While `cpu_cycle` works on a PCB, `cpu_bussy` is one. -/
def Sound (c : Cpu) : Prop :=
  c.cycle.working → c.cpuBussy = 1

/-- `cpu_cycle` finds an interruption only while it has a PCB to give back. -/
def InterruptsHeld (c : Cpu) : Prop :=
  c.cycle = .check → c.newInterruption = true → 0 < c.cpuBussy

instance (c : Cpu) : Decidable c.InterruptsHeld :=
  inferInstanceAs (Decidable (_ → _ → _))

/-- The steps of the CPU as steps of the contract on the PCBs held. -/
inductive Answers (pcbs : List Job) (ports : CpuPorts) : List Job → CpuPorts → Prop
  | still : Answers pcbs ports pcbs ports
  | receive {job rest} (h : ports.toCpu = job :: rest) :
      Answers pcbs ports (pcbs ++ [job]) { ports with toCpu := rest }
  | change {i job} (h : pcbs[i]? = some job) (pcb : Pcb) (events : List Event)
      (hevents : events.all Event.ofCpu) :
      Answers pcbs ports (pcbs.set i { job with pcb := pcb })
        { ports with history := ports.history ++ events }
  | answer {i job} (h : pcbs[i]? = some job) (header : KernelHeader) :
      Answers pcbs ports (pcbs.eraseIdx i)
        { ports with
          fromCpu := ports.fromCpu ++ [(header, job)]
          history := ports.history ++ [.answered header job.serial] }
  | note {n} (h : ports.interrupts = n + 1) : Answers pcbs ports pcbs { ports with interrupts := n }

theorem receivePcb_answers (h : c.receivePcb ports = some (c', ports'))
    (hone : ports.toCpu.length + c.held.length ≤ 1) (hc : c.Sound) :
    c'.Sound ∧ Answers c.held ports c'.held ports' := by
  unfold receivePcb at h
  cases hat : c.receiver with
  | idle =>
      simp only [hat] at h
      split at h <;> cases h
      rename_i job rest hto
      -- with a PCB on the socket the CPU holds none
      have hstored : c.stored = 0 := by
        simp only [held, hto, List.length_append, List.length_cons, List.length_replicate] at hone
        omega
      have : Answers c.held ports (c.held ++ [job]) { ports with toCpu := rest } := .receive hto
      refine ⟨hc, ?_⟩
      simp_all [held, stored, Receiver.loading, Receiver.posting]
  | load job =>
      simp only [hat, Option.some.injEq, Prod.mk.injEq] at h
      obtain ⟨rfl, rfl⟩ := h
      have hstored : c.stored = 0 := by
        simp only [held, hat, Receiver.loading, List.length_append, List.length_singleton,
          List.length_replicate] at hone
        omega
      have : Answers c.held ports c.held ports := .still
      refine ⟨hc, ?_⟩
      simp_all [held, stored, Receiver.loading, Receiver.posting]
  | post =>
      simp only [hat, Option.some.injEq, Prod.mk.injEq] at h
      obtain ⟨rfl, rfl⟩ := h
      have hheld : held { c with pcbLoaded := c.pcbLoaded + 1, receiver := .idle } = c.held := by
        simp only [held, stored, hat, Receiver.loading, Receiver.posting]
        congr 2
        omega
      exact ⟨hc, hheld ▸ .still⟩

theorem receiveInterruption_answers (h : c.receiveInterruption ports = some (c', ports'))
    (hc : c.Sound) : c'.Sound ∧ Answers c.held ports c'.held ports' := by
  unfold receiveInterruption at h
  split at h
  · cases h
  split at h <;> cases h
  exact ⟨hc, .note ‹_›⟩

/-- A step that changes neither the PCB nor the number of units is none of the contract. -/
theorem Answers.of_stored_eq (hpcb : c'.pcb = c.pcb) (hreceiver : c'.receiver = c.receiver)
    (hstored : c'.stored = c.stored) : Answers c.held ports c'.held ports := by
  have hheld : c'.held = c.held := by rw [held, held, hpcb, hreceiver, hstored]
  exact hheld ▸ .still

/-- While `cpu_cycle` works on a PCB it has not answered, it holds that PCB and no other. -/
theorem held_of_stored (hone : c.held.length ≤ 1) (hstored : c.stored = 1) :
    c.receiver.loading = [] ∧ c.held = [c.pcb] := by
  have hloading : c.receiver.loading = [] := by
    simp only [held, hstored, List.length_append, List.length_replicate] at hone
    exact List.eq_nil_of_length_eq_zero (by omega)
  exact ⟨hloading, by simp [held, hloading, hstored]⟩

theorem execute_answers {op : Operation} {params : List Word}
    (hat : c.cycle = .execute op params) (hone : c.held.length ≤ 1) (hc : c.Sound) :
    (c.execute op params).Sound ∧ Answers c.held ports (c.execute op params).held ports := by
  have hbussy : c.cpuBussy = 1 := hc (by simp [hat, Cycle.working])
  unfold execute
  split
  case h_2 time _ =>
    -- `execute_io` stores the I/O time in the PCB
    have hstored : c.stored = 1 := by
      have : 1 ≤ c.stored := by simp only [stored, hat, Cycle.answered]; omega
      simp only [held, List.length_append, List.length_replicate] at hone
      omega
    obtain ⟨hloading, hpcbs⟩ := held_of_stored hone hstored
    have hfirst : c.held[0]? = some c.pcb := by simp [hpcbs]
    have hchange : Answers c.held ports _ _ :=
      .change hfirst { c.pcb.pcb with pendingIoTime := time } [] rfl
    refine ⟨fun _ => hbussy, ?_⟩
    simp_all [held, stored, Cycle.starting, Cycle.answered]
  all_goals refine ⟨fun _ => hbussy, .of_stored_eq rfl rfl ?_⟩
  all_goals simp [stored, hat, Cycle.starting, Cycle.answered]

theorem cpuCycle_answers (h : c.cpuCycle ports = some (c', ports')) (hone : c.held.length ≤ 1)
    (hheld : c.InterruptsHeld) (hc : c.Sound) :
    c'.Sound ∧ Answers c.held ports c'.held ports' := by
  have hlength : c.receiver.loading.length + c.stored ≤ 1 := by
    simpa [held] using hone
  unfold cpuCycle at h
  cases hat : c.cycle with
  | waitLoaded =>
      simp only [hat] at h
      split at h <;> cases h
      refine ⟨nofun, .of_stored_eq rfl rfl ?_⟩
      simp_all [stored, Cycle.starting, Cycle.answered]
      omega
  | postBussy =>
      simp only [hat, Option.some.injEq, Prod.mk.injEq] at h
      obtain ⟨rfl, rfl⟩ := h
      refine ⟨nofun, .of_stored_eq rfl rfl ?_⟩
      simp_all [stored, Cycle.starting, Cycle.answered]
      omega
  | loop =>
      simp only [hat] at h
      split at h <;> cases h
      · rename_i hloop
        refine ⟨fun _ => ?_, .of_stored_eq rfl rfl ?_⟩
        · simp only [stored, hat, Cycle.answered] at hlength
          show c.cpuBussy = 1
          omega
        · simp [stored, hat, Cycle.starting, Cycle.answered]
      · refine ⟨nofun, .of_stored_eq rfl rfl ?_⟩
        simp [stored, hat, Cycle.starting, Cycle.answered]
  | fetch =>
      simp only [hat] at h
      split at h <;> cases h
      rename_i instruction op pcb hfetch
      have hbussy : c.cpuBussy = 1 := hc (by simp [hat, Cycle.working])
      have hstored : c.stored = 1 := by simp only [stored, hat, Cycle.answered] at hlength ⊢; omega
      obtain ⟨hloading, hpcbs⟩ := held_of_stored hone hstored
      have hfirst : c.held[0]? = some c.pcb := by simp [hpcbs]
      have hchange : Answers c.held ports _ _ :=
        .change hfirst pcb [.executed c.pcb.serial instruction] rfl
      refine ⟨fun _ => hbussy, ?_⟩
      simp_all [held, stored, Cycle.starting, Cycle.answered]
  | execute op params =>
      simp only [hat, Option.some.injEq, Prod.mk.injEq] at h
      obtain ⟨rfl, rfl⟩ := h
      exact execute_answers hat hone hc
  | send header =>
      simp only [hat, Option.some.injEq, Prod.mk.injEq] at h
      obtain ⟨rfl, rfl⟩ := h
      have hbussy : c.cpuBussy = 1 := hc (by simp [hat, Cycle.working])
      have hstored : c.stored = 1 := by simp only [stored, hat, Cycle.answered] at hlength ⊢; omega
      obtain ⟨hloading, hpcbs⟩ := held_of_stored hone hstored
      have hfirst : c.held[0]? = some c.pcb := by simp [hpcbs]
      have hanswer : Answers c.held ports _ _ := .answer hfirst header
      refine ⟨fun _ => hbussy, ?_⟩
      simp_all [held, stored, Cycle.starting, Cycle.answered]
  | waitBussy header =>
      simp only [hat] at h
      have hbussy : c.cpuBussy = 1 := hc (by simp [hat, Cycle.working])
      repeat' split at h
      all_goals cases h
      all_goals refine ⟨nofun, .of_stored_eq rfl rfl ?_⟩
      all_goals simp_all [stored, Cycle.starting, Cycle.answered]
  | check =>
      simp only [hat] at h
      split at h <;> cases h
      · rename_i hnew
        have hpos := hheld hat hnew
        refine ⟨fun _ => ?_, .of_stored_eq rfl rfl ?_⟩
        · simp only [stored, hat, Cycle.answered] at hlength
          show c.cpuBussy = 1
          omega
        · simp [stored, hat, Cycle.starting, Cycle.answered]
      · refine ⟨nofun, .of_stored_eq rfl rfl ?_⟩
        simp [stored, hat, Cycle.starting, Cycle.answered]
  | reset =>
      simp only [hat, Option.some.injEq, Prod.mk.injEq] at h
      obtain ⟨rfl, rfl⟩ := h
      refine ⟨nofun, .of_stored_eq rfl rfl ?_⟩
      simp [stored, hat, Cycle.starting, Cycle.answered]

theorem step_answers {action : CpuAction} (h : c.step ports action = some (c', ports'))
    (hone : ports.toCpu.length + c.held.length ≤ 1)
    (hheld : action = .cpuCycle → c.InterruptsHeld) (hc : c.Sound) :
    c'.Sound ∧ Answers c.held ports c'.held ports' := by
  unfold step at h
  split at h
  · cases h
  cases action with
  | receivePcb => exact receivePcb_answers h hone hc
  | receiveInterruption => exact receiveInterruption_answers h hc
  | cpuCycle => exact cpuCycle_answers h (by omega) (hheld rfl) hc

/-- On the kernel's end of the sockets an answer is a step of the contract. -/
theorem Answers.contract_step {cfg : KernelConfig} {behaviour : MemoryBehaviour} {k : Kernel}
    {pcbs pcbs' : List Job} (h : Answers pcbs k.ports pcbs' ports) :
    (⟨k.withPorts ports, pcbs'⟩ : Contract) = ⟨k, pcbs⟩ ∨
      ∃ action, Contract.step cfg behaviour action ⟨k, pcbs⟩ =
        some ⟨k.withPorts ports, pcbs'⟩ := by
  cases h with
  | still => exact .inl rfl
  | receive h => exact .inr ⟨.receive, by simp_all [Contract.step, Kernel.ports, Kernel.withPorts]⟩
  | @change i job h pcb events hevents =>
      exact .inr ⟨.change i pcb events, by
        simp_all [Contract.step, Kernel.ports, Kernel.withPorts]⟩
  | @answer i job h header =>
      exact .inr ⟨.answer i header, by simp_all [Contract.step, Kernel.ports, Kernel.withPorts]⟩
  | note h => exact .inr ⟨.note, by simp_all [Contract.step, Kernel.ports, Kernel.withPorts]⟩

end Cpu

/-! ## The system follows the contract -/

namespace System

variable {cfg : KernelConfig} {behaviour : MemoryBehaviour} {s s' : System}

/-- The system as the contract sees it. -/
def toContract (s : System) : Contract :=
  ⟨s.kernel, s.cpu.held⟩

/-- The CPU finds an interruption only while it has a PCB to give back. -/
def InterruptsHeld (action : Action) (s : System) : Prop :=
  action = .cpu .cpuCycle → s.cpu.InterruptsHeld

instance (action : Action) (s : System) : Decidable (InterruptsHeld action s) :=
  match action with
  | .cpu .cpuCycle => decidable_of_iff s.cpu.InterruptsHeld ⟨fun h _ => h, fun h => h rfl⟩
  | .cpu .receivePcb | .cpu .receiveInterruption | .kernel _ => isTrue nofun

/-- In runs in which the CPU finds interruptions only with a PCB to give back, the system is a
run of the kernel beside a CPU that answers each dispatch once. -/
theorem follows_contract :
    (system cfg behaviour).Follows InterruptsHeld (contract cfg behaviour) toContract
      fun s => s.cpu.Sound := by
  refine ⟨rfl, fun action s s' hguard hsound hreachable h => ?_⟩
  have hone := (Contract.oneToken_of_reachable hreachable).atCpu_le_one
  simp only [toContract] at hone
  rcases step_cases h with ⟨action, k, rfl, hk, rfl⟩ | ⟨action, c, ports, rfl, hcpu, rfl⟩
  · exact ⟨hsound, .inr ⟨.kernel action, by simp [contract, Contract.step, toContract, hk]⟩⟩
  · obtain ⟨hsound', hanswers⟩ := Cpu.step_answers hcpu
      (by simp only [Kernel.ports]; omega) (fun haction => hguard (by rw [haction])) hsound
    exact ⟨hsound', hanswers.contract_step⟩

theorem toContract_reachable (hs : (system cfg behaviour).ReachableBy InterruptsHeld s) :
    s.cpu.Sound ∧ (contract cfg behaviour).Reachable s.toContract :=
  follows_contract.reachable nofun hs

end System
end SistemasOperativos
