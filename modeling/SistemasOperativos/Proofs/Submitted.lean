import SistemasOperativos.Proofs.PidsAssigned

/-!
# What a console submits stays with its process

The size and the instructions that a console has sent are in the PCB of its process wherever that
is, with a pid or without: no thread of the kernel or the CPU changes them.
-/

namespace SistemasOperativos

namespace System

variable {cfg : KernelConfig} {behaviour : MemoryBehaviour} {s s' : System} {action : Action}
  {P Q : ℕ → Word → List Instruction → Prop}

/-- What is said of a process, its size and its instructions holds of its PCB, wherever it is. -/
structure Submitted (P : ℕ → Word → List Instruction → Prop) (s : System) : Prop where
  fresh : ∀ job ∈ s.kernel.fresh, P job.serial job.pcb.size job.pcb.instructions
  pcbs : s.EveryPcb fun job => P job.serial job.pcb.size job.pcb.instructions

theorem initial_submitted (cfg : KernelConfig) (behaviour : MemoryBehaviour) :
    (system cfg behaviour).initial.Submitted P :=
  ⟨fun _ h => (nomatch h), initial_everyPcb cfg⟩

theorem Submitted.imp (hs : s.Submitted P)
    (h : ∀ t size instructions, P t size instructions → Q t size instructions) :
    s.Submitted Q :=
  ⟨fun job hjob => h _ _ _ (hs.fresh job hjob),
    ⟨hs.pcbs.kernel.imp fun _ => h _ _ _, hs.pcbs.cpu.imp fun _ => h _ _ _⟩⟩

theorem Changes.submitted {old job : Job} (h : s.Changes cfg action old job) :
    job.serial = old.serial ∧ job.pcb.size = old.pcb.size ∧
      job.pcb.instructions = old.pcb.instructions := by
  cases action with
  | kernel action =>
      cases h with
      | table => unfold Job.setTable; split <;> exact ⟨rfl, rfl, rfl⟩
      | _ => exact ⟨rfl, rfl, rfl⟩
  | cpu action => cases h <;> exact ⟨rfl, rfl, rfl⟩

theorem mem_fresh_set {consoles : List (Word × ConsoleThread)} {i : ℕ} {job : Job}
    {console : Word × ConsoleThread}
    (h : job ∈ (consoles.set i console).flatMap fun console => console.2.fresh) :
    job ∈ (consoles.flatMap fun console => console.2.fresh) ∨ job ∈ console.2.fresh := by
  obtain ⟨other, hother, hjob⟩ := List.mem_flatMap.1 h
  rcases List.mem_or_eq_of_mem_set hother with hmem | rfl
  · exact .inl (List.mem_flatMap.2 ⟨other, hmem, hjob⟩)
  · exact .inr hjob

theorem step_fresh {k k' : Kernel} {kernelAction : KernelAction}
    (h : k.step cfg behaviour kernelAction = some k')
    (hreceive : ∀ i size instructions blank,
      kernelAction = .consoleReceive i size instructions blank →
        P k.admitted.length size instructions)
    (hk : ∀ job ∈ k.fresh, P job.serial job.pcb.size job.pcb.instructions) :
    ∀ job ∈ k'.fresh, P job.serial job.pcb.size job.pcb.instructions := by
  have hwrites := Kernel.step_writes h
  unfold Kernel.step at h
  split at h
  · cases h
  cases kernelAction with
  | console i =>
      obtain ⟨socket, old, new, hat, hconsoles, -, hcase⟩ := Kernel.console_cases h
      intro job hjob
      rw [Kernel.fresh, hconsoles] at hjob
      rcases mem_fresh_set hjob with hold | hnew
      · exact hk job hold
      · obtain ⟨same, rfl, rfl, -⟩ | ⟨_, -, rfl, -⟩ | ⟨-, -, -, -, -, hnone, -⟩ := hcase
        · -- between the count and the assignment the PCB is the same
          exact hk job (List.mem_flatMap.2 ⟨_, List.mem_of_getElem? hat, hnew⟩)
        · cases hnew
        · rw [hnone] at hnew
          cases hnew
  | consoleAccept socket =>
      cases h
      simpa [Kernel.fresh, ConsoleThread.fresh] using hk
  | consoleReceive i size instructions blank =>
      simp only [Kernel.consoleReceive] at h
      split at h <;> cases h
      intro job hjob
      rcases mem_fresh_set hjob with hold | hnew
      · exact hk job hold
      · obtain rfl := List.mem_singleton.1 hnew
        exact hreceive i size instructions blank rfl
  | _ => rw [hwrites.fields]; exact hk

theorem step_submitted (h : s.step cfg behaviour action = some s')
    (hreceive : ∀ i size instructions blank,
      action = .kernel (.consoleReceive i size instructions blank) →
        P s.kernel.admitted.length size instructions)
    (hs : s.Submitted P) : s'.Submitted P := by
  refine ⟨?fresh, step_everyPcb h hs.pcbs (fun old job hold hchanges => ?same) ?new⟩
  case fresh =>
    rcases step_cases h with ⟨kernelAction, k, rfl, hk, rfl⟩ | ⟨cpuAction, c, ports, rfl, -, rfl⟩
    · refine step_fresh hk (fun i size instructions blank heq => ?_) hs.fresh
      exact hreceive i size instructions blank (congrArg Action.kernel heq)
    · exact hs.fresh
  case same =>
    obtain ⟨hserial, hsize, hinstructions⟩ := hchanges.submitted
    rw [hserial, hsize, hinstructions]
    exact hold
  case new =>
    intro job hnumbers
    cases action with
    | kernel action =>
        obtain ⟨i, socket, fresh, -, hat, rfl⟩ := hnumbers
        refine hs.fresh fresh (List.mem_flatMap.2 ⟨_, List.mem_of_getElem? hat, ?_⟩)
        exact List.mem_singleton_self fresh
    | cpu action => cases hnumbers

end System
end SistemasOperativos
