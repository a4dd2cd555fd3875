import SistemasOperativos.Proofs.Conservation
import SistemasOperativos.Proofs.Interrupts

/-!
# Every process is in one place

Under FIFO the system is a run of the kernel beside a CPU that keeps the contract, so each
admitted process occurs once over the queues of the kernel, the hands of its threads, the
dispatch socket and the CPU.
-/

open Tally

namespace SistemasOperativos

/-- A place of the kernel or the dispatch socket, or the CPU. -/
inductive Whereabouts
  | kernel (place : Place)
  | cpu
deriving DecidableEq, Repr

def Whereabouts.all : List Whereabouts :=
  .cpu :: Place.all.map .kernel

theorem Whereabouts.mem_all (place : Whereabouts) : place ∈ Whereabouts.all := by
  cases place with
  | cpu => exact List.mem_cons_self
  | kernel place => exact List.mem_cons_of_mem _ (List.mem_map_of_mem (Place.mem_all place))

theorem Whereabouts.nodup_all : Whereabouts.all.Nodup := by decide

namespace System

variable {cfg : KernelConfig} {behaviour : MemoryBehaviour} {s : System}

/-- The PCBs at a place. -/
def occupants (s : System) : Whereabouts → List Job
  | .kernel place => s.kernel.occupants place
  | .cpu => s.cpu.held

/-- The process occurs at the place, once, and nowhere else. -/
def OnlyAt (s : System) (t : ℕ) (place : Whereabouts) : Prop :=
  tally Job.serial t (s.occupants place) = 1 ∧
    ∀ other, other ≠ place → tally Job.serial t (s.occupants other) = 0

theorem tally_occupants (s : System) (t : ℕ) :
    tally Job.serial t (Whereabouts.all.flatMap s.occupants) =
      tally Job.serial t s.kernel.jobs + tally Job.serial t s.cpu.held := by
  rw [Whereabouts.all, List.flatMap_cons, List.flatMap_map, tally_append, Nat.add_comm]
  rfl

theorem exists_onlyAt (hs : s.toContract.Conserved) {t : ℕ}
    (ht : t < s.kernel.admitted.length) : ∃ place, s.OnlyAt t place := by
  have honce := (hs.once t).trans (Kernel.admittedCount_of_lt ht)
  obtain ⟨place, -, hone, hothers⟩ := exists_unique_of_tally_flatMap Whereabouts.nodup_all
    ((s.tally_occupants t).trans honce)
  exact ⟨place, hone, fun other hne => hothers other other.mem_all hne⟩

/-- Only admitted processes occur. -/
theorem lt_admitted_of_mem (hs : s.toContract.Conserved) {place : Whereabouts} {job : Job}
    (hmem : job ∈ s.occupants place) : job.serial < s.kernel.admitted.length := by
  by_contra hge
  have honce := (hs.once job.serial).trans (Kernel.admittedCount_of_not_lt hge)
  have hzero := (s.tally_occupants job.serial).trans honce
  rw [tally, weigh_eq_zero] at hzero
  have := hzero job (List.mem_flatMap_of_mem place.mem_all hmem)
  simp at this

/-- Under FIFO, in every reachable state each admitted process is in exactly one place and
nothing else is in any, no INTERRUPT is in flight, and at most one PCB is at the CPU or in
flight. -/
theorem one_place (hfifo : cfg.sortingAlgorithm = .fifo)
    (hs : (system cfg behaviour).Reachable s) :
    (∀ t < s.kernel.admitted.length, ∃ place, s.OnlyAt t place) ∧
    (∀ place, ∀ job ∈ s.occupants place, job.serial < s.kernel.admitted.length) ∧
    s.kernel.interrupts = 0 ∧
    s.kernel.toCpu.length + s.cpu.held.length + s.kernel.fromCpu.length ≤ 1 := by
  obtain ⟨-, hcontract⟩ := toContract_reachable (reachableBy_interruptsHeld hfifo hs)
  have hconserved := Contract.conserved_of_reachable hcontract
  have hone := (Contract.oneToken_of_reachable hcontract).atCpu_le_one
  have hzero := (interruptions_eq_zero hfifo hs).1
  simp only [toContract] at hone
  simp only [Kernel.interruptions] at hzero
  exact ⟨fun t ht => exists_onlyAt hconserved ht, fun place job => lt_admitted_of_mem hconserved,
    by omega, by omega⟩

/-- One process is at the CPU and the next is in the hands of its console thread. -/
theorem one_place_small : ∃ s, (system (.small .fifo) inOrder).Reachable s ∧
    s.OnlyAt 0 .cpu ∧ s.OnlyAt 1 (.kernel .consoles) ∧
    s.kernel.interrupts = 0 := by
  obtain ⟨s, hs, htest⟩ := Machine.exists_reachable_of_run (system (.small .fifo) inOrder)
    (onKernel (admission 0 7 [] ++ initialization 1 ++ List.replicate 5 .toReady ++
      List.replicate 6 (.toExec 0)) ++ [.cpu .receivePcb] ++
      onKernel ((admission 1 8 []).take 3))
    (fun s => 1 < s.kernel.admitted.length ∧ s.cpu.held.map Job.serial = [0] ∧
      (consoleHands s.kernel.consoles).map Job.serial = [1])
    (by decide +kernel)
  obtain ⟨hadmitted, hheld, hconsoles⟩ := of_decide_eq_true htest
  obtain ⟨hplaces, -, hinterrupts, -⟩ := one_place rfl hs
  refine ⟨s, hs, ?_, ?_, hinterrupts⟩
  · obtain ⟨place, hplace⟩ := hplaces 0 (by omega)
    by_cases hcpu : place = .cpu
    · exact hcpu ▸ hplace
    · have := hplace.2 .cpu (Ne.symm hcpu)
      simp [occupants, tally_eq_count, hheld] at this
  · obtain ⟨place, hplace⟩ := hplaces 1 hadmitted
    by_cases hkernel : place = .kernel .consoles
    · exact hkernel ▸ hplace
    · have := hplace.2 (.kernel .consoles) (Ne.symm hkernel)
      simp [occupants, Kernel.occupants, tally_eq_count, hconsoles] at this

end System
end SistemasOperativos
