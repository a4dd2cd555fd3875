import SistemasOperativos.System.Pcbs
import Mathlib.Algebra.Order.Ring.Int
import Mathlib.Data.BitVec

/-!
# The executed time of a burst

The time a process executes is not kept: each preemption takes its slice off
`left_burst_estimation`, an unsigned field, and `io_op` gets the sum of the slices back as the
difference to the estimate.  All of it is arithmetic modulo 2^32, so the sum is right as long as
it fits an `int`, whatever the field has been in between.

A PCB is copied, sent to the CPU and back and changed on its way.  Its course is what it has gone
through since it was admitted or since its last I/O: the estimate it started with and the slices
it has executed.
-/

namespace SistemasOperativos

/-! ## Courses -/

/-- What a step makes of a PCB without measuring it. -/
inductive System.Carries (cfg : KernelConfig) (s : System) : Action → Job → Job → Prop
  | same (action : Action) (job : Job) : Carries cfg s action job job
  | table (stale : ℕ → Pcb) (serial : ℕ) (reply : TableReply) (job : Job) :
      Carries cfg s (.kernel (.memoryListener stale)) job (job.setTable serial reply)
  | sleep (now : Word) {job : Job} (h : s.kernel.ioThread = .stamp job) :
      Carries cfg s (.kernel (.ioListener now)) job
        { job with pcb := job.pcb.sleepToLimit cfg now }
  | cpu {job : Job} (action : CpuAction) (h : s.cpu.Changes action s.cpu.pcb job) :
      Carries cfg s (.cpu action) s.cpu.pcb job

/-- The PCB has got to the state with this estimate and these slices since its admission or its
last I/O. -/
inductive Course (cfg : KernelConfig) (behaviour : MemoryBehaviour) :
    System → Job → Word → List Word → Prop
  | admitted {s s' : System} {action : Action} {job : Job}
      (hs : (system cfg behaviour).Reachable s) (h : s.step cfg behaviour action = some s')
      (hjob : s.Numbers cfg action job) : Course cfg behaviour s' job cfg.initialEstimate []
  | carried {s s' : System} {action : Action} {old job : Job} {estimation : Word}
      {slices : List Word} (hold : Course cfg behaviour s old estimation slices)
      (h : s.step cfg behaviour action = some s') (hjob : s.Carries cfg action old job) :
      Course cfg behaviour s' job estimation slices
  | interrupted {s s' : System} {now : Word} {job : Job} {estimation : Word}
      {slices : List Word} (hjob : Course cfg behaviour s job estimation slices)
      (h : s.step cfg behaviour (.kernel (.dispatchListener now)) = some s')
      (hat : s.kernel.dispatchThread = .interrupted job) :
      Course cfg behaviour s' { job with pcb := job.pcb.chargeSlice now s.kernel.toExecTime }
        estimation (slices ++ [now - s.kernel.toExecTime])
  | blocked {s s' : System} {now : Word} {job : Job} {estimation : Word} {slices : List Word}
      (hjob : Course cfg behaviour s job estimation slices)
      (h : s.step cfg behaviour (.kernel (.dispatchListener now)) = some s')
      (hat : s.kernel.dispatchThread = .io job) :
      Course cfg behaviour s' { job with pcb := job.pcb.chargeBurst cfg now s.kernel.toExecTime }
        (job.pcb.chargeBurst cfg now s.kernel.toExecTime).burstEstimation []

section

variable {cfg : KernelConfig} {behaviour : MemoryBehaviour} {s s' : System} {action : Action}
  {old job other : Job} {estimation : Word} {slices : List Word}

/-- What a step makes of a PCB: it is carried on, or a slice or a burst is measured. -/
theorem System.Changes.cases (h : s.Changes cfg action old job) :
    s.Carries cfg action old job ∨
    (∃ now, action = .kernel (.dispatchListener now) ∧ s.kernel.dispatchThread = .interrupted old ∧
      job = { old with pcb := old.pcb.chargeSlice now s.kernel.toExecTime }) ∨
    ∃ now, action = .kernel (.dispatchListener now) ∧ s.kernel.dispatchThread = .io old ∧
      job = { old with pcb := old.pcb.chargeBurst cfg now s.kernel.toExecTime } := by
  cases action with
  | kernel action =>
      cases h with
      | same => exact Or.inl (.same _ _)
      | table stale serial reply => exact Or.inl (.table stale serial reply old)
      | slice now hat => exact Or.inr (Or.inl ⟨now, rfl, hat, rfl⟩)
      | burst now hat => exact Or.inr (Or.inr ⟨now, rfl, hat, rfl⟩)
      | sleep now hat => exact Or.inl (.sleep now hat)
  | cpu action =>
      cases h with
      | same => exact Or.inl (.same _ _)
      | fetch hat => exact Or.inl (.cpu _ (.fetch hat))
      | io time hat => exact Or.inl (.cpu _ (.io time hat))

theorem System.Carries.estimates (h : s.Carries cfg action old job) :
    job.pcb.burstEstimation = old.pcb.burstEstimation ∧
      job.pcb.leftBurstEstimation = old.pcb.leftBurstEstimation := by
  cases h with
  | same => exact ⟨rfl, rfl⟩
  | table stale serial reply =>
      unfold Job.setTable
      split
      · exact ⟨rfl, rfl⟩
      · exact ⟨rfl, rfl⟩
  | sleep => exact ⟨rfl, rfl⟩
  | cpu action hchanges => cases hchanges <;> exact ⟨rfl, rfl⟩

/-- What is left of the estimate is the estimate less the slices, as words. -/
theorem Course.estimates (h : Course cfg behaviour s job estimation slices) :
    job.pcb.burstEstimation = estimation ∧
      job.pcb.leftBurstEstimation = estimation - slices.sum := by
  induction h with
  | admitted hs h hjob =>
      rename_i action _
      cases action with
      | kernel action =>
          obtain ⟨i, socket, fresh, -, -, rfl⟩ := hjob
          exact ⟨rfl, (BitVec.sub_zero _).symm⟩
      | cpu action => exact hjob.elim
  | carried hold h hjob ih =>
      obtain ⟨hestimation, hleft⟩ := hjob.estimates
      exact ⟨hestimation.trans ih.1, hleft.trans ih.2⟩
  | @interrupted s _ now job estimation slices hjob h hat ih =>
      refine ⟨ih.1, ?_⟩
      calc (job.pcb.chargeSlice now s.kernel.toExecTime).leftBurstEstimation
          = job.pcb.leftBurstEstimation - (now - s.kernel.toExecTime) := rfl
        _ = estimation - slices.sum - (now - s.kernel.toExecTime) := by rw [ih.2]
        _ = estimation - (slices ++ [now - s.kernel.toExecTime]).sum := by
            rw [List.sum_append, List.sum_singleton]
            bv_omega
  | blocked hjob h hat ih => exact ⟨rfl, (BitVec.sub_zero _).symm⟩

/-! ## Signed readings -/

/-- The time executed in the slices. -/
def executed (slices : List Word) : ℤ :=
  (slices.map BitVec.toInt).sum

/-- The number fits an `int`. -/
def Fits (n : ℤ) : Prop :=
  -2 ^ 31 ≤ n ∧ n < 2 ^ 31

theorem Fits.bmod_eq {n : ℤ} (h : Fits n) : n.bmod (2 ^ 32) = n := by
  obtain ⟨hlow, hhigh⟩ := h
  apply Int.bmod_eq_of_le
  · norm_num at hlow ⊢
    exact hlow
  · norm_num at hhigh ⊢
    exact hhigh

theorem toInt_sum (slices : List Word) : slices.sum.toInt = (executed slices).bmod (2 ^ 32) := by
  induction slices with
  | nil => rfl
  | cons slice slices ih =>
      rw [List.sum_cons, BitVec.toInt_add, ih, Int.add_bmod_bmod, executed, executed,
        List.map_cons, List.sum_cons]

/-- `real` is the sum of the slices and the last one. -/
theorem Course.realBurst (h : Course cfg behaviour s job estimation slices) (fromMs toMs : Word)
    (hfits : Fits (executed (slices ++ [fromMs - toMs]))) :
    (job.pcb.realBurst fromMs toMs).toInt = executed (slices ++ [fromMs - toMs]) := by
  obtain ⟨hestimation, hleft⟩ := h.estimates
  have hword : job.pcb.realBurst fromMs toMs = (slices ++ [fromMs - toMs]).sum := by
    rw [Pcb.realBurst, hestimation, hleft, List.sum_append, List.sum_singleton]
    bv_omega
  rw [hword, toInt_sum, hfits.bmod_eq]

end

end SistemasOperativos
