import SistemasOperativos.Library.Logs
import SistemasOperativos.Proofs.Dispatch
import SistemasOperativos.Proofs.Lifecycle
import SistemasOperativos.Proofs.QueueOrder
import SistemasOperativos.Proofs.Sessions

/-!
# First come, first served

Under FIFO the processes go to the CPU in the order in which they came to the ready queue, each
time anew, and for the first time in the order in which they came to `new_q`.  A process comes to
the ready queue for the first time from `to_ready`, which took it from `new_q`; whoever else puts
a process there has one that has been there before.
-/

open Tally FirstEntries

namespace SistemasOperativos

/-! ## What has left the ready queue -/

theorem dispatches_of_byCpu {events : List Event} (h : ∀ event ∈ events, event.byCpu = true) :
    dispatches events = [] := by
  refine List.filterMap_eq_nil_iff.2 fun event hmem => ?_
  have := h event hmem
  cases event <;> simp_all [Event.byCpu, Event.dispatches]

namespace Kernel

variable {cfg : KernelConfig} {behaviour : MemoryBehaviour} {k k' : Kernel} {now : Word}
  {stale : ℕ → Pcb} {action : KernelAction}

/-- Only `to_exec` takes from the ready queue. -/
theorem departures_readyQ_of_other (h : ∀ now, action ≠ .toExec now) :
    departures .readyQ (k.transits action) = [] := by
  cases action with
  | toExec now => exact absurd rfl (h now)
  | _ =>
      simp only [transits]
      repeat' split
      all_goals simp [departures_taking_of_ne]

/-- The processes dispatched, and the one `to_exec` has taken and not sent. -/
def sentOrHeld (k : Kernel) : List ℕ :=
  dispatches k.history ++ k.toExecThread.hands.map Job.serial

/-- What leaves the ready queue is sent to the CPU. -/
theorem step_sentOrHeld (h : k.step cfg behaviour action = some k') :
    k'.sentOrHeld = k.sentOrHeld ++ departures .readyQ (k.transits action) := by
  by_cases hexec : ∃ now, action = .toExec now
  · obtain ⟨now, rfl⟩ := hexec
    simp only [step, toExec] at h
    repeat' split at h
    all_goals cases h
    all_goals simp_all [sentOrHeld, dispatches, Event.dispatches, ToExec.hands, transits, taking,
      waiting, Kernel.queueNamed, departures, Transit.takes, PQueue.pop_eq_some]
  · have hother := fun now heq => hexec ⟨now, heq⟩
    have hthread : k'.toExecThread = k.toExecThread := by
      have hwrites := step_writes h
      cases action with
      | toExec now => exact absurd rfl (hother now)
      | _ => rw [hwrites.fields]; rfl
    obtain ⟨events, hevents, hadds⟩ := step_adds h
    rw [sentOrHeld, hevents, dispatches_append, dispatches_of_adds hadds hother, hthread,
      departures_readyQ_of_other hother, List.append_nil, List.append_nil]
    rfl

/-! ## What has come to `new_q` -/

/-- Only console threads put on `new_q`. -/
theorem arrivals_newQ_of_other (h : ∀ i, action ≠ .console i) :
    arrivals .newQ (k.transits action) = [] := by
  cases action with
  | console i => exact absurd rfl (h i)
  | _ =>
      simp only [transits]
      repeat' split
      all_goals simp [arrivals_puttingToReady]

/-- Only `to_ready` takes from `new_q`. -/
theorem departures_newQ_of_other (h : action ≠ .toReady) :
    departures .newQ (k.transits action) = [] := by
  cases action with
  | toReady => exact absurd rfl h
  | _ =>
      simp only [transits]
      repeat' split
      all_goals simp [departures_taking_of_ne]

/-- A process admitted is in the hands of its console thread until it comes to `new_q`. -/
theorem step_arrived (h : k.step cfg behaviour action = some k') (hk : k.InitHandshake) (t : ℕ) :
    (arrivals .newQ (k.transits action)).count t + tally Job.serial t (consoleHands k'.consoles) +
        k.admittedCount t =
      tally Job.serial t (consoleHands k.consoles) + k'.admittedCount t := by
  have hwrites := step_writes h
  by_cases hconsole : action.thread = .console
  · have hunsent := step_unsent h hk t
    have hflows := @step_flows _ _ _ _ _ .newQ h fun heq => by cases heq
    have hother : action ≠ .toReady := by
      rintro rfl
      cases hconsole
    rw [Flows, departures_newQ_of_other hother, List.nil_append] at hflows
    have hcount := congrArg (List.count t) hflows
    have hsame : k'.toReadyThread = k.toReadyThread := by
      cases action <;> first | (rw [hwrites.fields]; rfl) | exact absurd hconsole (by simp)
    have hasks : tally Request.about (.new, t) (k.sends action) = 0 := by
      cases action <;> first | rfl | exact absurd hconsole (by simp)
    simp only [waiting, queueNamed, List.count_append, ← tally_eq_count] at hcount
    simp only [unsent, hsame, hasks] at hunsent
    omega
  · have hnone : arrivals .newQ (k.transits action) = [] :=
      arrivals_newQ_of_other fun i heq => hconsole (heq ▸ rfl)
    have hsame : k'.consoles = k.consoles ∧ k'.admitted = k.admitted := by
      cases action <;> first | exact absurd rfl hconsole | (rw [hwrites.fields]; exact ⟨rfl, rfl⟩)
    rw [hnone, hsame.1, admittedCount, admittedCount, hsame.2, List.count_nil]
    omega

/-! ## Processes on their way to the ready queue -/

end Kernel

/-- The process that `to_ready` moves, from the pop that gave it to it to its push. -/
def ToReady.moving : ToReady → List Job
  | .sendNew job | .pushInit job | .postInit job | .awaitTable job => [job]
  | .put state => state.hands
  | _ => []

@[simp] theorem ToReady.serials_moving_mapWaiting (serial : ℕ) (reply : TableReply)
    (state : ToReady) : (state.mapWaiting (Job.setTable serial reply)).moving.map Job.serial =
      state.moving.map Job.serial := by
  cases state <;> simp [mapWaiting, moving]

namespace Kernel

variable {cfg : KernelConfig} {behaviour : MemoryBehaviour} {k k' : Kernel} {now : Word}
  {stale : ℕ → Pcb} {action : KernelAction}

/-- The process moved is with `to_ready`, in `memory_init_q` or with the memory listener. -/
theorem InitHandshake.tally_moving_le (hk : k.InitHandshake) (t : ℕ) :
    tally Job.serial t k.toReadyThread.moving ≤
      tally Job.serial t (k.toReadyThread.hands k.pcbTableReady) +
        tally Job.serial t k.memoryInitQ.items + tally Job.serial t k.memoryThread.hands := by
  have hwaiting : k.toReadyThread.waiting = k.toReadyThread.moving ∨
      k.toReadyThread.hands k.pcbTableReady = k.toReadyThread.moving := by
    cases k.toReadyThread <;> simp [ToReady.waiting, ToReady.moving, ToReady.hands]
  rcases hwaiting with hwaiting | hhands
  · rcases hk.passed with ⟨-, hpassed⟩ | ⟨hready, -, -⟩
    · have hserials := congrArg (List.map Prod.fst) hpassed
      have hserial : Prod.fst ∘ Job.progress = Job.serial := rfl
      rw [List.map_map, List.map_map, hserial, hwaiting] at hserials
      have hcount := congrArg (List.count t) hserials
      simp only [← tally_eq_count, tally_append] at hcount
      omega
    · have hhands : k.toReadyThread.hands k.pcbTableReady = k.toReadyThread.moving := by
        revert hwaiting
        cases k.toReadyThread <;>
          simp [ToReady.waiting, ToReady.moving, ToReady.hands, hready]
      rw [hhands]
      omega
  · rw [hhands]
    omega

/-- The PCBs that can come to the ready queue again. -/
def returning (k : Kernel) : List Job :=
  k.suspendedReadyQ.items ++ k.ioThread.hands ++ k.dispatchThread.hands

/-- The processes that have come to `new_q` are those that have come to the ready queue, in the
order of their first arrival, the one on its way there and those that wait. -/
def Started (k : Kernel) (new ready : List ℕ) : Prop :=
  new = (ready ++ k.toReadyThread.moving.map Job.serial).eraseDups ++ k.waiting .newQ

theorem toReady_started {new ready : List ℕ} (h : k.toReady cfg = some k') (hnew : new.Nodup)
    (hreturning : ∀ job ∈ k.returning, job.serial ∈ ready) (hk : k.Started new ready) :
    k'.Started new (ready ++ arrivals .readyQ (k.transits .toReady)) := by
  unfold toReady at h
  cases hat : k.toReadyThread with
  | popNew =>
      -- the process comes from `new_q`, and has not been on the ready queue
      simp only [hat] at h
      split at h <;> cases h
      rename_i job q hpop
      obtain ⟨hitems, -⟩ := PQueue.pop_eq_some.1 hpop
      simp only [Started, hat, ToReady.moving, waiting, queueNamed, hitems, List.map_nil,
        List.map_cons, List.append_nil] at hk ⊢
      have hfresh : job.serial ∉ ready := by
        intro hmem
        rw [hk] at hnew
        exact (List.nodup_append.1 hnew).2.2 _ (List.mem_eraseDups.2 hmem) _
          List.mem_cons_self rfl
      simp only [transits, hat, arrivals_taking, List.append_nil]
      rw [hk, eraseDups_concat_of_notMem hfresh, List.append_assoc, List.singleton_append]
  | popSuspended =>
      -- the process comes from a suspension, and has been on the ready queue before it
      simp only [hat] at h
      split at h <;> cases h
      rename_i job q hpop
      obtain ⟨hitems, -⟩ := PQueue.pop_eq_some.1 hpop
      have hmem : [job.serial] ⊆ ready := by
        simpa using hreturning job (by simp [returning, hitems])
      have hsame := eraseDups_insert_of_subset (m := []) hmem
      simp only [List.append_nil] at hsame
      simp only [Started, hat, ToReady.moving, PutToReady.hands, waiting, queueNamed, List.map_nil,
        List.map_cons, List.append_nil] at hk ⊢
      simp only [transits, hat, arrivals_taking, List.append_nil]
      rw [hk, hsame]
  | put state =>
      simp only [hat, putToReady] at h
      repeat' split at h
      all_goals cases h
      all_goals simp_all [Started, ToReady.moving, PutToReady.hands, waiting, queueNamed, transits,
        puttingToReady]
  | _ =>
      simp only [hat] at h
      repeat' split at h
      all_goals cases h
      all_goals simp_all [Started, ToReady.moving, PutToReady.hands, waiting, queueNamed, transits,
        PQueue.wait_eq_some]

/-- The other threads put on the ready queue what has been there. -/
theorem arrivals_readyQ_subset {ready : List ℕ} (hother : action ≠ .toReady)
    (hreturning : ∀ job ∈ k.returning, job.serial ∈ ready) :
    arrivals .readyQ (k.transits action) ⊆ ready := by
  cases action with
  | toReady => exact absurd rfl hother
  | dispatchListener now =>
      simp only [transits]
      split
      all_goals simp_all [returning, DispatchListener.hands]
  | ioListener now =>
      simp only [transits]
      split
      all_goals simp_all [returning, IoListener.hands]
      rename_i state hat
      cases state <;> simp_all [puttingToReady, PutToReady.hands]
  | _ =>
      simp only [transits]
      repeat' split
      all_goals simp

theorem step_started {new ready : List ℕ} (h : k.step cfg behaviour action = some k')
    (hnew : new.Nodup) (hreturning : ∀ job ∈ k.returning, job.serial ∈ ready)
    (hk : k.Started new ready) :
    k'.Started (new ++ arrivals .newQ (k.transits action))
      (ready ++ arrivals .readyQ (k.transits action)) := by
  by_cases haction : action = .toReady
  · subst haction
    rw [arrivals_newQ_of_other (fun i heq => by cases heq), List.append_nil]
    unfold step at h
    split at h
    · cases h
    · exact toReady_started h hnew hreturning hk
  · have hmoving : k'.toReadyThread.moving.map Job.serial =
        k.toReadyThread.moving.map Job.serial := by
      have hwrites := step_writes h
      unfold step at h
      split at h
      · cases h
      cases action with
      | toReady => exact absurd rfl haction
      | memoryListener stale =>
          exact memoryListener_toReadyThread (fun state => state.moving.map Job.serial)
            ToReady.serials_moving_mapWaiting h
      | _ =>
          rw [hwrites.fields]
          rfl
    have hflows := @step_flows _ _ _ _ _ .newQ h fun heq => by cases heq
    rw [Flows, departures_newQ_of_other haction, List.nil_append] at hflows
    rw [Started, hmoving, eraseDups_insert_of_subset (arrivals_readyQ_subset haction hreturning),
      ← hflows, hk, List.append_assoc]

end Kernel

/-! ## Runs -/

namespace System

variable {cfg : KernelConfig} {behaviour : MemoryBehaviour} {s s' : System}
  {p p' : System × List Transit}

/-- Every process admitted has come to `new_q` once or is with its console thread, and those that
came have come to the ready queue in that order. -/
structure Sequenced (p : System × List Transit) : Prop where
  arrived : ∀ t, (arrivals .newQ p.2).count t +
    tally Job.serial t (consoleHands p.1.kernel.consoles) = p.1.kernel.admittedCount t
  started : p.1.kernel.Started (arrivals .newQ p.2) (arrivals .readyQ p.2)

theorem Sequenced.nodup (hp : Sequenced p) : (arrivals .newQ p.2).Nodup := by
  refine List.nodup_iff_count_le_one.2 fun t => ?_
  have harrived := hp.arrived t
  have hone := Kernel.admittedCount_le_one p.1.kernel t
  omega

/-- A process that can come to the ready queue again has been there: it is in one place, so it is
not on its way there from `new_q`. -/
theorem Sequenced.mem_of_returning (hp : Sequenced p) (hconserved : p.1.toContract.Conserved)
    {job : Job} (hjob : job ∈ p.1.kernel.returning) :
    job.serial ∈ arrivals .readyQ p.2 := by
  have honce := hconserved.once job.serial
  have hone := hconserved.tally_le_one job.serial
  have hmoving := hconserved.handshake.tally_moving_le job.serial
  have harrived := hp.arrived job.serial
  have hhere : 0 < tally Job.serial job.serial p.1.kernel.returning :=
    tally_pos.2 ⟨job, hjob, rfl⟩
  simp only [Kernel.returning, tally_append] at hhere
  simp only [toContract] at honce hone hmoving
  rw [Kernel.tally_jobs] at honce hone
  have hmem : job.serial ∈ arrivals .newQ p.2 := List.count_pos_iff.1 (by omega)
  have hnotMoving : job.serial ∉ p.1.kernel.toReadyThread.moving.map Job.serial := by
    rw [← List.count_eq_zero, ← tally_eq_count]
    omega
  have hnotNew : job.serial ∉ p.1.kernel.waiting .newQ := by
    rw [Kernel.waiting, ← List.count_eq_zero, ← tally_eq_count, Kernel.queueNamed]
    omega
  rw [hp.started, List.mem_append, List.mem_eraseDups, List.mem_append] at hmem
  simpa [hnotMoving, hnotNew] using hmem

theorem sequenced_of_reachable
    (hp : (queued cfg behaviour).ReachableBy (fun action p => InterruptsHeld action p.1) p) :
    Sequenced p := by
  refine hp.invariant_of (fun _ => Machine.ReachableBy.unobserved) ?initial ?step
  case initial =>
    exact ⟨fun t => rfl, rfl⟩
  case step =>
    intro action p p' _ hreachable hp h
    obtain ⟨hstep, hlog⟩ := Machine.observe_step.mp h
    have hconserved := Contract.conserved_of_reachable (toContract_reachable hreachable).2
    rcases step_cases hstep with ⟨action, k, rfl, hk, heq⟩ | ⟨action, c, ports, rfl, -, heq⟩
    · have harrived := Kernel.step_arrived hk hconserved.handshake
      have hstarted := Kernel.step_started hk hp.nodup
        (fun job hjob => hp.mem_of_returning hconserved hjob) hp.started
      refine ⟨fun t => ?_, ?_⟩
      · have hcount := hp.arrived t
        have hmore := harrived t
        rw [hlog, arrivals_append, List.count_append, heq]
        simp only [transits]
        omega
      · rw [hlog, arrivals_append, arrivals_append, heq]
        exact hstarted
    · have hsame : p'.2 = p.2 := hlog.trans (List.append_nil _)
      rw [show p' = (p'.1, p'.2) from rfl, heq, hsame]
      exact ⟨hp.arrived, hp.started⟩

/-- What has left the ready queue is what has been dispatched, and what `to_exec` holds. -/
theorem departures_readyQ (hp : (queued cfg behaviour).Reachable p) :
    p.1.kernel.sentOrHeld = departures .readyQ p.2 := by
  refine hp.invariant rfl fun action p p' _ hp h => ?_
  obtain ⟨hstep, hlog⟩ := Machine.observe_step.mp h
  rw [hlog, departures_append, ← hp]
  rcases step_cases hstep with ⟨action, k, rfl, hk, heq⟩ | ⟨action, c, ports, rfl, hcpu, heq⟩
  · rw [heq]
    exact Kernel.step_sentOrHeld hk
  · obtain ⟨events, hhistory, hevents⟩ := Cpu.step_history hcpu
    have hdispatches : dispatches ports.history = dispatches p.1.kernel.history := by
      rw [hhistory, dispatches_append, dispatches_of_byCpu hevents, List.append_nil]
      rfl
    rw [heq]
    simp only [transits, departures_nil, List.append_nil, Kernel.sentOrHeld, Kernel.withPorts,
      hdispatches]

/-- Under FIFO the processes that came to the ready queue are, in order, those dispatched, the one
`to_exec` is about to dispatch and those that wait; and the processes are dispatched for the first
time in the order in which they came to `new_q`. -/
theorem first_come_first_served (hfifo : cfg.sortingAlgorithm = .fifo)
    (hp : (queued cfg behaviour).Reachable p) :
    arrivals .readyQ p.2 = dispatches p.1.kernel.history ++
      p.1.kernel.toExecThread.hands.map Job.serial ++ p.1.kernel.waiting .readyQ ∧
    (dispatches p.1.kernel.history).eraseDups <+: arrivals .newQ p.2 := by
  have hknown : ∀ p, (queued cfg behaviour).Reachable p → (system cfg behaviour).Reachable p.1 :=
    fun p hp => @Machine.ReachableBy.unobserved _ _ _ (fun _ _ => True) _ _ _ hp
  have hheld : (queued cfg behaviour).ReachableBy (fun action p => InterruptsHeld action p.1) p :=
    Machine.Reachable.guarded hp fun action p _ hp _ =>
      interruptsHeld_of_fifo hfifo (hknown p hp) action
  have hready : arrivals .readyQ p.2 = dispatches p.1.kernel.history ++
      p.1.kernel.toExecThread.hands.map Job.serial ++ p.1.kernel.waiting .readyQ := by
    have hserved := @flows_of_reachable _ _ _ hp .readyQ fun _ => hfifo
    rw [hserved, ← departures_readyQ hp]
    rfl
  refine ⟨hready, ?_⟩
  have hstarted := (sequenced_of_reachable hheld).started
  have hbefore : dispatches p.1.kernel.history <+:
      arrivals .readyQ p.2 ++ p.1.kernel.toReadyThread.moving.map Job.serial := by
    rw [hready]
    simp only [List.append_assoc]
    exact List.prefix_append _ _
  calc (dispatches p.1.kernel.history).eraseDups
      <+: (arrivals .readyQ p.2 ++
            p.1.kernel.toReadyThread.moving.map Job.serial).eraseDups := eraseDups_prefix hbefore
    _ <+: arrivals .newQ p.2 := hstarted ▸ List.prefix_append _ _

/-- Two processes are dispatched, and the first of them again after its I/O. -/
def dispatchedAgain : List Action :=
  onKernel (admission 0 7 ioProgram ++ admission 1 8 ioProgram ++ initialization 1 ++
    List.replicate 5 .toReady ++ initialization 2 ++ List.replicate 5 .toReady ++
    List.replicate 8 (.toExec 0)) ++ List.replicate 3 (.cpu .receivePcb) ++ onCycle 9 ++
    onKernel (List.replicate 6 (.dispatchListener 5) ++ List.replicate 8 (.toExec 6)) ++
    List.replicate 3 (.cpu .receivePcb) ++ onCycle 9 ++
    onKernel (List.replicate 6 (.dispatchListener 9) ++ List.replicate 10 (.ioListener 10) ++
      List.replicate 8 (.toExec 11))

/-- Both came to the ready queue in the order of `new_q`, and the first of them came again. -/
theorem first_come_first_served_small : ∃ p, (queued (.small .fifo) inOrder).Reachable p ∧
    dispatches p.1.kernel.history = [0, 1, 0] ∧ [0, 1, 0] <+: arrivals .readyQ p.2 ∧
    [0, 1] <+: arrivals .newQ p.2 := by
  obtain ⟨p, hp, htest⟩ := Machine.exists_reachable_of_run (queued (.small .fifo) inOrder)
    dispatchedAgain (fun p => dispatches p.1.kernel.history = [0, 1, 0]) (by decide +kernel)
  have hdispatches := of_decide_eq_true htest
  obtain ⟨hready, hnew⟩ := first_come_first_served rfl hp
  rw [hdispatches] at hready hnew
  refine ⟨p, hp, hdispatches, ?_, hnew⟩
  rw [hready, List.append_assoc]
  exact List.prefix_append _ _

end System
end SistemasOperativos
