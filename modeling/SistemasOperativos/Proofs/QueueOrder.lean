import SistemasOperativos.Proofs.Interrupts
import SistemasOperativos.System.Service

/-!
# The queues of the kernel serve in order

Whatever the interleaving, each queue gives its processes back in the order in which it got them,
and loses none: those that came are those that left and, behind them, those that wait.  Under SRT
the ready queue is sorted and serves in another order.
-/

namespace SistemasOperativos

namespace Kernel

variable {cfg : KernelConfig} {behaviour : MemoryBehaviour} {k k' : Kernel} {now : Word}
  {stale : ℕ → Pcb} {action : KernelAction} {queue : KernelQueue}

/-! ## Steps of the kernel -/

/-- The queue changes as the log says. -/
def Flows (queue : KernelQueue) (log : List Transit) (k k' : Kernel) : Prop :=
  k.waiting queue ++ arrivals queue log = departures queue log ++ k'.waiting queue

/-- The step does not sort the queue. -/
def Unsorted (k : Kernel) (queue : KernelQueue) : Prop :=
  queue = .readyQ → k.puts PutToReady.replanning = 0

theorem Flows.of_waiting_eq (h : k'.waiting queue = k.waiting queue) : Flows queue [] k k' := by
  rw [Flows, h, arrivals_nil, departures_nil, List.append_nil, List.nil_append]

theorem toReady_flows (h : k.toReady cfg = some k') (hunsorted : k.Unsorted queue) :
    Flows queue (k.transits .toReady) k k' := by
  unfold toReady putToReady at h
  repeat' split at h
  all_goals cases h
  all_goals cases queue
  all_goals simp_all [Flows, Unsorted, transits, puttingToReady, taking, waiting, Kernel.queueNamed,
    PQueue.wait_eq_some, PQueue.pop_eq_some, arrivals, departures, Transit.puts, Transit.takes,
    puts, ToReady.putting, PutToReady.replanning]

theorem ioListener_flows (h : k.ioListener cfg now = some k') (hunsorted : k.Unsorted queue) :
    Flows queue (k.transits (.ioListener now)) k k' := by
  unfold ioListener putToReady at h
  repeat' split at h
  all_goals cases h
  all_goals cases queue
  all_goals simp_all [Flows, Unsorted, transits, puttingToReady, taking, waiting, Kernel.queueNamed,
    PQueue.wait_eq_some, PQueue.pop_eq_some, arrivals, departures, Transit.puts, Transit.takes,
    puts, IoListener.putting, PutToReady.replanning]

theorem toExec_flows (h : k.toExec now = some k') :
    Flows queue (k.transits (.toExec now)) k k' := by
  unfold toExec at h
  repeat' split at h
  all_goals cases h
  all_goals cases queue
  all_goals simp_all [Flows, transits, taking, waiting, Kernel.queueNamed, PQueue.wait_eq_some,
    PQueue.pop_eq_some, arrivals, departures, Transit.puts, Transit.takes]

theorem exitProcess_flows (h : k.exitProcess = some k') :
    Flows queue (k.transits .exitProcess) k k' := by
  unfold exitProcess at h
  repeat' split at h
  all_goals cases h
  all_goals cases queue
  all_goals simp_all [Flows, transits, taking, waiting, Kernel.queueNamed, PQueue.wait_eq_some,
    PQueue.pop_eq_some, arrivals, departures, Transit.puts, Transit.takes]

theorem dispatchListener_flows (h : k.dispatchListener cfg now = some k') :
    Flows queue (k.transits (.dispatchListener now)) k k' := by
  unfold dispatchListener at h
  repeat' split at h
  all_goals cases h
  all_goals cases queue
  all_goals simp_all [Flows, transits, waiting, Kernel.queueNamed, arrivals, departures,
    Transit.puts, Transit.takes]

/-- The listener takes a PCB from `memory_init_q`, and changes some of them there. -/
theorem memoryListener_flows (h : k.memoryListener stale = some k') :
    Flows queue (k.transits (.memoryListener stale)) k k' := by
  unfold memoryListener setTable at h
  repeat' split at h
  all_goals cases h
  all_goals cases queue
  all_goals simp_all [Flows, transits, taking, waiting, Kernel.queueNamed, PQueue.wait_eq_some,
    PQueue.pop_eq_some, arrivals, departures, Transit.puts, Transit.takes, Function.comp_def]

theorem console_flows {i : ℕ} (h : k.console cfg i = some k') :
    Flows queue (k.transits (.console i)) k k' := by
  unfold console at h
  repeat' split at h
  all_goals cases h
  all_goals cases queue
  all_goals simp_all [Flows, transits, waiting, Kernel.queueNamed, arrivals, departures,
    Transit.puts, Transit.takes]

theorem step_flows (h : k.step cfg behaviour action = some k') (hunsorted : k.Unsorted queue) :
    Flows queue (k.transits action) k k' := by
  have hwrites := step_writes h
  unfold step at h
  split at h
  · cases h
  cases action with
  | console i => exact console_flows h
  | toReady => exact toReady_flows h hunsorted
  | toExec now => exact toExec_flows h
  | exitProcess => exact exitProcess_flows h
  | dispatchListener now => exact dispatchListener_flows h
  | memoryListener stale => exact memoryListener_flows h
  | ioListener now => exact ioListener_flows h hunsorted
  | _ =>
      rw [hwrites.fields]
      exact .of_waiting_eq (by cases queue <;> rfl)

end Kernel

/-! ## Runs -/

namespace System

variable {cfg : KernelConfig} {behaviour : MemoryBehaviour} {s s' : System}

/-- The system with a log of what its queues get and give. -/
abbrev queued (cfg : KernelConfig) (behaviour : MemoryBehaviour) :
    Machine (System × List Transit) Action :=
  (system cfg behaviour).observe transits

/-- Only the kernel changes its queues. -/
theorem step_flows {action : Action} (h : (system cfg behaviour).step action s = some s')
    {queue : KernelQueue} (hunsorted : s.kernel.Unsorted queue) :
    Kernel.Flows queue (transits action s) s.kernel s'.kernel := by
  rcases step_cases h with ⟨action, k, rfl, hk, rfl⟩ | ⟨action, c, ports, rfl, -, rfl⟩
  · exact Kernel.step_flows hk hunsorted
  · exact .of_waiting_eq (by cases queue <;> rfl)

theorem flows_of_reachable {p : System × List Transit} (hp : (queued cfg behaviour).Reachable p)
    {queue : KernelQueue} (hqueue : queue = .readyQ → cfg.sortingAlgorithm = .fifo) :
    arrivals queue p.2 = departures queue p.2 ++ p.1.kernel.waiting queue := by
  have hknown : ∀ p, (queued cfg behaviour).Reachable p → (system cfg behaviour).Reachable p.1 :=
    fun p hp => @Machine.ReachableBy.unobserved _ _ _ (fun _ _ => True) _ _ _ hp
  refine hp.invariant_of hknown ?initial ?step
  case initial => cases queue <;> rfl
  case step =>
    intro action p p' _ hreachable hp h
    obtain ⟨hstep, hlog⟩ := Machine.observe_step.mp h
    have hunsorted : p.1.kernel.Unsorted queue :=
      fun heq => not_replanning_of_reachable (hqueue heq) hreachable
    calc arrivals queue p'.2
        = arrivals queue p.2 ++ arrivals queue (transits action p.1) := by
          rw [hlog, arrivals_append]
      _ = departures queue p.2 ++
            (p.1.kernel.waiting queue ++ arrivals queue (transits action p.1)) := by
          rw [hp, List.append_assoc]
      _ = departures queue p.2 ++
            (departures queue (transits action p.1) ++ p'.1.kernel.waiting queue) := by
          rw [step_flows hstep hunsorted]
      _ = departures queue p'.2 ++ p'.1.kernel.waiting queue := by
          rw [hlog, departures_append, List.append_assoc]

/-- In every run the `i`-th process to leave a queue is the `i`-th that came to it, and those that
wait are the last that came, in their order; the ready queue under SRT apart. -/
theorem served_in_order {p : System × List Transit} (hp : (queued cfg behaviour).Reachable p)
    {queue : KernelQueue} (hqueue : queue = .readyQ → cfg.sortingAlgorithm = .fifo) :
    departures queue p.2 <+: arrivals queue p.2 ∧
    p.1.kernel.waiting queue = (arrivals queue p.2).drop (departures queue p.2).length := by
  have hflows := flows_of_reachable hp hqueue
  refine ⟨⟨_, hflows.symm⟩, ?_⟩
  rw [hflows, List.drop_left]

/-- Three processes come to `new_q`, and `to_ready` has taken the first. -/
theorem served_in_order_small : ∃ p, (queued (.small .srt) inOrder).Reachable p ∧
    departures .newQ p.2 = [0] ∧ p.1.kernel.waiting .newQ = [1, 2] ∧
    [0] <+: arrivals .newQ p.2 ∧ [1, 2] = (arrivals .newQ p.2).drop 1 := by
  obtain ⟨p, hp, htest⟩ := Machine.exists_reachable_of_run (queued (.small .srt) inOrder)
    (onKernel (admission 0 7 [] ++ admission 1 8 [] ++ admission 2 9 [] ++
      List.replicate 6 .toReady))
    (fun p => departures .newQ p.2 = [0] ∧ p.1.kernel.waiting .newQ = [1, 2])
    (by decide +kernel)
  obtain ⟨hleft, hwaiting⟩ := of_decide_eq_true htest
  have hserved := @served_in_order _ _ _ hp .newQ fun heq => by cases heq
  rw [hleft, hwaiting] at hserved
  exact ⟨p, hp, hleft, hwaiting, hserved⟩

end System
end SistemasOperativos
