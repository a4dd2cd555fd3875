import SistemasOperativos.System.Composition

/-!
# What the kernel adds to the history

One lemma says of every event a step of the kernel adds at which point of which thread it was
added; statements about the history are read off it.
-/

namespace SistemasOperativos

namespace Kernel

variable {cfg : KernelConfig} {behaviour : MemoryBehaviour} {k k' : Kernel} {stale : ℕ → Pcb}
  {action : KernelAction}

/-! ## The history of a scan -/

theorem ExitScan.count_history_foldl {pid : Word} {stale : ℕ → Pcb} {jobs : List Job}
    {scan : ExitScan} {event : Event} (hevent : ∀ serial, event ≠ .readDestroyed serial) :
    (jobs.foldl (visit pid stale) scan).history.count event = scan.history.count event := by
  obtain ⟨reads, hreads, hall⟩ := history_foldl pid stale jobs scan
  rw [hreads, List.count_append, Nat.add_eq_left, List.count_eq_zero]
  intro hmem
  obtain ⟨serial, rfl⟩ := hall _ hmem
  exact hevent serial rfl

/-- A scan adds nothing to the count of other events. -/
theorem ExitScan.countP_history_foldl {pid : Word} {stale : ℕ → Pcb} {jobs : List Job}
    {scan : ExitScan} {p : Event → Bool} (hp : ∀ serial, p (.readDestroyed serial) = false) :
    (jobs.foldl (visit pid stale) scan).history.countP p = scan.history.countP p := by
  obtain ⟨reads, hreads, hall⟩ := history_foldl pid stale jobs scan
  rw [hreads, List.countP_append, Nat.add_eq_left, List.countP_eq_zero]
  intro event hmem
  obtain ⟨serial, rfl⟩ := hall event hmem
  simp [hp serial]

/-! ## The point at which an event is added -/

/-- The thread that adds the event is at the point that does. -/
def Adds (k : Kernel) (action : KernelAction) : Event → Prop
  | .permit _ => k.toReadyThread = .popSuspended ∨ k.toReadyThread = .popNew
  | .suspended serial => k.ioThread = .release serial
  | .dispatched serial => ∃ job, k.toExecThread = .send job ∧ job.serial = serial ∧
      ∃ now, action = .toExec now
  | .stamped serial _ => k.toExecThread = .stamp serial
  | .measured serial toExecTime => toExecTime = k.toExecTime ∧ ∃ job, job.serial = serial ∧
      (k.dispatchThread = .interrupted job ∨ k.dispatchThread = .io job)
  | .exitReceived serial => ∃ job rest, k.fromCpu = (.exitCall, job) :: rest ∧ job.serial = serial
  | .exitRequested serial => ∃ job, k.exitProcessThread = .send job ∧ job.serial = serial
  | .processOk serial socket => (∃ stale, action = .memoryListener stale) ∧
      ∃ reply, k.memoryThread = .exitAnswer reply (some (serial, socket))
  | .readDestroyed _ => ∃ serial pid, k.memoryThread = .exitScan serial pid
  | .exitHandled serial => (∃ stale, action = .memoryListener stale) ∧
      k.memoryThread = .exitPermit serial
  | .tableHandled .. | .suspensionHandled => ∃ stale, action = .memoryListener stale
  | .executed .. | .answered .. => False

theorem memoryListener_adds (h : k.memoryListener stale = some k') :
    ∃ events, k'.history = k.history ++ events ∧
      ∀ event ∈ events, k.Adds (.memoryListener stale) event := by
  unfold memoryListener at h
  cases hat : k.memoryThread with
  | exitScan serial pid =>
      simp only [hat, Option.some.injEq] at h
      subst h
      obtain ⟨reads, hreads, hall⟩ := ExitScan.history_foldl pid stale k.memoryExitQ.items
        ⟨k.destroyed, none, false, k.history⟩
      refine ⟨reads, hreads, fun event hmem => ?_⟩
      obtain ⟨_, rfl⟩ := hall event hmem
      exact ⟨serial, pid, hat⟩
  | tableScan reply rest found =>
      cases rest <;> cases found <;> simp only [hat] at h
      all_goals repeat' split at h
      all_goals cases h
      all_goals first
        | exact ⟨[], (List.append_nil _).symm, by simp⟩
        | exact ⟨[_], rfl, by simp [Adds]⟩
  | _ =>
      simp only [hat] at h
      repeat' split at h
      all_goals cases h
      all_goals first
        | exact ⟨[], (List.append_nil _).symm, by simp⟩
        | exact ⟨[_], rfl, by simp [Adds, hat]⟩

/-- Every event a step adds is added at the point for it. -/
theorem step_adds (h : k.step cfg behaviour action = some k') :
    ∃ events, k'.history = k.history ++ events ∧ ∀ event ∈ events, k.Adds action event := by
  unfold step at h
  split at h
  · cases h
  cases action with
  | memoryListener stale => exact memoryListener_adds h
  | toReady =>
      simp only [toReady, putToReady] at h
      repeat' split at h
      all_goals cases h
      all_goals first
        | exact ⟨[], (List.append_nil _).symm, by simp⟩
        | exact ⟨[_], rfl, by simp [Adds, ‹k.toReadyThread = _›]⟩
  | toExec now =>
      simp only [toExec] at h
      repeat' split at h
      all_goals cases h
      all_goals first
        | exact ⟨[], (List.append_nil _).symm, by simp⟩
        | exact ⟨[_], rfl, by simp [Adds, ‹k.toExecThread = _›]⟩
  | exitProcess =>
      simp only [exitProcess] at h
      repeat' split at h
      all_goals cases h
      all_goals first
        | exact ⟨[], (List.append_nil _).symm, by simp⟩
        | exact ⟨[_], rfl, by simp [Adds, ‹k.exitProcessThread = _›]⟩
  | dispatchListener now =>
      simp only [dispatchListener] at h
      repeat' split at h
      all_goals cases h
      all_goals first
        | exact ⟨[], (List.append_nil _).symm, by simp⟩
        | exact ⟨[_], rfl, List.forall_mem_singleton.2 ⟨_, _, ‹k.fromCpu = _›, rfl⟩⟩
        | exact ⟨[_], rfl, by simp [Adds, ‹k.dispatchThread = _›]⟩
  | ioListener now =>
      simp only [ioListener, putToReady] at h
      repeat' split at h
      all_goals cases h
      all_goals first
        | exact ⟨[], (List.append_nil _).symm, by simp⟩
        | exact ⟨[_], rfl, by simp [Adds, ‹k.ioThread = _›]⟩
  | _ =>
      simp only [consoleAccept, consoleReceive, console, memoryReplies] at h
      repeat' split at h
      all_goals cases h
      all_goals exact ⟨[], (List.append_nil _).symm, by simp⟩

/-- The kernel adds no event of the CPU. -/
theorem step_history (h : k.step cfg behaviour action = some k') :
    ∃ events, k'.history = k.history ++ events ∧ ∀ event ∈ events, event.byCpu = false := by
  obtain ⟨events, hevents, hadds⟩ := step_adds h
  refine ⟨events, hevents, fun event hmem => ?_⟩
  have := hadds event hmem
  cases event <;> first | rfl | exact this.elim

end Kernel

/-! ## What the CPU adds -/

/-- A step of the CPU adds events of the CPU. -/
theorem Cpu.step_history {c c' : Cpu} {ports ports' : CpuPorts} {action : CpuAction}
    (h : c.step ports action = some (c', ports')) :
    ∃ events, ports'.history = ports.history ++ events ∧
      ∀ event ∈ events, event.byCpu = true := by
  unfold step at h
  split at h
  · cases h
  cases action with
  | receivePcb =>
      simp only [receivePcb] at h
      repeat' split at h
      all_goals cases h
      all_goals exact ⟨[], (List.append_nil _).symm, nofun⟩
  | receiveInterruption =>
      simp only [receiveInterruption] at h
      repeat' split at h
      all_goals cases h
      exact ⟨[], (List.append_nil _).symm, nofun⟩
  | cpuCycle =>
      simp only [cpuCycle] at h
      repeat' split at h
      all_goals cases h
      all_goals first
        | exact ⟨[], (List.append_nil _).symm, by simp⟩
        | exact ⟨[_], rfl, by simp [Event.byCpu]⟩

theorem Event.thread_of_byCpu {event : Event} (h : event.byCpu = true) : event.thread = .cpu := by
  cases event <;> simp_all [byCpu]

/-- Using the sockets adds events of the CPU. -/
theorem Kernel.records_withPorts {k : Kernel} {ports : CpuPorts} {events : List Event}
    (hhistory : ports.history = k.history ++ events)
    (hcpu : ∀ event ∈ events, event.byCpu = true) : Records .cpu k (k.withPorts ports) :=
  ⟨events, hhistory, fun event hmem => Event.thread_of_byCpu (hcpu event hmem)⟩

/-- A step of the system is one of the kernel, or uses the CPU's end of the sockets and adds
events of the CPU to the history. -/
theorem System.step_kernel {cfg : KernelConfig} {behaviour : MemoryBehaviour} {action : Action}
    {s s' : System} (h : s.step cfg behaviour action = some s') :
    (∃ kernelAction, action = .kernel kernelAction ∧
      s.kernel.step cfg behaviour kernelAction = some s'.kernel) ∨
    ∃ ports events, s'.kernel = s.kernel.withPorts ports ∧
      ports.history = s.kernel.history ++ events ∧ ∀ event ∈ events, event.byCpu = true := by
  rcases step_cases h with ⟨action, k, rfl, hstep, rfl⟩ | ⟨action, c, ports, rfl, hcpu, rfl⟩
  · exact .inl ⟨action, rfl, hstep⟩
  · obtain ⟨events, hhistory, hevents⟩ := Cpu.step_history hcpu
    exact .inr ⟨ports, events, rfl, hhistory, hevents⟩

end SistemasOperativos
