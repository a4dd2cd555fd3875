import SistemasOperativos.Proofs.Conservation
import SistemasOperativos.Proofs.ExitRequests
import Mathlib.Data.List.Induction

/-!
# The permits of the multiprogramming level

`to_ready` takes a permit from `sem_multiprogram` for each process it moves into memory;
`io_listener` gives it back when it has suspended the process, and `exit_process_success` when
the memory module has released it.  The processes that hold a permit are read off the history,
and shown to be those in memory.
-/

open Tally

namespace SistemasOperativos

/-! ## Processes waiting for admission -/

/-- `to_ready` has taken a unit of `any_for_ready` and not yet popped a process. -/
def ToReady.choosing : ToReady → ℕ
  | .permit | .choose | .chooseNew | .takeSuspended | .popSuspended | .takeNew | .popNew => 1
  | _ => 0

/-- `to_ready` has taken a permit and not yet popped the process it is for. -/
def ToReady.permitInHand : ToReady → ℕ
  | .choose | .chooseNew | .takeSuspended | .popSuspended | .takeNew | .popNew => 1
  | _ => 0

/-- `to_ready` has found `new_q` not empty. -/
def ToReady.onNew : ToReady → Bool
  | .chooseNew | .takeNew | .popNew => true
  | _ => false

/-- `to_ready` has found `suspended_ready_q` not empty. -/
def ToReady.onSuspended : ToReady → Bool
  | .takeSuspended | .popSuspended => true
  | _ => false

/-- A console thread has pushed its process and not yet posted `any_for_ready`. -/
def ConsoleThread.announcing : ConsoleThread → ℕ
  | .post | .signal => 1
  | _ => 0

/-- `io_listener` has pushed a process to `suspended_ready_q` and not yet posted
`any_for_ready`. -/
def IoListener.announcing : IoListener → ℕ
  | .postReady | .signalReady => 1
  | _ => 0

/-- The console threads about to post `any_for_ready`. -/
def consolesAnnouncing (consoles : List (Word × ConsoleThread)) : ℕ :=
  weigh (fun console => console.2.announcing) consoles

@[simp] theorem ToReady.choosing_mapWaiting (f : Job → Job) (state : ToReady) :
    (state.mapWaiting f).choosing = state.choosing := by
  cases state <;> rfl

@[simp] theorem ToReady.permitInHand_mapWaiting (f : Job → Job) (state : ToReady) :
    (state.mapWaiting f).permitInHand = state.permitInHand := by
  cases state <;> rfl

@[simp] theorem ToReady.onNew_mapWaiting (f : Job → Job) (state : ToReady) :
    (state.mapWaiting f).onNew = state.onNew := by
  cases state <;> rfl

@[simp] theorem ToReady.onSuspended_mapWaiting (f : Job → Job) (state : ToReady) :
    (state.mapWaiting f).onSuspended = state.onSuspended := by
  cases state <;> rfl

theorem consolesAnnouncing_set {consoles : List (Word × ConsoleThread)} {i : ℕ}
    {old : Word × ConsoleThread} (new : Word × ConsoleThread) (h : consoles[i]? = some old) :
    consolesAnnouncing (consoles.set i new) + old.2.announcing =
      consolesAnnouncing consoles + new.2.announcing :=
  weigh_set new h

namespace Kernel

variable {cfg : KernelConfig} {behaviour : MemoryBehaviour} {k k' : Kernel} {now : Word}
  {stale : ℕ → Pcb} {action : KernelAction}

/-- Each process in `new_q` or `suspended_ready_q` is announced by one unit of
`any_for_ready`, so `to_ready` finds a process wherever it looks for the one it was woken
for. -/
structure Announced (k : Kernel) : Prop where
  count : k.newQ.items.length + k.suspendedReadyQ.items.length =
    k.anyForReady + k.toReadyThread.choosing + consolesAnnouncing k.consoles +
      k.ioThread.announcing
  new : k.toReadyThread.onNew → k.newQ.items ≠ []
  suspended : k.toReadyThread.onSuspended → k.suspendedReadyQ.items ≠ []

theorem toReady_announced (h : k.toReady cfg = some k') (hk : k.Announced) : k'.Announced := by
  obtain ⟨hcount, hnew, hsuspended⟩ := hk
  unfold toReady at h
  cases hat : k.toReadyThread
  all_goals
    rw [hat] at hcount hnew hsuspended
    simp only [hat, putToReady] at h
    repeat' split at h
    all_goals cases h
    all_goals first
      | exact ⟨hcount, hnew, hsuspended⟩
      | constructor
  all_goals simp_all [ToReady.choosing, ToReady.onNew, ToReady.onSuspended,
    PQueue.wait_eq_some, PQueue.pop_eq_some, PQueue.isEmpty_iff]
  all_goals try omega
  -- with `suspended_ready_q` empty the process announced is in `new_q`
  all_goals
    intro hempty
    simp only [hempty, List.length_nil] at hcount
    omega

theorem ioListener_announced (h : k.ioListener cfg now = some k') (hk : k.Announced) :
    k'.Announced := by
  obtain ⟨hcount, hnew, hsuspended⟩ := hk
  unfold ioListener at h
  cases hat : k.ioThread
  case pushReady job =>
    simp only [hat, Option.some.injEq] at h
    subst h
    refine ⟨?_, hnew, by simp⟩
    simp_all [IoListener.announcing]
    omega
  all_goals
    rw [hat] at hcount
    simp only [hat, putToReady] at h
    repeat' split at h
    all_goals cases h
    all_goals first
      | exact ⟨hcount, hnew, hsuspended⟩
      | refine ⟨?_, hnew, hsuspended⟩
        simp_all [IoListener.announcing]
        try omega

theorem console_announced {i : ℕ} (h : k.console cfg i = some k') (hk : k.Announced) :
    k'.Announced := by
  obtain ⟨hcount, hnew, hsuspended⟩ := hk
  unfold console at h
  repeat' split at h
  all_goals cases h
  case h_1 socket job hget =>
    have := consolesAnnouncing_set (socket, .number job) hget
    exact ⟨by simp_all [ConsoleThread.announcing], hnew, hsuspended⟩
  case h_2 socket job hget =>
    have := consolesAnnouncing_set
      (socket, .push { job with pcb := Pcb.admit cfg job.pcb k.pid socket }) hget
    exact ⟨by simp_all [ConsoleThread.announcing], hnew, hsuspended⟩
  case h_3 socket job hget =>
    have := consolesAnnouncing_set (socket, .post) hget
    refine ⟨?_, by simp, hsuspended⟩
    simp_all [ConsoleThread.announcing]
    omega
  case h_4 socket hget =>
    have := consolesAnnouncing_set (socket, .signal) hget
    exact ⟨by simp_all [ConsoleThread.announcing], hnew, hsuspended⟩
  case h_5 socket hget =>
    have := consolesAnnouncing_set (socket, .idle) hget
    refine ⟨?_, hnew, hsuspended⟩
    simp_all [ConsoleThread.announcing]
    omega

theorem consoleReceive_announced {i : ℕ} {size : Word} {instructions : List Instruction}
    {blank : Pcb} (h : k.consoleReceive i size instructions blank = some k')
    (hk : k.Announced) : k'.Announced := by
  obtain ⟨hcount, hnew, hsuspended⟩ := hk
  unfold consoleReceive at h
  split at h <;> cases h
  rename_i socket hget
  have := consolesAnnouncing_set (socket, .count
    ⟨k.admitted.length, { blank with instructions := instructions, size := size }⟩) hget
  exact ⟨by simp_all [ConsoleThread.announcing], hnew, hsuspended⟩

theorem step_announced (h : k.step cfg behaviour action = some k') (hk : k.Announced) :
    k'.Announced := by
  have hwrites := step_writes h
  unfold step at h
  split at h
  · cases h
  cases action with
  | toReady => exact toReady_announced h hk
  | ioListener now => exact ioListener_announced h hk
  | console i => exact console_announced h hk
  | consoleReceive i size instructions blank => exact consoleReceive_announced h hk
  | consoleAccept socket =>
      cases h
      exact ⟨by simpa [consolesAnnouncing, ConsoleThread.announcing] using hk.count, hk.new,
        hk.suspended⟩
  | memoryListener stale =>
      have hchoosing := memoryListener_toReadyThread ToReady.choosing (by simp) h
      have honNew := memoryListener_toReadyThread ToReady.onNew (by simp) h
      have honSuspended := memoryListener_toReadyThread ToReady.onSuspended (by simp) h
      obtain ⟨hcount, hnew, hsuspended⟩ := hk
      rw [← hchoosing] at hcount
      rw [← honNew] at hnew
      rw [← honSuspended] at hsuspended
      rw [hwrites.fields]
      exact ⟨hcount, hnew, hsuspended⟩
  | _ => rw [hwrites.fields]; exact ⟨hk.count, hk.new, hk.suspended⟩

theorem start_announced (cfg : KernelConfig) : (start cfg).Announced :=
  ⟨rfl, nofun, nofun⟩

end Kernel

/-! ## Who holds a permit -/

/-- What an event does to the processes that hold a permit. -/
def Event.movePermit (holders : List ℕ) : Event → List ℕ
  | .permit serial => serial :: holders
  | .suspended serial | .exitHandled serial => holders.erase serial
  | _ => holders

/-- The processes that have taken a permit in `to_ready` and have since neither been suspended
by `io_listener` nor had their `PROCESS_EXIT_READY` handled. -/
def permitHolders (history : List Event) : List ℕ :=
  history.foldl Event.movePermit []

@[simp] theorem permitHolders_nil : permitHolders [] = [] := rfl

@[simp] theorem permitHolders_append_singleton (history : List Event) (event : Event) :
    permitHolders (history ++ [event]) = event.movePermit (permitHolders history) := by
  simp [permitHolders]

/-- Events that move no permit leave the holders alone. -/
theorem permitHolders_append {history events : List Event}
    (h : ∀ event ∈ events, ∀ holders, Event.movePermit holders event = holders) :
    permitHolders (history ++ events) = permitHolders history := by
  induction events using List.reverseRecOn with
  | nil => simp
  | append_singleton events event ih =>
      rw [← List.append_assoc, permitHolders_append_singleton, h event (by simp),
        ih fun event hmem => h event (by simp [hmem])]

theorem Event.movePermit_of_ofCpu {event : Event} (h : event.ofCpu = true) (holders : List ℕ) :
    movePermit holders event = holders := by
  cases event <;> simp_all [ofCpu, movePermit]

theorem Event.count_exitHandled_of_ofCpu {events : List Event} (h : events.all Event.ofCpu)
    (t : ℕ) : events.count (.exitHandled t) = 0 :=
  List.count_eq_zero.2 fun hmem => by simpa [ofCpu] using List.all_eq_true.1 h _ hmem

/-! ## Processes in memory -/

/-- The processes `io_listener` has in its hands or is about to give the permit of back. -/
def IoListener.inMemory : IoListener → List ℕ
  | .stamp job | .sendSuspend job | .awaitSuspension job | .pushSuspended job => [job.serial]
  | .postSuspended serial | .release serial => [serial]
  | .put state => state.hands.map Job.serial
  | _ => []

/-- The process whose permit `io_listener` is about to give back. -/
def IoListener.releasing : IoListener → List ℕ
  | .postSuspended serial | .release serial => [serial]
  | _ => []

namespace Kernel

variable {cfg : KernelConfig} {behaviour : MemoryBehaviour} {k k' : Kernel} {now : Word}
  {stale : ℕ → Pcb} {action : KernelAction}

/-- How often a process occurs where the memory module keeps it, with those that have been
released since. -/
def inMemory (k : Kernel) (t : ℕ) : ℕ :=
  tally Job.serial t (k.toReadyThread.hands k.pcbTableReady) +
  tally Job.serial t k.memoryInitQ.items +
  tally Job.serial t k.memoryThread.hands +
  tally Job.serial t k.readyQ.items +
  tally Job.serial t k.toExecThread.hands +
  tally Job.serial t k.toCpu +
  tally Job.serial t (k.fromCpu.map Prod.snd) +
  tally Job.serial t k.dispatchThread.hands +
  tally Job.serial t k.blockedQ.items +
  k.ioThread.inMemory.count t +
  tally Job.serial t k.exitQ.items +
  tally Job.serial t k.exitProcessThread.hands +
  tally Job.serial t k.memoryExitQ.items

/-- Permits free, held and in the hand of `to_ready` add up to the multiprogramming level, and
the processes in memory that have not been released are those that hold one.  `atCpu` counts
the occurrences at the CPU. -/
structure Permits (cfg : KernelConfig) (atCpu : ℕ → ℕ) (k : Kernel) : Prop where
  balance : k.semMultiprogram + (permitHolders k.history).length +
    k.toReadyThread.permitInHand = cfg.multiprogrammingLevel
  holders : ∀ t, k.inMemory t + atCpu t =
    (permitHolders k.history).count t + k.history.count (.exitHandled t)

/-- The processes whose permit is about to be given back hold one. -/
structure ReleasesHeld (k : Kernel) : Prop where
  suspended : ∀ serial, k.ioThread = .release serial → serial ∈ permitHolders k.history
  exited : ∀ serial, k.memoryThread = .exitPermit serial → serial ∈ permitHolders k.history

variable {atCpu : ℕ → ℕ}

/-- How often a process occurs elsewhere, or in the hands of `io_listener`. -/
def outsideMemory (k : Kernel) (t : ℕ) : ℕ :=
  tally Job.serial t (consoleHands k.consoles) +
  tally Job.serial t k.newQ.items +
  tally Job.serial t k.ioThread.hands +
  tally Job.serial t k.suspendedBlockQ.items +
  tally Job.serial t k.suspendedReadyQ.items

theorem inMemory_add_outsideMemory (k : Kernel) (t : ℕ) : k.inMemory t + k.outsideMemory t =
    tally Job.serial t k.jobs + k.ioThread.inMemory.count t := by
  rw [tally_jobs, inMemory, outsideMemory]
  omega

/-- What a step moves into memory or out of it comes from elsewhere or goes there. -/
theorem step_inMemory (h : k.step cfg behaviour action = some k') (hinit : k.InitHandshake)
    (t : ℕ) :
    k'.inMemory t + k'.outsideMemory t + k.ioThread.inMemory.count t + k.admittedCount t =
      k.inMemory t + k.outsideMemory t + k'.ioThread.inMemory.count t + k'.admittedCount t := by
  have := step_tally h hinit t
  have := k.inMemory_add_outsideMemory t
  have := k'.inMemory_add_outsideMemory t
  omega

/-- Steps that leave the places outside memory alone. -/
theorem step_inMemory_eq (h : k.step cfg behaviour action = some k') (hinit : k.InitHandshake)
    {t : ℕ} (houtside : k'.outsideMemory t = k.outsideMemory t) (hio : k'.ioThread = k.ioThread)
    (hadmitted : k'.admitted = k.admitted) : k'.inMemory t = k.inMemory t := by
  have hmoved := step_inMemory h hinit t
  rw [houtside, hio, admittedCount, admittedCount, hadmitted] at hmoved
  omega

/-- The other threads move no permit. -/
theorem Records.permitHolders_eq {thread : Thread} (h : Records thread k k')
    (htoReady : thread ≠ .toReady) (hmemory : thread ≠ .memoryListener)
    (hio : thread ≠ .ioListener) : permitHolders k'.history = permitHolders k.history := by
  obtain ⟨events, hhistory, hevents⟩ := h
  rw [hhistory]
  refine permitHolders_append fun event hmem holders => ?_
  have hthread := hevents event hmem
  cases event <;> simp_all [Event.movePermit]

/-- `to_ready` takes a permit for the process it pops. -/
theorem toReady_moves (h : k.toReady cfg = some k') (hannounced : k.Announced) :
    k'.semMultiprogram + (permitHolders k'.history).length + k'.toReadyThread.permitInHand =
        k.semMultiprogram + (permitHolders k.history).length + k.toReadyThread.permitInHand ∧
      ∀ t, k'.outsideMemory t + (permitHolders k'.history).count t =
        k.outsideMemory t + (permitHolders k.history).count t := by
  have hnew := hannounced.new
  unfold toReady at h
  cases hat : k.toReadyThread
  all_goals
    simp only [hat, putToReady] at h
    repeat' split at h
    all_goals cases h
    all_goals first
      | exact ⟨rfl, fun t => rfl⟩
      | refine ⟨?_, fun t => ?_⟩
  all_goals simp_all [outsideMemory, ToReady.permitInHand, PQueue.wait_eq_some,
    PQueue.pop_eq_some, Event.movePermit, ToReady.onNew, List.count_cons, PQueue.isEmpty_iff, one]
  all_goals omega

/-- A scan of `memory_exit_q` moves no permit. -/
theorem permitHolders_scan (pid : Word) (stale : ℕ → Pcb) (jobs : List Job) (scan : ExitScan) :
    permitHolders (jobs.foldl (ExitScan.visit pid stale) scan).history =
      permitHolders scan.history := by
  obtain ⟨reads, hreads, hall⟩ := ExitScan.history_foldl pid stale jobs scan
  rw [hreads]
  refine permitHolders_append fun event hmem holders => ?_
  obtain ⟨serial, rfl⟩ := hall event hmem
  rfl

/-- Giving a permit back takes its holder out once. -/
theorem count_erase_holder {holders : List ℕ} {serial : ℕ} (h : serial ∈ holders) (t : ℕ) :
    (holders.erase serial).count t + (if serial = t then 1 else 0) = holders.count t := by
  have := List.count_pos_iff.2 h
  rw [List.count_erase]
  by_cases ht : serial = t <;> simp_all

theorem length_erase_holder {holders : List ℕ} {serial : ℕ} (h : serial ∈ holders) :
    (holders.erase serial).length + 1 = holders.length := by
  have := List.length_pos_of_mem h
  rw [List.length_erase_of_mem h]
  omega

/-- `exit_process_success` gives back the permit of the process released. -/
theorem memoryListener_moves (h : k.memoryListener stale = some k') (hheld : k.ReleasesHeld) :
    k'.semMultiprogram + (permitHolders k'.history).length =
        k.semMultiprogram + (permitHolders k.history).length ∧
      ∀ t, (permitHolders k'.history).count t + k'.history.count (.exitHandled t) =
        (permitHolders k.history).count t + k.history.count (.exitHandled t) := by
  unfold memoryListener at h
  cases hat : k.memoryThread with
  | exitPermit serial =>
      have hmem := hheld.exited serial hat
      have hlength := length_erase_holder hmem
      have hcount := count_erase_holder hmem
      simp only [hat, Option.some.injEq] at h
      subst h
      refine ⟨by simp [Event.movePermit]; omega, fun t => ?_⟩
      replace hcount := hcount t
      simp_all [Event.movePermit, List.count_cons]
      omega
  | _ =>
      simp only [hat] at h
      repeat' split at h
      all_goals cases h
      all_goals first
        | exact ⟨rfl, fun t => rfl⟩
        | simp_all [Event.movePermit, permitHolders_scan, ExitScan.count_history_foldl]

/-- `io_listener` gives back the permit of the process it has suspended. -/
theorem ioListener_moves (h : k.ioListener cfg now = some k') (hheld : k.ReleasesHeld) :
    k'.semMultiprogram + (permitHolders k'.history).length =
        k.semMultiprogram + (permitHolders k.history).length ∧
      ∀ t, k'.outsideMemory t + k.ioThread.inMemory.count t + (permitHolders k'.history).count t =
        k.outsideMemory t + k'.ioThread.inMemory.count t + (permitHolders k.history).count t := by
  unfold ioListener at h
  cases hat : k.ioThread with
  | release serial =>
      have hmem := hheld.suspended serial hat
      have hlength := length_erase_holder hmem
      have hcount := count_erase_holder hmem
      simp only [hat, Option.some.injEq] at h
      subst h
      refine ⟨by simp [Event.movePermit]; omega, fun t => ?_⟩
      replace hcount := hcount t
      simp_all [outsideMemory, IoListener.hands, IoListener.inMemory, Event.movePermit,
        List.count_cons]
      omega
  | _ =>
      simp only [hat, putToReady] at h
      repeat' split at h
      all_goals cases h
      all_goals refine ⟨rfl, fun t => ?_⟩
      all_goals simp_all [outsideMemory, IoListener.hands, IoListener.inMemory, PutToReady.hands,
        PQueue.wait_eq_some, PQueue.pop_eq_some, one, List.count_cons]
      all_goals omega

theorem step_permits (h : k.step cfg behaviour action = some k') (hinit : k.InitHandshake)
    (hannounced : k.Announced) (hheld : k.ReleasesHeld) (hk : k.Permits cfg atCpu) :
    k'.Permits cfg atCpu := by
  have hwrites := step_writes h
  have hstep := h
  unfold step at h
  split at h
  · cases h
  cases action with
  | toReady =>
      obtain ⟨hbalance, hcount⟩ := toReady_moves h hannounced
      refine ⟨hbalance.trans hk.balance, fun t => ?_⟩
      have hmoved := step_inMemory hstep hinit t
      have hio : k'.ioThread = k.ioThread := by rw [hwrites.fields]; rfl
      have hadmitted : k'.admittedCount t = k.admittedCount t := by rw [hwrites.fields]; rfl
      have hhandled : k'.history.count (.exitHandled t) = k.history.count (.exitHandled t) :=
        hwrites.records.count_eq (by simp)
      have := hcount t
      have := hk.holders t
      rw [hio] at hmoved
      omega
  | ioListener now =>
      obtain ⟨hbalance, hcount⟩ := ioListener_moves h hheld
      have hinHand : k'.toReadyThread = k.toReadyThread := by rw [hwrites.fields]; rfl
      refine ⟨by rw [hbalance, hinHand]; exact hk.balance, fun t => ?_⟩
      have hmoved := step_inMemory hstep hinit t
      have hadmitted : k'.admittedCount t = k.admittedCount t := by rw [hwrites.fields]; rfl
      have hhandled : k'.history.count (.exitHandled t) = k.history.count (.exitHandled t) :=
        hwrites.records.count_eq (by simp)
      have := hcount t
      have := hk.holders t
      omega
  | memoryListener stale =>
      obtain ⟨hbalance, hcount⟩ := memoryListener_moves h hheld
      have hinHand := memoryListener_toReadyThread ToReady.permitInHand (by simp) h
      refine ⟨by rw [hbalance, hinHand]; exact hk.balance, fun t => ?_⟩
      rw [hcount t, ← hk.holders t, step_inMemory_eq hstep hinit]
      all_goals rw [hwrites.fields]; rfl
  | toExec _ | exitProcess | dispatchListener _ =>
      have hholders := hwrites.records.permitHolders_eq (by simp) (by simp) (by simp)
      refine ⟨?_, fun t => ?_⟩
      · rw [hholders, hwrites.fields]
        exact hk.balance
      · rw [hholders, hwrites.records.count_eq (by simp), ← hk.holders t,
          step_inMemory_eq hstep hinit]
        all_goals rw [hwrites.fields]; rfl
  | _ => rw [hwrites.fields]; exact ⟨hk.balance, hk.holders⟩

/-! ## Permits are given back by their holders -/

/-- A process whose permit `io_listener` is about to give back is in `suspended_block_q`. -/
def Suspending (k : Kernel) : Prop :=
  ∀ serial ∈ k.ioThread.releasing, 0 < tally Job.serial serial k.suspendedBlockQ.items

theorem step_suspending (h : k.step cfg behaviour action = some k') (hk : k.Suspending) :
    k'.Suspending := by
  have hwrites := step_writes h
  unfold step at h
  split at h
  · cases h
  cases action with
  | ioListener now =>
      unfold Suspending at hk ⊢
      simp only [ioListener, putToReady] at h
      repeat' split at h
      all_goals cases h
      all_goals simp_all [IoListener.releasing]
  | _ => rw [hwrites.fields]; exact hk

theorem tally_requested_le (t : ℕ) (k : Kernel) :
    k.exitsRequested t ≤
      tally Job.serial t k.exitProcessThread.hands + tally Job.serial t k.memoryExitQ.items := by
  unfold exitsRequested
  cases k.exitProcessThread <;> simp [ExitProcess.requested, ExitProcess.hands]

/-- With each process in one place only, the permits given back are held. -/
theorem releasesHeld (honce : ∀ t, tally Job.serial t k.jobs ≤ 1) (hexits : k.ExitsBounded)
    (hsuspending : k.Suspending) (hk : k.Permits cfg atCpu) : k.ReleasesHeld := by
  constructor
  · intro serial hat
    have hq := hsuspending serial (by simp [hat, IoListener.releasing])
    have hone := honce serial
    have hbound := hexits serial
    have hle := tally_requested_le serial k
    have hmem := hk.holders serial
    rw [tally_jobs] at hone
    simp only [inMemory, hat, IoListener.inMemory, List.count_singleton_self] at hmem
    simp only [exitsAnswered] at hbound
    refine List.count_pos_iff.1 ?_
    omega
  · intro serial hat
    have hone := honce serial
    have hbound := hexits serial
    have hle := tally_requested_le serial k
    have hmem := hk.holders serial
    rw [tally_jobs] at hone
    simp only [exitsAnswered, hat, MemoryListener.exiting, List.count_singleton_self] at hbound
    simp only [inMemory] at hmem
    refine List.count_pos_iff.1 ?_
    omega

/-- No process is in memory twice. -/
theorem inMemory_le (hsuspending : k.Suspending) (t : ℕ) :
    k.inMemory t ≤ tally Job.serial t k.jobs := by
  have hio : k.ioThread.inMemory.count t ≤
      tally Job.serial t k.ioThread.hands + tally Job.serial t k.suspendedBlockQ.items := by
    unfold Suspending at hsuspending
    cases hat : k.ioThread with
    | postSuspended serial | release serial =>
        have := hsuspending serial (by simp [hat, IoListener.releasing])
        simp only [IoListener.inMemory, List.count_singleton, beq_iff_eq]
        split <;> simp_all
        omega
    | _ => simp [IoListener.inMemory, IoListener.hands, tally_eq_count, List.count_cons]
  rw [tally_jobs, inMemory]
  omega

end Kernel

/-! ## The kernel and its CPU -/

namespace Contract

variable {cfg : KernelConfig} {behaviour : MemoryBehaviour} {s s' : Contract}
  {action : ContractAction}

/-- How often a process occurs at the CPU. -/
def countAtCpu (s : Contract) (t : ℕ) : ℕ :=
  tally Job.serial t s.atCpu

/-- The invariants behind the permits. -/
structure Accounted (cfg : KernelConfig) (s : Contract) : Prop where
  announced : s.kernel.Announced
  exits : s.kernel.ExitsBounded
  suspending : s.kernel.Suspending
  permits : s.kernel.Permits cfg s.countAtCpu

theorem Accounted.releasesHeld (hconserved : s.Conserved) (hs : s.Accounted cfg) :
    s.kernel.ReleasesHeld := by
  refine Kernel.releasesHeld (fun t => ?_) hs.exits hs.suspending hs.permits
  have := hconserved.tally_le_one t
  omega

theorem step_accounted (hanswers : AnswersExitsOnce behaviour)
    (h : s.step cfg behaviour action = some s') (hconserved : s.Conserved)
    (hs : s.Accounted cfg) : s'.Accounted cfg := by
  have hheld := hs.releasesHeld hconserved
  obtain ⟨hannounced, hexits, hsuspending, hpermits⟩ := hs
  refine step_elim h ?kernel ?receive ?change ?answer ?note
  case kernel =>
    intro action k' hk
    exact ⟨Kernel.step_announced hk hannounced, Kernel.step_exitsBounded hanswers hk hexits,
      Kernel.step_suspending hk hsuspending,
      Kernel.step_permits hk hconserved.handshake hannounced hheld hpermits⟩
  case receive =>
    intro job rest hto
    refine ⟨⟨hannounced.count, hannounced.new, hannounced.suspended⟩, hexits, hsuspending,
      hpermits.balance, fun t => ?_⟩
    have := hpermits.holders t
    simp_all [Kernel.inMemory, countAtCpu]
    omega
  case change =>
    intro i pcb events job hget hevents
    have hholders : permitHolders (s.kernel.history ++ events) = permitHolders s.kernel.history :=
      permitHolders_append fun event hmem => Event.movePermit_of_ofCpu
        (List.all_eq_true.1 hevents event hmem)
    have hhandled := fun t => Event.count_exitHandled_of_ofCpu hevents t
    refine ⟨⟨hannounced.count, hannounced.new, hannounced.suspended⟩, fun t => ?_, hsuspending,
      by simpa [hholders] using hpermits.balance, fun t => ?_⟩
    · simpa [Kernel.exitsAnswered, Kernel.exitsRequested, hhandled] using hexits t
    · have hset := weigh_set (w := one Job.serial t) { job with pcb := pcb } hget
      have := hpermits.holders t
      simp_all [Kernel.inMemory, countAtCpu, one]
  case answer =>
    intro i header job hget
    refine ⟨⟨hannounced.count, hannounced.new, hannounced.suspended⟩, fun t => ?_, hsuspending,
      by simpa [Event.movePermit] using hpermits.balance, fun t => ?_⟩
    · simpa [Kernel.exitsAnswered, Kernel.exitsRequested] using hexits t
    · have herase := weigh_eraseIdx (w := one Job.serial t) hget
      have := hpermits.holders t
      simp_all [Kernel.inMemory, countAtCpu, Event.movePermit]
      omega
  case note =>
    intro n hn
    exact ⟨⟨hannounced.count, hannounced.new, hannounced.suspended⟩, hexits, hsuspending,
      hpermits.balance, hpermits.holders⟩

theorem accounted_start (cfg : KernelConfig) : Accounted cfg ⟨Kernel.start cfg, []⟩ :=
  ⟨Kernel.start_announced cfg, fun _ => Nat.le_refl 0, nofun, rfl, fun _ => rfl⟩

theorem accounted_of_reachable (hanswers : AnswersExitsOnce behaviour)
    (hs : (contract cfg behaviour).Reachable s) : s.Accounted cfg :=
  hs.invariant_of (fun _ h => conserved_of_reachable h) (accounted_start cfg)
    fun _ _ _ _ hconserved hs h => step_accounted hanswers h hconserved hs

/-- A process is in memory: the kernel has admitted it to memory, at the CPU or elsewhere, or
is about to give the permit of its suspension back. -/
def InMemory (s : Contract) (t : ℕ) : Prop :=
  0 < s.kernel.inMemory t + s.countAtCpu t

theorem Accounted.inMemory_le_one (hconserved : s.Conserved) (hs : s.Accounted cfg) (t : ℕ) :
    s.kernel.inMemory t + s.countAtCpu t ≤ 1 := by
  have := Kernel.inMemory_le hs.suspending t
  have := hconserved.tally_le_one t
  simp only [countAtCpu]
  omega

/-- Each process holds one permit at most. -/
theorem Accounted.nodup_holders (hconserved : s.Conserved) (hs : s.Accounted cfg) :
    (permitHolders s.kernel.history).Nodup := by
  refine List.nodup_iff_count_le_one.2 fun t => ?_
  have := hs.inMemory_le_one hconserved t
  have := hs.permits.holders t
  omega

/-- The holders are the processes in memory whose release has not been handled. -/
theorem Accounted.mem_holders (hconserved : s.Conserved) (hs : s.Accounted cfg) (t : ℕ) :
    t ∈ permitHolders s.kernel.history ↔
      s.InMemory t ∧ Event.exitHandled t ∉ s.kernel.history := by
  have := hs.inMemory_le_one hconserved t
  have := hs.permits.holders t
  rw [← List.count_pos_iff, ← List.count_eq_zero, InMemory]
  omega

/-- A process in memory whose exit has not been asked for holds a permit. -/
theorem Accounted.mem_holders_of_inMemory (hconserved : s.Conserved) (hs : s.Accounted cfg) {t : ℕ}
    (ht : s.InMemory t) (hexit : s.kernel.exitsRequested t = 0) :
    t ∈ permitHolders s.kernel.history := by
  refine (hs.mem_holders hconserved t).2 ⟨ht, fun hhandled => ?_⟩
  have hexits := hs.exits t
  have hcount := List.count_pos_iff.2 hhandled
  simp only [Kernel.exitsAnswered] at hexits
  omega

theorem Accounted.length_holders_le (hs : s.Accounted cfg) :
    (permitHolders s.kernel.history).length ≤ cfg.multiprogrammingLevel := by
  have := hs.permits.balance
  omega

/-- For every CPU that answers each dispatch once and every memory module that answers each
exit request once, the free permits, those held and the one in the hand of `to_ready` make up
the multiprogramming level.  The holders are the processes in memory, each holds one, only a
holder gives one back, and `to_ready` always finds the process its permit is for. -/
theorem permits_conserved (hanswers : AnswersExitsOnce behaviour)
    (hs : (contract cfg behaviour).Reachable s) :
    s.kernel.semMultiprogram + (permitHolders s.kernel.history).length +
        s.kernel.toReadyThread.permitInHand = cfg.multiprogrammingLevel ∧
      (permitHolders s.kernel.history).length ≤ cfg.multiprogrammingLevel ∧
      (permitHolders s.kernel.history).Nodup ∧
      (∀ t, t ∈ permitHolders s.kernel.history ↔
        s.InMemory t ∧ Event.exitHandled t ∉ s.kernel.history) ∧
      s.kernel.ReleasesHeld ∧
      (s.kernel.toReadyThread.onNew → s.kernel.newQ.items ≠ []) ∧
      (s.kernel.toReadyThread.onSuspended → s.kernel.suspendedReadyQ.items ≠ []) := by
  have hconserved := conserved_of_reachable hs
  have haccounted := accounted_of_reachable hanswers hs
  have hbalance := haccounted.permits.balance
  exact ⟨hbalance, by omega, haccounted.nodup_holders hconserved,
    haccounted.mem_holders hconserved, haccounted.releasesHeld hconserved,
    haccounted.announced.new, haccounted.announced.suspended⟩

/-- One process is in memory and the next has been admitted to `new_q`. -/
theorem permits_conserved_small : ∃ s, (contract (.small .fifo) inOrder).Reachable s ∧
    (permitHolders s.kernel.history = [0] ∧ s.kernel.newQ.items.length = 1) ∧
    s.kernel.semMultiprogram + (permitHolders s.kernel.history).length +
      s.kernel.toReadyThread.permitInHand = 2 := by
  obtain ⟨s, hs, htest⟩ := Machine.exists_reachable_of_run (contract (.small .fifo) inOrder)
    ((admission 0 7 [] ++ initialization 1 ++ admission 1 8 []).map .kernel)
    (fun s => permitHolders s.kernel.history = [0] ∧ s.kernel.newQ.items.length = 1)
    (by decide +kernel)
  exact ⟨s, hs, by simpa using htest, (permits_conserved inOrder_answersExitsOnce hs).1⟩

end Contract
end SistemasOperativos
