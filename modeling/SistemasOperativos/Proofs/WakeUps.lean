import SistemasOperativos.Proofs.Mutex
import SistemasOperativos.Proofs.Permits

/-!
# Wake-ups are backed by queued processes

`to_exec`, `to_ready`, `io_listener` and `exit_process` each wait on a semaphore that counts
processes put into one or two queues, and then take a process from one of them.  A unit of such a
semaphore is posted after its process has been pushed, so a consumer that has taken a unit finds
a process in the queue it chooses; if it waits there, it waits for the post of a `pQueue_put` that
has already pushed.
-/

open Tally

namespace SistemasOperativos

/-! ## Announcements -/

/-- A semaphore and the items it announces. -/
structure Announcement where
  items : ℕ
  units : ℕ
  /-- Items put into a queue whose unit is still to be posted. -/
  announcing : ℕ
  /-- Units taken whose item is still in its queue. -/
  taking : ℕ

namespace Announcement

variable {a : Announcement}

/-- Every item is announced by one unit, posted, taken or still to be posted. -/
def Balanced (a : Announcement) : Prop :=
  a.items = a.units + a.announcing + a.taking

theorem Balanced.units_add_taking_le (h : a.Balanced) : a.units + a.taking ≤ a.items := by
  unfold Balanced at h
  omega

/-- Who finds no unit while there are items waits for one that is about to be posted. -/
theorem Balanced.announcing_pos (h : a.Balanced) (hitems : 0 < a.items) (hunits : a.units = 0)
    (htaking : a.taking = 0) : 0 < a.announcing := by
  unfold Balanced at h
  omega

end Announcement

/-! ## Producers and consumers -/

/-- `put_to_ready` has pushed its process and not yet posted `ready_for_exec`. -/
def PutToReady.announcing : PutToReady → ℕ
  | .lock _ | .push _ => 0
  | _ => 1

/-- `handle_interruption` has pushed its process and not yet posted `ready_for_exec`. -/
def DispatchListener.announcingReady : DispatchListener → ℕ
  | .interruptPost | .interruptSignal => 1
  | _ => 0

/-- `io_op` has pushed its process and not yet posted `process_for_IO`. -/
def DispatchListener.announcingIo : DispatchListener → ℕ
  | .ioPost | .ioFree | .ioSignal => 1
  | _ => 0

/-- `exit_op` has pushed its process and not yet posted `to_exit`. -/
def DispatchListener.announcingExit : DispatchListener → ℕ
  | .exitPost | .exitSignal => 1
  | _ => 0

/-- `io_listener` has pushed a process to `suspended_block_q` and not yet posted
`process_for_IO`. -/
def IoListener.announcingIo : IoListener → ℕ
  | .postSuspended _ | .release _ | .again => 1
  | _ => 0

/-- `to_exec` has taken a unit of `ready_for_exec` and not yet popped a process. -/
def ToExec.choosing : ToExec → ℕ
  | .cpu | .lock | .take | .pop => 1
  | _ => 0

/-- `io_listener` has taken a unit of `process_for_IO` and not yet popped a process. -/
def IoListener.choosing : IoListener → ℕ
  | .choose | .takeBlocked | .popBlocked | .takeSuspended | .popSuspended => 1
  | _ => 0

/-- `exit_process` has taken a unit of `to_exit` and not yet popped a process. -/
def ExitProcess.choosing : ExitProcess → ℕ
  | .take | .pop => 1
  | _ => 0

/-- `io_listener` has chosen `blocked_q`. -/
def IoListener.onBlocked : IoListener → Bool
  | .takeBlocked | .popBlocked => true
  | _ => false

/-- `io_listener` has chosen `suspended_block_q`. -/
def IoListener.onSuspended : IoListener → Bool
  | .takeSuspended | .popSuspended => true
  | _ => false

/-- The semaphores on which the consumers of the queues wait. -/
inductive WakeUp
  | readyForExec | anyForReady | processForIo | toExit
deriving DecidableEq, Repr

/-- The queues they take from. -/
inductive WakeQueue
  | newQ | readyQ | blockedQ | suspendedBlockQ | suspendedReadyQ | exitQ
deriving DecidableEq, Repr

/-- A call of `pQueue_put` in `put_to_ready` has pushed and not yet posted. -/
def PutToReady.posting : PutToReady → ℕ
  | .post => 1
  | _ => 0

/-- A call of `pQueue_put` in the dispatch listener has pushed to the queue and not yet posted. -/
def DispatchListener.posting : WakeQueue → DispatchListener → ℕ
  | .readyQ, .interruptPost | .blockedQ, .ioPost | .exitQ, .exitPost => 1
  | _, _ => 0

/-- A call of `pQueue_put` in `io_listener` has pushed to the queue and not yet posted. -/
def IoListener.posting : WakeQueue → IoListener → ℕ
  | .suspendedBlockQ, .postSuspended _ | .suspendedReadyQ, .postReady => 1
  | _, _ => 0

/-- A call of `pQueue_put` in `receive_process` has pushed and not yet posted. -/
def ConsoleThread.posting : ConsoleThread → ℕ
  | .post => 1
  | _ => 0

/-- The console threads about to post the semaphore of `new_q`. -/
def consolesPosting (consoles : List (Word × ConsoleThread)) : ℕ :=
  weigh (fun console => console.2.posting) consoles

theorem consolesPosting_set {consoles : List (Word × ConsoleThread)} {i : ℕ}
    {old : Word × ConsoleThread} (h : consoles[i]? = some old) (new : Word × ConsoleThread) :
    consolesPosting (consoles.set i new) + old.2.posting =
      consolesPosting consoles + new.2.posting :=
  weigh_set new h

/-- A call of `pQueue_take` in `to_ready` has taken a unit of the queue and not yet popped. -/
def ToReady.popping : WakeQueue → ToReady → ℕ
  | .newQ, .popNew | .suspendedReadyQ, .popSuspended => 1
  | _, _ => 0

@[simp] theorem ToReady.popping_mapWaiting (q : WakeQueue) (f : Job → Job) (state : ToReady) :
    (state.mapWaiting f).popping q = state.popping q := by
  cases state <;> cases q <;> rfl

def IoListener.popping : WakeQueue → IoListener → ℕ
  | .blockedQ, .popBlocked | .suspendedBlockQ, .popSuspended => 1
  | _, _ => 0

def ToExec.popping : ToExec → ℕ
  | .pop => 1
  | _ => 0

def ExitProcess.popping : ExitProcess → ℕ
  | .pop => 1
  | _ => 0

namespace Kernel

variable (k : Kernel)

/-- The semaphore with the processes in the queues it covers. -/
def wakeUp : WakeUp → Announcement
  | .readyForExec =>
      ⟨k.readyQ.items.length, k.readyForExec,
        k.puts PutToReady.announcing + k.dispatchThread.announcingReady, k.toExecThread.choosing⟩
  | .anyForReady =>
      ⟨k.newQ.items.length + k.suspendedReadyQ.items.length, k.anyForReady,
        consolesAnnouncing k.consoles + k.ioThread.announcing, k.toReadyThread.choosing⟩
  | .processForIo =>
      ⟨k.blockedQ.items.length + k.suspendedBlockQ.items.length, k.processForIO,
        k.dispatchThread.announcingIo + k.ioThread.announcingIo, k.ioThread.choosing⟩
  | .toExit =>
      ⟨k.exitQ.items.length, k.toExit, k.dispatchThread.announcingExit,
        k.exitProcessThread.choosing⟩

def queue : WakeQueue → PQueue Job
  | .newQ => k.newQ
  | .readyQ => k.readyQ
  | .blockedQ => k.blockedQ
  | .suspendedBlockQ => k.suspendedBlockQ
  | .suspendedReadyQ => k.suspendedReadyQ
  | .exitQ => k.exitQ

/-- The calls of `pQueue_put` that have pushed to the queue and not yet posted. -/
def putting : WakeQueue → ℕ
  | .newQ => consolesPosting k.consoles
  | .readyQ => k.puts PutToReady.posting + k.dispatchThread.posting .readyQ
  | .blockedQ => k.dispatchThread.posting .blockedQ
  | .suspendedBlockQ => k.ioThread.posting .suspendedBlockQ
  | .suspendedReadyQ => k.ioThread.posting .suspendedReadyQ
  | .exitQ => k.dispatchThread.posting .exitQ

/-- The calls of `pQueue_take` that have taken a unit of the queue and not yet popped. -/
def popping : WakeQueue → ℕ
  | .newQ => k.toReadyThread.popping .newQ
  | .readyQ => k.toExecThread.popping
  | .blockedQ => k.ioThread.popping .blockedQ
  | .suspendedBlockQ => k.ioThread.popping .suspendedBlockQ
  | .suspendedReadyQ => k.toReadyThread.popping .suspendedReadyQ
  | .exitQ => k.exitProcessThread.popping

/-- The consumer of the queue has taken its unit, has chosen the queue and has not yet popped. -/
def Chosen : WakeQueue → Prop
  | .newQ => k.toReadyThread.onNew
  | .readyQ => k.toExecThread.choosing = 1
  | .blockedQ => k.ioThread.onBlocked
  | .suspendedBlockQ => k.ioThread.onSuspended
  | .suspendedReadyQ => k.toReadyThread.onSuspended
  | .exitQ => k.exitProcessThread.choosing = 1

/-- The consumer of the queue is at the `sem_wait` of `pQueue_take`. -/
def Takes : WakeQueue → Prop
  | .newQ => k.toReadyThread = .takeNew
  | .readyQ => k.toExecThread = .take
  | .blockedQ => k.ioThread = .takeBlocked
  | .suspendedBlockQ => k.ioThread = .takeSuspended
  | .suspendedReadyQ => k.toReadyThread = .takeSuspended
  | .exitQ => k.exitProcessThread = .take

/-- The semaphore of the queue with the processes in it. -/
def queueSem (q : WakeQueue) : Announcement :=
  ⟨(k.queue q).items.length, (k.queue q).sem, k.putting q, k.popping q⟩

variable {cfg : KernelConfig} {behaviour : MemoryBehaviour} {k k' : Kernel} {now : Word}
  {action : KernelAction}

/-! ## `ready_q` -/

/-- Each process in `ready_q` is announced on `ready_for_exec` and on the semaphore of the
queue. -/
structure ReadyBacked (k : Kernel) : Prop where
  wakeUp : (k.wakeUp .readyForExec).Balanced
  sem : (k.queueSem .readyQ).Balanced

@[simp] theorem length_sort (cfg : KernelConfig) (jobs : List Job) :
    (cfg.listSort.sort jobs).length = jobs.length :=
  (cfg.listSort.perm jobs).length_eq

theorem toReady_readyBacked (h : k.toReady cfg = some k') (hk : k.ReadyBacked) :
    k'.ReadyBacked := by
  obtain ⟨hwake, hsem⟩ := hk
  simp only [wakeUp, queueSem, queue, putting, popping, puts, Announcement.Balanced] at hwake hsem
  unfold toReady at h
  cases hat : k.toReadyThread
  all_goals
    rw [hat] at hwake hsem
    simp only [hat, putToReady] at h
    repeat' split at h
    all_goals cases h
    all_goals first
      | exact ⟨hwake, hsem⟩
      | constructor
  all_goals simp_all [wakeUp, queueSem, queue, putting, popping, puts, Announcement.Balanced,
    ToReady.putting, PutToReady.announcing, PutToReady.posting]
  all_goals omega

theorem ioListener_readyBacked (h : k.ioListener cfg now = some k') (hk : k.ReadyBacked) :
    k'.ReadyBacked := by
  obtain ⟨hwake, hsem⟩ := hk
  simp only [wakeUp, queueSem, queue, putting, popping, puts, Announcement.Balanced] at hwake hsem
  unfold ioListener at h
  cases hat : k.ioThread
  all_goals
    rw [hat] at hwake hsem
    simp only [hat, putToReady] at h
    repeat' split at h
    all_goals cases h
    all_goals first
      | exact ⟨hwake, hsem⟩
      | constructor
  all_goals simp_all [wakeUp, queueSem, queue, putting, popping, puts, Announcement.Balanced,
    IoListener.putting, PutToReady.announcing, PutToReady.posting]
  all_goals omega

theorem toExec_readyBacked (h : k.toExec now = some k') (hk : k.ReadyBacked) :
    k'.ReadyBacked := by
  obtain ⟨hwake, hsem⟩ := hk
  simp only [wakeUp, queueSem, queue, putting, popping, Announcement.Balanced] at hwake hsem
  unfold toExec at h
  repeat' split at h
  all_goals cases h
  all_goals constructor
  all_goals simp_all [wakeUp, queueSem, queue, putting, popping, puts, Announcement.Balanced,
    ToExec.choosing, ToExec.popping, PQueue.wait_eq_some, PQueue.pop_eq_some]
  all_goals omega

theorem dispatchListener_readyBacked (h : k.dispatchListener cfg now = some k')
    (hk : k.ReadyBacked) : k'.ReadyBacked := by
  obtain ⟨hwake, hsem⟩ := hk
  simp only [wakeUp, queueSem, queue, putting, popping, Announcement.Balanced] at hwake hsem
  unfold dispatchListener at h
  cases hat : k.dispatchThread
  all_goals
    rw [hat] at hwake hsem
    simp only [hat] at h
    repeat' split at h
    all_goals cases h
    all_goals first
      | exact ⟨hwake, hsem⟩
      | constructor
  all_goals simp_all [wakeUp, queueSem, queue, putting, popping, puts, Announcement.Balanced,
    DispatchListener.announcingReady, DispatchListener.posting]
  all_goals omega

theorem step_readyBacked (h : k.step cfg behaviour action = some k') (hk : k.ReadyBacked) :
    k'.ReadyBacked := by
  have hstep := h
  have hwrites := step_writes h
  unfold step at h
  split at h
  · cases h
  cases action with
  | toReady => exact toReady_readyBacked h hk
  | ioListener now => exact ioListener_readyBacked h hk
  | toExec now => exact toExec_readyBacked h hk
  | dispatchListener now => exact dispatchListener_readyBacked h hk
  | _ =>
      have hputs := fun weight => step_puts hstep (by simp) (by simp) weight
      obtain ⟨hwake, hsem⟩ := hk
      constructor
      · rw [wakeUp, hputs, hwrites.fields]
        exact hwake
      · rw [queueSem, putting, hputs, hwrites.fields]
        exact hsem

/-! ## `blocked_q` and `suspended_block_q` -/

/-- Each process in `blocked_q` or `suspended_block_q` is announced on `process_for_IO` and on
the semaphore of its queue, so `io_listener` finds one in the queue it chooses. -/
structure BlockedBacked (k : Kernel) : Prop where
  wakeUp : (k.wakeUp .processForIo).Balanced
  blockedSem : (k.queueSem .blockedQ).Balanced
  suspendedSem : (k.queueSem .suspendedBlockQ).Balanced
  blocked : k.ioThread.onBlocked → k.blockedQ.items ≠ []
  suspended : k.ioThread.onSuspended → k.suspendedBlockQ.items ≠ []

theorem ioListener_blockedBacked (h : k.ioListener cfg now = some k') (hk : k.BlockedBacked) :
    k'.BlockedBacked := by
  obtain ⟨hwake, hsem, hsem', hblocked, hsuspended⟩ := hk
  simp only [wakeUp, queueSem, queue, putting, popping, Announcement.Balanced] at hwake hsem hsem'
  unfold ioListener at h
  cases hat : k.ioThread
  case choose =>
    rw [hat] at hwake hsem hsem'
    simp only [hat] at h
    split at h <;> cases h
    · -- with `blocked_q` empty the process announced is in `suspended_block_q`
      refine ⟨hwake, hsem, hsem', by simp [IoListener.onBlocked], ?_⟩
      intro _ hempty
      clear hsem hsem'
      simp_all [PQueue.isEmpty_iff, IoListener.choosing]
    · refine ⟨hwake, hsem, hsem', ?_, by simp [IoListener.onSuspended]⟩
      intro _ hempty
      simp_all [PQueue.isEmpty_iff]
  all_goals
    rw [hat] at hwake hsem hsem' hblocked hsuspended
    simp only [hat, putToReady] at h
    repeat' split at h
    all_goals cases h
    all_goals first
      | exact ⟨hwake, hsem, hsem', hblocked, hsuspended⟩
      | constructor
  all_goals simp_all [wakeUp, queueSem, queue, putting, popping, Announcement.Balanced,
    IoListener.announcingIo, IoListener.choosing, IoListener.posting, IoListener.popping,
    IoListener.onBlocked, IoListener.onSuspended, PQueue.wait_eq_some, PQueue.pop_eq_some]
  all_goals omega

theorem dispatchListener_blockedBacked (h : k.dispatchListener cfg now = some k')
    (hk : k.BlockedBacked) : k'.BlockedBacked := by
  obtain ⟨hwake, hsem, hsem', hblocked, hsuspended⟩ := hk
  simp only [wakeUp, queueSem, queue, putting, popping, Announcement.Balanced] at hwake hsem
  unfold dispatchListener at h
  cases hat : k.dispatchThread
  all_goals
    rw [hat] at hwake hsem
    simp only [hat] at h
    repeat' split at h
    all_goals cases h
    all_goals first
      | exact ⟨hwake, hsem, hsem', hblocked, hsuspended⟩
      | refine ⟨?_, ?_, hsem', ?_, hsuspended⟩
        all_goals clear hsem' hsuspended
  all_goals simp_all [wakeUp, queueSem, queue, putting, popping, Announcement.Balanced,
    DispatchListener.announcingIo, DispatchListener.posting]
  all_goals omega

theorem step_blockedBacked (h : k.step cfg behaviour action = some k') (hk : k.BlockedBacked) :
    k'.BlockedBacked := by
  have hwrites := step_writes h
  unfold step at h
  split at h
  · cases h
  cases action with
  | ioListener now => exact ioListener_blockedBacked h hk
  | dispatchListener now => exact dispatchListener_blockedBacked h hk
  | _ =>
      rw [hwrites.fields]
      exact ⟨hk.wakeUp, hk.blockedSem, hk.suspendedSem, hk.blocked, hk.suspended⟩

/-! ## `exit_q` -/

/-- Each process in `exit_q` is announced on `to_exit` and on the semaphore of the queue. -/
structure ExitBacked (k : Kernel) : Prop where
  wakeUp : (k.wakeUp .toExit).Balanced
  sem : (k.queueSem .exitQ).Balanced

theorem exitProcess_exitBacked (h : k.exitProcess = some k') (hk : k.ExitBacked) :
    k'.ExitBacked := by
  obtain ⟨hwake, hsem⟩ := hk
  simp only [wakeUp, queueSem, queue, putting, popping, Announcement.Balanced] at hwake hsem
  unfold exitProcess at h
  repeat' split at h
  all_goals cases h
  all_goals constructor
  all_goals simp_all [wakeUp, queueSem, queue, putting, popping, Announcement.Balanced,
    ExitProcess.choosing, ExitProcess.popping, PQueue.wait_eq_some, PQueue.pop_eq_some]
  all_goals omega

theorem dispatchListener_exitBacked (h : k.dispatchListener cfg now = some k')
    (hk : k.ExitBacked) : k'.ExitBacked := by
  obtain ⟨hwake, hsem⟩ := hk
  simp only [wakeUp, queueSem, queue, putting, popping, Announcement.Balanced] at hwake hsem
  unfold dispatchListener at h
  cases hat : k.dispatchThread
  all_goals
    rw [hat] at hwake hsem
    simp only [hat] at h
    repeat' split at h
    all_goals cases h
    all_goals first
      | exact ⟨hwake, hsem⟩
      | constructor
  all_goals simp_all [wakeUp, queueSem, queue, putting, popping, Announcement.Balanced,
    DispatchListener.announcingExit, DispatchListener.posting]
  all_goals omega

theorem step_exitBacked (h : k.step cfg behaviour action = some k') (hk : k.ExitBacked) :
    k'.ExitBacked := by
  have hwrites := step_writes h
  unfold step at h
  split at h
  · cases h
  cases action with
  | exitProcess => exact exitProcess_exitBacked h hk
  | dispatchListener now => exact dispatchListener_exitBacked h hk
  | _ => rw [hwrites.fields]; exact ⟨hk.wakeUp, hk.sem⟩

/-! ## `new_q` and `suspended_ready_q` -/

/-- Each process in `new_q` or `suspended_ready_q` is announced on the semaphore of its queue. -/
structure AdmissionBacked (k : Kernel) : Prop where
  newSem : (k.queueSem .newQ).Balanced
  suspendedSem : (k.queueSem .suspendedReadyQ).Balanced

theorem toReady_admissionBacked (h : k.toReady cfg = some k') (hk : k.AdmissionBacked) :
    k'.AdmissionBacked := by
  obtain ⟨hnew, hsuspended⟩ := hk
  simp only [queueSem, queue, putting, popping, Announcement.Balanced] at hnew hsuspended
  unfold toReady at h
  cases hat : k.toReadyThread
  all_goals
    rw [hat] at hnew hsuspended
    simp only [hat, putToReady] at h
    repeat' split at h
    all_goals cases h
    all_goals first
      | exact ⟨hnew, hsuspended⟩
      | constructor
  all_goals simp_all [queueSem, queue, putting, popping, Announcement.Balanced, ToReady.popping,
    PQueue.wait_eq_some, PQueue.pop_eq_some]
  all_goals omega

theorem ioListener_admissionBacked (h : k.ioListener cfg now = some k') (hk : k.AdmissionBacked) :
    k'.AdmissionBacked := by
  obtain ⟨hnew, hsuspended⟩ := hk
  simp only [queueSem, queue, putting, popping, Announcement.Balanced] at hnew hsuspended
  unfold ioListener putToReady at h
  repeat' split at h
  all_goals cases h
  all_goals constructor
  all_goals simp_all [queueSem, queue, putting, popping, Announcement.Balanced, IoListener.posting]
  all_goals omega

theorem console_admissionBacked {i : ℕ} (h : k.console cfg i = some k')
    (hk : k.AdmissionBacked) : k'.AdmissionBacked := by
  obtain ⟨hnew, hsuspended⟩ := hk
  simp only [queueSem, queue, putting, popping, Announcement.Balanced] at hnew
  unfold console at h
  repeat' split at h
  all_goals cases h
  all_goals refine ⟨?_, hsuspended⟩
  all_goals
    have hset := consolesPosting_set ‹_›
    simp only [queueSem, queue, putting, popping, Announcement.Balanced, PQueue.items_push,
      PQueue.items_post, PQueue.sem_push, PQueue.sem_post, List.length_append,
      List.length_singleton]
    grind [ConsoleThread.posting]

theorem step_admissionBacked (h : k.step cfg behaviour action = some k')
    (hk : k.AdmissionBacked) : k'.AdmissionBacked := by
  have hwrites := step_writes h
  unfold step at h
  split at h
  · cases h
  cases action with
  | toReady => exact toReady_admissionBacked h hk
  | ioListener now => exact ioListener_admissionBacked h hk
  | console i => exact console_admissionBacked h hk
  | consoleAccept socket =>
      cases h
      refine ⟨?_, hk.suspendedSem⟩
      simpa [queueSem, queue, putting, popping, consolesPosting, ConsoleThread.posting] using
        hk.newSem
  | consoleReceive i size instructions blank =>
      simp only [consoleReceive] at h
      split at h <;> cases h
      have hset := consolesPosting_set ‹_›
      have hnew := hk.newSem
      refine ⟨?_, hk.suspendedSem⟩
      simp only [queueSem, queue, putting, popping, Announcement.Balanced] at hnew ⊢
      grind [ConsoleThread.posting]
  | memoryListener stale =>
      have hpopping := fun q => memoryListener_toReadyThread (ToReady.popping q)
        (fun _ _ => ToReady.popping_mapWaiting q _) h
      obtain ⟨hnew, hsuspended⟩ := hk
      constructor
      · rw [queueSem, popping, hpopping, hwrites.fields]
        exact hnew
      · rw [queueSem, popping, hpopping, hwrites.fields]
        exact hsuspended
  | _ => rw [hwrites.fields]; exact ⟨hk.newSem, hk.suspendedSem⟩

/-! ## All queues -/

/-- Each process in a queue is announced on the semaphore that wakes its consumer and on that of
the queue. -/
structure Backed (k : Kernel) : Prop where
  announced : k.Announced
  ready : k.ReadyBacked
  io : k.BlockedBacked
  exit : k.ExitBacked
  admission : k.AdmissionBacked

theorem step_backed (h : k.step cfg behaviour action = some k') (hk : k.Backed) : k'.Backed where
  announced := step_announced h hk.announced
  ready := step_readyBacked h hk.ready
  io := step_blockedBacked h hk.io
  exit := step_exitBacked h hk.exit
  admission := step_admissionBacked h hk.admission

theorem start_backed (cfg : KernelConfig) : (start cfg).Backed where
  announced := start_announced cfg
  ready := ⟨rfl, rfl⟩
  io := ⟨rfl, rfl, rfl, by simp [start, IoListener.onBlocked],
    by simp [start, IoListener.onSuspended]⟩
  exit := ⟨rfl, rfl⟩
  admission := ⟨rfl, rfl⟩

theorem Backed.wakeUp (hk : k.Backed) (w : WakeUp) : (k.wakeUp w).Balanced := by
  cases w with
  | readyForExec => exact hk.ready.wakeUp
  | processForIo => exact hk.io.wakeUp
  | toExit => exact hk.exit.wakeUp
  | anyForReady =>
      have hcount := hk.announced.count
      simp only [Kernel.wakeUp, Announcement.Balanced]
      omega

theorem Backed.queueSem (hk : k.Backed) (q : WakeQueue) : (k.queueSem q).Balanced := by
  cases q with
  | newQ => exact hk.admission.newSem
  | readyQ => exact hk.ready.sem
  | blockedQ => exact hk.io.blockedSem
  | suspendedBlockQ => exact hk.io.suspendedSem
  | suspendedReadyQ => exact hk.admission.suspendedSem
  | exitQ => exact hk.exit.sem

/-- The queue a consumer has chosen is not empty. -/
theorem Backed.items_ne_nil (hk : k.Backed) {q : WakeQueue} (hq : k.Chosen q) :
    (k.queue q).items ≠ [] := by
  cases q with
  | newQ => exact hk.announced.new hq
  | suspendedReadyQ => exact hk.announced.suspended hq
  | blockedQ => exact hk.io.blocked hq
  | suspendedBlockQ => exact hk.io.suspended hq
  | readyQ =>
      have hle := (hk.wakeUp .readyForExec).units_add_taking_le
      simp only [Kernel.wakeUp, Chosen] at hle hq
      apply List.ne_nil_of_length_pos
      exact Nat.lt_of_lt_of_le (by omega) hle
  | exitQ =>
      have hle := (hk.wakeUp .toExit).units_add_taking_le
      simp only [Kernel.wakeUp, Chosen] at hle hq
      apply List.ne_nil_of_length_pos
      exact Nat.lt_of_lt_of_le (by omega) hle

/-- A consumer at the `sem_wait` of `pQueue_take` has chosen the queue, and has not taken a unit
of it. -/
theorem Takes.chosen {q : WakeQueue} (hq : k.Takes q) : k.Chosen q ∧ k.popping q = 0 := by
  cases q <;> simp_all [Takes, Chosen, popping, ToReady.onNew, ToReady.onSuspended,
    ToReady.popping, ToExec.choosing, ToExec.popping, IoListener.onBlocked,
    IoListener.onSuspended, IoListener.popping, ExitProcess.choosing, ExitProcess.popping]

/-- A consumer that blocks in `pQueue_take` waits for a `pQueue_put` that has pushed. -/
theorem Backed.putting_pos (hk : k.Backed) {q : WakeQueue} (hq : k.Takes q)
    (hwait : (k.queue q).wait = none) : 0 < k.putting q := by
  obtain ⟨hchosen, hpopping⟩ := hq.chosen
  have hitems := List.length_pos_of_ne_nil (hk.items_ne_nil hchosen)
  have hsem : (k.queue q).sem = 0 := by
    unfold PQueue.wait at hwait
    split at hwait <;> simp_all
  exact (hk.queueSem q).announcing_pos hitems hsem hpopping

end Kernel

namespace System

variable {cfg : KernelConfig} {behaviour : MemoryBehaviour} {s : System}

theorem backed_of_reachable (hs : (system cfg behaviour).Reachable s) : s.kernel.Backed := by
  refine hs.invariant (Kernel.start_backed cfg) ?step
  intro action s s' _ hs h
  rcases step_cases h with ⟨action, k, rfl, hstep, rfl⟩ | ⟨action, c, ports, rfl, -, rfl⟩
  · exact Kernel.step_backed hstep hs
  · exact ⟨⟨hs.announced.count, hs.announced.new, hs.announced.suspended⟩,
      ⟨hs.ready.wakeUp, hs.ready.sem⟩,
      ⟨hs.io.wakeUp, hs.io.blockedSem, hs.io.suspendedSem, hs.io.blocked, hs.io.suspended⟩,
      ⟨hs.exit.wakeUp, hs.exit.sem⟩, ⟨hs.admission.newSem, hs.admission.suspendedSem⟩⟩

/-- In every reachable state each wake-up semaphore, with the unit its consumer has taken and not
yet used, is at most the size of the queues it covers.  A consumer that has its unit finds the
queue it chooses not empty until it pops, and if it blocks there a `pQueue_put` is under way. -/
theorem wakeUps_backed (hs : (system cfg behaviour).Reachable s) :
    (s.kernel.readyForExec + s.kernel.toExecThread.choosing ≤ s.kernel.readyQ.items.length ∧
      s.kernel.anyForReady + s.kernel.toReadyThread.choosing ≤
        s.kernel.newQ.items.length + s.kernel.suspendedReadyQ.items.length ∧
      s.kernel.processForIO + s.kernel.ioThread.choosing ≤
        s.kernel.blockedQ.items.length + s.kernel.suspendedBlockQ.items.length ∧
      s.kernel.toExit + s.kernel.exitProcessThread.choosing ≤ s.kernel.exitQ.items.length) ∧
    ∀ q, (s.kernel.Chosen q → (s.kernel.queue q).items ≠ []) ∧
      (s.kernel.Takes q → (s.kernel.queue q).wait = none → 0 < s.kernel.putting q) := by
  have hbacked := backed_of_reachable hs
  have hle := fun w => (hbacked.wakeUp w).units_add_taking_le
  exact ⟨⟨hle .readyForExec, hle .anyForReady, hle .processForIo, hle .toExit⟩,
    fun q => ⟨hbacked.items_ne_nil, hbacked.putting_pos⟩⟩

/-- `to_exec` has taken its unit and is about to take a process. -/
theorem wakeUps_backed_small : ∃ s, (system (.small .fifo) inOrder).Reachable s ∧
    s.kernel.toExecThread = .take ∧ s.kernel.readyForExec + 1 ≤ s.kernel.readyQ.items.length := by
  obtain ⟨s, hs, htest⟩ := Machine.exists_reachable_of_run (system (.small .fifo) inOrder)
    (onKernel (admission 0 7 [] ++ initialization 1 ++ List.replicate 5 .toReady ++
      List.replicate 3 (.toExec 0)))
    (fun s => s.kernel.toExecThread = .take)
    (by decide +kernel)
  have htake : s.kernel.toExecThread = .take := by simpa using htest
  have hle := (wakeUps_backed hs).1.1
  rw [htake] at hle
  exact ⟨s, hs, htake, hle⟩

end System
end SistemasOperativos
