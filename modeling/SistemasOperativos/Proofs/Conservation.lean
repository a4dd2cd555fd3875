import SistemasOperativos.System.Places

/-!
# No PCB is lost or duplicated

Every step of the kernel moves at most one PCB, from one place to another, and changes fields
of its schedule only.  So whatever a PCB is weighed by that depends on its process, program and
program counter only, each class of places keeps its total weight: the PCBs console threads have
created, those of processes that have not exited, and those of processes that have.

The one hand-over that is not a push and a pop is that of `new_to_ready`: `to_ready` keeps its
pointer to the PCB while the memory listener looks for it in `memory_init_q`, takes it out and
posts `pcb_table_ready`.  `InitHandshake` says where the PCB is meanwhile.
-/

open Tally

namespace SistemasOperativos

/-! ## What a step leaves alone -/

/-- What the kernel never changes in a PCB it has numbered. -/
def Job.progress (job : Job) : ℕ × List Instruction × Word :=
  (job.serial, job.pcb.instructions, job.pcb.programCounter)

/-- The PCB with its program counter at the start. -/
def Job.restart (job : Job) : Job :=
  { job with pcb := { job.pcb with programCounter := 0 } }

/-- A weight that depends on the process, its program and its program counter only. -/
def OnProgress (w : Job → ℕ) : Prop :=
  ∀ a b : Job, a.progress = b.progress → w a = w b

/-- A weight that does not depend on what the kernel measures. -/
structure OffClock (w : Job → ℕ) : Prop where
  chargeSlice : ∀ (job : Job) (fromMs toMs : Word),
    w { job with pcb := job.pcb.chargeSlice fromMs toMs } = w job
  chargeBurst : ∀ (cfg : KernelConfig) (job : Job) (fromMs toMs : Word),
    w { job with pcb := job.pcb.chargeBurst cfg fromMs toMs } = w job
  sleepToLimit : ∀ (cfg : KernelConfig) (job : Job) (now : Word),
    w { job with pcb := job.pcb.sleepToLimit cfg now } = w job

theorem onProgress_serial (t : ℕ) : OnProgress (one Job.serial t) := by
  intro a b h
  simp only [Job.progress, Prod.mk.injEq] at h
  exact one_congr h.1

theorem one_serial_restart (t : ℕ) (job : Job) :
    one Job.serial t job.restart = one Job.serial t job :=
  one_congr rfl

@[simp] theorem Job.progress_setTable (serial : ℕ) (reply : TableReply) (job : Job) :
    (job.setTable serial reply).progress = job.progress := by
  unfold setTable; split <;> rfl

section Weights

variable {w : Job → ℕ} (hw : OnProgress w)

include hw

theorem OnProgress.setTable (serial : ℕ) (reply : TableReply) (job : Job) :
    w (job.setTable serial reply) = w job :=
  hw _ _ (Job.progress_setTable ..)

theorem OnProgress.weigh_setTable (serial : ℕ) (reply : TableReply) (jobs : List Job) :
    weigh w (jobs.map (Job.setTable serial reply)) = weigh w jobs :=
  weigh_map (hw.setTable serial reply) jobs

theorem OnProgress.weigh_hands_mapWaiting (n serial : ℕ) (reply : TableReply)
    (state : ToReady) :
    weigh w ((state.mapWaiting (Job.setTable serial reply)).hands n) = weigh w (state.hands n) := by
  cases state <;> simp only [ToReady.mapWaiting, ToReady.hands]
  all_goals split <;> simp [hw.setTable]

theorem OnProgress.offClock : OffClock w :=
  ⟨fun _ _ _ => hw _ _ rfl, fun _ _ _ _ => hw _ _ rfl, fun _ _ _ => hw _ _ rfl⟩

theorem OnProgress.admit (cfg : KernelConfig) (job : Job) (pid socket : Word) :
    w { job with pcb := Pcb.admit cfg job.pcb pid socket } = w job.restart :=
  hw _ _ rfl

end Weights

theorem KernelConfig.weigh_sort (cfg : KernelConfig) (w : Job → ℕ) (jobs : List Job) :
    weigh w (cfg.listSort.sort jobs) = weigh w jobs :=
  weigh_perm (cfg.listSort.perm jobs)

theorem ToReady.waiting_eq (state : ToReady) :
    state.waiting = [] ∨ ∃ job, state.waiting = [job] := by
  cases state <;> simp [waiting]

/-- Posting `pcb_table_ready` gives `to_ready` back the PCB it waits for. -/
theorem ToReady.weigh_hands_succ (w : Job → ℕ) (n : ℕ) (state : ToReady) :
    weigh w (state.hands (n + 1)) = weigh w (state.hands 0) + weigh w state.waiting := by
  cases state <;> simp [hands, waiting]

namespace Kernel

variable {cfg : KernelConfig} {behaviour : MemoryBehaviour} {k k' : Kernel} {now : Word}
  {stale : ℕ → Pcb} {action : KernelAction}

/-! ## The hand-over through `memory_init_q` -/

/-- The PCB `to_ready` waits for is in `memory_init_q`, or with the memory listener, or
`pcb_table_ready` is posted for it. -/
structure InitHandshake (k : Kernel) : Prop where
  passed : k.pcbTableReady = 0 ∧ (k.memoryInitQ.items ++ k.memoryThread.hands).map Job.progress =
      k.toReadyThread.waiting.map Job.progress ∨
    k.pcbTableReady = 1 ∧ k.memoryInitQ.items ++ k.memoryThread.hands = [] ∧
      k.toReadyThread.waiting ≠ []
  found : ∀ reply jobs, k.memoryThread = .tablePost reply jobs → jobs ≠ []

/-- Nothing is posted while `to_ready` waits for nothing. -/
theorem InitHandshake.ready_eq_zero (hk : k.InitHandshake) (h : k.toReadyThread.waiting = []) :
    k.pcbTableReady = 0 := by
  rcases hk.passed with ⟨hready, -⟩ | ⟨-, -, hwaiting⟩
  · exact hready
  · exact absurd h hwaiting

/-- Steps that keep the PCBs on their way through `memory_init_q`. -/
theorem InitHandshake.congr (hk : k.InitHandshake) (hready : k'.pcbTableReady = k.pcbTableReady)
    (hitems : (k'.memoryInitQ.items ++ k'.memoryThread.hands).map Job.progress =
      (k.memoryInitQ.items ++ k.memoryThread.hands).map Job.progress)
    (hwaiting : k'.toReadyThread.waiting.map Job.progress =
      k.toReadyThread.waiting.map Job.progress)
    (hfound : ∀ reply jobs, k'.memoryThread = .tablePost reply jobs → jobs ≠ []) :
    k'.InitHandshake := by
  have hnil : k'.memoryInitQ.items ++ k'.memoryThread.hands = [] ↔
      k.memoryInitQ.items ++ k.memoryThread.hands = [] := by
    rw [← List.map_eq_nil_iff (f := Job.progress), hitems, List.map_eq_nil_iff]
  have hnone : k'.toReadyThread.waiting = [] ↔ k.toReadyThread.waiting = [] := by
    rw [← List.map_eq_nil_iff (f := Job.progress), hwaiting, List.map_eq_nil_iff]
  refine ⟨?_, hfound⟩
  rw [hready, hitems, hwaiting, hnil, ne_eq, hnone]
  exact hk.passed

/-- When `table_index_success` is about to post, it has the PCB `to_ready` waits for. -/
theorem InitHandshake.of_tablePost {reply : TableReply} {found : List Job}
    (hk : k.InitHandshake) (hat : k.memoryThread = .tablePost reply found) :
    k.pcbTableReady = 0 ∧ k.memoryInitQ.items = [] ∧
      found.map Job.progress = k.toReadyThread.waiting.map Job.progress := by
  have hfound := hk.found _ _ hat
  rcases hk.passed with ⟨hready, hpassed⟩ | ⟨-, hpassed, -⟩
  · rcases k.toReadyThread.waiting_eq with hw | ⟨job, hw⟩ <;>
      simp_all [MemoryListener.hands, List.append_eq_cons_iff]
  · simp_all [MemoryListener.hands]

theorem toReady_initHandshake (h : k.toReady cfg = some k') (hk : k.InitHandshake) :
    k'.InitHandshake := by
  have hpassed := hk.passed
  unfold toReady putToReady at h
  repeat' split at h
  all_goals cases h
  all_goals first
    | exact hk.congr rfl rfl (by rw [‹k.toReadyThread = _›]; rfl) hk.found
    | refine ⟨?_, hk.found⟩
      rw [‹k.toReadyThread = _›] at hpassed
      simp_all [ToReady.waiting]

theorem memoryListener_initHandshake (h : k.memoryListener stale = some k')
    (hk : k.InitHandshake) : k'.InitHandshake := by
  have hwaiting := memoryListener_toReadyThread (fun state => state.waiting.map Job.progress)
    (fun serial reply state => by cases state <;> simp [ToReady.mapWaiting, ToReady.waiting]) h
  unfold memoryListener at h
  cases hat : k.memoryThread with
  | tablePop reply rest found =>
      simp only [hat] at h
      split at h <;> cases h
      rename_i job q hpop
      obtain ⟨hitems, -⟩ := PQueue.pop_eq_some.1 hpop
      -- the PCB taken is the only one
      have hone : q.items = [] ∧ found = [] := by
        rcases hk.passed with ⟨-, hpassed⟩ | ⟨-, hnone, -⟩
        · rcases k.toReadyThread.waiting_eq with hw | ⟨other, hw⟩ <;>
            simp_all [MemoryListener.hands]
        · simp [hitems] at hnone
      refine hk.congr rfl ?_ rfl (by simp)
      simp [hat, hitems, hone, MemoryListener.hands]
  | tablePost reply found =>
      obtain ⟨hready, hitems, hpassed⟩ := hk.of_tablePost hat
      simp only [hat, Option.some.injEq] at h
      subst h
      refine ⟨.inr ⟨by simp [hready], by simp [hitems, MemoryListener.hands], fun hnone => ?_⟩,
        by simp⟩
      rw [hnone, List.map_nil, List.map_eq_nil_iff] at hpassed
      exact hk.found _ _ hat hpassed
  | tableScan reply rest found =>
      cases rest <;> cases found <;> simp only [hat] at h
      all_goals repeat' split at h
      all_goals cases h
      all_goals refine hk.congr rfl ?_ hwaiting (by simp)
      all_goals simp [hat, MemoryListener.hands, setTable, Function.comp_def]
  | _ =>
      simp only [hat] at h
      repeat' split at h
      all_goals cases h
      all_goals refine hk.congr rfl ?_ hwaiting (by simp)
      all_goals simp_all [MemoryListener.hands, PQueue.wait_eq_some]

theorem step_initHandshake (h : k.step cfg behaviour action = some k') (hk : k.InitHandshake) :
    k'.InitHandshake := by
  have hwrites := step_writes h
  unfold step at h
  split at h
  · cases h
  cases action with
  | toReady => exact toReady_initHandshake h hk
  | memoryListener stale => exact memoryListener_initHandshake h hk
  | _ => rw [hwrites.fields]; exact ⟨hk.passed, hk.found⟩

/-! ## Classes of places -/

/-- The PCBs sent back by the CPU for a process that has not exited. -/
def runnableReturns (fromCpu : List (KernelHeader × Job)) : List Job :=
  (fromCpu.filter fun packet => packet.1 ≠ .exitCall).map Prod.snd

/-- The PCBs sent back by the CPU for a process that has exited. -/
def exitReturns (fromCpu : List (KernelHeader × Job)) : List Job :=
  (fromCpu.filter fun packet => packet.1 = .exitCall).map Prod.snd

/-- The weight of the PCBs that have no program counter yet, taken at the start. -/
def freshWeight (w : Job → ℕ) (k : Kernel) : ℕ :=
  weigh (fun console => weigh (fun job => w job.restart) console.2.fresh) k.consoles

/-- The weight of the PCBs of processes that have not exited. -/
def runnableWeight (w : Job → ℕ) (k : Kernel) : ℕ :=
  weigh (fun console => weigh w console.2.numbered) k.consoles +
  weigh w k.newQ.items +
  weigh w (k.toReadyThread.hands k.pcbTableReady) +
  weigh w k.memoryInitQ.items +
  weigh w k.memoryThread.hands +
  weigh w k.readyQ.items +
  weigh w k.toExecThread.hands +
  weigh w k.toCpu +
  weigh w (runnableReturns k.fromCpu) +
  weigh w k.dispatchThread.runnable +
  weigh w k.blockedQ.items +
  weigh w k.ioThread.hands +
  weigh w k.suspendedBlockQ.items +
  weigh w k.suspendedReadyQ.items

/-- The weight of the PCBs of processes that have exited. -/
def exitingWeight (w : Job → ℕ) (k : Kernel) : ℕ :=
  weigh w (exitReturns k.fromCpu) +
  weigh w k.dispatchThread.exiting +
  weigh w k.exitQ.items +
  weigh w k.exitProcessThread.hands +
  weigh w k.memoryExitQ.items

/-! ## Each thread keeps the weight of each class -/

/-- The weight of the kernel, class by class, is the same. -/
structure SameWeight (w : Job → ℕ) (k k' : Kernel) : Prop where
  alive : k'.freshWeight w + k'.runnableWeight w = k.freshWeight w + k.runnableWeight w
  exiting : k'.exitingWeight w = k.exitingWeight w

variable {w : Job → ℕ}

theorem toReady_sameWeight (h : k.toReady cfg = some k') (hk : k.InitHandshake) :
    SameWeight w k k' := by
  have hready := hk.ready_eq_zero
  unfold toReady putToReady at h
  repeat' split at h
  all_goals cases h
  all_goals refine ⟨?_, rfl⟩
  all_goals simp_all [freshWeight, runnableWeight, ToReady.hands, ToReady.waiting,
    PutToReady.hands, PQueue.wait_eq_some, PQueue.pop_eq_some, cfg.weigh_sort]
  all_goals omega

theorem memoryListener_sameWeight (hw : OnProgress w) (h : k.memoryListener stale = some k')
    (hk : k.InitHandshake) : SameWeight w k k' := by
  unfold memoryListener at h
  cases hat : k.memoryThread with
  | tablePost reply found =>
      -- the post of `pcb_table_ready` hands the PCB from the listener to `to_ready`
      obtain ⟨hready, hitems, hwaiting⟩ := hk.of_tablePost hat
      have hfound := weigh_congr hw hwaiting
      have hhands := k.toReadyThread.weigh_hands_succ w 0
      simp only [hat, Option.some.injEq] at h
      subst h
      refine ⟨?_, rfl⟩
      simp only [freshWeight, runnableWeight, hready, hitems, hat, MemoryListener.hands,
        weigh_nil] at *
      omega
  | _ =>
      simp only [hat] at h
      repeat' split at h
      all_goals cases h
      all_goals refine ⟨?_, rfl⟩
      all_goals simp_all [freshWeight, runnableWeight, MemoryListener.hands,
        PQueue.wait_eq_some, PQueue.pop_eq_some, Kernel.setTable, hw.weigh_setTable,
        hw.weigh_hands_mapWaiting]
      all_goals omega

theorem exitProcess_sameWeight (h : k.exitProcess = some k') : SameWeight w k k' := by
  unfold exitProcess at h
  repeat' split at h
  all_goals cases h
  all_goals refine ⟨rfl, ?_⟩
  all_goals simp_all [exitingWeight, ExitProcess.hands, PQueue.wait_eq_some, PQueue.pop_eq_some]
  all_goals omega

theorem toExec_sameWeight (h : k.toExec now = some k') : SameWeight w k k' := by
  unfold toExec at h
  repeat' split at h
  all_goals cases h
  all_goals refine ⟨?_, rfl⟩
  all_goals simp_all [freshWeight, runnableWeight, ToExec.hands, PQueue.wait_eq_some,
    PQueue.pop_eq_some]
  all_goals omega

theorem dispatchListener_sameWeight (hw : OffClock w)
    (h : k.dispatchListener cfg now = some k') : SameWeight w k k' := by
  unfold dispatchListener at h
  repeat' split at h
  all_goals cases h
  all_goals constructor
  all_goals simp_all [freshWeight, runnableWeight, exitingWeight, runnableReturns, exitReturns,
    DispatchListener.runnable, DispatchListener.exiting, hw.chargeSlice, hw.chargeBurst]
  all_goals omega

theorem ioListener_sameWeight (hw : OffClock w) (h : k.ioListener cfg now = some k') :
    SameWeight w k k' := by
  unfold ioListener putToReady at h
  repeat' split at h
  all_goals cases h
  all_goals refine ⟨?_, rfl⟩
  all_goals simp_all [freshWeight, runnableWeight, IoListener.hands, PutToReady.hands,
    PQueue.wait_eq_some, PQueue.pop_eq_some, hw.sleepToLimit, cfg.weigh_sort]
  all_goals omega

/-- The weight of the PCBs console threads have in their hands. -/
def consoleWeight (w : Job → ℕ) (console : Word × ConsoleThread) : ℕ :=
  weigh (fun job => w job.restart) console.2.fresh + weigh w console.2.numbered

theorem weigh_consoles (w : Job → ℕ) (consoles : List (Word × ConsoleThread)) :
    weigh (fun console => weigh (fun job => w job.restart) console.2.fresh) consoles +
      weigh (fun console => weigh w console.2.numbered) consoles =
        weigh (consoleWeight w) consoles := by
  induction consoles with
  | nil => rfl
  | cons console consoles ih =>
      simp only [weigh_cons, ← ih, consoleWeight]
      omega

/-- The weight of `new_q` and the console threads, of which the console threads take care. -/
theorem sameWeight_of_consoles
    (h : weigh (consoleWeight w) k'.consoles + weigh w k'.newQ.items =
      weigh (consoleWeight w) k.consoles + weigh w k.newQ.items)
    (hrest : { k' with
      consoles := k.consoles
      newQ := k.newQ
      pid := k.pid
      anyForReady := k.anyForReady } = k) : SameWeight w k k' := by
  refine ⟨?_, by rw [← hrest]; rfl⟩
  rw [← weigh_consoles, ← weigh_consoles] at h
  have hsame : k'.runnableWeight w + (weigh (fun console => weigh w console.2.numbered) k.consoles +
      weigh w k.newQ.items) = k.runnableWeight w +
        (weigh (fun console => weigh w console.2.numbered) k'.consoles + weigh w k'.newQ.items) := by
    rw [← hrest]
    simp only [runnableWeight]
    omega
  simp only [freshWeight]
  omega

theorem console_sameWeight (hw : OnProgress w) {i : ℕ} (h : k.console cfg i = some k') :
    SameWeight w k k' := by
  unfold console at h
  rcases hget : k.consoles[i]? with _ | ⟨socket, thread⟩
  · simp [hget] at h
  have hset := fun new => weigh_set (w := consoleWeight w) new hget
  simp only [hget] at h
  cases thread with
  | idle => cases h
  | count job =>
      cases h
      refine sameWeight_of_consoles ?_ rfl
      simpa [consoleWeight, ConsoleThread.fresh, ConsoleThread.numbered] using
        hset (socket, .number job)
  | number job =>
      cases h
      refine sameWeight_of_consoles ?_ rfl
      simpa [consoleWeight, ConsoleThread.fresh, ConsoleThread.numbered, hw.admit] using
        hset (socket, .push { job with pcb := Pcb.admit cfg job.pcb k.pid socket })
  | push job =>
      cases h
      refine sameWeight_of_consoles ?_ rfl
      have := hset (socket, .post)
      simp only [consoleWeight, ConsoleThread.fresh, ConsoleThread.numbered, weigh_nil,
        weigh_cons] at this
      simp only [PQueue.items_push, weigh_append, weigh_cons, weigh_nil]
      omega
  | post =>
      cases h
      refine sameWeight_of_consoles ?_ rfl
      simpa [consoleWeight, ConsoleThread.fresh, ConsoleThread.numbered] using
        hset (socket, .signal)
  | signal =>
      cases h
      refine sameWeight_of_consoles ?_ rfl
      simpa [consoleWeight, ConsoleThread.fresh, ConsoleThread.numbered] using
        hset (socket, .idle)

/-- A process received from a console is weighed from here on. -/
theorem consoleReceive_weight {i : ℕ} {size : Word} {instructions : List Instruction}
    {blank : Pcb} (h : k.consoleReceive i size instructions blank = some k') :
    ∃ job : Job, job.serial = k.admitted.length ∧ job.pcb.instructions = instructions ∧
      k'.admitted = k.admitted ++ [instructions] ∧ k'.history = k.history ∧
      ∀ w, k'.freshWeight w = k.freshWeight w + w job.restart ∧
        k'.runnableWeight w = k.runnableWeight w ∧ k'.exitingWeight w = k.exitingWeight w := by
  unfold consoleReceive at h
  split at h <;> cases h
  rename_i socket hget
  refine ⟨⟨k.admitted.length, { blank with instructions := instructions, size := size }⟩,
    rfl, rfl, rfl, rfl, fun w => ⟨?_, ?_, rfl⟩⟩
  · simpa [freshWeight, ConsoleThread.fresh] using weigh_set
      (w := fun console => weigh (fun job => w job.restart) console.2.fresh) (_, .count _) hget
  · simpa [runnableWeight, ConsoleThread.numbered] using weigh_set
      (w := fun console => weigh w console.2.numbered) (_, .count _) hget

/-- Every step but the receipt of a process keeps every weight. -/
theorem step_sameWeight (hw : OnProgress w) (h : k.step cfg behaviour action = some k')
    (hk : k.InitHandshake)
    (hreceive : ∀ i size instructions blank, action ≠ .consoleReceive i size instructions blank) :
    SameWeight w k k' := by
  unfold step at h
  split at h
  · cases h
  cases action with
  | consoleReceive i size instructions blank => exact absurd rfl (hreceive i size instructions blank)
  | consoleAccept socket =>
      cases h
      constructor <;> simp [freshWeight, runnableWeight, exitingWeight, ConsoleThread.fresh,
        ConsoleThread.numbered]
  | console i => exact console_sameWeight hw h
  | toReady => exact toReady_sameWeight h hk
  | toExec now => exact toExec_sameWeight h
  | exitProcess => exact exitProcess_sameWeight h
  | dispatchListener now => exact dispatchListener_sameWeight hw.offClock h
  | memoryListener stale => exact memoryListener_sameWeight hw h hk
  | ioListener now => exact ioListener_sameWeight hw.offClock h
  | memory reply =>
      simp only [memoryReplies] at h
      split at h <;> cases h
      exact ⟨rfl, rfl⟩

/-- Only the receipt of a process admits one. -/
theorem step_admitted (h : k.step cfg behaviour action = some k')
    (hreceive : ∀ i size instructions blank, action ≠ .consoleReceive i size instructions blank) :
    k'.admitted = k.admitted := by
  have hwrites := step_writes h
  unfold step at h
  split at h
  · cases h
  cases action with
  | consoleReceive i size instructions blank => exact absurd rfl (hreceive i size instructions blank)
  | _ => rw [hwrites.fields]; rfl

/-- A step of the kernel receives a process, or keeps the processes admitted. -/
theorem step_receives (h : k.step cfg behaviour action = some k') :
    (∃ i size instructions blank, action = .consoleReceive i size instructions blank ∧
      k.consoleReceive i size instructions blank = some k') ∨
    (∀ i size instructions blank, action ≠ .consoleReceive i size instructions blank) ∧
      k'.admitted = k.admitted := by
  by_cases hreceive : ∃ i size instructions blank,
      action = .consoleReceive i size instructions blank
  · obtain ⟨i, size, instructions, blank, rfl⟩ := hreceive
    unfold step at h
    split at h
    · cases h
    · exact .inl ⟨i, size, instructions, blank, rfl, h⟩
  · have hother := fun i size instructions blank heq =>
      hreceive ⟨i, size, instructions, blank, heq⟩
    exact .inr ⟨hother, step_admitted h hother⟩

/-! ## Every admitted process occurs once -/

/-- One for an admitted process, zero for any other number. -/
def admittedCount (k : Kernel) (t : ℕ) : ℕ :=
  if t < k.admitted.length then 1 else 0

theorem admittedCount_of_lt {t : ℕ} (h : t < k.admitted.length) : k.admittedCount t = 1 :=
  if_pos h

theorem admittedCount_of_not_lt {t : ℕ} (h : ¬ t < k.admitted.length) : k.admittedCount t = 0 :=
  if_neg h

/-- The number of times a process occurs in the kernel and on the dispatch socket. -/
theorem tally_jobs (t : ℕ) (k : Kernel) :
    tally Job.serial t k.jobs =
      tally Job.serial t (consoleHands k.consoles) +
      tally Job.serial t k.newQ.items +
      tally Job.serial t (k.toReadyThread.hands k.pcbTableReady) +
      tally Job.serial t k.memoryInitQ.items +
      tally Job.serial t k.memoryThread.hands +
      tally Job.serial t k.readyQ.items +
      tally Job.serial t k.toExecThread.hands +
      tally Job.serial t k.toCpu +
      tally Job.serial t (k.fromCpu.map Prod.snd) +
      tally Job.serial t k.dispatchThread.hands +
      tally Job.serial t k.blockedQ.items +
      tally Job.serial t k.ioThread.hands +
      tally Job.serial t k.suspendedBlockQ.items +
      tally Job.serial t k.suspendedReadyQ.items +
      tally Job.serial t k.exitQ.items +
      tally Job.serial t k.exitProcessThread.hands +
      tally Job.serial t k.memoryExitQ.items := by
  simp only [jobs, Place.all, occupants, List.flatMap_cons, List.flatMap_nil, tally_append,
    tally_nil]
  omega

theorem tally_consoleHands (t : ℕ) (consoles : List (Word × ConsoleThread)) :
    tally Job.serial t (consoleHands consoles) =
      weigh (consoleWeight (one Job.serial t)) consoles := by
  rw [tally, consoleHands, weigh_flatMap]
  congr 1
  funext console
  obtain ⟨socket, thread⟩ := console
  cases thread <;> simp [consoleWeight, ConsoleThread.hands, ConsoleThread.fresh,
    ConsoleThread.numbered, one_serial_restart]

theorem tally_returns (t : ℕ) (fromCpu : List (KernelHeader × Job)) :
    tally Job.serial t (fromCpu.map Prod.snd) =
      tally Job.serial t (runnableReturns fromCpu) + tally Job.serial t (exitReturns fromCpu) := by
  induction fromCpu with
  | nil => rfl
  | cons packet fromCpu ih =>
      obtain ⟨header, job⟩ := packet
      cases header <;> simp_all [runnableReturns, exitReturns] <;> omega

/-- The places of the kernel, class by class. -/
theorem tally_jobs_eq_weight (t : ℕ) (k : Kernel) :
    tally Job.serial t k.jobs = k.freshWeight (one Job.serial t) +
      k.runnableWeight (one Job.serial t) + k.exitingWeight (one Job.serial t) := by
  have hdispatch : tally Job.serial t k.dispatchThread.hands =
      tally Job.serial t k.dispatchThread.runnable +
        tally Job.serial t k.dispatchThread.exiting := by
    cases k.dispatchThread <;> simp [DispatchListener.hands, DispatchListener.runnable,
      DispatchListener.exiting]
  rw [tally_jobs, tally_consoleHands, tally_returns, hdispatch, ← weigh_consoles]
  simp only [freshWeight, runnableWeight, exitingWeight, weigh_one]
  omega

/-- Every step keeps the number of times a process occurs, but for the admission of a process
that did not occur before. -/
theorem step_tally (h : k.step cfg behaviour action = some k') (hk : k.InitHandshake) (t : ℕ) :
    tally Job.serial t k'.jobs + k.admittedCount t =
      tally Job.serial t k.jobs + k'.admittedCount t := by
  rw [tally_jobs_eq_weight, tally_jobs_eq_weight]
  rcases step_receives h with ⟨i, size, instructions, blank, -, hreceive⟩ | ⟨hother, hadmitted⟩
  · obtain ⟨job, hserial, -, hadmitted, -, hweight⟩ := consoleReceive_weight hreceive
    obtain ⟨hfresh, hrunnable, hexiting⟩ := hweight (one Job.serial t)
    rw [hfresh, hrunnable, hexiting]
    simp only [admittedCount, hadmitted, one, Job.restart, hserial, List.length_append,
      List.length_singleton]
    split <;> split <;> split <;> omega
  · have hsame := step_sameWeight (onProgress_serial t) h hk hother
    rw [admittedCount, admittedCount, hadmitted]
    have := hsame.alive
    have := hsame.exiting
    omega

end Kernel

/-! ## The kernel and its CPU -/

namespace Contract

variable {cfg : KernelConfig} {behaviour : MemoryBehaviour} {s s' : Contract}
  {action : ContractAction}

/-- Every admitted process occurs once, over all places and the CPU. -/
structure Conserved (s : Contract) : Prop where
  handshake : s.kernel.InitHandshake
  once : ∀ t, tally Job.serial t s.kernel.jobs + tally Job.serial t s.atCpu =
    s.kernel.admittedCount t

theorem step_conserved (h : s.step cfg behaviour action = some s') (hs : s.Conserved) :
    s'.Conserved := by
  obtain ⟨hhandshake, honce⟩ := hs
  refine step_elim h ?kernel ?receive ?change ?answer ?note
  case kernel =>
    intro action k' hk
    refine ⟨Kernel.step_initHandshake hk hhandshake, fun t => ?_⟩
    have := Kernel.step_tally hk hhandshake t
    have := honce t
    simp only at *
    omega
  case receive =>
    intro job rest hto
    refine ⟨⟨hhandshake.passed, hhandshake.found⟩, fun t => ?_⟩
    replace honce := honce t
    simp_all [Kernel.tally_jobs, Kernel.admittedCount]
    omega
  case change =>
    intro i pcb events job hget _
    refine ⟨⟨hhandshake.passed, hhandshake.found⟩, fun t => ?_⟩
    have hset := weigh_set (w := one Job.serial t) { job with pcb := pcb } hget
    replace honce := honce t
    simp_all [Kernel.tally_jobs, Kernel.admittedCount, one]
  case answer =>
    intro i header job hget
    refine ⟨⟨hhandshake.passed, hhandshake.found⟩, fun t => ?_⟩
    have herase := weigh_eraseIdx (w := one Job.serial t) hget
    replace honce := honce t
    simp_all [Kernel.tally_jobs, Kernel.admittedCount]
    omega
  case note =>
    intro n hn
    refine ⟨⟨hhandshake.passed, hhandshake.found⟩, fun t => ?_⟩
    simpa [Kernel.tally_jobs, Kernel.admittedCount] using honce t

theorem conserved_start (cfg : KernelConfig) : Conserved ⟨Kernel.start cfg, []⟩ := by
  refine ⟨⟨.inl ⟨rfl, rfl⟩, nofun⟩, fun t => ?_⟩
  simp [Kernel.tally_jobs, Kernel.start, consoleHands, ToReady.hands, MemoryListener.hands,
    ToExec.hands, DispatchListener.hands, IoListener.hands, ExitProcess.hands,
    Kernel.admittedCount]

theorem conserved_of_reachable (hs : (contract cfg behaviour).Reachable s) : s.Conserved :=
  hs.invariant (conserved_start cfg) fun _ _ _ _ hs h => step_conserved h hs

theorem Conserved.tally_le_one (hs : s.Conserved) (t : ℕ) :
    tally Job.serial t s.kernel.jobs + tally Job.serial t s.atCpu ≤ 1 := by
  rw [hs.once t, Kernel.admittedCount]
  split <;> omega

end Contract
end SistemasOperativos
