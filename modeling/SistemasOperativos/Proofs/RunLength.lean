import SistemasOperativos.Library.Variant
import SistemasOperativos.Proofs.Programs

/-!
# How long a run can be

Every PCB, packet, semaphore unit and thread state carries a bound on the steps still to be
taken because of it: the rest of a thread's turn, the turns its posts will wake, and for a PCB
all of these until it is back at the CPU, once for each instruction left.  Every step lowers the
sum by one at least.  Only a connection and the receipt of a program raise it, so a run is no
longer than what the consoles have sent.
-/

open Tally

namespace SistemasOperativos

/-! ## The steps left -/

/-- The instructions a process has before it. -/
def Pcb.remaining (pcb : Pcb) : ℕ :=
  pcb.programSize.toNat - pcb.programCounter.toNat

/-- The steps for the instructions a process has before it: each may end in an I/O, a suspension
and the way back to the CPU. -/
def Job.work (job : Job) : ℕ :=
  94 * job.pcb.remaining

def PutToReady.work : PutToReady → ℕ
  | .lock job => 50 + job.work
  | .push job => 49 + job.work
  | .post => 41
  | .test => 40
  | .interrupt => 39
  | .await => 12
  | .sort => 11
  | .unlock => 10
  | .signal => 9

def ToReady.work : ToReady → ℕ
  | .idle => 0
  | .permit => 5
  | .choose => 4
  | .chooseNew => 3
  | .takeNew | .takeSuspended => 2
  | .popNew | .popSuspended => 1
  | .sendNew job => 62 + job.work
  | .pushInit job => 53 + job.work
  | .postInit job => 52 + job.work
  | .awaitTable job => 51 + job.work
  | .put state => state.work

def ToExec.work : ToExec → ℕ
  | .idle => 0
  | .cpu => 7
  | .lock => 6
  | .take => 5
  | .pop => 4
  | .send job => 10 + job.work
  | .stamp _ => 2
  | .unlock => 1

def ExitProcess.work : ExitProcess → ℕ
  | .idle => 0
  | .take => 2
  | .pop => 1
  | .send _ => 11
  | .push _ => 2
  | .post => 1

def DispatchListener.work : DispatchListener → ℕ
  | .idle => 0
  | .interrupted job => 21 + job.work
  | .interruptPush job => 20 + job.work
  | .interruptPost => 12
  | .interruptSignal => 11
  | .interruptFree => 2
  | .interruptReady => 1
  | .io job => 87 + job.work
  | .ioPush job => 86 + job.work
  | .ioPost => 7
  | .ioFree => 6
  | .ioSignal => 5
  | .exitPush _ => 18
  | .exitPost => 6
  | .exitSignal => 5
  | .exitFree => 1

/-- The iteration of `table_index_success` takes three steps a PCB. -/
def MemoryListener.work : MemoryListener → ℕ
  | .idle => 0
  | .tableFind _ => 6
  | .tableScan _ rest _ => 2 + 3 * rest.length
  | .tableWait _ rest _ => 4 + 3 * rest.length
  | .tablePop _ rest _ => 3 + 3 * rest.length
  | .tablePost .. | .suspension | .exitPermit _ => 1
  | .exitScan .. => 3
  | .exitAnswer .. => 2

def IoListener.work : IoListener → ℕ
  | .idle => 0
  | .choose => 3
  | .takeBlocked | .takeSuspended => 2
  | .popBlocked | .popSuspended => 1
  | .stamp job => 78 + job.work
  | .sendSuspend job => 77 + job.work
  | .awaitSuspension job => 68 + job.work
  | .pushSuspended job => 67 + job.work
  | .postSuspended _ => 7
  | .release _ => 6
  | .again => 5
  | .pushReady job => 59 + job.work
  | .postReady => 8
  | .signalReady => 7
  | .put state => state.work

/-- A PCB without a pid has no program counter either. -/
def ConsoleThread.work : ConsoleThread → ℕ
  | .idle => 0
  | .count job => 73 + job.restart.work
  | .number job => 72 + job.restart.work
  | .push job => 71 + job.work
  | .post => 8
  | .signal => 7

/-- The steps left for a PCB the CPU has sent back. -/
def returnWork : KernelHeader × Job → ℕ
  | (.ioCall, job) => 88 + job.work
  | (.exitCall, _) => 19
  | (.interruptDispatch, job) => 22 + job.work

/-- The steps left in the kernel and for what is on its sockets. -/
def Kernel.work (k : Kernel) : ℕ :=
  weigh (fun console => console.2.work) k.consoles +
  weigh (fun job => 62 + job.work) k.newQ.items +
  6 * k.anyForReady + k.toReadyThread.work +
  8 * k.toMemory.length + 7 * k.fromMemory.length + k.memoryThread.work +
  weigh (fun job => 7 + job.work) k.readyQ.items +
  8 * k.readyForExec + k.toExecThread.work +
  weigh (fun job => 7 + job.work) k.toCpu + weigh returnWork k.fromCpu + k.dispatchThread.work +
  weigh (fun job => 78 + job.work) k.blockedQ.items +
  4 * k.processForIO + k.ioThread.work +
  weigh (fun job => 59 + job.work) k.suspendedBlockQ.items +
  weigh (fun job => 50 + job.work) k.suspendedReadyQ.items +
  11 * k.exitQ.items.length + 3 * k.toExit + k.exitProcessThread.work +
  26 * k.interrupts

def Receiver.work : Receiver → ℕ
  | .idle => 0
  | .load _ => 6
  | .post => 5

def Cycle.work : Cycle → ℕ
  | .waitLoaded => 0
  | .postBussy | .check | .reset => 3
  | .loop => 2
  | .fetch => 1
  | .execute .. => 94
  | .send .interruptDispatch => 2
  | .send _ => 93
  | .waitBussy _ => 4

/-- The steps left at the CPU: a crashed one takes none. -/
def Cpu.work (c : Cpu) : ℕ :=
  weigh Job.work c.held + c.receiver.work + 4 * c.pcbLoaded + 25 * c.flagged +
    if c.crashed then 0 else c.cycle.work

/-- What a program costs, from its receipt on. -/
def programCost (program : List Instruction) : ℕ :=
  74 + 94 * program.length

/-- What the consoles have brought in: one step a connection, and the cost of each program. -/
def Kernel.budget (k : Kernel) : ℕ :=
  k.consoles.length + (k.admitted.map programCost).sum

def System.work (s : System) : ℕ :=
  s.kernel.work + s.cpu.work

/-- A memory module that sends no reply without a request. -/
def Consumes (behaviour : MemoryBehaviour) : Prop :=
  ∀ requests reply rest, behaviour requests reply = some rest → rest.length < requests.length

/-! ## The kernel -/

theorem onProgress_work : OnProgress Job.work := by
  intro a b h
  simp only [Job.progress, Prod.mk.injEq] at h
  simp only [Job.work, Pcb.remaining, Pcb.programSize, h.2.1, h.2.2]

theorem Job.work_restart_le (job : Job) : job.restart.work ≤ 94 * job.pcb.instructions.length := by
  have hsize : job.pcb.programSize.toNat ≤ job.pcb.instructions.length := by
    rw [Pcb.programSize, BitVec.toNat_ofNat]
    exact Nat.mod_le _ _
  exact Nat.mul_le_mul_left 94 (Nat.le_trans (Nat.sub_le _ _) hsize)

theorem KernelConfig.weigh_sort_work (cfg : KernelConfig) (c : ℕ) (jobs : List Job) :
    weigh (fun job => c + job.work) (cfg.listSort.sort jobs) =
      weigh (fun job => c + job.work) jobs :=
  cfg.weigh_sort _ jobs

namespace Kernel

variable {cfg : KernelConfig} {behaviour : MemoryBehaviour} {k k' : Kernel} {now : Word}
  {stale : ℕ → Pcb} {action : KernelAction}

theorem toReady_work (h : k.toReady cfg = some k') : k'.work + 1 ≤ k.work := by
  unfold toReady putToReady at h
  repeat' split at h
  all_goals cases h
  all_goals simp_all [work, ToReady.work, PutToReady.work, PQueue.wait_eq_some,
    PQueue.pop_eq_some, cfg.weigh_sort_work]
  all_goals omega

theorem toExec_work (h : k.toExec now = some k') : k'.work + 1 ≤ k.work := by
  unfold toExec at h
  repeat' split at h
  all_goals cases h
  all_goals simp_all [work, ToExec.work, PQueue.wait_eq_some, PQueue.pop_eq_some]
  all_goals omega

theorem exitProcess_work (h : k.exitProcess = some k') : k'.work + 1 ≤ k.work := by
  unfold exitProcess at h
  repeat' split at h
  all_goals cases h
  all_goals simp_all [work, ExitProcess.work, PQueue.wait_eq_some, PQueue.pop_eq_some]
  all_goals omega

theorem dispatchListener_work (h : k.dispatchListener cfg now = some k') :
    k'.work + 1 ≤ k.work := by
  have hclock := onProgress_work.offClock
  unfold dispatchListener at h
  repeat' split at h
  all_goals cases h
  all_goals simp_all [work, DispatchListener.work, returnWork, hclock.chargeSlice,
    hclock.chargeBurst]
  all_goals omega

theorem ioListener_work (h : k.ioListener cfg now = some k') : k'.work + 1 ≤ k.work := by
  have hclock := onProgress_work.offClock
  unfold ioListener putToReady at h
  repeat' split at h
  all_goals cases h
  all_goals simp_all [work, IoListener.work, PutToReady.work, PQueue.wait_eq_some,
    PQueue.pop_eq_some, cfg.weigh_sort_work, hclock.sleepToLimit]
  all_goals omega

theorem ToReady.work_mapWaiting (serial : ℕ) (reply : TableReply) (state : ToReady) :
    (state.mapWaiting (Job.setTable serial reply)).work = state.work := by
  cases state <;> simp [ToReady.mapWaiting, ToReady.work, onProgress_work.setTable]

/-- `memory_init_q` has one PCB at most, which bounds the iteration. -/
theorem memoryListener_work (h : k.memoryListener stale = some k')
    (hinit : k.memoryInitQ.items.length ≤ 1) : k'.work + 1 ≤ k.work := by
  unfold memoryListener at h
  repeat' split at h
  all_goals cases h
  all_goals simp_all [work, MemoryListener.work, PQueue.wait_eq_some, PQueue.pop_eq_some,
    setTable, ToReady.work_mapWaiting]
  all_goals omega

theorem console_work {i : ℕ} (h : k.console cfg i = some k') : k'.work + 1 ≤ k.work := by
  unfold console at h
  rcases hget : k.consoles[i]? with _ | ⟨socket, thread⟩
  · simp [hget] at h
  have hset := fun new => weigh_set (w := fun console => console.2.work) new hget
  simp only [hget] at h
  cases thread with
  | idle => cases h
  | count job =>
      cases h
      have := hset (socket, .number job)
      simp only [work, ConsoleThread.work] at this ⊢
      omega
  | number job =>
      cases h
      have := hset (socket, .push { job with pcb := Pcb.admit cfg job.pcb k.pid socket })
      simp only [work, ConsoleThread.work, onProgress_work.admit] at this ⊢
      omega
  | push job =>
      cases h
      have := hset (socket, .post)
      simp only [work, ConsoleThread.work, PQueue.items_push, weigh_append, weigh_cons,
        weigh_nil] at this ⊢
      omega
  | post =>
      cases h
      have := hset (socket, .signal)
      simp only [work, ConsoleThread.work, PQueue.items_post] at this ⊢
      omega
  | signal =>
      cases h
      have := hset (socket, .idle)
      simp only [work, ConsoleThread.work] at this ⊢
      omega

/-- Receiving a program does one step of what it costs. -/
theorem consoleReceive_work {i : ℕ} {size : Word} {instructions : List Instruction} {blank : Pcb}
    (h : k.consoleReceive i size instructions blank = some k') :
    k'.work + k.budget + 1 ≤ k.work + k'.budget := by
  unfold consoleReceive at h
  split at h <;> cases h
  rename_i socket hget
  have hset := weigh_set (w := fun console => console.2.work) (socket, .count
    ⟨k.admitted.length, { blank with instructions := instructions, size := size }⟩) hget
  have hle : _ ≤ 94 * instructions.length := Job.work_restart_le
    ⟨k.admitted.length, { blank with instructions := instructions, size := size }⟩
  simp only [work, budget, ConsoleThread.work, programCost, List.length_set, List.map_append,
    List.map_singleton, List.sum_append, List.sum_singleton] at hset ⊢
  omega

theorem memoryReplies_work (hconsumes : Consumes behaviour) {reply : Reply}
    (h : k.memoryReplies behaviour reply = some k') : k'.work + 1 ≤ k.work := by
  unfold memoryReplies at h
  split at h <;> cases h
  rename_i rest hrest
  have := hconsumes _ _ _ hrest
  simp only [work, List.length_append, List.length_singleton]
  omega

/-- Every step of the kernel's own does some of the work. -/
theorem step_work (hconsumes : Consumes behaviour) (h : k.step cfg behaviour action = some k')
    (hown : action.ofConsole = false) (hinit : k.memoryInitQ.items.length ≤ 1) :
    k'.work + 1 ≤ k.work := by
  unfold step at h
  split at h
  · cases h
  cases action with
  | consoleAccept socket => cases hown
  | consoleReceive i size instructions blank => cases hown
  | console i => exact console_work h
  | toReady => exact toReady_work h
  | toExec now => exact toExec_work h
  | exitProcess => exact exitProcess_work h
  | dispatchListener now => exact dispatchListener_work h
  | memoryListener stale => exact memoryListener_work h hinit
  | ioListener now => exact ioListener_work h
  | memory reply => exact memoryReplies_work hconsumes h

/-- Only consoles bring in work. -/
theorem step_budget (h : k.step cfg behaviour action = some k')
    (hown : action.ofConsole = false) : k'.budget = k.budget := by
  have hwrites := step_writes h
  unfold step at h
  split at h
  · cases h
  cases action with
  | consoleAccept socket => cases hown
  | consoleReceive i size instructions blank => cases hown
  | console i =>
      have hlength : k'.consoles.length = k.consoles.length := by
        simp only [console] at h
        repeat' split at h
        all_goals cases h
        all_goals simp
      rw [budget, hlength, hwrites.fields]
      rfl
  | _ => rw [hwrites.fields]; rfl

/-- A step of the kernel does one unit of the work there is or that it brings in. -/
theorem step_spends (hconsumes : Consumes behaviour) (h : k.step cfg behaviour action = some k')
    (hinit : k.memoryInitQ.items.length ≤ 1) : k'.work + k.budget + 1 ≤ k.work + k'.budget := by
  cases hown : action.ofConsole with
  | false =>
      have := step_work hconsumes h hown hinit
      have := step_budget h hown
      omega
  | true =>
      unfold step at h
      split at h
      · cases h
      cases action with
      | consoleAccept socket =>
          cases h
          simp only [work, budget, ConsoleThread.work, weigh_append, weigh_cons, weigh_nil,
            List.length_append, List.length_singleton]
          omega
      | consoleReceive i size instructions blank => exact consoleReceive_work h
      | _ => cases hown

/-- The steps left for what is on the CPU's sockets. -/
def portsWork (ports : CpuPorts) : ℕ :=
  weigh (fun job => 7 + job.work) ports.toCpu + weigh returnWork ports.fromCpu +
    26 * ports.interrupts

theorem work_withPorts (k : Kernel) (ports : CpuPorts) :
    (k.withPorts ports).work + portsWork k.ports = k.work + portsWork ports := by
  simp only [work, portsWork, withPorts, Kernel.ports]
  omega

end Kernel

/-! ## The CPU -/

namespace Cpu

variable {c c' : Cpu} {ports ports' : CpuPorts} {action : CpuAction}

theorem weigh_held (c : Cpu) : weigh Job.work c.held =
    weigh Job.work c.receiver.loading + c.stored * c.pcb.work := by
  rw [held, weigh_append]
  simp [weigh]

/-- The work of a CPU that has not crashed, part by part. -/
theorem work_eq (h : c.crashed = false) : c.work = weigh Job.work c.receiver.loading +
    c.stored * c.pcb.work + c.receiver.work + 4 * c.pcbLoaded + 25 * c.flagged +
      c.cycle.work := by
  simp [work, weigh_held, h]

theorem flagged_le_one (c : Cpu) : c.flagged ≤ 1 := by
  unfold flagged
  split <;> omega

theorem receivePcb_work (h : c.receivePcb ports = some (c', ports')) (hok : c.crashed = false)
    (hone : ports.toCpu.length + c.held.length ≤ 1) :
    c'.work + Kernel.portsWork ports' + 1 ≤ c.work + Kernel.portsWork ports := by
  unfold receivePcb at h
  cases hat : c.receiver with
  | idle =>
      simp only [hat] at h
      split at h <;> cases h
      rename_i job rest hto
      rw [work_eq hok, work_eq (by exact hok)]
      simp only [Kernel.portsWork, hto, hat, stored, flagged, Receiver.loading, Receiver.work,
        Receiver.posting, weigh_cons, weigh_nil]
      omega
  | load job =>
      simp only [hat, Option.some.injEq, Prod.mk.injEq] at h
      obtain ⟨rfl, rfl⟩ := h
      have hstored : c.stored = 0 := by
        simp only [held, hat, Receiver.loading, List.length_append, List.length_singleton,
          List.length_replicate] at hone
        omega
      have hstored' : stored { c with pcb := job, receiver := .post } = 1 := by
        simp only [stored, hat, Receiver.posting] at hstored ⊢
        omega
      rw [work_eq hok, work_eq (by exact hok), hstored, hstored']
      simp only [hat, flagged, Receiver.loading, Receiver.work, weigh_cons, weigh_nil]
      omega
  | post =>
      simp only [hat, Option.some.injEq, Prod.mk.injEq] at h
      obtain ⟨rfl, rfl⟩ := h
      have hstored : stored { c with pcbLoaded := c.pcbLoaded + 1, receiver := .idle } =
          c.stored := by
        simp only [stored, hat, Receiver.posting]
        omega
      rw [work_eq hok, work_eq (by exact hok), hstored]
      simp only [hat, flagged, Receiver.loading, Receiver.work, weigh_nil]
      omega

theorem receiveInterruption_work (h : c.receiveInterruption ports = some (c', ports'))
    (hok : c.crashed = false) :
    c'.work + Kernel.portsWork ports' + 1 ≤ c.work + Kernel.portsWork ports := by
  unfold receiveInterruption at h
  split at h
  · cases h
  rename_i n hn
  split at h <;> cases h
  have hflag := flagged_le_one { c with newInterruption := true }
  rw [work_eq hok, work_eq (by exact hok)]
  simp only [Kernel.portsWork, hn, stored] at hflag ⊢
  omega

/-- A step that leaves the PCB and the interruption alone spends what the cycle has less. -/
theorem work_spent (hok : c.crashed = false) (hok' : c'.crashed = false) (hpcb : c'.pcb = c.pcb)
    (hreceiver : c'.receiver = c.receiver) (hstored : c'.stored = c.stored)
    (hflagged : c'.flagged = c.flagged)
    (hless : 4 * c'.pcbLoaded + c'.cycle.work + 1 ≤ 4 * c.pcbLoaded + c.cycle.work) :
    c'.work + Kernel.portsWork ports + 1 ≤ c.work + Kernel.portsWork ports := by
  rw [work_eq hok, work_eq hok', hpcb, hreceiver, hstored, hflagged]
  omega

theorem flagged_still (hnew : c'.newInterruption = c.newInterruption)
    (hresetting : c'.cycle.resetting = c.cycle.resetting) : c'.flagged = c.flagged := by
  simp only [flagged, hnew, hresetting]

/-- Executing an instruction uses up its share, but for what giving the PCB back takes. -/
theorem execute_work {op : Operation} {params : List Word} (hat : c.cycle = .execute op params)
    (hok : c.crashed = false) : (c.execute op params).work + 1 ≤ c.work := by
  have hstored : (c.execute op params).stored = c.stored := by
    unfold execute
    split <;> simp [stored, hat, Cycle.starting, Cycle.answered]
  have hflagged : (c.execute op params).flagged = c.flagged := by
    unfold execute
    split <;> simp [flagged, hat, Cycle.resetting]
  have hpcb : (c.execute op params).pcb.work = c.pcb.work := by
    unfold execute
    split <;> rfl
  have hreceiver : (c.execute op params).receiver = c.receiver := by
    unfold execute
    split <;> rfl
  have hloaded : (c.execute op params).pcbLoaded = c.pcbLoaded := by
    unfold execute
    split <;> rfl
  have hcycle : (if (c.execute op params).crashed then 0 else (c.execute op params).cycle.work) ≤
      93 := by
    unfold execute
    split <;> simp [hok, Cycle.work]
  have hshare : c.cycle.work = 94 := congrArg Cycle.work hat
  rw [work_eq hok, work, weigh_held, hstored, hflagged, hpcb, hreceiver, hloaded]
  omega

theorem fetch_work {instruction : Instruction} {op : Operation} {pcb : Pcb}
    (hfetch : fetchAndDecode c.pcb.pcb = some (instruction, op, pcb))
    (hnext : c.pcb.pcb.hasNext = true) :
    Job.work { c.pcb with pcb := pcb } + 94 = c.pcb.work := by
  have hsucc := Pcb.toNat_programCounter_succ hnext
  have hlt : c.pcb.pcb.programCounter.toNat < c.pcb.pcb.programSize.toNat := by
    simpa [Pcb.hasNext, BitVec.lt_def] using hnext
  unfold fetchAndDecode at hfetch
  split at hfetch
  · cases hfetch
  · cases hfetch
    have hsize : Pcb.programSize { c.pcb.pcb with
        programCounter := c.pcb.pcb.programCounter + 1 } = c.pcb.pcb.programSize := rfl
    simp only [Job.work, Pcb.remaining, hsize, hsucc]
    omega

theorem cpuCycle_work (h : c.cpuCycle ports = some (c', ports')) (hok : c.crashed = false)
    (hone : c.held.length ≤ 1) (hsound : c.Sound) (hflag : c.FlagKept)
    (hfetching : c.cycle = .fetch → c.pcb.pcb.hasNext = true) :
    c'.work + Kernel.portsWork ports' + 1 ≤ c.work + Kernel.portsWork ports := by
  have hlength : c.receiver.loading.length + c.stored ≤ 1 := by simpa [held] using hone
  unfold cpuCycle at h
  cases hat : c.cycle with
  | fetch =>
      simp only [hat] at h
      split at h <;> cases h
      rename_i instruction op pcb hfetch
      have hbussy : c.cpuBussy = 1 := hsound (by simp [hat, Cycle.working])
      have hstored : c.stored = 1 := by simp only [stored, hat, Cycle.answered] at hlength ⊢; omega
      have hwork := fetch_work hfetch (hfetching hat)
      rw [work_eq hok, work_eq (by exact hok), hstored]
      have hstored' : stored { c with
          pcb := { c.pcb with pcb := pcb }, cycle := .execute op instruction.params } = 1 := by
        simpa [stored, hat, Cycle.starting, Cycle.answered] using hstored
      have hflagged : flagged { c with
          pcb := { c.pcb with pcb := pcb }, cycle := .execute op instruction.params } =
            c.flagged := flagged_still rfl (by rw [hat]; rfl)
      rw [hstored', hflagged]
      simp only [hat, Cycle.work, Kernel.portsWork, ← hwork]
      omega
  | execute op params =>
      simp only [hat, Option.some.injEq, Prod.mk.injEq] at h
      obtain ⟨rfl, rfl⟩ := h
      have := execute_work hat hok
      omega
  | send header =>
      simp only [hat, Option.some.injEq, Prod.mk.injEq] at h
      obtain ⟨rfl, rfl⟩ := h
      have hbussy : c.cpuBussy = 1 := hsound (by simp [hat, Cycle.working])
      have hstored : c.stored = 1 := by simp only [stored, hat, Cycle.answered] at hlength ⊢; omega
      have hstored' : stored { c with cycle := .waitBussy header } = 0 := by
        simp only [stored, hat, Cycle.starting, Cycle.answered] at hstored ⊢
        omega
      have hsent : weigh returnWork (ports.fromCpu ++ [(header, c.pcb)]) =
          weigh returnWork ports.fromCpu + returnWork (header, c.pcb) := by simp
      rw [work_eq hok, work_eq (by exact hok), hstored, hstored', Kernel.portsWork, hsent]
      cases header with
      | interruptDispatch =>
          -- the way of the preempted PCB is paid for by the interruption
          have hnew : c.newInterruption = true := hflag (by rw [hat]; rfl)
          have hflagged : c.flagged = 1 := by simp [flagged, hat, hnew, Cycle.resetting]
          have hflagged' : flagged { c with cycle := .waitBussy .interruptDispatch } = 0 := by
            simp [flagged, Cycle.resetting]
          simp only [hflagged, hflagged', hat, Cycle.work, returnWork, Kernel.portsWork]
          omega
      | ioCall =>
          have hflagged : flagged { c with cycle := .waitBussy .ioCall } = c.flagged :=
            flagged_still rfl (by rw [hat]; rfl)
          simp only [hflagged, hat, Cycle.work, returnWork, Kernel.portsWork]
          omega
      | exitCall =>
          have hflagged : flagged { c with cycle := .waitBussy .exitCall } = c.flagged :=
            flagged_still rfl (by rw [hat]; rfl)
          simp only [hflagged, hat, Cycle.work, returnWork, Kernel.portsWork]
          omega
  | waitLoaded =>
      simp only [hat] at h
      split at h <;> cases h
      rename_i n hn
      refine work_spent hok hok rfl rfl ?_ (flagged_still rfl (by rw [hat]; rfl)) ?_
      · simp only [stored, hat, hn, Cycle.starting, Cycle.answered]
        omega
      · simp only [hat, hn, Cycle.work]
        omega
  | postBussy =>
      simp only [hat, Option.some.injEq, Prod.mk.injEq] at h
      obtain ⟨rfl, rfl⟩ := h
      refine work_spent hok hok rfl rfl ?_ (flagged_still rfl (by rw [hat]; rfl)) ?_
      · simp only [stored, hat, Cycle.starting, Cycle.answered]
        omega
      · simp [hat, Cycle.work]
  | loop =>
      simp only [hat] at h
      split at h <;> cases h
      all_goals
        refine work_spent hok hok rfl rfl ?_ (flagged_still rfl (by rw [hat]; rfl)) ?_
        · simp [stored, hat, Cycle.starting, Cycle.answered]
        · simp [hat, Cycle.work]
  | waitBussy header =>
      simp only [hat] at h
      have hbussy : c.cpuBussy = 1 := hsound (by simp [hat, Cycle.working])
      cases header
      all_goals
        split at h <;> cases h
        rename_i n hn
        refine work_spent hok hok rfl rfl ?_ (flagged_still rfl (by rw [hat]; rfl)) ?_
        · simp only [stored, hat, hn, Cycle.starting, Cycle.answered]
          omega
        · simp [hat, Cycle.work]
  | check =>
      simp only [hat] at h
      split at h <;> cases h
      all_goals
        refine work_spent hok hok rfl rfl ?_ (flagged_still rfl (by rw [hat]; rfl)) ?_
        · simp [stored, hat, Cycle.starting, Cycle.answered]
        · simp [hat, Cycle.work]
  | reset =>
      simp only [hat, Option.some.injEq, Prod.mk.injEq] at h
      obtain ⟨rfl, rfl⟩ := h
      refine work_spent hok hok rfl rfl ?_ ?_ ?_
      · simp [stored, hat, Cycle.starting, Cycle.answered]
      · simp [flagged, hat, Cycle.resetting]
      · simp [hat, Cycle.work]

/-- Every step of the CPU does some of the work. -/
theorem step_work (h : c.step ports action = some (c', ports'))
    (hone : ports.toCpu.length + c.held.length ≤ 1) (hsound : c.Sound) (hflag : c.FlagKept)
    (hfetching : c.cycle = .fetch → c.pcb.pcb.hasNext = true) :
    c'.work + Kernel.portsWork ports' + 1 ≤ c.work + Kernel.portsWork ports := by
  unfold step at h
  split at h
  · cases h
  have hok : c.crashed = false := by simpa using ‹¬ c.crashed = true›
  cases action with
  | receivePcb => exact receivePcb_work h hok hone
  | receiveInterruption => exact receiveInterruption_work h hok
  | cpuCycle => exact cpuCycle_work h hok (by omega) hsound hflag hfetching

end Cpu

/-! ## The system -/

/-- The memory module of the repository replies to a request each time. -/
theorem inOrder_consumes : Consumes inOrder := by
  intro requests reply rest h
  obtain ⟨dropped, request, rfl, -, -, -⟩ := inOrder_eq_some h
  simp only [List.length_append, List.length_cons]
  omega

namespace System

variable {cfg : KernelConfig} {behaviour : MemoryBehaviour} {s s' : System} {action : Action}

/-- `memory_init_q` holds the PCB `to_ready` waits for at most. -/
theorem memoryInitQ_le_one (hk : s.kernel.InitHandshake) :
    s.kernel.memoryInitQ.items.length ≤ 1 := by
  rcases hk.passed with ⟨-, hpassed⟩ | ⟨-, hnone, -⟩
  · have hlength := congrArg List.length hpassed
    simp only [List.length_map, List.length_append] at hlength
    rcases s.kernel.toReadyThread.waiting_eq with hw | ⟨job, hw⟩
    · rw [hw, List.length_nil] at hlength
      omega
    · rw [hw, List.length_singleton] at hlength
      omega
  · simp [(List.append_eq_nil_iff.1 hnone).1]

/-- Every step of the system does one unit of the work there is or that it brings in. -/
theorem step_spends (hconsumes : Consumes behaviour)
    (hs : (system cfg behaviour).ReachableBy InterruptsHeld s)
    (h : s.step cfg behaviour action = some s') :
    s'.work + s.kernel.budget + 1 ≤ s.work + s'.kernel.budget := by
  obtain ⟨hsound, hcontract⟩ := toContract_reachable hs
  have hconserved := Contract.conserved_of_reachable hcontract
  have hone := (Contract.oneToken_of_reachable hcontract).atCpu_le_one
  simp only [toContract] at hone
  rcases step_cases h with ⟨action, k, rfl, hk, rfl⟩ | ⟨action, c, ports, rfl, hcpu, rfl⟩
  · have := Kernel.step_spends hconsumes hk (memoryInitQ_le_one hconserved.handshake)
    simp only [work]
    omega
  · have hspent := Cpu.step_work hcpu (by simp only [Kernel.ports]; omega) hsound
      (interruptionsMatched_of_reachable hs.reachable).flagKept (inOrder_of_reachable hs).2.fetching
    have hports := s.kernel.work_withPorts ports
    have hbudget : (s.kernel.withPorts ports).budget = s.kernel.budget := rfl
    simp only [work, hbudget]
    omega

/-- In runs in which the CPU finds interruptions only with a PCB to give back. -/
theorem restrict_spends (hconsumes : Consumes behaviour) :
    ((system cfg behaviour).restrict InterruptsHeld).Spends work fun s => s.kernel.budget := by
  intro action s s' hs h
  have hstep : s.step cfg behaviour action = some s' := by
    simp only [Machine.restrict] at h
    split at h
    · exact h
    · cases h
  exact step_spends hconsumes (Machine.reachableBy_of_restrict hs) hstep

/-- Under both algorithms, a run in which the CPU finds interruptions only with a PCB to give
back is no longer than the consoles connected and the programs received allow, whatever the
interleaving. -/
theorem run_length_le (hconsumes : Consumes behaviour) {acts : List Action}
    (h : ((system cfg behaviour).restrict InterruptsHeld).run acts ⟨Kernel.start cfg, {}⟩ =
      some s) :
    acts.length ≤ s.kernel.consoles.length +
      (s.kernel.admitted.map fun program => 74 + 94 * program.length).sum := by
  have hle := (restrict_spends hconsumes).length_le .initial h
  have hzero : work (((system cfg behaviour).restrict InterruptsHeld).initial) = 0 := rfl
  have hnone : (((system cfg behaviour).restrict InterruptsHeld).initial).kernel.budget = 0 := rfl
  have hbudget : s.kernel.budget = s.kernel.consoles.length +
      (s.kernel.admitted.map fun program => 74 + 94 * program.length).sum := rfl
  omega

/-- A process is admitted and executes an I/O: 47 steps of the 263 it is allowed. -/
theorem run_length_le_small : ∃ acts s,
    ((system (.small .srt) inOrder).restrict InterruptsHeld).run acts
      ⟨Kernel.start (.small .srt), {}⟩ = some s ∧
    .answered .ioCall 0 ∈ s.kernel.history ∧
    acts.length ≤ s.kernel.consoles.length +
      (s.kernel.admitted.map fun program => 74 + 94 * program.length).sum := by
  let program : List Instruction := [⟨ascii ['I', '/', 'O'], [1]⟩, ⟨ascii ['E', 'X', 'I', 'T'], []⟩]
  let acts := onKernel (admission 0 7 program ++ initialization 1 ++ List.replicate 7 .toReady ++
    List.replicate 8 (.toExec 0)) ++ List.replicate 3 (.cpu .receivePcb) ++ onCycle 6
  have htest : (((system (.small .srt) inOrder).restrict InterruptsHeld).run acts
      ⟨Kernel.start (.small .srt), {}⟩).any
        (fun s => .answered .ioCall 0 ∈ s.kernel.history) = true := by decide +kernel
  cases hrun : ((system (.small .srt) inOrder).restrict InterruptsHeld).run acts
      ⟨Kernel.start (.small .srt), {}⟩ with
  | none => simp [hrun] at htest
  | some s =>
      refine ⟨acts, s, hrun, by simpa [hrun] using htest, ?_⟩
      exact run_length_le inOrder_consumes hrun

end System
end SistemasOperativos
