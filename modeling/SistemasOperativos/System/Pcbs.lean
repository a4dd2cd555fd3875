import SistemasOperativos.System.Places

/-!
# What a step does to the PCBs

Every PCB that has its pid, wherever it is, and whatever a step does to it: the kernel charges a
slice or a burst, sleeps for it, or assigns its tables; the CPU moves its program counter and
stores an I/O time; any other step leaves the PCB as it is.  A new one comes from the console
thread that numbers it.  A property of PCBs that survives these changes is an invariant.
-/

namespace SistemasOperativos

/-- The PCB `to_ready` has, whether it is in `memory_init_q` at the same time or not. -/
def ToReady.pcbs : ToReady → List Job
  | .sendNew job | .pushInit job | .postInit job | .awaitTable job => [job]
  | .put state => state.hands
  | _ => []

/-- The console threads' PCBs that have their pids. -/
def consolePcbs (consoles : List (Word × ConsoleThread)) : List Job :=
  consoles.flatMap fun console => console.2.numbered

/-! ## The kernel -/

namespace Kernel

/-- Every PCB of the kernel and the dispatch socket that has its pid meets `P`. -/
structure EveryPcb (P : Job → Prop) (k : Kernel) : Prop where
  consoles : ∀ job ∈ consolePcbs k.consoles, P job
  newQ : ∀ job ∈ k.newQ.items, P job
  toReady : ∀ job ∈ k.toReadyThread.pcbs, P job
  memoryInitQ : ∀ job ∈ k.memoryInitQ.items, P job
  memoryListener : ∀ job ∈ k.memoryThread.hands, P job
  readyQ : ∀ job ∈ k.readyQ.items, P job
  toExec : ∀ job ∈ k.toExecThread.hands, P job
  toCpu : ∀ job ∈ k.toCpu, P job
  fromCpu : ∀ job ∈ k.fromCpu.map Prod.snd, P job
  dispatch : ∀ job ∈ k.dispatchThread.hands, P job
  blockedQ : ∀ job ∈ k.blockedQ.items, P job
  io : ∀ job ∈ k.ioThread.hands, P job
  suspendedBlockQ : ∀ job ∈ k.suspendedBlockQ.items, P job
  suspendedReadyQ : ∀ job ∈ k.suspendedReadyQ.items, P job
  exitQ : ∀ job ∈ k.exitQ.items, P job
  exitProcess : ∀ job ∈ k.exitProcessThread.hands, P job
  memoryExitQ : ∀ job ∈ k.memoryExitQ.items, P job

variable {cfg : KernelConfig} {behaviour : MemoryBehaviour} {k k' : Kernel} {now : Word}
  {stale : ℕ → Pcb} {action : KernelAction} {P Q : Job → Prop}

theorem EveryPcb.imp (hk : k.EveryPcb P) (h : ∀ job, P job → Q job) : k.EveryPcb Q where
  consoles job hjob := h job (hk.consoles job hjob)
  newQ job hjob := h job (hk.newQ job hjob)
  toReady job hjob := h job (hk.toReady job hjob)
  memoryInitQ job hjob := h job (hk.memoryInitQ job hjob)
  memoryListener job hjob := h job (hk.memoryListener job hjob)
  readyQ job hjob := h job (hk.readyQ job hjob)
  toExec job hjob := h job (hk.toExec job hjob)
  toCpu job hjob := h job (hk.toCpu job hjob)
  fromCpu job hjob := h job (hk.fromCpu job hjob)
  dispatch job hjob := h job (hk.dispatch job hjob)
  blockedQ job hjob := h job (hk.blockedQ job hjob)
  io job hjob := h job (hk.io job hjob)
  suspendedBlockQ job hjob := h job (hk.suspendedBlockQ job hjob)
  suspendedReadyQ job hjob := h job (hk.suspendedReadyQ job hjob)
  exitQ job hjob := h job (hk.exitQ job hjob)
  exitProcess job hjob := h job (hk.exitProcess job hjob)
  memoryExitQ job hjob := h job (hk.memoryExitQ job hjob)

/-! ### What the threads change -/

/-- What a step of the kernel makes of a PCB that has its pid. -/
inductive Changes (cfg : KernelConfig) (k : Kernel) : KernelAction → Job → Job → Prop
  | same (action : KernelAction) (job : Job) : Changes cfg k action job job
  | table (stale : ℕ → Pcb) (serial : ℕ) (reply : TableReply) (job : Job) :
      Changes cfg k (.memoryListener stale) job (job.setTable serial reply)
  | slice (now : Word) {job : Job} (h : k.dispatchThread = .interrupted job) :
      Changes cfg k (.dispatchListener now) job
        { job with pcb := job.pcb.chargeSlice now k.toExecTime }
  | burst (now : Word) {job : Job} (h : k.dispatchThread = .io job) :
      Changes cfg k (.dispatchListener now) job
        { job with pcb := job.pcb.chargeBurst cfg now k.toExecTime }
  | sleep (now : Word) {job : Job} (h : k.ioThread = .stamp job) :
      Changes cfg k (.ioListener now) job { job with pcb := job.pcb.sleepToLimit cfg now }

/-- The step gives the PCB its pid. -/
def Numbers (cfg : KernelConfig) (k : Kernel) (action : KernelAction) (job : Job) : Prop :=
  ∃ i socket fresh, action = .console i ∧ k.consoles[i]? = some (socket, .number fresh) ∧
    job = { fresh with pcb := Pcb.admit cfg fresh.pcb k.pid socket }

theorem toReady_everyPcb (h : k.toReady cfg = some k') (hk : k.EveryPcb Q) : k'.EveryPcb Q := by
  have hnewQ := hk.newQ
  have htoReady := hk.toReady
  have hmemoryInitQ := hk.memoryInitQ
  have hreadyQ := hk.readyQ
  have hsuspendedReadyQ := hk.suspendedReadyQ
  unfold toReady putToReady at h
  repeat' split at h
  all_goals cases h
  all_goals refine { hk with
    newQ := ?_, toReady := ?_, memoryInitQ := ?_, readyQ := ?_, suspendedReadyQ := ?_ }
  all_goals first
    | assumption
    | simp_all [ToReady.pcbs, PutToReady.hands, PQueue.wait_eq_some, PQueue.pop_eq_some, or_imp]

theorem toExec_everyPcb (h : k.toExec now = some k') (hk : k.EveryPcb Q) : k'.EveryPcb Q := by
  have hreadyQ := hk.readyQ
  have htoExec := hk.toExec
  have htoCpu := hk.toCpu
  unfold toExec at h
  repeat' split at h
  all_goals cases h
  all_goals refine { hk with readyQ := ?_, toExec := ?_, toCpu := ?_ }
  all_goals first
    | assumption
    | simp_all [ToExec.hands, PQueue.wait_eq_some, PQueue.pop_eq_some, or_imp]

theorem exitProcess_everyPcb (h : k.exitProcess = some k') (hk : k.EveryPcb Q) :
    k'.EveryPcb Q := by
  have hexitQ := hk.exitQ
  have hexitProcess := hk.exitProcess
  have hmemoryExitQ := hk.memoryExitQ
  unfold exitProcess at h
  repeat' split at h
  all_goals cases h
  all_goals refine { hk with exitQ := ?_, exitProcess := ?_, memoryExitQ := ?_ }
  all_goals first
    | assumption
    | simp_all [ExitProcess.hands, PQueue.wait_eq_some, PQueue.pop_eq_some, or_imp]

theorem dispatchListener_everyPcb (h : k.dispatchListener cfg now = some k') (hk : k.EveryPcb Q)
    (hslice : ∀ job, k.dispatchThread = .interrupted job →
      Q { job with pcb := job.pcb.chargeSlice now k.toExecTime })
    (hburst : ∀ job, k.dispatchThread = .io job →
      Q { job with pcb := job.pcb.chargeBurst cfg now k.toExecTime }) : k'.EveryPcb Q := by
  have hreadyQ := hk.readyQ
  have hfromCpu := hk.fromCpu
  have hdispatch := hk.dispatch
  have hblockedQ := hk.blockedQ
  have hexitQ := hk.exitQ
  unfold dispatchListener at h
  repeat' split at h
  all_goals cases h
  all_goals refine { hk with
    readyQ := ?_, fromCpu := ?_, dispatch := ?_, blockedQ := ?_, exitQ := ?_ }
  all_goals first
    | assumption
    | grind [DispatchListener.hands, PQueue.items_push, PQueue.items_post]

/-- Assigning the tables through the queue changes the PCB in it and the one `to_ready` has. -/
theorem setTable_everyPcb {serial : ℕ} {reply : TableReply} (hk : k.EveryPcb P)
    (hkept : k.EveryPcb Q) (htable : ∀ job, P job → Q (job.setTable serial reply)) :
    (k.setTable serial reply).EveryPcb Q := by
  have htoReady := hk.toReady
  have hmemoryInitQ := hk.memoryInitQ
  have hkeptReady := hkept.toReady
  refine { hkept with toReady := ?_, memoryInitQ := ?_ }
  · show ∀ job ∈ (k.toReadyThread.mapWaiting (Job.setTable serial reply)).pcbs, Q job
    cases hat : k.toReadyThread <;> rw [hat] at htoReady hkeptReady <;>
      simp_all [ToReady.mapWaiting, ToReady.pcbs]
  · simp only [setTable, List.mem_map]
    rintro _ ⟨job, hjob, rfl⟩
    exact htable job (hmemoryInitQ job hjob)

theorem memoryListener_everyPcb (h : k.memoryListener stale = some k') (hk : k.EveryPcb P)
    (hkept : k.EveryPcb Q) (htable : ∀ serial reply job, P job → Q (job.setTable serial reply)) :
    k'.EveryPcb Q := by
  have hmemoryInitQ := hkept.memoryInitQ
  have hmemoryListener := hkept.memoryListener
  unfold memoryListener at h
  repeat' split at h
  all_goals cases h
  all_goals first
    | refine { setTable_everyPcb hk hkept (htable _ _) with memoryListener := ?_ }
      simpa [MemoryListener.hands, *] using hmemoryListener
    | refine { hkept with memoryInitQ := ?_, memoryListener := ?_ }
      all_goals first
        | assumption
        | simp_all [MemoryListener.hands, PQueue.wait_eq_some, PQueue.pop_eq_some, or_imp]

theorem ioListener_everyPcb (h : k.ioListener cfg now = some k') (hk : k.EveryPcb Q)
    (hsleep : ∀ job, k.ioThread = .stamp job →
      Q { job with pcb := job.pcb.sleepToLimit cfg now }) : k'.EveryPcb Q := by
  have hreadyQ := hk.readyQ
  have hblockedQ := hk.blockedQ
  have hio := hk.io
  have hsuspendedBlockQ := hk.suspendedBlockQ
  have hsuspendedReadyQ := hk.suspendedReadyQ
  unfold ioListener putToReady at h
  repeat' split at h
  all_goals cases h
  all_goals refine { hk with
    readyQ := ?_, blockedQ := ?_, io := ?_, suspendedBlockQ := ?_, suspendedReadyQ := ?_ }
  all_goals first
    | assumption
    | simp_all [IoListener.hands, PutToReady.hands, PQueue.wait_eq_some, PQueue.pop_eq_some, or_imp]

theorem mem_consolePcbs_set {consoles : List (Word × ConsoleThread)} {i : ℕ} {job : Job}
    {console : Word × ConsoleThread} (h : job ∈ consolePcbs (consoles.set i console)) :
    job ∈ consolePcbs consoles ∨ job ∈ console.2.numbered := by
  obtain ⟨other, hother, hjob⟩ := List.mem_flatMap.mp h
  rcases List.mem_or_eq_of_mem_set hother with hmem | rfl
  · exact Or.inl (List.mem_flatMap.mpr ⟨other, hmem, hjob⟩)
  · exact Or.inr hjob

theorem console_everyPcb {i : ℕ} (h : k.console cfg i = some k') (hk : k.EveryPcb Q)
    (hnumber : ∀ socket fresh, k.consoles[i]? = some (socket, .number fresh) →
      Q { fresh with pcb := Pcb.admit cfg fresh.pcb k.pid socket }) : k'.EveryPcb Q := by
  have hset : ∀ console : Word × ConsoleThread, (∀ job ∈ console.2.numbered, Q job) →
      ∀ job ∈ consolePcbs (k.consoles.set i console), Q job := by
    intro console hconsole job hjob
    rcases mem_consolePcbs_set hjob with hjob | hjob
    · exact hk.consoles job hjob
    · exact hconsole job hjob
  have hnewQ := hk.newQ
  unfold console at h
  split at h <;> cases h
  case h_3 socket job hat =>
    have hjob : Q job := hk.consoles job
      (List.mem_flatMap.mpr ⟨_, List.mem_of_getElem? hat, List.mem_singleton_self job⟩)
    refine { hk with consoles := hset _ (by simp [ConsoleThread.numbered]), newQ := ?_ }
    simp_all [or_imp]
  all_goals refine { hk with consoles := hset _ ?_ }
  all_goals simp_all [ConsoleThread.numbered]

/-- A property that survives what the step changes holds of every PCB after the step. -/
theorem step_everyPcb (h : k.step cfg behaviour action = some k') (hk : k.EveryPcb P)
    (hchanges : ∀ old job, P old → k.Changes cfg action old job → Q job)
    (hnumbers : ∀ job, k.Numbers cfg action job → Q job) : k'.EveryPcb Q := by
  have hwrites := step_writes h
  have hkept : k.EveryPcb Q := hk.imp fun job hjob => hchanges job job hjob (.same action job)
  unfold step at h
  split at h
  · cases h
  cases action with
  | consoleAccept socket =>
      cases h
      refine { hkept with consoles := ?_ }
      simpa [consolePcbs, ConsoleThread.numbered] using hkept.consoles
  | consoleReceive i size instructions blank =>
      simp only [consoleReceive] at h
      split at h <;> cases h
      refine { hkept with consoles := fun job hjob => ?_ }
      rcases mem_consolePcbs_set hjob with hjob | hjob
      · exact hkept.consoles job hjob
      · cases hjob
  | console i =>
      exact console_everyPcb h hkept fun socket fresh hat =>
        hnumbers _ ⟨i, socket, fresh, rfl, hat, rfl⟩
  | toReady => exact toReady_everyPcb h hkept
  | toExec now => exact toExec_everyPcb h hkept
  | exitProcess => exact exitProcess_everyPcb h hkept
  | dispatchListener now =>
      refine dispatchListener_everyPcb h hkept (fun job hat => ?_) fun job hat => ?_
      · have hjob := hk.dispatch job (by rw [hat]; exact List.mem_singleton_self job)
        exact hchanges job _ hjob (.slice now hat)
      · have hjob := hk.dispatch job (by rw [hat]; exact List.mem_singleton_self job)
        exact hchanges job _ hjob (.burst now hat)
  | memoryListener stale =>
      exact memoryListener_everyPcb h hk hkept fun serial reply job hjob =>
        hchanges job _ hjob (.table stale serial reply job)
  | ioListener now =>
      refine ioListener_everyPcb h hkept fun job hat => ?_
      have hjob := hk.io job (by rw [hat]; exact List.mem_singleton_self job)
      exact hchanges job _ hjob (.sleep now hat)
  | memory reply => rw [hwrites.fields]; exact { hkept with }

/-- Using the CPU's end of the sockets changes the PCBs on them. -/
theorem withPorts_everyPcb {ports : CpuPorts} (hk : k.EveryPcb Q)
    (htoCpu : ∀ job ∈ ports.toCpu, Q job) (hfromCpu : ∀ job ∈ ports.fromCpu.map Prod.snd, Q job) :
    (k.withPorts ports).EveryPcb Q :=
  { hk with toCpu := htoCpu, fromCpu := hfromCpu }

theorem start_everyPcb (cfg : KernelConfig) (P : Job → Prop) : (Kernel.start cfg).EveryPcb P := by
  constructor <;> exact nofun

end Kernel

/-! ## The CPU -/

namespace Cpu

variable {c c' : Cpu} {ports ports' : CpuPorts} {action : CpuAction} {P Q : Job → Prop}

/-- No PCB has been stored in the global since `cpu_cycle` went to wait for one. -/
def Waiting (c : Cpu) : Prop :=
  c.cycle = .waitLoaded ∧ c.pcbLoaded = 0 ∧ c.receiver ≠ .post

/-- Every PCB of the CPU meets `P`: the one the dispatch thread has received, and the global one
while `cpu_cycle` may use it. -/
structure EveryPcb (P : Job → Prop) (c : Cpu) : Prop where
  receiver : ∀ job, c.receiver = .load job → P job
  pcb : c.Waiting ∨ P c.pcb

theorem EveryPcb.imp (hc : c.EveryPcb P) (h : ∀ job, P job → Q job) : c.EveryPcb Q :=
  ⟨fun job hat => h job (hc.receiver job hat), hc.pcb.imp_right (h c.pcb)⟩

/-- What a step of the CPU makes of a PCB. -/
inductive Changes (c : Cpu) : CpuAction → Job → Job → Prop
  | same (action : CpuAction) (job : Job) : Changes c action job job
  | fetch (h : c.cycle = .fetch) :
      Changes c .cpuCycle c.pcb
        { c.pcb with pcb :=
            { c.pcb.pcb with programCounter := c.pcb.pcb.programCounter + 1 } }
  | io (time : Word) {params : List Word} (h : c.cycle = .execute .ioOp params) :
      Changes c .cpuCycle c.pcb { c.pcb with pcb := { c.pcb.pcb with pendingIoTime := time } }

theorem receivePcb_everyPcb (h : c.receivePcb ports = some (c', ports')) (hc : c.EveryPcb Q)
    (htoCpu : ∀ job ∈ ports.toCpu, Q job) (hfromCpu : ∀ job ∈ ports.fromCpu.map Prod.snd, Q job) :
    c'.EveryPcb Q ∧ (∀ job ∈ ports'.toCpu, Q job) ∧
      ∀ job ∈ ports'.fromCpu.map Prod.snd, Q job := by
  have hpcb := hc.pcb
  unfold receivePcb at h
  cases hat : c.receiver with
  | idle =>
      simp only [hat] at h
      split at h <;> cases h
      rename_i job rest hto
      rw [hto, List.forall_mem_cons] at htoCpu
      refine ⟨⟨?_, ?_⟩, htoCpu.2, hfromCpu⟩
      · rintro _ ⟨⟩
        exact htoCpu.1
      · simpa [Waiting, hat] using hpcb
  | load job =>
      simp only [hat, Option.some.injEq, Prod.mk.injEq] at h
      obtain ⟨rfl, rfl⟩ := h
      exact ⟨⟨nofun, Or.inr (hc.receiver job hat)⟩, htoCpu, hfromCpu⟩
  | post =>
      simp only [hat, Option.some.injEq, Prod.mk.injEq] at h
      obtain ⟨rfl, rfl⟩ := h
      have hloaded : Q c.pcb := hpcb.resolve_left fun hwaiting => hwaiting.2.2 hat
      exact ⟨⟨nofun, Or.inr hloaded⟩, htoCpu, hfromCpu⟩

/-- While `cpu_cycle` does not wait for a PCB the global one is in use. -/
theorem EveryPcb.of_cycle (hc : c.EveryPcb P) (h : c.cycle ≠ .waitLoaded) : P c.pcb :=
  hc.pcb.resolve_left fun hwaiting => h hwaiting.1

theorem cpuCycle_everyPcb (h : c.cpuCycle ports = some (c', ports')) (hc : c.EveryPcb P)
    (hkept : c.EveryPcb Q) (htoCpu : ∀ job ∈ ports.toCpu, Q job)
    (hfromCpu : ∀ job ∈ ports.fromCpu.map Prod.snd, Q job)
    (hchanges : ∀ job, P c.pcb → c.Changes .cpuCycle c.pcb job → Q job) :
    c'.EveryPcb Q ∧ (∀ job ∈ ports'.toCpu, Q job) ∧
      ∀ job ∈ ports'.fromCpu.map Prod.snd, Q job := by
  have hreceiver := hkept.receiver
  unfold cpuCycle at h
  cases hat : c.cycle with
  | waitLoaded =>
      simp only [hat] at h
      split at h <;> cases h
      rename_i n hn
      have hpcb : Q c.pcb := hkept.pcb.resolve_left fun hwaiting => by
        rw [hwaiting.2.1] at hn
        cases hn
      exact ⟨⟨hreceiver, Or.inr hpcb⟩, htoCpu, hfromCpu⟩
  | fetch =>
      simp only [hat] at h
      split at h <;> cases h
      rename_i instruction op pcb hfetch
      have hpcb : P c.pcb := hc.of_cycle (by rw [hat]; nofun)
      simp only [fetchAndDecode] at hfetch
      split at hfetch <;> cases hfetch
      exact ⟨⟨hreceiver, Or.inr (hchanges _ hpcb (.fetch hat))⟩, htoCpu, hfromCpu⟩
  | execute op params =>
      simp only [hat, Option.some.injEq, Prod.mk.injEq] at h
      obtain ⟨rfl, rfl⟩ := h
      have hpcb : P c.pcb := hc.of_cycle (by rw [hat]; nofun)
      have hsame : Q c.pcb := hkept.of_cycle (by rw [hat]; nofun)
      refine ⟨?_, htoCpu, hfromCpu⟩
      unfold execute
      split
      case h_2 time _ => exact ⟨hreceiver, Or.inr (hchanges _ hpcb (.io time hat))⟩
      all_goals exact ⟨hreceiver, Or.inr hsame⟩
  | send header =>
      simp only [hat, Option.some.injEq, Prod.mk.injEq] at h
      obtain ⟨rfl, rfl⟩ := h
      have hsame : Q c.pcb := hkept.of_cycle (by rw [hat]; nofun)
      refine ⟨⟨hreceiver, Or.inr hsame⟩, htoCpu, ?_⟩
      simp only [List.map_append, List.forall_mem_append]
      exact ⟨hfromCpu, by simpa using hsame⟩
  | _ =>
      have hsame : Q c.pcb := hkept.of_cycle (by rw [hat]; nofun)
      simp only [hat] at h
      repeat' split at h
      all_goals cases h
      all_goals exact ⟨⟨hreceiver, Or.inr hsame⟩, htoCpu, hfromCpu⟩

/-- A property that survives what the step changes holds of every PCB after the step. -/
theorem step_everyPcb (h : c.step ports action = some (c', ports')) (hc : c.EveryPcb P)
    (htoCpu : ∀ job ∈ ports.toCpu, P job) (hfromCpu : ∀ job ∈ ports.fromCpu.map Prod.snd, P job)
    (hchanges : ∀ old job, P old → c.Changes action old job → Q job) :
    c'.EveryPcb Q ∧ (∀ job ∈ ports'.toCpu, Q job) ∧
      ∀ job ∈ ports'.fromCpu.map Prod.snd, Q job := by
  have hsame : ∀ job, P job → Q job := fun job hjob => hchanges job job hjob (.same action job)
  have hkept : c.EveryPcb Q := hc.imp hsame
  have htoCpu' : ∀ job ∈ ports.toCpu, Q job := fun job hjob => hsame job (htoCpu job hjob)
  have hfromCpu' : ∀ job ∈ ports.fromCpu.map Prod.snd, Q job :=
    fun job hjob => hsame job (hfromCpu job hjob)
  unfold step at h
  split at h
  · cases h
  cases action with
  | receivePcb => exact receivePcb_everyPcb h hkept htoCpu' hfromCpu'
  | receiveInterruption =>
      simp only [receiveInterruption] at h
      repeat' split at h
      all_goals cases h
      exact ⟨⟨hkept.receiver, hkept.pcb⟩, htoCpu', hfromCpu'⟩
  | cpuCycle =>
      exact cpuCycle_everyPcb h hc hkept htoCpu' hfromCpu' fun job => hchanges c.pcb job

end Cpu

/-! ## The system -/

namespace System

variable {cfg : KernelConfig} {behaviour : MemoryBehaviour} {s s' : System} {action : Action}
  {P Q : Job → Prop}

/-- Every PCB of the system that has its pid meets `P`. -/
structure EveryPcb (P : Job → Prop) (s : System) : Prop where
  kernel : s.kernel.EveryPcb P
  cpu : s.cpu.EveryPcb P

/-- What a step makes of a PCB that has its pid. -/
def Changes (cfg : KernelConfig) (s : System) : Action → Job → Job → Prop
  | .kernel action => s.kernel.Changes cfg action
  | .cpu action => s.cpu.Changes action

/-- The step gives the PCB its pid. -/
def Numbers (cfg : KernelConfig) (s : System) : Action → Job → Prop
  | .kernel action => s.kernel.Numbers cfg action
  | .cpu _ => fun _ => False

theorem Changes.refl (action : Action) (job : Job) : s.Changes cfg action job job := by
  cases action with
  | kernel action => exact .same action job
  | cpu action => exact .same action job

theorem EveryPcb.imp (hs : s.EveryPcb P) (h : ∀ job, P job → Q job) : s.EveryPcb Q :=
  ⟨hs.kernel.imp h, hs.cpu.imp h⟩

/-- A property that survives what the step changes, and that the step gives to the PCB it
numbers, holds of every PCB after the step. -/
theorem step_everyPcb (h : s.step cfg behaviour action = some s') (hs : s.EveryPcb P)
    (hchanges : ∀ old job, P old → s.Changes cfg action old job → Q job)
    (hnumbers : ∀ job, s.Numbers cfg action job → Q job) : s'.EveryPcb Q := by
  have hsame : ∀ job, P job → Q job := fun job hjob => hchanges job job hjob (.refl action job)
  rcases step_cases h with ⟨action, k, rfl, hstep, rfl⟩ | ⟨action, c, ports, rfl, hcpu, rfl⟩
  · exact ⟨Kernel.step_everyPcb hstep hs.kernel hchanges hnumbers, hs.cpu.imp hsame⟩
  · obtain ⟨hc, htoCpu, hfromCpu⟩ := Cpu.step_everyPcb hcpu hs.cpu hs.kernel.toCpu
      hs.kernel.fromCpu hchanges
    exact ⟨Kernel.withPorts_everyPcb (hs.kernel.imp hsame) htoCpu hfromCpu, hc⟩

theorem initial_everyPcb (cfg : KernelConfig) : EveryPcb P ⟨Kernel.start cfg, {}⟩ :=
  ⟨Kernel.start_everyPcb cfg P, nofun, Or.inl ⟨rfl, rfl, nofun⟩⟩

end System

end SistemasOperativos
