import SistemasOperativos.Proofs.TableHandshake

/-!
# Who has which tables

A PCB has its tables from the post of `pcb_table_ready` on, wherever it is, and keeps them; a
reply under way is for the PCB `new_to_ready` has asked tables for.  What a reply says of its
process therefore becomes true of a PCB that has its tables, and stays true.
-/

namespace SistemasOperativos

/-- A property of PCBs that depends on the process, its pid and its tables only. -/
def Job.AboutTables (P : Job → Prop) : Prop :=
  ∀ (job : Job) (pcb : Pcb), pcb.pid = job.pcb.pid → pcb.pageTable = job.pcb.pageTable →
    pcb.processFramesIndex = job.pcb.processFramesIndex → P job → P { job with pcb := pcb }

/-- The process that a `PROCESS_NEW` asks tables for.  A request for pid 0 is not answered. -/
def Request.asking : Request → Option ℕ
  | .processNew serial pid _ => if pid = 0 then none else some serial
  | _ => none

theorem Request.thread_of_asking {request : Request} (h : request.asking.isSome = true) :
    request.thread = .toReady := by
  cases request <;> simp_all [asking]

/-- The contents of a `PROCESS_MEMORY_READY`. -/
def Reply.table : Reply → Option TableReply
  | .processMemoryReady pid pageTable processFramesIndex =>
      some ⟨pid, pageTable, processFramesIndex⟩
  | _ => none

/-- The PCB of `to_ready` that has its tables, given the value of `pcb_table_ready`. -/
def ToReady.tabled (pcbTableReady : ℕ) : ToReady → List Job
  | .postInit job | .awaitTable job => if pcbTableReady = 0 then [] else [job]
  | .put state => state.hands
  | _ => []

namespace Kernel

variable {cfg : KernelConfig} {behaviour : MemoryBehaviour} {k k' : Kernel} {now : Word}
  {stale : ℕ → Pcb} {action : KernelAction} {P Q : Job → Prop}

/-! ## Processes that have their tables -/

/-- Every PCB that has its tables meets `P`. -/
structure TabledPcbs (P : Job → Prop) (k : Kernel) : Prop where
  toReady : ∀ job ∈ k.toReadyThread.tabled k.pcbTableReady, P job
  readyQ : ∀ job ∈ k.readyQ.items, P job
  toExec : ∀ job ∈ k.toExecThread.hands, P job
  toCpu : ∀ job ∈ k.toCpu, P job
  fromCpu : ∀ job ∈ k.fromCpu.map Prod.snd, P job
  dispatch : ∀ job ∈ k.dispatchThread.hands, P job
  blockedQ : ∀ job ∈ k.blockedQ.items, P job
  io : ∀ job ∈ k.ioThread.hands, P job
  suspendedBlockQ : ∀ job ∈ k.suspendedBlockQ.items, P job
  suspendedReadyQ : ∀ job ∈ k.suspendedReadyQ.items, P job
  exitQ : ∀ job ∈ k.exitQ.items, P job
  exitProcess : ∀ job ∈ k.exitProcessThread.hands, P job

theorem TabledPcbs.imp (hk : k.TabledPcbs P) (h : ∀ job, P job → Q job) : k.TabledPcbs Q where
  toReady job hjob := h job (hk.toReady job hjob)
  readyQ job hjob := h job (hk.readyQ job hjob)
  toExec job hjob := h job (hk.toExec job hjob)
  toCpu job hjob := h job (hk.toCpu job hjob)
  fromCpu job hjob := h job (hk.fromCpu job hjob)
  dispatch job hjob := h job (hk.dispatch job hjob)
  blockedQ job hjob := h job (hk.blockedQ job hjob)
  io job hjob := h job (hk.io job hjob)
  suspendedBlockQ job hjob := h job (hk.suspendedBlockQ job hjob)
  suspendedReadyQ job hjob := h job (hk.suspendedReadyQ job hjob)
  exitQ job hjob := h job (hk.exitQ job hjob)
  exitProcess job hjob := h job (hk.exitProcess job hjob)

theorem TabledPcbs.withPorts {ports : CpuPorts} (hk : k.TabledPcbs P)
    (htoCpu : ∀ job ∈ ports.toCpu, P job) (hfromCpu : ∀ job ∈ ports.fromCpu.map Prod.snd, P job) :
    (k.withPorts ports).TabledPcbs P :=
  { hk with toCpu := htoCpu, fromCpu := hfromCpu }

theorem start_tabledPcbs (cfg : KernelConfig) (P : Job → Prop) :
    (start cfg).TabledPcbs P := by
  constructor <;> exact nofun

theorem toExec_tabledPcbs (h : k.toExec now = some k') (hk : k.TabledPcbs P) :
    k'.TabledPcbs P := by
  have hreadyQ := hk.readyQ
  have htoExec := hk.toExec
  have htoCpu := hk.toCpu
  unfold toExec at h
  repeat' split at h
  all_goals cases h
  all_goals refine { hk with readyQ := ?_, toExec := ?_, toCpu := ?_ }
  all_goals first
    | assumption
    | simp_all [ToExec.hands, PQueue.wait_eq_some, PQueue.pop_eq_some, or_imp]

theorem exitProcess_tabledPcbs (h : k.exitProcess = some k') (hk : k.TabledPcbs P) :
    k'.TabledPcbs P := by
  have hexitQ := hk.exitQ
  have hexitProcess := hk.exitProcess
  unfold exitProcess at h
  repeat' split at h
  all_goals cases h
  all_goals refine { hk with exitQ := ?_, exitProcess := ?_ }
  all_goals first
    | assumption
    | simp_all [ExitProcess.hands, PQueue.wait_eq_some, PQueue.pop_eq_some]

theorem dispatchListener_tabledPcbs (h : k.dispatchListener cfg now = some k')
    (hP : Job.AboutTables P) (hk : k.TabledPcbs P) : k'.TabledPcbs P := by
  have hreadyQ := hk.readyQ
  have hfromCpu := hk.fromCpu
  have hdispatch := hk.dispatch
  have hblockedQ := hk.blockedQ
  have hexitQ := hk.exitQ
  have hslice : ∀ job : Job, P job → ∀ fromMs toMs,
      P { job with pcb := job.pcb.chargeSlice fromMs toMs } :=
    fun job hjob fromMs toMs => hP job _ rfl rfl rfl hjob
  have hburst : ∀ job : Job, P job → ∀ fromMs toMs,
      P { job with pcb := job.pcb.chargeBurst cfg fromMs toMs } :=
    fun job hjob fromMs toMs => hP job _ rfl rfl rfl hjob
  unfold dispatchListener at h
  repeat' split at h
  all_goals cases h
  all_goals refine { hk with
    readyQ := ?_, fromCpu := ?_, dispatch := ?_, blockedQ := ?_, exitQ := ?_ }
  all_goals first
    | assumption
    | grind [DispatchListener.hands, PQueue.items_push, PQueue.items_post]

theorem ioListener_tabledPcbs (h : k.ioListener cfg now = some k') (hP : Job.AboutTables P)
    (hk : k.TabledPcbs P) : k'.TabledPcbs P := by
  have hreadyQ := hk.readyQ
  have hblockedQ := hk.blockedQ
  have hio := hk.io
  have hsuspendedBlockQ := hk.suspendedBlockQ
  have hsuspendedReadyQ := hk.suspendedReadyQ
  have hsleep : ∀ job : Job, P job → P { job with pcb := job.pcb.sleepToLimit cfg now } :=
    fun job hjob => hP job _ rfl rfl rfl hjob
  unfold ioListener putToReady at h
  repeat' split at h
  all_goals cases h
  all_goals refine { hk with
    readyQ := ?_, blockedQ := ?_, io := ?_, suspendedBlockQ := ?_, suspendedReadyQ := ?_ }
  all_goals first
    | assumption
    | simp_all [IoListener.hands, PutToReady.hands, PQueue.wait_eq_some, PQueue.pop_eq_some, or_imp]

/-- A PCB passes to `put_to_ready` with its tables. -/
theorem toReady_tabledPcbs (h : k.toReady cfg = some k') (htracked : k.TablesTracked)
    (hk : k.TabledPcbs P) : k'.TabledPcbs P := by
  have hready : ∀ job, k.toReadyThread = .pushInit job → k.pcbTableReady = 0 := by
    intro job hat
    rcases htracked.queue with ⟨hready, -⟩ | ⟨-, -, hne⟩
    · exact hready
    · simp [hat, ToReady.waiting] at hne
  have htoReady := hk.toReady
  have hreadyQ := hk.readyQ
  have hsuspendedReadyQ := hk.suspendedReadyQ
  unfold toReady putToReady at h
  repeat' split at h
  all_goals cases h
  all_goals refine { hk with toReady := ?_, readyQ := ?_, suspendedReadyQ := ?_ }
  all_goals first
    | assumption
    | simp_all [ToReady.tabled, PutToReady.hands, PQueue.wait_eq_some, PQueue.pop_eq_some, or_imp]

/-- `table_index_success` posts for a PCB that has the tables of its reply. -/
theorem memoryListener_tabledPcbs (h : k.memoryListener stale = some k')
    (htracked : k.TablesTracked)
    (hreply : ∀ reply, k.memoryThread.tables = some reply → ∀ job ∈ k.toReadyThread.asked,
      job.HasTable reply → P job)
    (hk : k.TabledPcbs P) : k'.TabledPcbs P := by
  have htoReady := hk.toReady
  unfold memoryListener at h
  cases hat : k.memoryThread with
  | tableScan reply rest found =>
      have hmem := mem_asked_of_tables (congrArg MemoryListener.tables hat)
      have hready := (htracked.of_mem_asked hmem).1
      cases rest with
      | nil =>
          cases found <;>
          · simp only [hat, Option.some.injEq] at h
            subst h
            exact { hk with }
      | cons job rest =>
          simp only [hat] at h
          split at h
          · -- nothing has been posted for the PCB that gets its tables
            cases h
            refine { hk with toReady := ?_ }
            simp only [setTable, hready]
            cases hto : k.toReadyThread <;> simp_all [ToReady.mapWaiting, ToReady.tabled]
          · cases h
            exact { hk with }
  | tablePost reply found =>
      have hmem := mem_asked_of_tables (congrArg MemoryListener.tables hat)
      have hwaiting := (htracked.of_mem_asked hmem).2
      rw [hat, MemoryListener.hands] at hwaiting
      have hscan := htracked.scan
      rw [hat] at hscan
      obtain ⟨hne, htable⟩ := hscan
      simp only [hat, Option.some.injEq] at h
      subst h
      refine { hk with toReady := fun job hjob => ?_ }
      have hjob' : job ∈ k.toReadyThread.waiting := by
        cases hto : k.toReadyThread <;> simp_all [ToReady.waiting, ToReady.tabled]
      have hfound : job ∈ found := by
        rcases k.toReadyThread.waiting_eq with hnil | ⟨other, hone⟩
        · simp [hnil] at hjob'
        · rw [hone] at hwaiting hjob'
          rcases List.append_eq_singleton_iff.1 hwaiting with ⟨-, hfound⟩ | ⟨-, hfound⟩
          · exact hfound ▸ hjob'
          · exact absurd hfound hne
      exact hreply reply (by rw [hat]; rfl) job (ToReady.mem_asked_of_mem_waiting hjob')
        (htable job hfound)
  | _ =>
      simp only [hat] at h
      repeat' split at h
      all_goals cases h
      all_goals exact { hk with }

theorem step_tabledPcbs (h : k.step cfg behaviour action = some k') (htracked : k.TablesTracked)
    (hP : Job.AboutTables P)
    (hreply : ∀ reply, k.memoryThread.tables = some reply → ∀ job ∈ k.toReadyThread.asked,
      job.HasTable reply → P job)
    (hk : k.TabledPcbs P) : k'.TabledPcbs P := by
  have hwrites := step_writes h
  unfold step at h
  split at h
  · cases h
  cases action with
  | toReady => exact toReady_tabledPcbs h htracked hk
  | toExec now => exact toExec_tabledPcbs h hk
  | exitProcess => exact exitProcess_tabledPcbs h hk
  | dispatchListener now => exact dispatchListener_tabledPcbs h hP hk
  | memoryListener stale => exact memoryListener_tabledPcbs h htracked hreply hk
  | ioListener now => exact ioListener_tabledPcbs h hP hk
  | _ => rw [hwrites.fields]; exact { hk with }

/-! ## Tables under way -/

/-- The processes that `PROCESS_NEW` requests ask tables for. -/
def asking (k : Kernel) : List ℕ :=
  k.toMemory.filterMap Request.asking

/-- The `PROCESS_MEMORY_READY` replies under way. -/
def tablesSent (k : Kernel) : List TableReply :=
  k.fromMemory.filterMap Reply.table ++ k.memoryThread.tables.toList

/-- What is under way is for the PCB `new_to_ready` has asked tables for: `R` relates the replies
to its process. -/
structure PromisesBy (R : TableReply → ℕ → Prop) (k : Kernel) : Prop where
  requests : ∀ serial ∈ k.asking, ∀ job ∈ k.toReadyThread.asked, job.serial = serial
  replies : ∀ reply ∈ k.tablesSent, ∀ job ∈ k.toReadyThread.asked, R reply job.serial

variable {R : TableReply → ℕ → Prop}

/-- When `new_to_ready` has asked for nothing, nothing is under way. -/
theorem TablesTracked.nothing_asked (hk : k.TablesTracked) (hasked : k.toReadyThread.asked = []) :
    k.asking = [] ∧ k.tablesSent = [] := by
  have hone := hk.one
  rw [ToReady.expecting, hasked, List.countP_nil] at hone
  have hnone : k.asked = [] := List.eq_nil_of_length_eq_zero (by omega)
  simp only [asked, List.append_eq_nil_iff, List.filterMap_eq_nil_iff] at hnone
  obtain ⟨⟨htoMemory, hfromMemory⟩, hthread⟩ := hnone
  constructor
  · refine List.filterMap_eq_nil_iff.2 fun request hmem => ?_
    have := htoMemory request hmem
    cases request <;> simp_all [Request.asks, Request.asking]
  · refine List.append_eq_nil_iff.2 ⟨List.filterMap_eq_nil_iff.2 fun reply hmem => ?_, ?_⟩
    · have := hfromMemory reply hmem
      cases reply <;> simp_all [Reply.tables, Reply.table]
    · cases htables : k.memoryThread.tables <;> simp_all

/-- Steps that keep what is under way, or end it. -/
theorem PromisesBy.of_subset (hk : k.PromisesBy R) (hasking : k'.asking ⊆ k.asking)
    (hsent : k'.tablesSent ⊆ k.tablesSent)
    (hasked : k'.toReadyThread.asked.map Job.serial ⊆ k.toReadyThread.asked.map Job.serial) :
    k'.PromisesBy R := by
  have hserial : ∀ job ∈ k'.toReadyThread.asked, ∃ job' ∈ k.toReadyThread.asked,
      job'.serial = job.serial := fun job hjob =>
    List.mem_map.1 (hasked (List.mem_map_of_mem hjob))
  refine ⟨fun serial hmem job hjob => ?_, fun reply hmem job hjob => ?_⟩
  · obtain ⟨job', hjob', heq⟩ := hserial job hjob
    rw [← heq]
    exact hk.requests serial (hasking hmem) job' hjob'
  · obtain ⟨job', hjob', heq⟩ := hserial job hjob
    rw [← heq]
    exact hk.replies reply (hsent hmem) job' hjob'

theorem toReady_promisesBy (h : k.toReady cfg = some k') (htracked : k.TablesTracked)
    (hk : k.PromisesBy R) : k'.PromisesBy R := by
  unfold toReady at h
  cases hat : k.toReadyThread with
  | sendNew job =>
      obtain ⟨hasking, hsent⟩ := htracked.nothing_asked (by rw [hat]; rfl)
      simp only [hat, Option.some.injEq] at h
      subst h
      simp only [asking, tablesSent] at hasking hsent
      constructor
      · intro serial hmem other hother
        simp only [asking, List.filterMap_append, hasking, List.nil_append, List.mem_filterMap,
          List.mem_singleton] at hmem
        obtain ⟨request, rfl, hrequest⟩ := hmem
        rw [Request.asking, Option.ite_none_left_eq_some] at hrequest
        obtain rfl := List.mem_singleton.1 hother
        exact Option.some.inj hrequest.2
      · intro reply hmem
        simp only [tablesSent, hsent] at hmem
        exact nomatch hmem
  | _ =>
      simp only [hat, putToReady] at h
      repeat' split at h
      all_goals cases h
      all_goals
        refine hk.of_subset ?_ ?_ ?_
        · exact List.Subset.refl _
        · exact List.Subset.refl _
        · simp [hat, ToReady.asked]

theorem ToReady.asked_mapWaiting_serial (serial : ℕ) (reply : TableReply) (state : ToReady) :
    (state.mapWaiting (Job.setTable serial reply)).asked.map Job.serial =
      state.asked.map Job.serial := by
  cases state <;> simp [ToReady.mapWaiting, ToReady.asked]

theorem memoryListener_promisesBy (h : k.memoryListener stale = some k') (hk : k.PromisesBy R) :
    k'.PromisesBy R := by
  unfold memoryListener at h
  cases hat : k.memoryThread
  all_goals
    simp only [hat] at h
    repeat' split at h
    all_goals cases h
    all_goals refine hk.of_subset ?_ ?_ ?_
    all_goals first
      | exact List.Subset.refl _
      | simp_all [tablesSent, MemoryListener.tables, Reply.table, setTable, filterMap_cons_toList,
          ToReady.asked_mapWaiting_serial]

/-- Steps of the kernel itself. -/
theorem step_promisesBy (h : k.step cfg behaviour action = some k') (htracked : k.TablesTracked)
    (hmemory : ∀ reply, action ≠ .memory reply) (hk : k.PromisesBy R) :
    k'.PromisesBy R := by
  have hwrites := step_writes h
  unfold step at h
  split at h
  · cases h
  cases action with
  | toReady => exact toReady_promisesBy h htracked hk
  | memoryListener stale => exact memoryListener_promisesBy h hk
  | memory reply => exact absurd rfl (hmemory reply)
  | _ =>
      have hasking : k'.asking = k.asking :=
        (hwrites.asks (by simp)).filterMap_eq (fun _ => Request.thread_of_asking) (by simp)
      rw [hwrites.fields] at hasking ⊢
      exact hk.of_subset (hasking ▸ List.Subset.refl _) (List.Subset.refl _) (List.Subset.refl _)

/-- The memory module sends a reply that is `R` to the process it is for. -/
theorem PromisesBy.sent {R' : TableReply → ℕ → Prop} {rest : List Request} {reply : Reply}
    (hk : k.PromisesBy R) (hR : ∀ reply serial, R reply serial → R' reply serial)
    (hrest : rest ⊆ k.toMemory)
    (hreply : ∀ table, reply.table = some table → ∀ job ∈ k.toReadyThread.asked,
      R' table job.serial) :
    PromisesBy R' { k with toMemory := rest, fromMemory := k.fromMemory ++ [reply] } where
  requests serial hmem := hk.requests serial (List.filterMap_subset _ hrest hmem)
  replies table hmem job hjob := by
    have hcases : table ∈ k.tablesSent ∨ reply.table = some table := by
      simp only [tablesSent, List.filterMap_append, List.mem_append, List.mem_filterMap,
        List.mem_singleton] at hmem ⊢
      rcases hmem with (hold | ⟨_, rfl, htable⟩) | hthread
      · exact Or.inl (Or.inl hold)
      · exact Or.inr htable
      · exact Or.inl (Or.inr hthread)
    rcases hcases with hold | hnew
    · exact hR table job.serial (hk.replies table hold job hjob)
    · exact hreply table hnew job hjob

end Kernel
end SistemasOperativos
