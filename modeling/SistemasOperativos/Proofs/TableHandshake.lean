import SistemasOperativos.Proofs.Conservation
import SistemasOperativos.Proofs.History

/-!
# The hand-over of the page table

`new_to_ready` asks the memory module for the tables of a process, pushes its PCB to
`memory_init_q` and waits on `pcb_table_ready`; `table_index_success` looks for the PCB there,
assigns the tables and posts.  There is one request, reply or post under way at most, and it is
for the process `to_ready` waits for.  It is lost exactly when the reply is looked for before the
PCB is in the queue.
-/

namespace SistemasOperativos

/-! ## Requests and replies under way -/

/-- The pid a `PROCESS_NEW` asks tables for.  A request for pid 0 is not answered. -/
def Request.asks : Request → Option Word
  | .processNew _ pid _ => if pid = 0 then none else some pid
  | _ => none

/-- The pid of a `PROCESS_MEMORY_READY`. -/
def Reply.tables : Reply → Option Word
  | .processMemoryReady pid _ _ => some pid
  | _ => none

/-- The reply `table_index_success` handles. -/
def MemoryListener.tables : MemoryListener → Option TableReply
  | .tableFind reply | .tableScan reply _ _ | .tableWait reply _ _ | .tablePop reply _ _
  | .tablePost reply _ => some reply
  | _ => none

/-- The PCB `new_to_ready` has asked tables for. -/
def ToReady.asked : ToReady → List Job
  | .pushInit job | .postInit job | .awaitTable job => [job]
  | _ => []

/-- One from the pop of a new process to the end of its wait for tables. -/
def ToReady.initializing : ToReady → ℕ
  | .sendNew _ | .pushInit _ | .postInit _ | .awaitTable _ => 1
  | _ => 0

/-- One when `new_to_ready` has asked tables for a PCB whose request is answered. -/
def ToReady.expecting (state : ToReady) : ℕ :=
  state.asked.countP fun job => job.pcb.pid ≠ 0

/-- `to_ready` waits for the PCB it has asked tables for, once it has pushed it. -/
theorem ToReady.asked_eq_waiting (state : ToReady) :
    state.asked = state.waiting ∨ ∃ job, state = .pushInit job := by
  cases state <;> simp [asked, waiting]

theorem filterMap_cons_toList {α β : Type} (f : α → Option β) (a : α) (l : List α) :
    (a :: l).filterMap f = (f a).toList ++ l.filterMap f := by
  rw [List.filterMap_cons]
  cases f a <;> rfl

theorem Request.asks_of_pid_eq_zero {request : Request} (h : request.pid = 0) :
    request.asks = none := by
  cases request <;> simp_all [pid, asks]

theorem Request.asks_of_answeredBy {request : Request} {reply : Reply} (hpid : request.pid ≠ 0)
    (h : request.answeredBy reply = true) : request.asks = reply.tables := by
  cases request <;> cases reply <;> simp_all [answeredBy, pid, asks, Reply.tables]

/-- The memory module answers the first request that it does not drop. -/
theorem inOrder_asks {requests rest : List Request} {reply : Reply}
    (h : inOrder requests reply = some rest) :
    requests.filterMap Request.asks = reply.tables.toList ++ rest.filterMap Request.asks := by
  obtain ⟨dropped, request, rfl, hdropped, hpid, hanswered⟩ := inOrder_eq_some h
  have hnone : dropped.filterMap Request.asks = [] :=
    List.filterMap_eq_nil_iff.2 fun other hmem =>
      Request.asks_of_pid_eq_zero (hdropped other hmem)
  rw [List.filterMap_append, hnone, List.nil_append, filterMap_cons_toList,
    Request.asks_of_answeredBy hpid hanswered]

/-- The PCB has the tables of the reply. -/
structure Job.HasTable (job : Job) (reply : TableReply) : Prop where
  pid : job.pcb.pid = reply.pid
  pageTable : job.pcb.pageTable = reply.pageTable
  processFramesIndex : job.pcb.processFramesIndex = reply.processFramesIndex

theorem Job.hasTable_setTable {job : Job} {reply : TableReply} (h : job.pcb.pid = reply.pid) :
    (job.setTable job.serial reply).HasTable reply := by
  simp only [setTable, if_true]
  exact ⟨h, rfl, rfl⟩

/-- What the iteration of `table_index_success` has before it and behind it: the queue as it
found it, or one PCB with its tables. -/
def MemoryListener.Scans (items : List Job) : MemoryListener → Prop
  | .tableScan _ (job :: rest) found => found = [] ∧ items = job :: rest
  | .tableWait reply rest found | .tablePop reply rest found =>
      rest = [] ∧ found = [] ∧ ∀ job ∈ items, job.HasTable reply
  | .tableScan reply [] found => ∀ job ∈ found, job.HasTable reply
  | .tablePost reply found => found ≠ [] ∧ ∀ job ∈ found, job.HasTable reply
  | _ => True

/-- `table_index_success` has not found the PCB of its reply. -/
def Event.isTableLost : Event → Bool
  | .tableHandled _ found => !found
  | _ => false

/-- `table_index_success` has posted `pcb_table_ready`. -/
def Event.isTablePosted : Event → Bool
  | .tableHandled _ found => found
  | _ => false

theorem Event.thread_of_isTableLost {event : Event} (h : event.isTableLost = true) :
    event.thread = .memoryListener := by
  cases event <;> simp_all [isTableLost]

theorem Event.thread_of_isTablePosted {event : Event} (h : event.isTablePosted = true) :
    event.thread = .memoryListener := by
  cases event <;> simp_all [isTablePosted]

theorem Request.thread_of_asks {request : Request} (h : request.asks.isSome = true) :
    request.thread = .toReady := by
  cases request <;> simp_all [asks]

namespace Kernel

variable {cfg : KernelConfig} {k k' : Kernel} {action : KernelAction} {stale : ℕ → Pcb}

/-- The pids of the requests and replies under way. -/
def asked (k : Kernel) : List Word :=
  k.toMemory.filterMap Request.asks ++ k.fromMemory.filterMap Reply.tables ++
    (k.memoryThread.tables.map TableReply.pid).toList

/-- The replies for which no PCB was found. -/
def tablesLost (k : Kernel) : ℕ :=
  k.history.countP Event.isTableLost

/-- For the PCB `new_to_ready` has asked tables for there is one request, reply or post under way,
unless its reply has been lost; and until the post that PCB is in `memory_init_q` or with the
memory listener, once it has been pushed. -/
structure TablesTracked (k : Kernel) : Prop where
  one : k.asked.length + k.pcbTableReady + k.tablesLost = k.toReadyThread.expecting
  pid : ∀ pid ∈ k.asked, ∀ job ∈ k.toReadyThread.asked, job.pcb.pid = pid
  queue : k.pcbTableReady = 0 ∧
      k.memoryInitQ.items ++ k.memoryThread.hands = k.toReadyThread.waiting ∨
    k.pcbTableReady = 1 ∧ k.memoryInitQ.items ++ k.memoryThread.hands = [] ∧
      k.toReadyThread.waiting ≠ []
  scan : k.memoryThread.Scans k.memoryInitQ.items

theorem ToReady.expecting_le_one (state : ToReady) : state.expecting ≤ 1 := by
  cases state <;> simp [ToReady.expecting, ToReady.asked, List.countP_cons] <;> split <;> omega

/-- Steps that keep what is under way and the hands of the listener. -/
theorem TablesTracked.congr (hk : k.TablesTracked) (hasked : k'.asked.Perm k.asked)
    (hlost : k'.tablesLost = k.tablesLost)
    (hready : k'.pcbTableReady = k.pcbTableReady)
    (hitems : k'.memoryInitQ.items = k.memoryInitQ.items)
    (hhands : k'.memoryThread.hands = k.memoryThread.hands)
    (htoReady : k'.toReadyThread.asked = k.toReadyThread.asked)
    (hwaiting : k'.toReadyThread.waiting = k.toReadyThread.waiting)
    (hscan : k'.memoryThread.Scans k'.memoryInitQ.items) : k'.TablesTracked := by
  obtain ⟨hone, hpid, hqueue, -⟩ := hk
  refine ⟨?_, fun pid hmem => ?_, ?_, hscan⟩
  · simpa only [ToReady.expecting, hasked.length_eq, hready, hlost, htoReady] using hone
  · simpa only [htoReady] using hpid pid (hasked.mem_iff.1 hmem)
  · simpa only [hready, hitems, hhands, hwaiting] using hqueue

/-- `new_to_ready` asks for tables while nothing is under way. -/
theorem sendNew_tablesTracked {job : Job} (hat : k.toReadyThread = .sendNew job)
    (h : k.toReady cfg = some k') (hk : k.TablesTracked) : k'.TablesTracked := by
  obtain ⟨hone, -, hqueue, hscan⟩ := hk
  unfold toReady at h
  simp only [hat, Option.some.injEq] at h
  subst h
  simp only [hat, ToReady.expecting, ToReady.asked, List.countP_nil, ToReady.waiting] at *
  have hnone : k.asked = [] := List.eq_nil_of_length_eq_zero (by omega)
  simp only [asked, List.append_eq_nil_iff] at hnone
  have hready : k.pcbTableReady = 0 := by omega
  have hlost : k.tablesLost = 0 := by omega
  simp only [tablesLost] at hlost
  by_cases hzero : job.pcb.pid = 0
  · -- the memory module drops the request
    have hasks : (Request.processNew job.serial job.pcb.pid job.pcb.size).asks = none :=
      if_pos hzero
    refine ⟨?_, ?_, hqueue, hscan⟩
    · rw [ToReady.expecting, ToReady.asked, List.countP_singleton, if_neg (by simpa using hzero)]
      simp [asked, hnone, hasks, hready, tablesLost, hlost]
    · simp [asked, hnone, hasks]
  · have hasks : (Request.processNew job.serial job.pcb.pid job.pcb.size).asks =
        some job.pcb.pid := if_neg hzero
    refine ⟨?_, ?_, hqueue, hscan⟩
    · rw [ToReady.expecting, ToReady.asked, List.countP_singleton, if_pos (by simpa using hzero)]
      simp [asked, hnone, hasks, hready, tablesLost, hlost]
    · simp [asked, hnone, hasks, ToReady.asked]

/-- The push waits for the end of the listener's iteration. -/
theorem pushInit_tablesTracked {job : Job} (hat : k.toReadyThread = .pushInit job)
    (h : k.toReady cfg = some k') (hk : k.TablesTracked) : k'.TablesTracked := by
  obtain ⟨hone, hpid, hqueue, hscan⟩ := hk
  unfold toReady at h
  simp only [hat, ToReady.waiting, ne_eq, not_true_eq_false, and_false, or_false,
    List.append_eq_nil_iff] at hqueue
  obtain ⟨hready, hitems, hhands⟩ := hqueue
  simp only [hat] at h
  have hpush : k' = { k with
        memoryInitQ := k.memoryInitQ.push job
        toReadyThread := .postInit job } ∧
      k.memoryThread.Scans (k.memoryInitQ.push job).items := by
    cases hmemory : k.memoryThread with
    | tableScan | tableWait | tablePop =>
        simp [hmemory] at h
    | _ =>
        rw [hmemory] at hscan
        exact ⟨by simpa [hmemory, eq_comm] using h, hscan⟩
  obtain ⟨rfl, hscan'⟩ := hpush
  exact ⟨by simpa [asked, tablesLost, hat, ToReady.expecting, ToReady.asked] using hone,
    by simpa [asked, hat, ToReady.asked] using hpid,
    .inl ⟨hready, by simp [hitems, hhands, ToReady.waiting]⟩, hscan'⟩

/-- The wait for `pcb_table_ready` ends with nothing under way. -/
theorem awaitTable_tablesTracked {job : Job} (hat : k.toReadyThread = .awaitTable job)
    (h : k.toReady cfg = some k') (hk : k.TablesTracked) : k'.TablesTracked := by
  obtain ⟨hone, -, hqueue, hscan⟩ := hk
  unfold toReady at h
  simp only [hat] at h
  split at h <;> cases h
  rename_i n hn
  have hle := ToReady.expecting_le_one k.toReadyThread
  have hnone : k.asked = [] := List.eq_nil_of_length_eq_zero (by omega)
  obtain rfl : n = 0 := by omega
  have hnil : k.memoryInitQ.items ++ k.memoryThread.hands = [] := by
    rcases hqueue with ⟨hzero, -⟩ | ⟨-, hnil, -⟩
    · omega
    · exact hnil
  refine ⟨?_, ?_, .inl ⟨rfl, hnil⟩, hscan⟩
  · have hlost : k.tablesLost = 0 := by omega
    simp only [tablesLost] at hlost
    simpa [asked, tablesLost, hlost, ToReady.expecting, ToReady.asked] using hnone
  · intro pid hmem
    simp only [asked] at hnone hmem
    simp [hnone] at hmem

theorem toReady_tablesTracked (h : k.toReady cfg = some k') (hk : k.TablesTracked) :
    k'.TablesTracked := by
  have hscan := hk.scan
  unfold toReady at h
  cases hat : k.toReadyThread with
  | sendNew job => exact sendNew_tablesTracked hat h hk
  | pushInit job => exact pushInit_tablesTracked hat h hk
  | postInit job =>
      simp only [hat, Option.some.injEq] at h
      subst h
      exact hk.congr (.refl _) rfl rfl rfl rfl (by rw [hat]; rfl) (by rw [hat]; rfl) hscan
  | awaitTable job => exact awaitTable_tablesTracked hat h hk
  | _ =>
      simp only [hat, putToReady] at h
      repeat' split at h
      all_goals cases h
      all_goals
        refine hk.congr (.refl _) ?_ rfl rfl rfl (by rw [hat]; rfl) (by rw [hat]; rfl) hscan
        simp [tablesLost, Event.isTableLost]

/-- The reply in the hands of the listener is under way. -/
theorem mem_asked_of_tables {reply : TableReply} (hat : k.memoryThread.tables = some reply) :
    reply.pid ∈ k.asked := by
  simp [asked, hat]

/-- While a request or reply is under way nothing has been posted. -/
theorem TablesTracked.of_mem_asked (hk : k.TablesTracked) {pid : Word} (hmem : pid ∈ k.asked) :
    k.pcbTableReady = 0 ∧
      k.memoryInitQ.items ++ k.memoryThread.hands = k.toReadyThread.waiting := by
  have hone := hk.one
  have hle := ToReady.expecting_le_one k.toReadyThread
  have hlength := List.length_pos_of_mem hmem
  rcases hk.queue with hqueue | ⟨hready, -, -⟩
  · exact hqueue
  · omega

theorem ToReady.mem_asked_of_mem_waiting {state : ToReady} {job : Job}
    (h : job ∈ state.waiting) : job ∈ state.asked := by
  cases state <;> first | exact h | cases h

/-- The iteration meets the PCB of the reply only, for which `to_ready` waits. -/
theorem TablesTracked.of_scan_cons (hk : k.TablesTracked) {reply : TableReply} {job : Job}
    {rest found : List Job} (hat : k.memoryThread = .tableScan reply (job :: rest) found) :
    job.pcb.pid = reply.pid ∧ rest = [] ∧ found = [] ∧ k.memoryInitQ.items = [job] ∧
      (k.toReadyThread = .postInit job ∨ k.toReadyThread = .awaitTable job) := by
  have hmem := mem_asked_of_tables (congrArg MemoryListener.tables hat)
  have hwaiting := (hk.of_mem_asked hmem).2
  have hscan := hk.scan
  rw [hat] at hscan
  obtain ⟨rfl, hitems⟩ := hscan
  simp only [hat, MemoryListener.hands, hitems, List.append_nil] at hwaiting
  have hjob : job.pcb.pid = reply.pid :=
    hk.pid _ hmem job (ToReady.mem_asked_of_mem_waiting (by simp [← hwaiting]))
  have hrest : rest = [] ∧
      (k.toReadyThread = .postInit job ∨ k.toReadyThread = .awaitTable job) := by
    cases hto : k.toReadyThread <;> simp_all [ToReady.waiting]
  exact ⟨hjob, hrest.1, rfl, by rw [hitems, hrest.1], hrest.2⟩

/-- The iteration ends, or gives the PCB of the reply its tables. -/
theorem tableScan_tablesTracked {reply : TableReply} {rest found : List Job}
    (hat : k.memoryThread = .tableScan reply rest found)
    (h : k.memoryListener stale = some k') (hk : k.TablesTracked) : k'.TablesTracked := by
  have hk' := hk
  obtain ⟨hone, hpid, hqueue, hscan⟩ := hk'
  unfold memoryListener at h
  have hmem := mem_asked_of_tables (congrArg MemoryListener.tables hat)
  obtain ⟨hready, -⟩ := hk.of_mem_asked hmem
  cases rest with
  | nil =>
      cases found with
      | nil =>
          simp only [hat, Option.some.injEq] at h
          subst h
          have hsub : ∀ pid ∈ k.toMemory.filterMap Request.asks ++
              k.fromMemory.filterMap Reply.tables, pid ∈ k.asked :=
            fun pid hmem => List.mem_append_left _ hmem
          refine ⟨?_, fun pid hmem =>
              hpid pid (hsub pid (by simpa [asked, MemoryListener.tables] using hmem)),
            by simpa [hat, MemoryListener.hands] using hqueue, trivial⟩
          simp [asked, tablesLost, hat, MemoryListener.tables, Event.isTableLost] at hone ⊢
          omega
      | cons job found =>
          simp only [hat, Option.some.injEq] at h
          subst h
          rw [hat] at hscan
          exact hk.congr (.of_eq (by simp [asked, hat, MemoryListener.tables])) rfl rfl rfl
            (by rw [hat]; rfl) rfl rfl ⟨by simp, hscan⟩
  | cons job rest =>
      obtain ⟨hjob, rfl, rfl, hitems, hthread⟩ := hk.of_scan_cons hat
      simp only [hat, hjob, if_true, Option.some.injEq] at h
      subst h
      refine ⟨?_, ?_, .inl ⟨hready, ?_⟩, rfl, rfl, ?_⟩
      · rcases hthread with hto | hto <;>
          simpa [asked, tablesLost, setTable, hat, MemoryListener.tables, ToReady.expecting, hto,
            ToReady.mapWaiting, ToReady.asked] using hone
      · rcases hthread with hto | hto <;>
          simpa [asked, setTable, hat, MemoryListener.tables, hto, ToReady.mapWaiting,
            ToReady.asked] using hpid
      · rcases hthread with hto | hto <;>
          simp [setTable, hitems, MemoryListener.hands, hto, ToReady.mapWaiting,
            ToReady.waiting]
      · simpa [setTable, hitems] using Job.hasTable_setTable hjob

theorem tablePop_tablesTracked {reply : TableReply} {rest found : List Job}
    (hat : k.memoryThread = .tablePop reply rest found)
    (h : k.memoryListener stale = some k') (hk : k.TablesTracked) : k'.TablesTracked := by
  have hk' := hk
  obtain ⟨hone, hpid, -, hscan⟩ := hk'
  unfold memoryListener at h
  simp only [hat] at h
  split at h <;> cases h
  rename_i job q hpop
  have hmem := mem_asked_of_tables (congrArg MemoryListener.tables hat)
  obtain ⟨hready, hwaiting⟩ := hk.of_mem_asked hmem
  obtain ⟨hitems, -⟩ := PQueue.pop_eq_some.1 hpop
  rw [hat] at hscan
  obtain ⟨rfl, rfl, htable⟩ := hscan
  simp only [hat, MemoryListener.hands, hitems, List.append_nil] at hwaiting
  have hone' : q.items = [] := by
    rcases k.toReadyThread.waiting_eq with hw | ⟨_, hw⟩ <;> simp_all
  refine ⟨by simpa [asked, tablesLost, hat, MemoryListener.tables] using hone,
    by simpa [asked, hat, MemoryListener.tables] using hpid, .inl ⟨hready, ?_⟩, ?_⟩
  · simp [MemoryListener.hands, hone', ← hwaiting]
  · simpa [MemoryListener.Scans] using htable job (by simp [hitems])

/-- The post hands the PCB from the listener to `to_ready`. -/
theorem tablePost_tablesTracked {reply : TableReply} {found : List Job}
    (hat : k.memoryThread = .tablePost reply found)
    (h : k.memoryListener stale = some k') (hk : k.TablesTracked) : k'.TablesTracked := by
  have hk' := hk
  obtain ⟨hone, hpid, -, hscan⟩ := hk'
  unfold memoryListener at h
  simp only [hat, Option.some.injEq] at h
  subst h
  have hmem := mem_asked_of_tables (congrArg MemoryListener.tables hat)
  obtain ⟨hready, hwaiting⟩ := hk.of_mem_asked hmem
  rw [hat] at hscan
  simp only [hat, MemoryListener.hands] at hwaiting
  have hitems : k.memoryInitQ.items = [] ∧ k.toReadyThread.waiting ≠ [] := by
    have hfound := hscan.1
    rcases k.toReadyThread.waiting_eq with hw | ⟨_, hw⟩
    · simp_all
    · simp_all [List.append_eq_singleton_iff]
  refine ⟨?_, fun pid hmem => hpid pid ?_, .inr ⟨by simp [hready], ?_, hitems.2⟩, trivial⟩
  · simp [asked, tablesLost, hat, MemoryListener.tables, Event.isTableLost] at hone ⊢
    omega
  · simp only [asked, MemoryListener.tables, Option.map_none, Option.toList_none,
      List.append_nil] at hmem
    exact List.mem_append_left _ hmem
  · simp [hitems.1, MemoryListener.hands]

theorem memoryListener_tablesTracked (h : k.memoryListener stale = some k')
    (hk : k.TablesTracked) : k'.TablesTracked := by
  have hscan := hk.scan
  unfold memoryListener at h
  cases hat : k.memoryThread with
  | idle =>
      simp only [hat] at h
      split at h
      · cases h
      · rename_i pid pageTable processFramesIndex rest hfrom
        cases h
        -- the reply moves from the socket to the listener
        refine hk.congr ?_ rfl rfl rfl (by rw [hat]; rfl) rfl rfl trivial
        simp only [asked, hfrom, hat, MemoryListener.tables, Option.map_some, Option.map_none,
          Option.toList_some, Option.toList_none, List.append_nil]
        rw [filterMap_cons_toList, List.append_assoc]
        exact List.perm_append_comm.append_left _
      all_goals
        rename_i hfrom
        cases h
        exact hk.congr (.of_eq (by simp [asked, hfrom, hat, MemoryListener.tables, Reply.tables,
          filterMap_cons_toList])) rfl rfl rfl (by rw [hat]; rfl) rfl rfl trivial
  | tableFind reply =>
      simp only [hat, Option.some.injEq] at h
      subst h
      refine hk.congr (.of_eq (by simp [asked, hat, MemoryListener.tables])) rfl rfl rfl
        (by rw [hat]; rfl) rfl rfl ?_
      cases hitems : k.memoryInitQ.items with
      | nil => simp [MemoryListener.Scans]
      | cons job rest => exact ⟨rfl, rfl⟩
  | tableScan reply rest found => exact tableScan_tablesTracked hat h hk
  | tableWait reply rest found =>
      simp only [hat] at h
      split at h <;> cases h
      rename_i q hwait
      have hitems := (PQueue.wait_eq_some.1 hwait).2
      rw [hat, ← hitems] at hscan
      exact hk.congr (.of_eq (by simp [asked, hat, MemoryListener.tables])) rfl rfl hitems
        (by rw [hat]; rfl) rfl rfl hscan
  | tablePop reply rest found => exact tablePop_tablesTracked hat h hk
  | tablePost reply found => exact tablePost_tablesTracked hat h hk
  | _ =>
      simp only [hat] at h
      repeat' split at h
      all_goals cases h
      all_goals
        refine hk.congr (.of_eq ?_) ?_ rfl rfl (by rw [hat]; rfl) rfl rfl trivial
        · simp [asked, hat, MemoryListener.tables]
        · simp [tablesLost, Event.isTableLost,
            ExitScan.countP_history_foldl (p := Event.isTableLost) fun _ => rfl]

theorem memoryReplies_tablesTracked {reply : Reply}
    (h : k.memoryReplies inOrder reply = some k') (hk : k.TablesTracked) :
    k'.TablesTracked := by
  unfold memoryReplies at h
  split at h <;> cases h
  rename_i rest hrest
  refine hk.congr ?_ rfl rfl rfl rfl rfl rfl hk.scan
  -- the reply takes the place of the request
  simp only [asked, List.filterMap_append, filterMap_cons_toList, List.filterMap_nil,
    List.append_nil, inOrder_asks hrest]
  rw [List.append_assoc reply.tables.toList, ← List.append_assoc (rest.filterMap _)]
  exact List.perm_append_comm.append_right _

theorem step_tablesTracked (h : k.step cfg inOrder action = some k') (hk : k.TablesTracked) :
    k'.TablesTracked := by
  have hwrites := step_writes h
  unfold step at h
  split at h
  · cases h
  cases action with
  | toReady => exact toReady_tablesTracked h hk
  | memoryListener stale => exact memoryListener_tablesTracked h hk
  | memory reply => exact memoryReplies_tablesTracked h hk
  | _ =>
      have hlost : k'.tablesLost = k.tablesLost :=
        hwrites.records.countP_eq (fun _ => Event.thread_of_isTableLost) (by simp)
      have hasked : k'.asked = k.asked := by
        rw [asked, (hwrites.asks (by simp)).filterMap_eq (fun _ => Request.thread_of_asks)
          (by simp), hwrites.fields]
        rfl
      rw [hwrites.fields] at hlost hasked ⊢
      exact hk.congr (.of_eq hasked) hlost rfl rfl rfl rfl rfl hk.scan

theorem start_tablesTracked (cfg : KernelConfig) : (start cfg).TablesTracked :=
  ⟨rfl, nofun, .inl ⟨rfl, rfl⟩, trivial⟩

/-! ## The posts of `pcb_table_ready` -/

/-- The posts of `pcb_table_ready`. -/
def tablesPosted (k : Kernel) : ℕ :=
  k.history.countP Event.isTablePosted

/-- A process admitted is with its console thread, in `new_q`, or with `new_to_ready` up to the
end of its wait, or the wait has taken the one post for it. -/
def PostsBalanced (k : Kernel) : Prop :=
  k.tablesPosted + k.toReadyThread.initializing + k.newQ.items.length +
    (consoleHands k.consoles).length = k.admitted.length + k.pcbTableReady

theorem length_consoleHands_set {consoles : List (Word × ConsoleThread)} {i : ℕ}
    {old : Word × ConsoleThread} (new : Word × ConsoleThread) (h : consoles[i]? = some old) :
    (consoleHands (consoles.set i new)).length + old.2.hands.length =
      (consoleHands consoles).length + new.2.hands.length := by
  simp only [consoleHands, List.length_flatMap]
  exact Tally.weigh_set new h

theorem toReady_postsBalanced (h : k.toReady cfg = some k') (hk : k.PostsBalanced) :
    k'.PostsBalanced := by
  unfold toReady putToReady at h
  repeat' split at h
  all_goals cases h
  all_goals simp_all [PostsBalanced, tablesPosted, ToReady.initializing, Event.isTablePosted,
    PQueue.wait_eq_some, PQueue.pop_eq_some]
  all_goals omega

theorem ToReady.initializing_mapWaiting (f : Job → Job) (state : ToReady) :
    (state.mapWaiting f).initializing = state.initializing := by
  cases state <;> rfl

theorem memoryListener_postsBalanced (h : k.memoryListener stale = some k')
    (hk : k.PostsBalanced) : k'.PostsBalanced := by
  unfold memoryListener at h
  cases hat : k.memoryThread with
  | exitScan serial pid =>
      simp only [hat, Option.some.injEq] at h
      subst h
      simpa [PostsBalanced, tablesPosted,
        ExitScan.countP_history_foldl (p := Event.isTablePosted) fun _ => rfl] using hk
  | _ =>
      simp only [hat] at h
      repeat' split at h
      all_goals cases h
      all_goals simp_all [PostsBalanced, tablesPosted, Event.isTablePosted, setTable,
        ToReady.initializing_mapWaiting]
      all_goals omega

theorem console_postsBalanced {i : ℕ} (h : k.console cfg i = some k') (hk : k.PostsBalanced) :
    k'.PostsBalanced := by
  unfold console at h
  simp only [PostsBalanced] at hk ⊢
  split at h <;> cases h
  case h_1 socket job hget =>
    have := length_consoleHands_set (socket, .number job) hget
    simp_all [tablesPosted, ConsoleThread.hands]
  case h_2 socket job hget =>
    have := length_consoleHands_set
      (socket, .push { job with pcb := Pcb.admit cfg job.pcb k.pid socket }) hget
    simp_all [tablesPosted, ConsoleThread.hands]
  case h_3 socket job hget =>
    have := length_consoleHands_set (socket, .post) hget
    simp_all [tablesPosted, ConsoleThread.hands]
    omega
  case h_4 socket hget =>
    have := length_consoleHands_set (socket, .signal) hget
    simp_all [tablesPosted, ConsoleThread.hands]
  case h_5 socket hget =>
    have := length_consoleHands_set (socket, .idle) hget
    simp_all [tablesPosted, ConsoleThread.hands]

theorem consoleReceive_postsBalanced {i : ℕ} {size : Word} {instructions : List Instruction}
    {blank : Pcb} (h : k.consoleReceive i size instructions blank = some k')
    (hk : k.PostsBalanced) : k'.PostsBalanced := by
  unfold consoleReceive at h
  simp only [PostsBalanced] at hk ⊢
  split at h <;> cases h
  rename_i socket hget
  have := length_consoleHands_set (socket, .count
    ⟨k.admitted.length, { blank with instructions := instructions, size := size }⟩) hget
  simp_all [tablesPosted, ConsoleThread.hands]
  omega

theorem step_postsBalanced {behaviour : MemoryBehaviour}
    (h : k.step cfg behaviour action = some k') (hk : k.PostsBalanced) : k'.PostsBalanced := by
  have hwrites := step_writes h
  unfold step at h
  split at h
  · cases h
  cases action with
  | toReady => exact toReady_postsBalanced h hk
  | memoryListener stale => exact memoryListener_postsBalanced h hk
  | console i => exact console_postsBalanced h hk
  | consoleReceive i size instructions blank => exact consoleReceive_postsBalanced h hk
  | consoleAccept socket =>
      cases h
      simpa [PostsBalanced, tablesPosted, consoleHands, ConsoleThread.hands] using hk
  | _ =>
      have hposted : k'.tablesPosted = k.tablesPosted :=
        hwrites.records.countP_eq (fun _ => Event.thread_of_isTablePosted) (by simp)
      rw [PostsBalanced, hposted, hwrites.fields]
      exact hk

/-! ## Looking for the PCB -/

/-- `table_index_success` does not begin its iteration while `new_to_ready` is between the send
of its request and the push of its PCB. -/
def LooksAfterPush (action : KernelAction) (k : Kernel) : Prop :=
  match action, k.memoryThread, k.toReadyThread with
  | .memoryListener _, .tableFind _, .pushInit _ => False
  | _, _, _ => True

instance (action : KernelAction) (k : Kernel) : Decidable (LooksAfterPush action k) := by
  unfold LooksAfterPush
  split <;> infer_instance

/-- No reply has been lost or is about to be. -/
structure NoneLost (k : Kernel) : Prop where
  scan : ∀ reply, k.memoryThread ≠ .tableScan reply [] []
  lost : k.tablesLost = 0

theorem memoryListener_noneLost (h : k.memoryListener stale = some k')
    (hlooks : LooksAfterPush (.memoryListener stale) k) (htracked : k.TablesTracked)
    (hk : k.NoneLost) : k'.NoneLost := by
  obtain ⟨hscan, hlost⟩ := hk
  unfold memoryListener at h
  cases hat : k.memoryThread with
  | tableFind reply =>
      simp only [hat, Option.some.injEq] at h
      subst h
      refine ⟨fun reply' heq => ?_, hlost⟩
      -- the PCB has been asked tables for and pushed, so it is in the queue
      have hmem := mem_asked_of_tables (congrArg MemoryListener.tables hat)
      have hwaiting := (htracked.of_mem_asked hmem).2
      have hone := htracked.one
      have hlength := List.length_pos_of_mem hmem
      simp only [MemoryListener.tableScan.injEq] at heq
      simp only [hat, heq.2.1, MemoryListener.hands, List.append_nil] at hwaiting
      rcases k.toReadyThread.asked_eq_waiting with hasked | ⟨job, hto⟩
      · rw [ToReady.expecting, hasked, ← hwaiting, List.countP_nil] at hone
        omega
      · simp [LooksAfterPush, hat, hto] at hlooks
  | tableScan reply rest found =>
      cases rest with
      | nil =>
          cases found with
          | nil => exact absurd hat (hscan reply)
          | cons job found =>
              simp only [hat, Option.some.injEq] at h
              subst h
              exact ⟨by simp, hlost⟩
      | cons job rest =>
          simp only [hat, (htracked.of_scan_cons hat).1, if_true, Option.some.injEq] at h
          subst h
          exact ⟨by simp, hlost⟩
  | tablePop reply rest found =>
      simp only [hat] at h
      split at h <;> cases h
      exact ⟨by simp, hlost⟩
  | exitScan serial pid =>
      simp only [hat, Option.some.injEq] at h
      subst h
      refine ⟨by simp, ?_⟩
      simpa [tablesLost, ExitScan.countP_history_foldl (p := Event.isTableLost) fun _ => rfl]
        using hlost
  | _ =>
      simp only [hat] at h
      repeat' split at h
      all_goals cases h
      all_goals exact ⟨by simp, by simpa [tablesLost, Event.isTableLost] using hlost⟩

theorem step_noneLost {behaviour : MemoryBehaviour} (h : k.step cfg behaviour action = some k')
    (hlooks : LooksAfterPush action k) (htracked : k.TablesTracked) (hk : k.NoneLost) :
    k'.NoneLost := by
  have hwrites := step_writes h
  unfold step at h
  split at h
  · cases h
  cases action with
  | memoryListener stale => exact memoryListener_noneLost h hlooks htracked hk
  | _ =>
      obtain ⟨hscan, hlost⟩ := hk
      have hlost' := hwrites.records.countP_eq (fun _ => Event.thread_of_isTableLost) (by simp)
      exact ⟨by rw [hwrites.fields]; exact hscan, hlost'.trans hlost⟩

/-! ## The hand-over -/

/-- Every reply finds its PCB; when `table_index_success` posts, the PCB `new_to_ready` waits for
has the tables of the reply; each process that has passed its wait has had one post; and while
`new_to_ready` waits, its request, reply or post is under way. -/
structure TablesReady (k : Kernel) : Prop where
  found : ∀ pid found, .tableHandled pid found ∈ k.history → found = true
  stored : ∀ reply jobs, k.memoryThread = .tablePost reply jobs →
    ∃ job, jobs = [job] ∧ k.toReadyThread.waiting = [job] ∧ job.HasTable reply
  posted : k.PostsBalanced ∧ k.pcbTableReady ≤ 1 ∧
    (k.toReadyThread.waiting = [] → k.pcbTableReady = 0)
  answered : ∀ job, k.toReadyThread = .awaitTable job → job.pcb.pid ≠ 0 →
    k.asked.length + k.pcbTableReady = 1

theorem TablesTracked.ready (hk : k.TablesTracked) (hposts : k.PostsBalanced)
    (hnone : k.NoneLost) : k.TablesReady := by
  have hlost := hnone.lost
  constructor
  case found =>
    intro pid found hmem
    simpa [Event.isTableLost] using List.countP_eq_zero.1 hlost _ hmem
  case stored =>
    intro reply jobs hat
    have hmem := mem_asked_of_tables (congrArg MemoryListener.tables hat)
    have hwaiting := (hk.of_mem_asked hmem).2
    have hscan := hk.scan
    rw [hat] at hscan
    obtain ⟨hne, htable⟩ := hscan
    obtain ⟨job, rest, rfl⟩ := List.exists_cons_of_ne_nil hne
    simp only [hat, MemoryListener.hands] at hwaiting
    rcases k.toReadyThread.waiting_eq with hw | ⟨job', hw⟩
    · simp [hw] at hwaiting
    · obtain ⟨-, rfl, rfl⟩ : k.memoryInitQ.items = [] ∧ job = job' ∧ rest = [] := by
        simpa [hw, List.append_eq_singleton_iff] using hwaiting
      exact ⟨job, rfl, hw, htable job (by simp)⟩
  case posted =>
    refine ⟨hposts, ?_, fun hw => ?_⟩
    · rcases hk.queue with ⟨hready, -⟩ | ⟨hready, -, -⟩ <;> omega
    · rcases hk.queue with ⟨hready, -⟩ | ⟨-, -, hwaiting⟩
      · exact hready
      · exact absurd hw hwaiting
  case answered =>
    intro job hat hpid
    have hone := hk.one
    rw [hlost, hat, ToReady.expecting, ToReady.asked, List.countP_singleton,
      if_pos (by simpa using hpid)] at hone
    exact hone

theorem TablesTracked.withPorts {ports : CpuPorts} {events : List Event} (hk : k.TablesTracked)
    (hhistory : ports.history = k.history ++ events)
    (hcpu : ∀ event ∈ events, event.byCpu = true) : (k.withPorts ports).TablesTracked :=
  hk.congr (.refl _) ((records_withPorts hhistory hcpu).countP_eq
    (fun _ => Event.thread_of_isTableLost) (by simp))
    rfl rfl rfl rfl rfl hk.scan

end Kernel

namespace System

variable {cfg : KernelConfig} {s : System}

/-- The guard of the system: that of the kernel. -/
def LooksAfterPush (action : Action) (s : System) : Prop :=
  match action with
  | .kernel action => s.kernel.LooksAfterPush action
  | .cpu _ => True

instance (action : Action) (s : System) : Decidable (LooksAfterPush action s) :=
  match action with
  | .kernel action => inferInstanceAs (Decidable (s.kernel.LooksAfterPush action))
  | .cpu _ => inferInstanceAs (Decidable True)

theorem tablesTracked_of_reachable (hs : (system cfg inOrder).Reachable s) :
    s.kernel.TablesTracked := by
  refine hs.invariant (Kernel.start_tablesTracked cfg) fun action s s' _ hs h => ?_
  rcases step_kernel h with ⟨kernelAction, rfl, hstep⟩ | ⟨ports, events, heq, hhistory, hcpu⟩
  · exact Kernel.step_tablesTracked hstep hs
  · exact heq ▸ hs.withPorts hhistory hcpu

theorem postsBalanced_of_reachable (hs : (system cfg inOrder).Reachable s) :
    s.kernel.PostsBalanced := by
  refine hs.invariant (show (Kernel.start cfg).PostsBalanced from rfl)
    fun action s s' _ hs h => ?_
  rcases step_kernel h with ⟨kernelAction, rfl, hstep⟩ | ⟨ports, events, heq, hhistory, hcpu⟩
  · exact Kernel.step_postsBalanced hstep hs
  · have hposted := (Kernel.records_withPorts hhistory hcpu).countP_eq
      (fun _ => Event.thread_of_isTablePosted) (by simp)
    rw [heq]
    simp only [Kernel.PostsBalanced, Kernel.tablesPosted, hposted] at hs ⊢
    exact hs

/-- In every run in which no reply is looked for while its PCB is still to be pushed, each
reply finds its PCB, which has its tables and one post before it enters `ready_q`, and
`new_to_ready` never waits for a post that is not to come. -/
theorem tables_ready (hs : (system cfg inOrder).ReachableBy LooksAfterPush s) :
    s.kernel.TablesReady := by
  refine (tablesTracked_of_reachable hs.reachable).ready (postsBalanced_of_reachable hs.reachable)
    ?_
  refine hs.invariant_of (fun _ h => tablesTracked_of_reachable h.reachable) ?initial ?step
  case initial => exact ⟨nofun, rfl⟩
  case step =>
    intro action s s' hlooks htracked hs h
    rcases step_kernel h with ⟨kernelAction, rfl, hstep⟩ | ⟨ports, events, heq, hhistory, hcpu⟩
    · exact Kernel.step_noneLost hstep hlooks htracked hs
    · rw [heq]
      have hlost := (Kernel.records_withPorts hhistory hcpu).countP_eq
        (fun _ => Event.thread_of_isTableLost) (by simp)
      exact ⟨hs.scan, hlost.trans hs.lost⟩

/-- A process is admitted, and its post has come. -/
theorem tables_ready_small : ∃ s,
    (system (.small .fifo) inOrder).ReachableBy LooksAfterPush s ∧
    (s.kernel.pcbTableReady = 1 ∧ s.kernel.tablesPosted = 1) ∧ s.kernel.TablesReady := by
  obtain ⟨s, hs, htest⟩ := Machine.exists_reachableBy_of_run (system (.small .fifo) inOrder)
    LooksAfterPush
    (onKernel (admission 0 7 [] ++ List.replicate 9 .toReady ++
      [.memory (.processMemoryReady 1 0 0)] ++ List.replicate 7 (.memoryListener default)))
    (fun s => s.kernel.pcbTableReady = 1 ∧ s.kernel.tablesPosted = 1)
    (by decide +kernel)
  exact ⟨s, hs, by simpa using htest, tables_ready hs⟩

/-- The memory module answers, and the listener looks for the PCB, before `new_to_ready` has
pushed it: `new_to_ready` then waits for a post that does not come. -/
theorem not_tables_ready : ∃ s, (system (.small .fifo) inOrder).Reachable s ∧
    (.tableHandled 1 false ∈ s.kernel.history ∧
      (∃ job, s.kernel.toReadyThread = .awaitTable job ∧ job.pcb.pid = 1) ∧
      s.kernel.pcbTableReady = 0 ∧ s.kernel.toMemory = [] ∧ s.kernel.fromMemory = [] ∧
      s.kernel.memoryThread = .idle) ∧ ¬ s.kernel.TablesReady := by
  obtain ⟨s, hs, htest⟩ := Machine.exists_reachable_of_run (system (.small .fifo) inOrder)
    (onKernel (admission 0 7 [] ++ List.replicate 7 .toReady ++
      [.memory (.processMemoryReady 1 0 0)] ++ List.replicate 3 (.memoryListener default) ++
      List.replicate 2 .toReady))
    (fun s => .tableHandled 1 false ∈ s.kernel.history ∧
      s.kernel.toReadyThread.waiting.map (fun job => job.pcb.pid) = [1] ∧
      (∀ job ∈ s.kernel.toReadyThread.waiting, s.kernel.toReadyThread = .awaitTable job) ∧
      s.kernel.pcbTableReady = 0 ∧ s.kernel.toMemory = [] ∧ s.kernel.fromMemory = [] ∧
      s.kernel.memoryThread = .idle)
    (by decide +kernel)
  obtain ⟨hlost, hwaiting, hawait, hrest⟩ := of_decide_eq_true htest
  obtain ⟨job, hjob, hpid⟩ := List.map_eq_singleton_iff.1 hwaiting
  refine ⟨s, hs, ⟨hlost, ⟨job, hawait job (by simp [hjob]), hpid⟩, hrest⟩, fun hready => ?_⟩
  exact absurd (hready.found 1 false hlost) (by decide)

end System
end SistemasOperativos
