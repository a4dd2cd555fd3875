import SistemasOperativos.Library.Logs
import SistemasOperativos.Proofs.FramesKept
import SistemasOperativos.Proofs.TableIndices
import SistemasOperativos.System.Pcbs

/-!
# Every process has its own tables

`table_index_success` pops the head of `memory_init_q`, not the element it has matched.  It pops
the right one because `to_ready` admits one process at a time: the queue holds the PCB that
`new_to_ready` waits for, or nothing.  The reply matched is the one to the request for that PCB,
so from there on the PCB carries the indices that the memory module made for it.
-/

namespace SistemasOperativos

/-- What is noted of the hand-over of the tables. -/
inductive TableNote
  /-- The memory module answers the `PROCESS_NEW` of this process. -/
  | made (serial : ℕ) (reply : TableReply)
  /-- `table_index_success` finds the reply's pid in the PCB of this process. -/
  | matched (serial : ℕ) (reply : TableReply)
  /-- `pQueue_take` removes the PCB of this process from `memory_init_q`. -/
  | popped (serial : ℕ)
deriving DecidableEq

def TableNote.table : TableNote → Option (ℕ × TableReply)
  | .made serial reply => some (serial, reply)
  | _ => none

/-- The tables made, each with the process they were made for. -/
def tablesMade (log : List TableNote) : List (ℕ × TableReply) :=
  log.filterMap TableNote.table

/-- The matches and the pops of `table_index_success`, in order. -/
def tableScans (log : List TableNote) : List TableNote :=
  log.filter fun note => note.table.isNone

@[simp] theorem tablesMade_append (log notes : List TableNote) :
    tablesMade (log ++ notes) = tablesMade log ++ tablesMade notes :=
  List.filterMap_append

@[simp] theorem tableScans_append (log notes : List TableNote) :
    tableScans (log ++ notes) = tableScans log ++ tableScans notes :=
  List.filter_append ..

/-- The PCB has the tables that were made for its process. -/
def Job.MadeFor (made : List (ℕ × TableReply)) (job : Job) : Prop :=
  ∃ reply, (job.serial, reply) ∈ made ∧ job.HasTable reply

theorem Job.madeFor_aboutTables (made : List (ℕ × TableReply)) :
    Job.AboutTables (Job.MadeFor made) := by
  rintro job pcb hpid htable hindex ⟨reply, hmade, hreply⟩
  exact ⟨reply, hmade, hpid.trans hreply.pid, htable.trans hreply.pageTable,
    hindex.trans hreply.processFramesIndex⟩

theorem Job.MadeFor.append {made : List (ℕ × TableReply)} {job : Job} (h : job.MadeFor made)
    (more : List (ℕ × TableReply)) : job.MadeFor (made ++ more) := by
  obtain ⟨reply, hmade, hreply⟩ := h
  exact ⟨reply, List.mem_append_left more hmade, hreply⟩

/-- A pop comes right behind the match of the same PCB, with tables made for its process. -/
def PopsMatched (made : List (ℕ × TableReply)) (before : List TableNote) : TableNote → Prop
  | .popped serial =>
      ∃ reply, before.getLast? = some (.matched serial reply) ∧ (serial, reply) ∈ made
  | _ => True

theorem PopsMatched.append {made more : List (ℕ × TableReply)} {before : List TableNote}
    {note : TableNote} (h : PopsMatched made before note) :
    PopsMatched (made ++ more) before note := by
  cases note with
  | popped serial =>
      obtain ⟨reply, hlast, hmade⟩ := h
      exact ⟨reply, hlast, List.mem_append_left more hmade⟩
  | _ => trivial

/-! ## The iteration of `table_index_success` -/

namespace Kernel

variable {cfg : KernelConfig} {behaviour : MemoryBehaviour} {k k' : Kernel} {action : KernelAction}
  {stale : ℕ → Pcb} {log : List TableNote}

/-- What a step of `memory_listener` matches or pops. -/
def scanNotes (k : Kernel) : KernelAction → List TableNote
  | .memoryListener _ =>
      match k.memoryThread with
      | .tableScan reply (job :: _) _ =>
          if job.pcb.pid = reply.pid then [.matched job.serial reply] else []
      | .tablePop .. => (k.memoryInitQ.items.head?.map fun job => .popped job.serial).toList
      | _ => []
  | _ => []

/-- Between the match and the pop the queue holds the PCB matched, and nothing else has been
matched or popped. -/
structure Scanned (log : List TableNote) (k : Kernel) : Prop where
  pending : ∀ reply rest found, k.memoryThread = .tableWait reply rest found ∨
    k.memoryThread = .tablePop reply rest found → ∃ job, k.memoryInitQ.items = [job] ∧
      (tableScans log).getLast? = some (.matched job.serial reply) ∧
      (job.serial, reply) ∈ tablesMade log
  pops : EachAfter (PopsMatched (tablesMade log)) (tableScans log)

theorem scanNotes_of_ne (h : ∀ stale, action ≠ .memoryListener stale) :
    k.scanNotes action = [] := by
  cases action with
  | memoryListener stale => exact absurd rfl (h stale)
  | _ => rfl

/-- Notes of the memory module leave the iteration alone. -/
theorem Scanned.made (hk : k.Scanned log) (serial : ℕ) (reply : TableReply) :
    k.Scanned (log ++ [.made serial reply]) := by
  have hscans : tableScans (log ++ [.made serial reply]) = tableScans log := by
    rw [tableScans_append]
    exact List.append_nil _
  constructor
  · intro reply' rest found hat
    obtain ⟨job, hitems, hlast, hmade⟩ := hk.pending reply' rest found hat
    rw [hscans, tablesMade_append]
    exact ⟨job, hitems, hlast, List.mem_append_left _ hmade⟩
  · rw [hscans, tablesMade_append]
    exact hk.pops.mono fun _ _ => PopsMatched.append

/-- Steps of the listener outside the part from the match to the pop. -/
theorem Scanned.outside (hk : k.Scanned log)
    (hthread : ∀ reply rest found, k'.memoryThread ≠ .tableWait reply rest found ∧
      k'.memoryThread ≠ .tablePop reply rest found) : k'.Scanned log := by
  refine ⟨fun reply rest found hat => ?_, hk.pops⟩
  obtain ⟨hwait, hpop⟩ := hthread reply rest found
  exact (hat.elim hwait hpop).elim

/-- Steps of the other threads that leave the queue as it is. -/
theorem Scanned.congr (hk : k.Scanned log) (hthread : k'.memoryThread = k.memoryThread)
    (hitems : k'.memoryInitQ.items = k.memoryInitQ.items) : k'.Scanned log := by
  refine ⟨?_, hk.pops⟩
  rw [hthread, hitems]
  exact hk.pending

/-- The push waits for the end of the iteration. -/
theorem toReady_scanned (h : k.toReady cfg = some k') (hk : k.Scanned log) : k'.Scanned log := by
  unfold toReady at h
  cases hat : k.toReadyThread with
  | pushInit job =>
      simp only [hat] at h
      split at h
      all_goals cases h
      exact hk.outside (by simp_all)
  | _ =>
      simp only [hat, putToReady] at h
      repeat' split at h
      all_goals cases h
      all_goals exact hk.congr rfl rfl

/-- The match. -/
theorem tableScan_scanned {reply : TableReply} {job : Job} {rest found : List Job}
    (hat : k.memoryThread = .tableScan reply (job :: rest) found)
    (h : k.memoryListener stale = some k') (htracked : k.TablesTracked)
    (hpromises : k.PromisesBy fun reply serial => (serial, reply) ∈ tablesMade log)
    (hk : k.Scanned log) : k'.Scanned (log ++ [.matched job.serial reply]) := by
  obtain ⟨hpid, rfl, rfl, hitems, hthread⟩ := htracked.of_scan_cons hat
  have hasked : job ∈ k.toReadyThread.asked := by
    rcases hthread with hto | hto
    · simp [hto, ToReady.asked]
    · simp [hto, ToReady.asked]
  have hsent : reply ∈ k.tablesSent := by
    simp [tablesSent, hat, MemoryListener.tables]
  have hmade : (job.serial, reply) ∈ tablesMade log := hpromises.replies reply hsent job hasked
  unfold memoryListener at h
  simp only [hat, hpid, if_true, Option.some.injEq] at h
  subst h
  constructor
  · intro reply' rest' found' hwaits
    obtain ⟨rfl, -, -⟩ : reply = reply' ∧ [] = rest' ∧ [] = found' := by simpa using hwaits
    refine ⟨job.setTable job.serial reply, by simp [setTable, hitems], ?_, ?_⟩
    · rw [tableScans_append, Job.serial_setTable]
      exact List.getLast?_concat
    · rw [tablesMade_append, Job.serial_setTable]
      exact List.mem_append_left _ hmade
  · rw [tableScans_append, tablesMade_append]
    refine EachAfter.concat_iff.mpr ⟨?_, trivial⟩
    exact hk.pops.mono fun _ _ => PopsMatched.append

/-- The pop. -/
theorem tablePop_scanned {reply : TableReply} {rest found : List Job}
    (hat : k.memoryThread = .tablePop reply rest found)
    (h : k.memoryListener stale = some k') (hk : k.Scanned log) :
    k'.Scanned (log ++ k.scanNotes (.memoryListener stale)) := by
  obtain ⟨job, hitems, hlast, hmade⟩ := hk.pending reply rest found (Or.inr hat)
  have hnotes : k.scanNotes (.memoryListener stale) = [.popped job.serial] := by
    simp [scanNotes, hat, hitems]
  unfold memoryListener at h
  simp only [hat] at h
  split at h <;> cases h
  rw [hnotes]
  constructor
  · intro reply' rest' found' hwaits
    simp at hwaits
  · rw [tableScans_append, tablesMade_append]
    refine EachAfter.concat_iff.mpr ⟨?_, reply, hlast, List.mem_append_left _ hmade⟩
    exact hk.pops.mono fun _ _ => PopsMatched.append

theorem memoryListener_scanned (h : k.memoryListener stale = some k') (htracked : k.TablesTracked)
    (hpromises : k.PromisesBy fun reply serial => (serial, reply) ∈ tablesMade log)
    (hk : k.Scanned log) : k'.Scanned (log ++ k.scanNotes (.memoryListener stale)) := by
  cases hat : k.memoryThread with
  | tableScan reply rest found =>
      cases rest with
      | nil =>
          have hnotes : k.scanNotes (.memoryListener stale) = [] := by
            rw [scanNotes, hat]
          rw [hnotes, List.append_nil]
          unfold memoryListener at h
          simp only [hat] at h
          split at h
          all_goals cases h
          all_goals exact hk.outside (by simp)
      | cons job rest =>
          have hpid := (htracked.of_scan_cons hat).1
          have hnotes : k.scanNotes (.memoryListener stale) = [.matched job.serial reply] := by
            rw [scanNotes, hat]
            exact if_pos hpid
          rw [hnotes]
          exact tableScan_scanned hat h htracked hpromises hk
  | tableWait reply rest found =>
      have hnotes : k.scanNotes (.memoryListener stale) = [] := by
        rw [scanNotes, hat]
      rw [hnotes, List.append_nil]
      unfold memoryListener at h
      simp only [hat] at h
      split at h <;> cases h
      rename_i q hwait
      have hitems : q.items = k.memoryInitQ.items := (PQueue.wait_eq_some.mp hwait).2
      obtain ⟨job, hjob, hlast⟩ := hk.pending reply rest found (Or.inl hat)
      refine ⟨fun reply' rest' found' hwaits => ?_, hk.pops⟩
      obtain ⟨rfl, -, -⟩ : reply = reply' ∧ rest = rest' ∧ found = found' := by simpa using hwaits
      exact ⟨job, hitems.trans hjob, hlast⟩
  | tablePop reply rest found => exact tablePop_scanned hat h hk
  | _ =>
      have hnotes : k.scanNotes (.memoryListener stale) = [] := by
        rw [scanNotes, hat]
      rw [hnotes, List.append_nil]
      unfold memoryListener at h
      simp only [hat] at h
      repeat' split at h
      all_goals cases h
      all_goals exact hk.outside (by simp)

theorem step_scanned (h : k.step cfg behaviour action = some k') (htracked : k.TablesTracked)
    (hpromises : k.PromisesBy fun reply serial => (serial, reply) ∈ tablesMade log)
    (hk : k.Scanned log) : k'.Scanned (log ++ k.scanNotes action) := by
  have hwrites := step_writes h
  unfold step at h
  split at h
  · cases h
  cases action with
  | memoryListener stale => exact memoryListener_scanned h htracked hpromises hk
  | toReady =>
      rw [scanNotes_of_ne (fun _ heq => by cases heq), List.append_nil]
      exact toReady_scanned h hk
  | _ =>
      rw [scanNotes_of_ne (fun _ heq => by cases heq), List.append_nil, hwrites.fields]
      exact hk.congr rfl rfl

end Kernel

/-! ## The three programs -/

namespace Whole

variable {Swap : Type} {cfg : KernelConfig} {memoryCfg : MemoryConfig} {host : Host}
  {store : SwapStore Swap} {swap : Swap} {s s' : Whole Swap} {log : List TableNote}

/-- The tables that the memory module makes when it serves the next request. -/
def madeNotes (memoryCfg : MemoryConfig) (host : Host) (store : SwapStore Swap) (s : Whole Swap) :
    List TableNote :=
  match s.system.kernel.toMemory.dropWhile fun request => request.pid = 0 with
  | [] => []
  | request :: _ =>
      match s.memory.handle memoryCfg host store request.action with
      | some (_, some (.processMemoryReady pid pageTable processFramesIndex)) =>
          [.made request.serial ⟨pid, pageTable, processFramesIndex⟩]
      | _ => []

/-- What a step makes, matches or pops. -/
def tableNotes (memoryCfg : MemoryConfig) (host : Host) (store : SwapStore Swap) :
    WholeAction → Whole Swap → List TableNote
  | .system (.kernel action), s => s.system.kernel.scanNotes action
  | .serve, s => s.madeNotes memoryCfg host store
  | _, _ => []

/-- The three programs, with what has been noted of the tables so far. -/
abbrev noted (cfg : KernelConfig) (memoryCfg : MemoryConfig) (host : Host)
    (store : SwapStore Swap) (swap : Swap) : Machine (Whole Swap × List TableNote) WholeAction :=
  (whole cfg memoryCfg host store swap).observe (tableNotes memoryCfg host store)

/-- The PCBs that have tables carry those of their processes, and what is under way is for the
process that has asked. -/
structure Carried (made : List (ℕ × TableReply)) (s : System) : Prop where
  kernel : s.kernel.TabledPcbs (Job.MadeFor made)
  cpu : s.cpu.EveryPcb (Job.MadeFor made)
  promises : s.kernel.PromisesBy fun reply serial => (serial, reply) ∈ made

/-- The memory module has made one level-1 table and one frame list for each entry, and the
entry has their places. -/
structure Placed (memoryCfg : MemoryConfig) (made : List (ℕ × TableReply)) (m : Memory Swap) :
    Prop where
  empty : m.FullEmpty memoryCfg
  numbered : ∃ created, m.Numbered memoryCfg created ∧ created.length = made.length
  places : ∀ i entry, made[i]? = some entry →
    entry.2.pageTable = BitVec.ofNat 32 i ∧ entry.2.processFramesIndex = BitVec.ofNat 32 i

theorem systemStep_carried {made : List (ℕ × TableReply)} {action : Action} {t t' : System}
    (h : t.step cfg inOrder action = some t') (hmemory : ∀ reply, action ≠ .kernel (.memory reply))
    (htracked : t.kernel.TablesTracked) (ht : Carried made t) : Carried made t' := by
  obtain ⟨hkernel, hcpu, hpromises⟩ := ht
  have habout := Job.madeFor_aboutTables made
  rcases System.step_cases h with ⟨action, k, rfl, hk, rfl⟩ | ⟨action, c, ports, rfl, hc, rfl⟩
  · refine ⟨Kernel.step_tabledPcbs hk htracked habout ?_ hkernel, hcpu,
      Kernel.step_promisesBy hk htracked (fun reply heq => hmemory reply (by rw [heq])) hpromises⟩
    intro reply hat job hjob htable
    have hsent : reply ∈ t.kernel.tablesSent := by
      simp [Kernel.tablesSent, hat]
    exact ⟨reply, hpromises.replies reply hsent job hjob, htable⟩
  · obtain ⟨hcpu', htoCpu, hfromCpu⟩ := Cpu.step_everyPcb (Q := Job.MadeFor made) hc hcpu
      hkernel.toCpu hkernel.fromCpu fun old job hold hchanges => by
        cases hchanges with
        | same => exact hold
        | fetch => exact habout _ _ rfl rfl rfl hold
        | io => exact habout _ _ rfl rfl rfl hold
    exact ⟨hkernel.withPorts htoCpu hfromCpu, hcpu', ⟨hpromises.requests, hpromises.replies⟩⟩

/-! ## The service of a request -/

theorem Carried.append {made : List (ℕ × TableReply)} {t : System} (ht : Carried made t)
    (more : List (ℕ × TableReply)) : Carried (made ++ more) t where
  kernel := ht.kernel.imp fun _ hjob => hjob.append more
  cpu := ht.cpu.imp fun _ hjob => hjob.append more
  promises := ⟨ht.promises.requests, fun reply hreply job hjob =>
    List.mem_append_left more (ht.promises.replies reply hreply job hjob)⟩

/-- The memory module sends a reply, with tables made for the process that has asked. -/
theorem served_carried {made more : List (ℕ × TableReply)} {t : System} {rest : List Request}
    {reply : Reply} (hrest : rest ⊆ t.kernel.toMemory)
    (hreply : ∀ table, reply.table = some table → ∀ job ∈ t.kernel.toReadyThread.asked,
      (job.serial, table) ∈ made ++ more)
    (ht : Carried made t) : Carried (made ++ more) ⟨served t.kernel rest reply, t.cpu⟩ where
  kernel := { (ht.append more).kernel with }
  cpu := (ht.append more).cpu
  promises := (ht.append more).promises.sent (fun _ _ hmade => hmade) hrest hreply

theorem Placed.handle {made : List (ℕ × TableReply)} {m m' : Memory Swap} {action : MemoryAction}
    {answer : Option MemoryAnswer}
    (h : m.handle memoryCfg host store action = some (m', answer)) (hnone : action.creation = none)
    (hm : Placed memoryCfg made m) : Placed memoryCfg made m' := by
  obtain ⟨hempty, ⟨created, hnumbered, hlength⟩, hplaces⟩ := hm
  refine ⟨Memory.handle_fullEmpty h hempty, ⟨created, ?_, hlength⟩, hplaces⟩
  have hnumbered' := Memory.handle_numbered h hempty hnumbered
  rwa [hnone, Option.toList_none, List.append_nil] at hnumbered'

/-- The tables made come last, and the answer has their places. -/
theorem Placed.processNew {made : List (ℕ × TableReply)} {m m' : Memory Swap} {pid size : Word}
    {answer : MemoryAnswer} (hpid : pid ≠ 0)
    (h : m.handle memoryCfg host store (.processNew pid size) = some (m', some answer))
    (hm : Placed memoryCfg made m) (serial : ℕ) :
    ∃ index, answer = .processMemoryReady pid index index ∧
      Placed memoryCfg (made ++ [(serial, ⟨pid, index, index⟩)]) m' := by
  obtain ⟨hempty, ⟨created, hnumbered, hlength⟩, hplaces⟩ := hm
  have hanswer : some answer = some (.processMemoryReady pid (BitVec.ofNat 32 created.length)
      (BitVec.ofNat 32 created.length)) := by
    rw [← hnumbered.answer store size hpid]
    exact (congrArg Prod.snd (Option.some.inj h)).symm
  have hnumbered' := Memory.handle_numbered h hempty hnumbered
  rw [MemoryAction.creation, if_neg hpid] at hnumbered'
  refine ⟨BitVec.ofNat 32 made.length, ?_, Memory.handle_fullEmpty h hempty,
    ⟨_, hnumbered', by simp [hlength]⟩, fun i entry hentry => ?_⟩
  · rw [← hlength]
    exact Option.some.inj hanswer
  · rcases Nat.lt_or_ge i made.length with hlt | hge
    · rw [List.getElem?_append_left hlt] at hentry
      exact hplaces i entry hentry
    · have hi := (List.getElem?_eq_some_iff.mp hentry).1
      rw [List.length_append, List.length_singleton] at hi
      obtain rfl : i = made.length := by omega
      rw [List.getElem?_concat_length, Option.some.injEq] at hentry
      subst hentry
      exact ⟨rfl, rfl⟩

/-- The memory module serves a request that makes no tables. -/
theorem served_release {made : List (ℕ × TableReply)} {request : Request} {rest : List Request}
    {memory : Memory Swap} {answer : MemoryAnswer} {reply : Reply}
    (hhead : s.system.kernel.toMemory.dropWhile (fun request => request.pid = 0) = request :: rest)
    (hhandle : s.memory.handle memoryCfg host store request.action = some (memory, some answer))
    (hreply : request.reply answer = some reply) (hrest : rest ⊆ s.system.kernel.toMemory)
    (hnone : reply.table = none) (hcreation : request.action.creation = none)
    (hs : Carried made s.system) (hm : Placed memoryCfg made s.memory) :
    Carried (made ++ tablesMade (s.madeNotes memoryCfg host store))
        ⟨served s.system.kernel rest reply, s.system.cpu⟩ ∧
      Placed memoryCfg (made ++ tablesMade (s.madeNotes memoryCfg host store)) memory := by
  have hnotes : s.madeNotes memoryCfg host store = [] := by
    simp only [madeNotes, hhead, hhandle]
    cases answer with
    | processMemoryReady pid pageTable index =>
        obtain rfl := Option.some.inj hreply
        cases hnone
    | _ => rfl
  rw [hnotes]
  constructor
  · refine served_carried hrest (fun table htable => ?_) hs
    rw [hnone] at htable
    cases htable
  · rw [tablesMade, List.filterMap_nil, List.append_nil]
    exact hm.handle hhandle hcreation

/-- The memory module serves a request. -/
theorem serve_owned {made : List (ℕ × TableReply)}
    (h : s.serve cfg memoryCfg host store = some s') (hs : Carried made s.system)
    (hm : Placed memoryCfg made s.memory) :
    Carried (made ++ tablesMade (s.madeNotes memoryCfg host store)) s'.system ∧
      Placed memoryCfg (made ++ tablesMade (s.madeNotes memoryCfg host store)) s'.memory := by
  obtain ⟨request, rest, memory, answer, reply, ⟨hhead, hmem, hrest, hpid, hanswered⟩, hhandle,
    hreply, -, rfl⟩ := serve_elim h
  cases request with
  | processNew serial pid size =>
      replace hpid : pid ≠ 0 := hpid
      obtain ⟨index, rfl, hplaced⟩ := hm.processNew hpid hhandle serial
      obtain rfl := Option.some.inj hreply
      have hnotes : s.madeNotes memoryCfg host store = [.made serial ⟨pid, index, index⟩] := by
        simp only [madeNotes, hhead, hhandle, Request.serial]
      have hasking : serial ∈ s.system.kernel.asking :=
        List.mem_filterMap.mpr ⟨_, hmem, if_neg hpid⟩
      rw [hnotes]
      refine ⟨served_carried hrest (fun table htable job hjob => ?_) hs, hplaced⟩
      obtain rfl := Option.some.inj htable
      rw [hs.promises.requests serial hasking job hjob]
      exact List.mem_append_right _ (List.mem_singleton_self _)
  | processSuspend serial pid pageTable index =>
      have hnone : reply.table = none := by
        cases reply with
        | processMemoryReady => cases hanswered
        | _ => rfl
      exact served_release hhead hhandle hreply hrest hnone rfl hs hm
  | processExit serial pid pageTable index =>
      have hnone : reply.table = none := by
        cases reply with
        | processMemoryReady => cases hanswered
        | _ => rfl
      exact served_release hhead hhandle hreply hrest hnone rfl hs hm

/-! ## Runs -/

/-- What holds between the notes and the state. -/
structure Owned (memoryCfg : MemoryConfig) (log : List TableNote) (s : Whole Swap) : Prop where
  carried : Carried (tablesMade log) s.system
  placed : Placed memoryCfg (tablesMade log) s.memory
  scanned : s.system.kernel.Scanned log

theorem tablesMade_scanNotes (k : Kernel) (action : KernelAction) :
    tablesMade (k.scanNotes action) = [] := by
  unfold Kernel.scanNotes
  repeat' split
  all_goals first
    | rfl
    | cases k.memoryInitQ.items <;> rfl

theorem madeNotes_scanned {k : Kernel} (hk : k.Scanned log) :
    k.Scanned (log ++ s.madeNotes memoryCfg host store) := by
  unfold madeNotes
  repeat' split
  all_goals first
    | exact hk.made _ _
    | exact (List.append_nil log).symm ▸ hk

theorem systemStep_owned {systemAction : Action}
    (h : step cfg memoryCfg host store (.system systemAction) s = some s')
    (htracked : s.system.kernel.TablesTracked) (hs : Owned memoryCfg log s) :
    Owned memoryCfg (log ++ tableNotes memoryCfg host store (.system systemAction) s) s' := by
  obtain ⟨hcarried, hplaced, hscanned⟩ := hs
  obtain ⟨hmemory, system, hsystem, rfl⟩ := systemStep_elim h
  have hcarried' := systemStep_carried hsystem hmemory htracked hcarried
  rcases System.step_cases hsystem with ⟨action, k, rfl, hk, rfl⟩ | ⟨action, c, ports, rfl, -, rfl⟩
  · have hmade : tablesMade (log ++ s.system.kernel.scanNotes action) = tablesMade log := by
      rw [tablesMade_append, tablesMade_scanNotes, List.append_nil]
    rw [tableNotes]
    exact ⟨hmade ▸ hcarried', hmade ▸ hplaced,
      Kernel.step_scanned hk htracked hcarried.promises hscanned⟩
  · rw [tableNotes, List.append_nil]
    · exact ⟨hcarried', hplaced, hscanned.congr rfl rfl⟩
    · exact fun _ heq => by cases heq
    · exact fun heq => by cases heq

theorem step_owned {action : WholeAction} (h : step cfg memoryCfg host store action s = some s')
    (htracked : s.system.kernel.TablesTracked) (hs : Owned memoryCfg log s) :
    Owned memoryCfg (log ++ tableNotes memoryCfg host store action s) s' := by
  cases action with
  | system systemAction => exact systemStep_owned h htracked hs
  | serve =>
      have hscanned : s.system.kernel.Scanned (log ++ s.madeNotes memoryCfg host store) :=
        madeNotes_scanned hs.scanned
      obtain ⟨hcarried, hplaced⟩ := serve_owned h hs.carried hs.placed
      rw [← tablesMade_append] at hcarried hplaced
      obtain ⟨_, _, _, _, _, -, -, -, -, rfl⟩ := serve_elim h
      exact ⟨hcarried, hplaced, hscanned.congr rfl rfl⟩
  | access action =>
      obtain ⟨hcpu, h⟩ := Option.ite_none_right_eq_some.mp h
      obtain ⟨result, hhandle, rfl⟩ := Option.map_eq_some_iff.mp h
      have hnone : action.creation = none := by
        cases action with
        | processNew => cases hcpu
        | _ => rfl
      rw [tableNotes, List.append_nil]
      · exact ⟨hs.carried, hs.placed.handle hhandle hnone, hs.scanned⟩
      · exact fun _ heq => by cases heq
      · exact fun heq => by cases heq

theorem owned_initial : Owned memoryCfg []
    ⟨⟨Kernel.start cfg, {}⟩, Memory.start memoryCfg swap, []⟩ where
  carried := {
    kernel := Kernel.start_tabledPcbs cfg _
    cpu := (System.initial_everyPcb cfg).cpu
    promises := ⟨nofun, nofun⟩ }
  placed := ⟨by simp [Memory.FullEmpty, Memory.start], ⟨[], Memory.start_numbered, rfl⟩,
    nofun⟩
  scanned := ⟨fun _ _ _ hat => hat.elim nofun nofun, EachAfter.nil⟩

/-- As long as the index of the last table fits its field no two entries share an index. -/
theorem Placed.distinct {made : List (ℕ × TableReply)} {m : Memory Swap}
    (hm : Placed memoryCfg made m) (hfew : made.length ≤ 2 ^ 32) {i j : ℕ}
    {entry other : ℕ × TableReply} (hi : made[i]? = some entry) (hj : made[j]? = some other)
    (hsame : entry.2.pageTable = other.2.pageTable ∨
      entry.2.processFramesIndex = other.2.processFramesIndex) : i = j := by
  have hilt := (List.getElem?_eq_some_iff.mp hi).1
  have hjlt := (List.getElem?_eq_some_iff.mp hj).1
  obtain ⟨hpageTable, hindex⟩ := hm.places i entry hi
  obtain ⟨hpageTable', hindex'⟩ := hm.places j other hj
  have hplaces : BitVec.ofNat 32 i = BitVec.ofNat 32 j := by
    rcases hsame with hsame | hsame
    · rw [← hpageTable, hsame, hpageTable']
    · rw [← hindex, hsame, hindex']
  have hmod := congrArg BitVec.toNat hplaces
  simp only [BitVec.toNat_ofNat] at hmod
  omega

/-- `memory_init_q` holds one PCB at most; each pop of `table_index_success` removes the PCB it
has just matched; and every PCB in `ready_q`, or wherever it comes from there, carries the indices
of tables made for its process, which are those of no other as long as they fit their fields. -/
structure TablesOwned (memoryCfg : MemoryConfig) (log : List TableNote) (s : Whole Swap) :
    Prop where
  one : s.system.kernel.memoryInitQ.items.length ≤ 1
  pops : EachAfter (PopsMatched (tablesMade log)) (tableScans log)
  kernel : s.system.kernel.TabledPcbs (Job.MadeFor (tablesMade log))
  cpu : s.system.cpu.EveryPcb (Job.MadeFor (tablesMade log))
  placed : Placed memoryCfg (tablesMade log) s.memory
  distinct : (tablesMade log).length ≤ 2 ^ 32 → ∀ (i j : ℕ) entry other,
    (tablesMade log)[i]? = some entry → (tablesMade log)[j]? = some other →
    entry.2.pageTable = other.2.pageTable ∨
      entry.2.processFramesIndex = other.2.processFramesIndex → i = j

theorem length_memoryInitQ_le_one {k : Kernel} (hk : k.TablesTracked) :
    k.memoryInitQ.items.length ≤ 1 := by
  have hwaiting : k.toReadyThread.waiting.length ≤ 1 := by
    rcases k.toReadyThread.waiting_eq with hnil | ⟨job, hone⟩
    · simp [hnil]
    · simp [hone]
  rcases hk.queue with ⟨-, hitems⟩ | ⟨-, hitems, -⟩
  · have hlength := congrArg List.length hitems
    rw [List.length_append] at hlength
    omega
  · simp [(List.append_eq_nil_iff.mp hitems).1]

/-- In every run each process has its own tables. -/
theorem tablesOwned_of_reachable {p : Whole Swap × List TableNote}
    (hp : (noted cfg memoryCfg host store swap).Reachable p) :
    p.1.TablesOwned memoryCfg p.2 := by
  have htracked : ∀ p, (noted cfg memoryCfg host store swap).Reachable p →
      p.1.system.kernel.TablesTracked := by
    intro p hp
    have hwhole : (whole cfg memoryCfg host store swap).Reachable p.1 :=
      Machine.ReachableBy.unobserved hp
    apply System.tablesTracked_of_reachable
    exact reachableBy_system (fun _ _ _ => trivial) (fun _ _ => trivial) hwhole
  have howned : Owned memoryCfg p.2 p.1 := by
    refine hp.invariant_of htracked owned_initial fun action p p' _ htracked hp h => ?_
    obtain ⟨hstep, hlog⟩ := Machine.observe_step.mp h
    rw [hlog]
    exact step_owned hstep htracked hp
  exact {
    one := length_memoryInitQ_le_one (htracked p hp)
    pops := howned.scanned.pops
    kernel := howned.carried.kernel
    cpu := howned.carried.cpu
    placed := howned.placed
    distinct := fun hfew i j entry other => howned.placed.distinct hfew }

/-- Two processes, one after the other. -/
theorem tablesOwned_small : ∃ p, (noted (.small .fifo) (.small 1) .direct
    (pageStore (.small 1)) fun _ _ => []).Reachable p ∧
    p.1.TablesOwned (.small 1) p.2 ∧
    tableScans p.2 = [.matched 0 ⟨1, 0, 0⟩, .popped 0, .matched 1 ⟨2, 1, 1⟩, .popped 1] ∧
    p.1.system.kernel.readyQ.items.map Job.serial = [0, 1] := by
  obtain ⟨p, hp, htest⟩ := (noted (.small .fifo) (.small 1) .direct
    (pageStore (.small 1)) fun _ _ => []).exists_reachable_of_run
    (onSystem (onKernel (admission 0 7 [] ++ admission 1 8 [] ++ List.replicate 9 .toReady)) ++
      [.serve] ++ onSystem (onKernel (List.replicate 7 (.memoryListener default) ++
        List.replicate 15 .toReady)) ++
      [.serve] ++ onSystem (onKernel (List.replicate 7 (.memoryListener default) ++
        List.replicate 6 .toReady)))
    (fun p => tableScans p.2 =
        [.matched 0 ⟨1, 0, 0⟩, .popped 0, .matched 1 ⟨2, 1, 1⟩, .popped 1] ∧
      p.1.system.kernel.readyQ.items.map Job.serial = [0, 1])
    (by decide +kernel)
  exact ⟨p, hp, tablesOwned_of_reachable hp, of_decide_eq_true htest⟩

end Whole
end SistemasOperativos
