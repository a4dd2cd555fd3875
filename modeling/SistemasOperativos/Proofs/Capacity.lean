import SistemasOperativos.Proofs.Allotments
import SistemasOperativos.Proofs.ExitHandshake
import SistemasOperativos.Proofs.OwnTables
import SistemasOperativos.Proofs.Progress
import SistemasOperativos.Proofs.Sessions
import SistemasOperativos.Proofs.Submitted

/-!
# A memory that is large enough

Where the memory has `framesPerProcess` frames for as many processes as may be in memory, every
process is given all its frames, whatever the interleaving.  The kernel and the memory module know
nothing of each other's numbers: the kernel counts the processes it has not asked to suspend or
destroy (`Committed`), the memory module serves the requests late, and a frame list is occupied only
while the requests served commit its process.
-/

namespace SistemasOperativos

/-! ## What has been announced -/

/-- The processes that the requests announce. -/
def announced (log : List Request) : List ℕ :=
  (log.filter fun request => request.kind = .new).map Request.serial

@[simp] theorem announced_append (log more : List Request) :
    announced (log ++ more) = announced log ++ announced more := by
  simp [announced]

theorem count_announced (t : ℕ) (log : List Request) :
    (announced log).count t = (session t log).count .new := by
  induction log with
  | nil => rfl
  | cons request log ih =>
      simp only [announced, session, List.filter_cons] at ih ⊢
      by_cases hkind : request.kind = .new <;> by_cases hserial : request.serial = t <;>
        simp_all

theorem IsSession.count_new_le_one {kinds : List RequestKind} (h : IsSession kinds) :
    kinds.count .new ≤ 1 := by
  rcases h with rfl | ⟨n, rfl | rfl⟩ <;> simp [List.count_replicate]

/-- A process is committed from `PROCESS_NEW` to the request after it. -/
theorem mem_commitments_iff {t : ℕ} {log : List Request} :
    t ∈ commitments log ↔ (session t log).getLast? = some .new := by
  induction log using List.reverseRecOn with
  | nil => simp [commitments, session]
  | append_singleton log request ih =>
      rw [commitments_append, System.session_append]
      by_cases hserial : request.serial = t
      · subst hserial
        rw [System.session_singleton, List.getLast?_concat]
        cases request <;> simp [Request.commit, Request.serial, Request.kind]
      · rw [System.session_singleton_of_ne hserial, List.append_nil, ← ih]
        cases request <;> simp_all [Request.commit, Request.serial, eq_comm]

/-- Only a process that has been announced is committed. -/
theorem mem_announced_of_commitments {t : ℕ} {log : List Request} (h : t ∈ commitments log) :
    t ∈ announced log := by
  rw [← List.count_pos_iff, count_announced, List.count_pos_iff]
  exact List.mem_of_getLast? (mem_commitments_iff.1 h)

namespace Whole

variable {Swap : Type} {cfg : KernelConfig} {memoryCfg : MemoryConfig} {host : Host}
  {store : SwapStore Swap} {swap : Swap} {s s' : Whole Swap}

/-! ## The requests of a run -/

/-- The requests that a step of the three programs sends. -/
def sends : WholeAction → Whole Swap → List Request
  | .system action, s => System.sends action s.system
  | _, _ => []

/-- The three programs, with the requests the kernel has sent so far. -/
abbrev requested (cfg : KernelConfig) (memoryCfg : MemoryConfig) (host : Host)
    (store : SwapStore Swap) (swap : Swap) : Machine (Whole Swap × List Request) WholeAction :=
  (whole cfg memoryCfg host store swap).observe sends

/-- Every program has a page, and the CPU finds an interruption only with a PCB to give back. -/
def Provided (memoryCfg : MemoryConfig) (action : WholeAction) (s : Whole Swap) : Prop :=
  match action with
  | .system (.kernel (.consoleReceive _ size _ _)) => level2PagesRequired memoryCfg size ≠ 0
  | .system (.cpu .cpuCycle) => s.system.cpu.InterruptsHeld
  | _ => True

instance (action : WholeAction) (s : Whole Swap) : Decidable (Provided memoryCfg action s) :=
  match action with
  | .system (.kernel (.consoleReceive _ size _ _)) =>
      inferInstanceAs (Decidable (level2PagesRequired memoryCfg size ≠ 0))
  | .system (.cpu .cpuCycle) => inferInstanceAs (Decidable s.system.cpu.InterruptsHeld)
  | .system (.cpu .receivePcb) | .system (.cpu .receiveInterruption) | .serve | .access _
  | .system (.kernel (.consoleAccept _)) | .system (.kernel (.console _))
  | .system (.kernel .toReady) | .system (.kernel (.toExec _)) | .system (.kernel .exitProcess)
  | .system (.kernel (.dispatchListener _)) | .system (.kernel (.memoryListener _))
  | .system (.kernel (.ioListener _)) | .system (.kernel (.memory _)) => isTrue trivial

theorem requested_system {p : Whole Swap × List Request}
    (hp : (requested cfg memoryCfg host store swap).ReachableBy
      (fun action p => Provided memoryCfg action p.1) p) :
    (System.requested cfg inOrder).ReachableBy (fun action p => System.InterruptsHeld action p.1)
      (p.1.system, p.2) := by
  refine hp.invariant .initial fun action p p' hguard hp h => ?_
  obtain ⟨hstep, hlog⟩ := Machine.observe_step.mp h
  cases action with
  | system systemAction =>
      obtain ⟨-, system, hsystem, heq⟩ := systemStep_elim hstep
      have hheld : System.InterruptsHeld systemAction p.1.system := by
        rintro rfl
        exact hguard
      rw [heq]
      exact .step hp hheld (Machine.observe_step.mpr ⟨hsystem, hlog⟩)
  | serve =>
      obtain ⟨_, _, _, _, reply, -, -, -, hsystem, -⟩ := serve_elim hstep
      exact .step (a := .kernel (.memory reply)) hp (fun heq => by cases heq)
        (Machine.observe_step.mpr ⟨hsystem, hlog⟩)
  | access memoryAction =>
      obtain ⟨-, hstep⟩ := Option.ite_none_right_eq_some.1 hstep
      obtain ⟨result, -, heq⟩ := Option.map_eq_some_iff.1 hstep
      have hsame : p' = ({ p.1 with memory := result.1 }, p.2) :=
        Prod.ext heq.symm (hlog.trans (List.append_nil _))
      rw [hsame]
      exact hp

end Whole

/-! ## The books of both sides -/

namespace Whole

variable {Swap : Type} {cfg : KernelConfig} {memoryCfg : MemoryConfig} {host : Host}
  {store : SwapStore Swap} {swap : Swap} {s s' : Whole Swap} {served : List Request}
  {made : List (ℕ × TableReply)}

/-- With the requests served and the tables made so far: the tables are for the processes
announced, the requests under way name those of their processes, and a frame list is occupied only
while its process is committed. -/
structure Ledger (cfg : KernelConfig) (memoryCfg : MemoryConfig) (served : List Request)
    (made : List (ℕ × TableReply)) (s : Whole Swap) : Prop where
  carried : Carried made s.system
  placed : Placed memoryCfg made s.memory
  sizes : s.system.Submitted fun _ size _ => level2PagesRequired memoryCfg size ≠ 0
  sized : ∀ serial pid size, .processNew serial pid size ∈ s.system.kernel.toMemory →
    level2PagesRequired memoryCfg size ≠ 0
  releases : ∀ request ∈ s.system.kernel.toMemory, ∀ index, request.releases = some index →
    ∃ reply, (request.serial, reply) ∈ made ∧ reply.processFramesIndex = index
  announced : made.map Prod.fst = announced served
  granted : s.grants.map Grant.serial = made.map Prod.fst
  paged : s.memory.Paged
  occupied : ∀ k, s.memory.HasFrame k → ∃ t ∈ commitments served, (made.map Prod.fst)[k]? = some t
  allotted : cfg.multiprogrammingLevel * memoryCfg.framesPerProcess ≤ memoryCfg.framesInMemory →
    s.memory.Allotted memoryCfg

/-- What the system sends is said of the sizes and the tables of its PCBs. -/
theorem ledger_sends {kernelAction : KernelAction} {request : Request}
    (hs : Ledger cfg memoryCfg served made s) (h : request ∈ s.system.kernel.sends kernelAction) :
    (∀ serial pid size, request = .processNew serial pid size →
        level2PagesRequired memoryCfg size ≠ 0) ∧
      ∀ index, request.releases = some index →
        ∃ reply, (request.serial, reply) ∈ made ∧ reply.processFramesIndex = index := by
  have hreleased : ∀ {job : Job} {request : Request}, job.MadeFor made →
      request.releases = some job.pcb.processFramesIndex → request.serial = job.serial →
      request.kind ≠ .new → (∀ serial pid size, request = .processNew serial pid size →
          level2PagesRequired memoryCfg size ≠ 0) ∧
        ∀ index, request.releases = some index →
          ∃ reply, (request.serial, reply) ∈ made ∧ reply.processFramesIndex = index := by
    intro job request hjob hreleases hserial hkind
    refine ⟨fun serial pid size heq => absurd (heq ▸ rfl) hkind, fun index hindex => ?_⟩
    obtain ⟨reply, hreply, htable⟩ := hjob
    rw [hreleases, Option.some.injEq] at hindex
    exact ⟨reply, hserial ▸ hreply, htable.processFramesIndex.symm.trans hindex⟩
  cases kernelAction with
  | toReady =>
      cases hat : s.system.kernel.toReadyThread with
      | sendNew job =>
          simp only [Kernel.sends, hat, List.mem_singleton] at h
          subst h
          refine ⟨fun serial pid size heq => ?_, fun index heq => by cases heq⟩
          cases heq
          exact hs.sizes.pcbs.kernel.toReady job (by rw [hat]; exact List.mem_singleton_self job)
      | _ => simp [Kernel.sends, hat] at h
  | exitProcess =>
      cases hat : s.system.kernel.exitProcessThread with
      | send job =>
          simp only [Kernel.sends, hat, List.mem_singleton] at h
          subst h
          refine @hreleased job _ ?_ rfl rfl (by simp [Request.kind])
          exact hs.carried.kernel.exitProcess job (by rw [hat]; exact List.mem_singleton_self job)
      | _ => simp [Kernel.sends, hat] at h
  | ioListener now =>
      cases hat : s.system.kernel.ioThread with
      | sendSuspend job =>
          simp only [Kernel.sends, hat, List.mem_singleton] at h
          subst h
          refine @hreleased job _ ?_ rfl rfl (by simp [Request.kind])
          exact hs.carried.kernel.io job (by rw [hat]; exact List.mem_singleton_self job)
      | _ => simp [Kernel.sends, hat] at h
  | _ => simp [Kernel.sends] at h

/-- A thread of the kernel or the CPU moves. -/
theorem systemStep_ledger {systemAction : Action} {system : System}
    (h : s.system.step cfg inOrder systemAction = some system)
    (hmemory : ∀ reply, systemAction ≠ .kernel (.memory reply))
    (hguard : Provided memoryCfg (.system systemAction) s)
    (htracked : s.system.kernel.TablesTracked) (hs : Ledger cfg memoryCfg served made s) :
    system.kernel.toMemory = s.system.kernel.toMemory ++ System.sends systemAction s.system ∧
      Ledger cfg memoryCfg served made { s with system := system } := by
  have hsent : system.kernel.toMemory =
      s.system.kernel.toMemory ++ System.sends systemAction s.system := by
    rcases System.step_cases h with ⟨kernelAction, k, rfl, hk, rfl⟩ | ⟨cpuAction, c, ports, rfl, -,
      rfl⟩
    · exact Kernel.step_toMemory hk fun reply heq => hmemory reply (by rw [heq])
    · exact (List.append_nil _).symm
  have hnew : ∀ request ∈ System.sends systemAction s.system,
      (∀ serial pid size, request = .processNew serial pid size →
          level2PagesRequired memoryCfg size ≠ 0) ∧
        ∀ index, request.releases = some index →
          ∃ reply, (request.serial, reply) ∈ made ∧ reply.processFramesIndex = index := by
    intro request hrequest
    cases systemAction with
    | kernel kernelAction => exact ledger_sends hs hrequest
    | cpu cpuAction => cases hrequest
  refine ⟨hsent, { hs with carried := ?_, sizes := ?_, sized := ?_, releases := ?_ }⟩
  · exact systemStep_carried h hmemory htracked hs.carried
  · refine System.step_submitted h (fun i size instructions blank heq => ?_) hs.sizes
    rw [heq] at hguard
    exact hguard
  · intro serial pid size hmem
    rw [hsent, List.mem_append] at hmem
    rcases hmem with hold | hmem
    · exact hs.sized serial pid size hold
    · exact (hnew _ hmem).1 serial pid size rfl
  · intro request hmem
    rw [hsent, List.mem_append] at hmem
    rcases hmem with hold | hmem
    · exact hs.releases request hold
    · exact (hnew request hmem).2

/-- The memory module serves a request of the CPU. -/
theorem access_ledger {memoryAction : MemoryAction} {memory : Memory Swap}
    {answer : Option MemoryAnswer}
    (h : s.memory.handle memoryCfg host store memoryAction = some (memory, answer))
    (hcpu : memoryAction.ofCpu = true) (hs : Ledger cfg memoryCfg served made s) :
    Ledger cfg memoryCfg served made { s with memory := memory } := by
  have hnumbers : memory.frameNumbers = s.memory.frameNumbers :=
    congrArg Prod.snd (Memory.handle_ofCpu h hcpu)
  have hnone : memoryAction.creation = none := by
    cases memoryAction with
    | processNew => cases hcpu
    | _ => rfl
  have hshape := Memory.handle_sameShape h hs.placed.empty fun pid processSize heq => by
    rw [heq] at hcpu
    cases hcpu
  refine { hs with placed := hs.placed.handle h hnone, paged := ?_, occupied := ?_, allotted := ?_ }
  · rw [Memory.Paged, hshape.level1Tables]
    exact hs.paged
  · intro k hk
    rw [Memory.HasFrame, hnumbers] at hk
    exact hs.occupied k hk
  · rw [Memory.Allotted, hnumbers]
    exact hs.allotted

/-! ## The service of a request -/

/-- Where the processes committed may be one more, there are frames for one more. -/
theorem enough_frames (htracked : s.memory.Tracked memoryCfg)
    (hs : Ledger cfg memoryCfg served made s) (hnodup : (made.map Prod.fst).Nodup)
    (hcard : (commitments served).card + 1 ≤ cfg.multiprogrammingLevel)
    (hframes : cfg.multiprogrammingLevel * memoryCfg.framesPerProcess ≤
      memoryCfg.framesInMemory) :
    memoryCfg.framesPerProcess ≤ (freeFrames memoryCfg s.memory.framesBitmap).length := by
  let lists := (commitments served).image fun t => (made.map Prod.fst).idxOf t
  have hlists : ∀ k, s.memory.HasFrame k → k ∈ lists := by
    intro k hk
    obtain ⟨t, ht, hlist⟩ := hs.occupied k hk
    obtain ⟨hlt, rfl⟩ := List.getElem?_eq_some_iff.1 hlist
    exact Finset.mem_image.2 ⟨_, ht, hnodup.idxOf_getElem k hlt⟩
  have hfree := Memory.le_freeFrames htracked (hs.allotted hframes) hlists
  have himage : lists.card ≤ (commitments served).card := Finset.card_image_le
  have htaken := Nat.mul_le_mul_right memoryCfg.framesPerProcess himage
  have hmore := Nat.mul_le_mul_right memoryCfg.framesPerProcess hcard
  rw [Nat.succ_mul] at hmore
  omega

/-- The memory module admits the process that `new_to_ready` has announced. -/
theorem served_new_ledger {serial : ℕ} {pid size index : Word} {rest : List Request}
    {reply : Reply} (hpid : pid ≠ 0)
    (hto : s.system.kernel.toMemory = .processNew serial pid size :: rest)
    (hcarried : Carried (made ++ [(serial, ⟨pid, index, index⟩)])
      ⟨Whole.served s.system.kernel rest reply, s.system.cpu⟩)
    (hplaced : Placed memoryCfg (made ++ [(serial, ⟨pid, index, index⟩)])
      (s.memory.processNew memoryCfg store pid size).1)
    (henough : cfg.multiprogrammingLevel * memoryCfg.framesPerProcess ≤
        memoryCfg.framesInMemory →
      memoryCfg.framesPerProcess ≤ (freeFrames memoryCfg s.memory.framesBitmap).length)
    (hs : Ledger cfg memoryCfg served made s) :
    Ledger cfg memoryCfg (served ++ [.processNew serial pid size])
      (made ++ [(serial, ⟨pid, index, index⟩)])
      ⟨⟨Whole.served s.system.kernel rest reply, s.system.cpu⟩,
        (s.memory.processNew memoryCfg store pid size).1, s.grants ++ newGrants s.memory
          (s.memory.processNew memoryCfg store pid size).1 (.processNew serial pid size)⟩ := by
  have hmem : .processNew serial pid size ∈ s.system.kernel.toMemory := by simp [hto]
  have hrest : rest ⊆ s.system.kernel.toMemory := by simp [hto]
  have hlength : s.memory.processesFrames.length = made.length := by
    obtain ⟨created, hnumbered, hcreated⟩ := hs.placed.numbered
    exact hnumbered.processes.trans hcreated
  exact {
    carried := hcarried
    placed := hplaced
    sizes := ⟨hs.sizes.fresh, { hs.sizes.pcbs.kernel with }, hs.sizes.pcbs.cpu⟩
    sized := fun serial pid size hmem => hs.sized serial pid size (hrest hmem)
    releases := fun request hrequest index hindex => by
      obtain ⟨reply, hreply, heq⟩ := hs.releases request (hrest hrequest) index hindex
      exact ⟨reply, List.mem_append_left _ hreply, heq⟩
    announced := by
      rw [List.map_append, hs.announced, announced_append]
      rfl
    granted := by
      have hlists := (Memory.processNew_frames memoryCfg store s.memory size hpid).2
      rw [List.map_append, List.map_append, hs.granted, newGrants, hlists, List.drop_left]
      rfl
    paged := Memory.processNew_paged store hpid (hs.sized serial pid size hmem) hs.paged
    occupied := fun k hk => by
      rw [commitments_append, List.map_append]
      rcases Memory.processNew_hasFrame store size hpid hk with hold | rfl
      · obtain ⟨t, ht, hlist⟩ := hs.occupied k hold
        refine ⟨t, Finset.mem_insert_of_mem ht, ?_⟩
        rw [List.getElem?_append_left (List.getElem?_eq_some_iff.1 hlist).1, hlist]
      · refine ⟨serial, Finset.mem_insert_self _ _, ?_⟩
        rw [hlength, List.getElem?_append_right (by simp)]
        simp
    allotted := fun hframes =>
      Memory.processNew_allotted store size hpid (henough hframes) (hs.allotted hframes) }

/-- The memory module empties the frame list of a process that is suspended or exits. -/
theorem served_release_ledger {request : Request} {rest : List Request} {reply : Reply}
    {memory : Memory Swap} {answer : MemoryAnswer} {index : Word}
    (hto : s.system.kernel.toMemory = request :: rest) (hindex : request.releases = some index)
    (hhandle : s.memory.handle memoryCfg host store request.action = some (memory, some answer))
    (hsame : Memory.SameBut index.toNat s.memory memory) (hempty : ¬ memory.HasFrame index.toNat)
    (hcarried : Carried made ⟨Whole.served s.system.kernel rest reply, s.system.cpu⟩)
    (hplaced : Placed memoryCfg made memory) (hnodup : (made.map Prod.fst).Nodup)
    (hfew : made.length ≤ 2 ^ 32) (hs : Ledger cfg memoryCfg served made s) :
    Ledger cfg memoryCfg (served ++ [request]) made
      ⟨⟨Whole.served s.system.kernel rest reply, s.system.cpu⟩, memory,
        s.grants ++ newGrants s.memory memory request⟩ := by
  have hrest : rest ⊆ s.system.kernel.toMemory := by simp [hto]
  have hold : ∀ pid processSize, request.action ≠ .processNew pid processSize := by
    intro pid processSize heq
    cases request <;> cases heq
    cases hindex
  have hkind : announced [request] = [] := by
    cases request with
    | processNew => cases hindex
    | _ => rfl
  have hcommit : commitments (served ++ [request]) = (commitments served).erase request.serial := by
    rw [commitments_append]
    cases request with
    | processNew => cases hindex
    | _ => rfl
  have hlist : (made.map Prod.fst)[index.toNat]? = some request.serial := by
    obtain ⟨reply, hreply, rfl⟩ := hs.releases request (by simp [hto]) index hindex
    obtain ⟨i, hi⟩ := List.mem_iff_getElem?.1 hreply
    have hlt := (List.getElem?_eq_some_iff.1 hi).1
    have hplace : reply.processFramesIndex = BitVec.ofNat 32 i := (hs.placed.places i _ hi).2
    rw [hplace, BitVec.toNat_ofNat, Nat.mod_eq_of_lt (by omega), List.getElem?_map, hi]
    rfl
  have hshape := Memory.handle_sameShape hhandle hs.placed.empty hold
  exact {
    carried := hcarried
    placed := hplaced
    sizes := ⟨hs.sizes.fresh, { hs.sizes.pcbs.kernel with }, hs.sizes.pcbs.cpu⟩
    sized := fun serial pid size hmem => hs.sized serial pid size (hrest hmem)
    releases := fun other hother => hs.releases other (hrest hother)
    announced := by rw [announced_append, hkind, List.append_nil, hs.announced]
    granted := by rw [newGrants_of_sameBut hsame, List.append_nil, hs.granted]
    paged := by
      rw [Memory.Paged, hshape.level1Tables]
      exact hs.paged
    occupied := fun k hk => by
      have hne : k ≠ index.toNat := by
        rintro rfl
        exact hempty hk
      obtain ⟨t, ht, hk⟩ := hs.occupied k ((hsame.hasFrame hne).1 hk)
      refine ⟨t, hcommit ▸ Finset.mem_erase.2 ⟨?_, ht⟩, hk⟩
      -- the list of the process is the one that has been emptied
      rintro rfl
      have hlt := (List.getElem?_eq_some_iff.1 hk).1
      exact hne ((List.getElem?_inj hlt hnodup).1 (hk.trans hlist.symm))
    allotted := fun hframes =>
      (hs.allotted hframes).of_lengths (Memory.handle_lengths hhandle hold) }

/-- A request that empties a frame list makes no tables. -/
theorem tablesMade_of_releases {request : Request} {rest : List Request} {memory : Memory Swap}
    {answer : MemoryAnswer} {reply : Reply} {index : Word}
    (hhead : s.system.kernel.toMemory.dropWhile (fun request => request.pid = 0) = request :: rest)
    (hhandle : s.memory.handle memoryCfg host store request.action = some (memory, some answer))
    (hreply : request.reply answer = some reply) (hanswered : request.answeredBy reply = true)
    (hindex : request.releases = some index) :
    tablesMade (s.madeNotes memoryCfg host store) = [] := by
  simp only [madeNotes, hhead, hhandle]
  cases answer with
  | processMemoryReady pid pageTable index =>
      obtain rfl := Option.some.inj hreply
      cases request with
      | processNew => cases hindex
      | _ => cases hanswered
  | _ => rfl

theorem Placed.tables_ne_nil {m : Memory Swap} (hm : Placed memoryCfg made m) :
    ∀ table ∈ m.level2Tables, table ≠ [] := by
  obtain ⟨created, hnumbered, -⟩ := hm.numbered
  rintro _ htable rfl
  have hnumbers : [] ∈ m.pageNumbers := List.mem_map_of_mem htable
  rw [hnumbered.pages] at hnumbers
  have hnone := congrArg List.length (List.eq_of_mem_replicate hnumbers)
  rw [List.length_range] at hnone
  exact absurd hnone (Nat.ne_of_lt memoryCfg.entriesPerTable_pos)

/-- What the requests are known to be, those under way too. -/
structure Orderly (cfg : KernelConfig) (log : List Request) (k : Kernel) : Prop where
  pids : ∀ request ∈ k.toMemory, request.pid ≠ 0
  sessions : ∀ t, (session t log).count .new ≤ 1
  admitted : ∀ t ∈ announced log, t < k.admitted.length
  committed : ∀ before, before <+: log → (commitments before).card ≤ cfg.multiprogrammingLevel

theorem Orderly.nodup {log : List Request} {k : Kernel} (h : Orderly cfg log k) :
    (announced log).Nodup := by
  rw [List.nodup_iff_count_le_one]
  intro t
  rw [count_announced]
  exact h.sessions t

theorem Orderly.length_le {log : List Request} {k : Kernel} (h : Orderly cfg log k) :
    (announced log).length ≤ k.admitted.length := by
  have hsubset : announced log ⊆ List.range k.admitted.length := fun t ht =>
    List.mem_range.2 (h.admitted t ht)
  have hle := h.nodup.length_le_of_subset hsubset
  rwa [List.length_range] at hle

theorem serve_ledger (h : s.serve cfg memoryCfg host store = some s')
    (horderly : Orderly cfg (served ++ s.system.kernel.toMemory) s.system.kernel)
    (hbound : s.system.kernel.admitted.length < 2 ^ 32) (htracked : s.memory.Tracked memoryCfg)
    (hs : Ledger cfg memoryCfg served made s) :
    ∃ request made', s.system.kernel.toMemory = request :: s'.system.kernel.toMemory ∧
      Ledger cfg memoryCfg (served ++ [request]) made' s' := by
  obtain ⟨hcarried, hplaced⟩ := serve_owned h hs.carried hs.placed
  obtain ⟨request, rest, memory, answer, reply, ⟨hhead, -, -, hpid, hanswered⟩, hhandle, hreply, -,
    rfl⟩ := serve_elim h
  have hto : s.system.kernel.toMemory = request :: rest := by
    cases hat : s.system.kernel.toMemory with
    | nil =>
        rw [hat] at hhead
        cases hhead
    | cons first others =>
        have hfirst := horderly.pids first (by simp [hat])
        rwa [hat, List.dropWhile_cons_of_neg (by simpa using hfirst)] at hhead
  have hnodup : (announced served).Nodup := by
    have hall := horderly.nodup
    rw [announced_append] at hall
    exact hall.of_append_left
  have hfew : made.length ≤ 2 ^ 32 := by
    have hle := horderly.length_le
    have hlength := congrArg List.length hs.announced
    rw [announced_append, List.length_append] at hle
    rw [List.length_map] at hlength
    omega
  refine ⟨request, made ++ tablesMade (s.madeNotes memoryCfg host store), hto, ?_⟩
  cases request with
  | processNew serial pid size =>
      replace hpid : pid ≠ 0 := hpid
      obtain ⟨index, rfl, -⟩ := hs.placed.processNew hpid hhandle serial
      have hnotes : s.madeNotes memoryCfg host store = [.made serial ⟨pid, index, index⟩] := by
        simp only [madeNotes, hhead, hhandle, Request.serial]
      have hmemory : memory = (s.memory.processNew memoryCfg store pid size).1 :=
        (congrArg Prod.fst (Option.some.inj hhandle)).symm
      rw [hnotes] at hcarried hplaced ⊢
      subst hmemory
      refine served_new_ledger hpid hto hcarried hplaced ?_ hs
      -- the process is not among those committed
      have hfresh : serial ∉ commitments served := by
        intro hmem
        have hall := horderly.nodup
        rw [hto, announced_append] at hall
        refine List.disjoint_of_nodup_append hall (mem_announced_of_commitments hmem) ?_
        exact List.mem_cons_self (a := serial) (l := announced rest)
      have hprefix : served ++ [.processNew serial pid size] <+:
          served ++ s.system.kernel.toMemory := by
        exact ⟨rest, by simp [hto]⟩
      have hcard := horderly.committed _ hprefix
      rw [commitments_append] at hcard
      replace hcard : (insert serial (commitments served)).card ≤ cfg.multiprogrammingLevel := hcard
      rw [Finset.card_insert_of_notMem hfresh] at hcard
      exact enough_frames htracked hs (hs.announced ▸ hnodup) hcard
  | processSuspend serial pid pageTable index =>
      have hnone := tablesMade_of_releases hhead hhandle hreply hanswered rfl
      rw [hnone, List.append_nil] at hcarried hplaced ⊢
      refine served_release_ledger hto rfl hhandle (Memory.processSuspend_sameBut hhandle) ?_
        hcarried hplaced (hs.announced ▸ hnodup) hfew hs
      exact Memory.processSuspend_releases hpid hhandle hs.paged hs.placed.tables_ne_nil
  | processExit serial pid pageTable index =>
      have hnone := tablesMade_of_releases hhead hhandle hreply hanswered rfl
      rw [hnone, List.append_nil] at hcarried hplaced ⊢
      exact served_release_ledger hto rfl hhandle (Memory.processExit_sameBut hhandle)
        (Memory.processExit_releases hpid hhandle) hcarried hplaced (hs.announced ▸ hnodup) hfew hs

/-! ## Runs -/

theorem orderly_of_reachable {p : Whole Swap × List Request}
    (hp : (requested cfg memoryCfg host store swap).ReachableBy
      (fun action p => Provided memoryCfg action p.1) p)
    (hbound : p.1.system.kernel.admitted.length < 2 ^ 32) :
    Orderly cfg p.2 p.1.system.kernel := by
  have hsystem := requested_system hp
  have hreachable : (SistemasOperativos.system cfg inOrder).Reachable p.1.system :=
    (Machine.ReachableBy.unobserved hsystem).reachable
  have hsessions := System.inSession_of_reachable hsystem
  obtain ⟨assigned, hassigned, hnonzero⟩ := System.pidsNonzero_of_reachable hreachable hbound
  refine ⟨fun request hmem => hnonzero _ (hassigned.requests request hmem),
    fun t => (hsessions t).isSession.count_new_le_one, fun t ht => ?_,
    (System.committed_of_reachable inOrder_answersExitsOnce hsystem).bounded⟩
  by_contra hlt
  have hnil := (hsessions t).unsent (.inr (Kernel.admittedCount_of_not_lt hlt))
  rw [← List.count_pos_iff, count_announced, hnil] at ht
  cases ht

theorem ledger_initial : Ledger cfg memoryCfg [] []
    ⟨⟨Kernel.start cfg, {}⟩, Memory.start memoryCfg swap, []⟩ where
  carried := owned_initial.carried
  placed := owned_initial.placed
  sizes := System.initial_submitted cfg inOrder
  sized _ _ _ h := nomatch h
  releases _ h := nomatch h
  announced := rfl
  granted := rfl
  paged _ h := nomatch h
  occupied k := by
    rintro ⟨numbers, hnumbers, -⟩
    cases hnumbers
  allotted _ _ h := nomatch h

theorem ledger_of_reachable {p : Whole Swap × List Request}
    (hp : (requested cfg memoryCfg host store swap).ReachableBy
      (fun action p => Provided memoryCfg action p.1) p)
    (hbound : p.1.system.kernel.admitted.length < 2 ^ 32) :
    ∃ served made, p.2 = served ++ p.1.system.kernel.toMemory ∧
      Ledger cfg memoryCfg served made p.1 := by
  revert hbound
  refine hp.invariant_of (fun _ hp => hp) ?initial ?step
  case initial => exact fun _ => ⟨[], [], rfl, ledger_initial⟩
  case step =>
    intro action p p' hguard hp hs h hbound
    obtain ⟨hstep, hlog⟩ := Machine.observe_step.mp h
    have hwhole := Machine.ReachableBy.unobserved hp
    have htracked := System.tablesTracked_of_reachable
      (Machine.ReachableBy.unobserved (requested_system hp)).reachable
    cases action with
    | system systemAction =>
        obtain ⟨hmemory, system, hsystem, heq⟩ := systemStep_elim hstep
        have hle : p.1.system.kernel.admitted.length ≤ system.kernel.admitted.length := by
          rcases System.step_cases hsystem with ⟨_, k, rfl, hk, rfl⟩ | ⟨_, c, ports, rfl, -, rfl⟩
          · exact Kernel.step_admitted_le hk
          · exact Nat.le_refl _
        rw [heq] at hbound ⊢
        obtain ⟨served, made, hsplit, hledger⟩ := hs (Nat.lt_of_le_of_lt hle hbound)
        obtain ⟨hto, hledger'⟩ := systemStep_ledger hsystem hmemory hguard htracked hledger
        refine ⟨served, made, ?_, hledger'⟩
        rw [hlog, hsplit, hto, List.append_assoc]
        rfl
    | serve =>
        have hbound' : p.1.system.kernel.admitted.length < 2 ^ 32 := by
          obtain ⟨_, _, _, _, _, -, -, -, -, heq⟩ := serve_elim hstep
          rw [heq] at hbound
          exact hbound
        obtain ⟨served, made, hsplit, hledger⟩ := hs hbound'
        have horderly := orderly_of_reachable hp hbound'
        rw [hsplit] at horderly
        obtain ⟨request, made', hto, hledger'⟩ := serve_ledger hstep horderly hbound'
          (tracked_reachable hwhole.reachable) hledger
        refine ⟨served ++ [request], made', ?_, hledger'⟩
        simp [hlog, hsplit, hto, sends]
    | access memoryAction =>
        obtain ⟨hcpu, hstep⟩ := Option.ite_none_right_eq_some.1 hstep
        obtain ⟨⟨memory, answer⟩, hhandle, heq⟩ := Option.map_eq_some_iff.1 hstep
        rw [← heq] at hbound ⊢
        obtain ⟨served, made, hsplit, hledger⟩ := hs hbound
        refine ⟨served, made, ?_, access_ledger hhandle hcpu hledger⟩
        rw [hlog, hsplit]
        exact List.append_nil _

/-- Where the memory has the frames of as many processes as may be in memory, every process was
given all its frames. -/
theorem fully_allotted
    (hframes : cfg.multiprogrammingLevel * memoryCfg.framesPerProcess ≤ memoryCfg.framesInMemory)
    (hs : (whole cfg memoryCfg host store swap).ReachableBy (Provided memoryCfg) s)
    (hbound : s.system.kernel.admitted.length < 2 ^ 32) :
    ∀ process ∈ s.memory.processesFrames, process.frames.length = memoryCfg.framesPerProcess := by
  obtain ⟨log, hlog⟩ := hs.observed sends
  obtain ⟨served, made, -, hledger⟩ := ledger_of_reachable hlog hbound
  intro process hprocess
  have hlength := hledger.allotted hframes _ (List.mem_map_of_mem hprocess)
  rwa [List.length_map] at hlength

/-- Two processes with one frame each, the first of which is suspended. -/
theorem fully_allotted_small : ∃ s, small.ReachableBy (Provided (.small 1)) s ∧
    s.memory.processesFrames.map ProcessFrame.frames = [[⟨-1, none⟩], [⟨0, none⟩]] ∧
    ∀ process ∈ s.memory.processesFrames, process.frames.length = 1 := by
  obtain ⟨s, hs, htest⟩ := Machine.exists_reachableBy_of_run small (Provided (.small 1))
    (secondDispatch ++ onSystem (onKernel (admission 1 8 [] ++ List.replicate 9 .toReady)) ++
      [.serve])
    (fun s => s.memory.processesFrames.map ProcessFrame.frames = [[⟨-1, none⟩], [⟨0, none⟩]] ∧
      s.system.kernel.admitted.length < 2 ^ 32)
    (by decide +kernel)
  obtain ⟨hframes, hbound⟩ := of_decide_eq_true htest
  exact ⟨s, hs, hframes, fully_allotted (by decide) hs hbound⟩

end Whole

end SistemasOperativos
