import SistemasOperativos.Proofs.TableHandshake
import SistemasOperativos.System.Pcbs

/-!
# The pids of the processes

`receive_process` counts a pid with `pid++` and reads the counter again in the next statement, in a
thread of its own for every console, and no mutex is held in between.  As long as no thread counts
while another is between its two statements, and the counter has not come round, the pids are
pairwise different; then whatever carries a pid, a PCB, a request or a reply, is about one process.
-/

open Tally

namespace SistemasOperativos

/-! ## The guard -/

/-- One in `receive_process` before the pid is counted. -/
def ConsoleThread.counting : ConsoleThread → ℕ
  | .count _ => 1
  | _ => 0

/-- One in `receive_process` between the count of the pid and its assignment. -/
def ConsoleThread.numbering : ConsoleThread → ℕ
  | .number _ => 1
  | _ => 0

namespace Kernel

/-- The console threads that have not counted their pid. -/
def counting (k : Kernel) : ℕ :=
  weigh (fun console => console.2.counting) k.consoles

/-- The console threads between the count of their pid and its assignment. -/
def numbering (k : Kernel) : ℕ :=
  weigh (fun console => console.2.numbering) k.consoles

/-- The processes whose pid has been counted. -/
def pidsCounted (k : Kernel) : ℕ :=
  k.admitted.length - k.counting

/-- The action executes `pid++`. -/
def counts (k : Kernel) : KernelAction → Bool
  | .console i =>
      match k.consoles[i]? with
      | some (_, .count _) => true
      | _ => false
  | _ => false

/-- A console thread executes `pid++` only while no other is between that and the assignment of
its pid, and only `2 ^ 32` times in all. -/
def CountsAlone (k : Kernel) (action : KernelAction) : Prop :=
  k.counts action = true → k.numbering = 0 ∧ k.pidsCounted < 2 ^ 32

instance (k : Kernel) (action : KernelAction) : Decidable (k.CountsAlone action) :=
  inferInstanceAs (Decidable (_ → _))

end Kernel

/-- The same in the system. -/
def System.CountsAlone (s : System) : Action → Prop
  | .kernel action => s.kernel.CountsAlone action
  | .cpu _ => True

instance (s : System) : (action : Action) → Decidable (s.CountsAlone action)
  | .kernel action => inferInstanceAs (Decidable (s.kernel.CountsAlone action))
  | .cpu _ => inferInstanceAs (Decidable True)

/-- The pid that a step of the kernel assigns, with the process it assigns it to. -/
def Kernel.assigns (k : Kernel) : KernelAction → List (ℕ × Word)
  | .console i =>
      match k.consoles[i]? with
      | some (_, .number job) => [(job.serial, k.pid)]
      | _ => []
  | _ => []

/-- The pid that a step of the system assigns. -/
def System.assigns (s : System) : Action → List (ℕ × Word)
  | .kernel action => s.kernel.assigns action
  | .cpu _ => []

/-! ## What carries a pid -/

variable {assigned : List (ℕ × Word)}

/-- The pid in the reply has been assigned, to the process it is about. -/
def Reply.Assigned (assigned : List (ℕ × Word)) : Reply → Prop
  | .processMemoryReady pid _ _ => ∃ serial, (serial, pid) ∈ assigned
  | .processSuspensionReady => True
  | .processExitReady serial pid => (serial, pid) ∈ assigned

/-- The pid that `memory_listener` looks for has been assigned, to the process it is about. -/
def MemoryListener.Assigned (assigned : List (ℕ × Word)) (state : MemoryListener) : Prop :=
  (∀ reply, state.tables = some reply → ∃ serial, (serial, reply.pid) ∈ assigned) ∧
    ∀ serial pid, state = .exitScan serial pid → (serial, pid) ∈ assigned

/-- Whatever carries a pid, and the process it is about, carries the one that was assigned. -/
structure System.PidsAssigned (assigned : List (ℕ × Word)) (s : System) : Prop where
  pcbs : s.EveryPcb fun job => (job.serial, job.pcb.pid) ∈ assigned
  requests : ∀ request ∈ s.kernel.toMemory, (request.serial, request.pid) ∈ assigned
  replies : ∀ reply ∈ s.kernel.fromMemory, reply.Assigned assigned
  listener : s.kernel.memoryThread.Assigned assigned

/-! ## Counting -/

namespace Kernel

/-- The PCBs without a pid, one for each process admitted and not numbered. -/
def fresh (k : Kernel) : List Job :=
  k.consoles.flatMap fun console => console.2.fresh

/-- Each process is numbered once, with the numbers from 1 on in turn; the counter is at the last
of them, or one ahead while one thread is between its count and its assignment. -/
structure PidsCounted (assigned : List (ℕ × Word)) (k : Kernel) : Prop where
  serials : ∀ t, (assigned.map Prod.fst).count t + tally Job.serial t k.fresh =
    if t < k.admitted.length then 1 else 0
  pids : assigned.map Prod.snd =
    (List.range assigned.length).map fun i => BitVec.ofNat 32 (i + 1)
  pid : k.pid = BitVec.ofNat 32 (assigned.length + k.numbering)
  total : assigned.length + k.numbering + k.counting = k.admitted.length
  alone : k.numbering ≤ 1
  bound : assigned.length + k.numbering ≤ 2 ^ 32

variable {cfg : KernelConfig} {behaviour : MemoryBehaviour} {k k' : Kernel}
  {action : KernelAction}

section Set

variable {i : ℕ} {socket : Word} {old new : ConsoleThread}
  (h : k.consoles[i]? = some (socket, old))
  (hconsoles : k'.consoles = k.consoles.set i (socket, new))

include h hconsoles

theorem counting_set : k'.counting + old.counting = k.counting + new.counting := by
  rw [counting, hconsoles]
  exact weigh_set (socket, new) h

theorem numbering_set : k'.numbering + old.numbering = k.numbering + new.numbering := by
  rw [numbering, hconsoles]
  exact weigh_set (socket, new) h

theorem tally_fresh_set (t : ℕ) : tally Job.serial t k'.fresh + tally Job.serial t old.fresh =
    tally Job.serial t k.fresh + tally Job.serial t new.fresh := by
  simp only [fresh, tally, weigh_flatMap, hconsoles]
  exact weigh_set (socket, new) h

end Set

/-- A step of a console thread: it counts its pid, assigns it, or is past both. -/
theorem console_cases {i : ℕ} (h : k.console cfg i = some k') :
    ∃ socket old new, k.consoles[i]? = some (socket, old) ∧
      k'.consoles = k.consoles.set i (socket, new) ∧ k'.admitted = k.admitted ∧
      ((∃ job, old = .count job ∧ new = .number job ∧ k'.pid = k.pid + 1) ∨
        (∃ job, old = .number job ∧
          new = .push { job with pcb := Pcb.admit cfg job.pcb k.pid socket } ∧ k'.pid = k.pid) ∨
        (old.counting = 0 ∧ old.numbering = 0 ∧ old.fresh = [] ∧
          new.counting = 0 ∧ new.numbering = 0 ∧ new.fresh = [] ∧ k'.pid = k.pid)) := by
  unfold console at h
  split at h <;> cases h
  case h_1 socket job hat =>
    exact ⟨socket, _, _, hat, rfl, rfl, Or.inl ⟨job, rfl, rfl, rfl⟩⟩
  case h_2 socket job hat =>
    exact ⟨socket, _, _, hat, rfl, rfl, Or.inr (Or.inl ⟨job, rfl, rfl, rfl⟩)⟩
  all_goals
    exact ⟨_, _, _, ‹_›, rfl, rfl, Or.inr (Or.inr ⟨rfl, rfl, rfl, rfl, rfl, rfl, rfl⟩)⟩

/-- The numbers assigned are different as long as the counter has not come round. -/
theorem PidsCounted.nodup (hk : k.PidsCounted assigned) :
    (assigned.map Prod.snd).Nodup ∧ (assigned.map Prod.fst).Nodup := by
  constructor
  · rw [hk.pids]
    refine List.Nodup.map_on (fun i hi j hj h => ?_) List.nodup_range
    have hbound := hk.bound
    rw [List.mem_range] at hi hj
    have h' := congrArg BitVec.toNat h
    simp only [BitVec.toNat_ofNat] at h'
    omega
  · refine List.nodup_iff_count_le_one.mpr fun t => ?_
    have hserial := hk.serials t
    split at hserial <;> omega

theorem console_pidsCounted {i : ℕ} (h : k.console cfg i = some k')
    (halone : k.CountsAlone (.console i)) (hk : k.PidsCounted assigned) :
    k'.PidsCounted (assigned ++ k.assigns (.console i)) := by
  obtain ⟨hserials, hpids, hpid, htotal, hone, hbound⟩ := hk
  obtain ⟨socket, old, new, hat, hconsoles, hadmitted, hcase⟩ := console_cases h
  have hcounting := counting_set hat hconsoles
  have hnumbering := numbering_set hat hconsoles
  have hfresh := tally_fresh_set hat hconsoles
  have hlength := congrArg List.length hadmitted
  obtain ⟨job, rfl, rfl, hnew⟩ | ⟨job, rfl, rfl, hsame⟩ |
    ⟨hc, hn, hf, hc', hn', hf', hsame⟩ := hcase
  · obtain ⟨hfree, hcounted⟩ := halone (by simp [counts, hat])
    have hnone : k.assigns (.console i) = [] := by simp [assigns, hat]
    simp only [ConsoleThread.counting, ConsoleThread.numbering, ConsoleThread.fresh] at *
    have hahead : k'.numbering = 1 := by omega
    have hcount : k.pidsCounted = assigned.length := by
      rw [pidsCounted]
      omega
    rw [hnone, List.append_nil]
    refine ⟨fun t => ?_, hpids, ?_, by omega, by omega, by omega⟩
    · have := hserials t
      have := hfresh t
      rw [hadmitted]
      omega
    · rw [hnew, hpid, hfree, hahead]
      exact (BitVec.ofNat_add (assigned.length + 0) 1).symm
  · have hassigns : k.assigns (.console i) = [(job.serial, k.pid)] := by simp [assigns, hat]
    simp only [ConsoleThread.counting, ConsoleThread.numbering, ConsoleThread.fresh] at *
    have hbehind : k.numbering = 1 := by omega
    have hfree : k'.numbering = 0 := by omega
    have hpushed : (assigned ++ [(job.serial, k.pid)]).length = assigned.length + 1 := by simp
    rw [hassigns]
    refine ⟨fun t => ?_, ?_, ?_, by omega, by omega, by omega⟩
    · have := hserials t
      have := hfresh t
      simp only [tally_cons, tally_nil, one] at this
      rw [hadmitted, List.map_append, List.count_append, List.map_singleton, List.count_singleton]
      simp only [beq_iff_eq]
      omega
    · rw [hpushed, List.range_succ, List.map_append, List.map_append, ← hpids, hpid, hbehind]
      rfl
    · rw [hsame, hpushed, hfree, hpid, hbehind]
  · have hnone : k.assigns (.console i) = [] := by
      simp only [assigns, hat]
      cases old <;> first | rfl | cases hn
    rw [hnone, List.append_nil]
    refine ⟨fun t => ?_, hpids, ?_, by omega, by omega, by omega⟩
    · have := hserials t
      have := hfresh t
      rw [hf, hf'] at this
      rw [hadmitted]
      omega
    · rw [hsame, hpid]
      congr 2
      omega

/-- A process that is received has the next serial number, and no pid. -/
theorem consoleReceive_pidsCounted {i : ℕ} {size : Word} {instructions : List Instruction}
    {blank : Pcb} (h : k.consoleReceive i size instructions blank = some k')
    (hk : k.PidsCounted assigned) : k'.PidsCounted assigned := by
  obtain ⟨hserials, hpids, hpid, htotal, hone, hbound⟩ := hk
  unfold consoleReceive at h
  split at h
  case h_2 => cases h
  case h_1 socket hat =>
    have heq := Option.some.inj h
    have hconsoles : k'.consoles = k.consoles.set i (socket, .count ⟨k.admitted.length,
        { blank with instructions := instructions, size := size }⟩) := by rw [← heq]
    have hadmitted : k'.admitted.length = k.admitted.length + 1 := by
      rw [← heq, List.length_append, List.length_singleton]
    have hpid' : k'.pid = k.pid := by rw [← heq]
    have hcounting := counting_set hat hconsoles
    have hnumbering := numbering_set hat hconsoles
    have hfresh := tally_fresh_set hat hconsoles
    simp only [ConsoleThread.counting, ConsoleThread.numbering, ConsoleThread.fresh, tally_cons,
      tally_nil, one] at hcounting hnumbering hfresh
    refine ⟨fun t => ?_, hpids, ?_, by omega, by omega, by omega⟩
    · have hserial := hserials t
      have hjob := hfresh t
      rw [hadmitted]
      rcases Nat.lt_trichotomy t k.admitted.length with hlt | rfl | hlt
      · rw [if_pos hlt] at hserial
        rw [if_neg (by omega)] at hjob
        rw [if_pos (by omega)]
        omega
      · rw [if_neg (by omega)] at hserial
        rw [if_pos rfl] at hjob
        rw [if_pos (by omega)]
        omega
      · rw [if_neg (by omega)] at hserial
        rw [if_neg (by omega)] at hjob
        rw [if_neg (by omega)]
        omega
    · rw [hpid', hpid]
      congr 2
      omega

theorem step_pidsCounted (h : k.step cfg behaviour action = some k')
    (halone : k.CountsAlone action) (hk : k.PidsCounted assigned) :
    k'.PidsCounted (assigned ++ k.assigns action) := by
  have hwrites := step_writes h
  unfold step at h
  split at h
  · cases h
  cases action with
  | console i => exact console_pidsCounted h halone hk
  | consoleAccept socket =>
      cases h
      obtain ⟨hserials, hpids, hpid, htotal, hone, hbound⟩ := hk
      rw [assigns, List.append_nil]
      · refine ⟨?_, hpids, ?_, ?_, ?_, ?_⟩
        · simpa [fresh, ConsoleThread.fresh] using hserials
        all_goals simpa [numbering, counting, ConsoleThread.numbering, ConsoleThread.counting]
      · exact fun _ heq => by cases heq
  | consoleReceive i size instructions blank =>
      rw [assigns, List.append_nil]
      · exact consoleReceive_pidsCounted h hk
      · exact fun _ heq => by cases heq
  | _ =>
      obtain ⟨hserials, hpids, hpid, htotal, hone, hbound⟩ := hk
      rw [hwrites.fields, assigns, List.append_nil]
      · exact ⟨hserials, hpids, hpid, htotal, hone, hbound⟩
      · exact fun _ heq => by cases heq

theorem start_pidsCounted (cfg : KernelConfig) : (Kernel.start cfg).PidsCounted [] :=
  ⟨fun _ => rfl, rfl, rfl, rfl, Nat.zero_le 1, Nat.zero_le _⟩

end Kernel

/-! ## Carrying -/

theorem Reply.Assigned.mono {reply : Reply} {more : List (ℕ × Word)} (h : reply.Assigned assigned) :
    reply.Assigned (assigned ++ more) := by
  cases reply with
  | processMemoryReady pid pageTable processFramesIndex =>
      obtain ⟨serial, hserial⟩ := h
      exact ⟨serial, List.mem_append_left _ hserial⟩
  | processSuspensionReady => trivial
  | processExitReady serial pid => exact List.mem_append_left _ h

theorem MemoryListener.Assigned.mono {state : MemoryListener} {more : List (ℕ × Word)}
    (h : state.Assigned assigned) : state.Assigned (assigned ++ more) :=
  ⟨fun reply hreply => (h.1 reply hreply).imp fun _ => List.mem_append_left _,
    fun serial pid hat => List.mem_append_left _ (h.2 serial pid hat)⟩

/-- A reply says what the request it answers asked for. -/
theorem Reply.Assigned.of_answeredBy {request : Request} {reply : Reply}
    (h : request.answeredBy reply = true) (hrequest : (request.serial, request.pid) ∈ assigned) :
    reply.Assigned assigned := by
  cases request <;> cases reply <;>
    simp_all [Request.answeredBy, Request.serial, Request.pid, Reply.Assigned]
  exact ⟨_, hrequest⟩

namespace Kernel

variable {cfg : KernelConfig} {behaviour : MemoryBehaviour} {k k' : Kernel}
  {action : KernelAction}

/-- What is asked of the memory module is asked for the process of a PCB. -/
theorem step_requests (h : k.step cfg inOrder action = some k')
    (hk : k.EveryPcb fun job => (job.serial, job.pcb.pid) ∈ assigned)
    (hrequests : ∀ request ∈ k.toMemory, (request.serial, request.pid) ∈ assigned) :
    ∀ request ∈ k'.toMemory, (request.serial, request.pid) ∈ assigned := by
  have hwrites := step_writes h
  have htoReady := hk.toReady
  have hexitProcess := hk.exitProcess
  have hio := hk.io
  unfold step at h
  split at h
  · cases h
  cases action with
  | toReady =>
      simp only [toReady, putToReady] at h
      repeat' split at h
      all_goals cases h
      all_goals first
        | exact hrequests
        | simp_all [ToReady.pcbs, or_imp, Request.serial, Request.pid]
  | exitProcess =>
      simp only [exitProcess] at h
      repeat' split at h
      all_goals cases h
      all_goals first
        | exact hrequests
        | simp_all [ExitProcess.hands, or_imp, Request.serial, Request.pid]
  | ioListener now =>
      simp only [ioListener, putToReady] at h
      repeat' split at h
      all_goals cases h
      all_goals first
        | exact hrequests
        | simp_all [IoListener.hands, or_imp, Request.serial, Request.pid]
  | memory reply =>
      simp only [memoryReplies] at h
      split at h <;> cases h
      rename_i rest hrest
      obtain ⟨dropped, request, heq, -, -, -⟩ := inOrder_eq_some hrest
      intro other hother
      exact hrequests other (by simp [heq, hother])
  | _ => rw [hwrites.fields]; exact hrequests

/-- What the memory module answers, and what the listener looks for, is what was asked. -/
theorem step_replies (h : k.step cfg inOrder action = some k')
    (hrequests : ∀ request ∈ k.toMemory, (request.serial, request.pid) ∈ assigned)
    (hreplies : ∀ reply ∈ k.fromMemory, reply.Assigned assigned)
    (hlistener : k.memoryThread.Assigned assigned) :
    (∀ reply ∈ k'.fromMemory, reply.Assigned assigned) ∧ k'.memoryThread.Assigned assigned := by
  have hwrites := step_writes h
  unfold step at h
  split at h
  · cases h
  cases action with
  | memory reply =>
      simp only [memoryReplies] at h
      split at h <;> cases h
      rename_i rest hrest
      obtain ⟨dropped, request, heq, -, -, hanswered⟩ := inOrder_eq_some hrest
      refine ⟨List.forall_mem_append.mpr ⟨hreplies, List.forall_mem_singleton.mpr ?_⟩, hlistener⟩
      exact .of_answeredBy hanswered (hrequests request (by simp [heq]))
  | memoryListener stale =>
      simp only [memoryListener] at h
      repeat' split at h
      all_goals cases h
      all_goals simp_all [MemoryListener.Assigned, MemoryListener.tables, Reply.Assigned, setTable]
  | _ => rw [hwrites.fields]; exact ⟨hreplies, hlistener⟩

end Kernel

namespace System

variable {cfg : KernelConfig} {s s' : System} {action : Action}

/-- What a step makes of a PCB leaves it with its process and its pid. -/
theorem Changes.identity {old job : Job} (h : s.Changes cfg action old job) :
    job.serial = old.serial ∧ job.pcb.pid = old.pcb.pid := by
  cases action with
  | kernel action => cases h <;> first | exact ⟨rfl, rfl⟩ | simp
  | cpu action => cases h <;> exact ⟨rfl, rfl⟩

/-- The PCB that a step numbers has the pid that the step assigns. -/
theorem Numbers.mem_assigns {job : Job} (h : s.Numbers cfg action job) :
    (job.serial, job.pcb.pid) ∈ s.assigns action := by
  cases action with
  | kernel action =>
      obtain ⟨i, socket, fresh, rfl, hat, rfl⟩ := h
      simp [assigns, Kernel.assigns, hat, Pcb.admit]
  | cpu action => exact h.elim

theorem step_pidsAssigned (h : s.step cfg inOrder action = some s') (hs : s.PidsAssigned assigned) :
    s'.PidsAssigned (assigned ++ s.assigns action) := by
  have hpcbs : s'.EveryPcb fun job => (job.serial, job.pcb.pid) ∈ assigned ++ s.assigns action := by
    refine step_everyPcb h hs.pcbs (fun old job hold hchanges => ?_) fun job hnumbers => ?_
    · rw [hchanges.identity.1, hchanges.identity.2]
      exact List.mem_append_left _ hold
    · exact List.mem_append_right _ hnumbers.mem_assigns
  rcases step_cases h with ⟨action, k, rfl, hk, rfl⟩ | ⟨action, c, ports, rfl, -, rfl⟩
  · have hrequests := Kernel.step_requests hk hs.pcbs.kernel hs.requests
    obtain ⟨hreplies, hlistener⟩ := Kernel.step_replies hk hs.requests hs.replies hs.listener
    exact {
      pcbs := hpcbs
      requests := fun request hmem => List.mem_append_left _ (hrequests request hmem)
      replies := fun reply hmem => (hreplies reply hmem).mono
      listener := hlistener.mono }
  · exact {
      pcbs := hpcbs
      requests := fun request hmem => List.mem_append_left _ (hs.requests request hmem)
      replies := fun reply hmem => (hs.replies reply hmem).mono
      listener := hs.listener.mono }

/-- A step of the CPU numbers nothing. -/
theorem step_pidsCounted (h : s.step cfg inOrder action = some s') (halone : s.CountsAlone action)
    (hs : s.kernel.PidsCounted assigned) :
    s'.kernel.PidsCounted (assigned ++ s.assigns action) := by
  rcases step_cases h with ⟨action, k, rfl, hstep, rfl⟩ | ⟨action, c, ports, rfl, -, rfl⟩
  · exact Kernel.step_pidsCounted hstep halone hs
  · rw [assigns, List.append_nil]
    obtain ⟨hserials, hpids, hpid, htotal, hone, hbound⟩ := hs
    exact ⟨hserials, hpids, hpid, htotal, hone, hbound⟩

/-- The system with the pids assigned so far, each with its process. -/
abbrev numbered (cfg : KernelConfig) : Machine (System × List (ℕ × Word)) Action :=
  (system cfg inOrder).observe fun action s => s.assigns action

/-- The pids assigned are pairwise different, every PCB, request and reply carries the one that was
assigned to its process, and the searches by pid find the PCB of the process they are for. -/
structure PidsKeyed (assigned : List (ℕ × Word)) (s : System) : Prop
    extends s.PidsAssigned assigned where
  different : (assigned.map Prod.snd).Nodup
  keyed : ∀ a ∈ assigned, ∀ b ∈ assigned, a.2 = b.2 ↔ a.1 = b.1
  initSearch : ∀ reply, s.kernel.memoryThread.tables = some reply →
    ∃ serial, (serial, reply.pid) ∈ assigned ∧
      ∀ job ∈ s.kernel.memoryInitQ.items, job.pcb.pid = reply.pid ↔ job.serial = serial
  exitSearch : ∀ serial pid, s.kernel.memoryThread = .exitScan serial pid →
    ∀ job ∈ s.kernel.memoryExitQ.items, job.pcb.pid = pid ↔ job.serial = serial

/-- In every run in which the console threads count their pids one at a time, and the counter does
not come round, a pid is a process. -/
theorem pidsKeyed_of_reachable {p : System × List (ℕ × Word)}
    (hp : (numbered cfg).ReachableBy (fun action p => p.1.CountsAlone action) p) :
    p.1.PidsKeyed p.2 := by
  have hboth : p.1.PidsAssigned p.2 ∧ p.1.kernel.PidsCounted p.2 := by
    refine hp.invariant ⟨?_, Kernel.start_pidsCounted cfg⟩ fun action p p' hguard hp h => ?_
    · exact ⟨initial_everyPcb cfg, nofun, nofun, nofun, nofun⟩
    · obtain ⟨hstep, hlog⟩ := Machine.observe_step.mp h
      rw [hlog]
      exact ⟨step_pidsAssigned hstep hp.1, step_pidsCounted hstep hguard hp.2⟩
  obtain ⟨hassigned, hcounted⟩ := hboth
  obtain ⟨hdifferent, honce⟩ := hcounted.nodup
  have hkeyed : ∀ a ∈ p.2, ∀ b ∈ p.2, a.2 = b.2 ↔ a.1 = b.1 := by
    intro a ha b hb
    constructor
    · exact fun h => congrArg Prod.fst (List.inj_on_of_nodup_map hdifferent ha hb h)
    · exact fun h => congrArg Prod.snd (List.inj_on_of_nodup_map honce ha hb h)
  refine { hassigned with
    different := hdifferent
    keyed := hkeyed
    initSearch := ?_
    exitSearch := ?_ }
  · intro reply hreply
    obtain ⟨serial, hserial⟩ := hassigned.listener.1 reply hreply
    exact ⟨serial, hserial, fun job hjob =>
      hkeyed _ (hassigned.pcbs.kernel.memoryInitQ job hjob) _ hserial⟩
  · intro serial pid hat job hjob
    exact hkeyed _ (hassigned.pcbs.kernel.memoryExitQ job hjob) _ (hassigned.listener.2 _ _ hat)

/-- Two consoles, one after the other. -/
theorem pidsKeyed_small : ∃ p, (numbered (.small .fifo)).ReachableBy
    (fun action p => p.1.CountsAlone action) p ∧ p.1.PidsKeyed p.2 ∧ p.2 = [(0, 1), (1, 2)] := by
  obtain ⟨p, hp, htest⟩ := (numbered (.small .fifo)).exists_reachableBy_of_run
    (fun action p => p.1.CountsAlone action)
    (onKernel (admission 0 1 [] ++ admission 1 2 [])) (fun p => p.2 = [(0, 1), (1, 2)]) (by decide)
  exact ⟨p, hp, pidsKeyed_of_reachable hp, of_decide_eq_true htest⟩

/-- Two consoles that count before either assigns: both processes get pid 2. -/
theorem exists_same_pid : ∃ p, (numbered (.small .fifo)).Reachable p ∧
    p.2 = [(0, 2), (1, 2)] ∧ ¬ (p.2.map Prod.snd).Nodup := by
  obtain ⟨p, hp, htest⟩ := (numbered (.small .fifo)).exists_reachable_of_run
    (onKernel [.consoleAccept 1, .consoleReceive 0 64 [] default, .consoleAccept 2,
      .consoleReceive 1 64 [] default, .console 0, .console 1, .console 0, .console 1])
    (fun p => p.2 = [(0, 2), (1, 2)]) (by decide)
  have hlog := of_decide_eq_true htest
  exact ⟨p, hp, hlog, by rw [hlog]; decide⟩

end System

end SistemasOperativos
