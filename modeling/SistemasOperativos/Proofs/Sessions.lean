import SistemasOperativos.Proofs.FrameGrants
import SistemasOperativos.Proofs.Permits
import SistemasOperativos.Proofs.Suspensions
import SistemasOperativos.System.Requests

/-!
# The sessions of the processes with the memory module

For every interleaving, what the kernel asks about a process is a session: `PROCESS_NEW` once and
first, `PROCESS_SUSPEND` any number of times, `PROCESS_EXIT` once and last.  And after every
request the processes committed are as many as the multiprogramming level at most, also while the
memory module is behind: a commitment ends with the request, not with the reply.

Where a PCB is tells what has been asked for its process.  It occurs once, so a step that passes
it on and the request it sends with it are the same step for the session.
-/

open Tally

namespace SistemasOperativos

/-! ## Steps of the kernel -/

namespace Kernel

variable {cfg : KernelConfig} {behaviour : MemoryBehaviour} {k k' : Kernel} {now : Word}
  {stale : ℕ → Pcb} {action : KernelAction}

theorem step_toMemory (h : k.step cfg behaviour action = some k')
    (hmemory : ∀ reply, action ≠ .memory reply) :
    k'.toMemory = k.toMemory ++ k.sends action := by
  have hwrites := step_writes h
  unfold step at h
  split at h
  · cases h
  cases action with
  | toReady =>
      simp only [toReady, putToReady] at h
      repeat' split at h
      all_goals cases h
      all_goals simp_all [sends]
  | exitProcess =>
      simp only [exitProcess] at h
      repeat' split at h
      all_goals cases h
      all_goals simp_all [sends]
  | ioListener now =>
      simp only [ioListener, putToReady] at h
      repeat' split at h
      all_goals cases h
      all_goals simp_all [sends]
  | memory reply => exact absurd rfl (hmemory reply)
  | _ =>
      rw [hwrites.fields]
      exact (List.append_nil _).symm

theorem admittedCount_le_one (k : Kernel) (t : ℕ) : k.admittedCount t ≤ 1 := by
  unfold admittedCount
  split <;> omega

/-- A process is where nothing has been asked for it, or where it is kept, or has been given up. -/
theorem unsent_add_keeping (k : Kernel) (t : ℕ) :
    k.unsent t + tally Job.serial t k.keeping + k.retired.count t = tally Job.serial t k.jobs := by
  have htoReady : tally Job.serial t (k.toReadyThread.hands k.pcbTableReady) =
      tally Job.serial t k.toReadyThread.unsent +
        tally Job.serial t (k.toReadyThread.keeping k.pcbTableReady) := by
    cases k.toReadyThread <;> simp [ToReady.hands, ToReady.unsent, ToReady.keeping]
  have hio : tally Job.serial t k.ioThread.hands =
      tally Job.serial t k.ioThread.keeping + tally Job.serial t k.ioThread.retired := by
    cases k.ioThread <;> simp [IoListener.hands, IoListener.keeping, IoListener.retired]
  have hexit : tally Job.serial t k.exitProcessThread.hands =
      tally Job.serial t k.exitProcessThread.keeping +
        tally Job.serial t k.exitProcessThread.retired := by
    cases k.exitProcessThread <;>
      simp [ExitProcess.hands, ExitProcess.keeping, ExitProcess.retired]
  rw [tally_jobs, htoReady, hio, hexit, retired, ← tally_eq_count]
  simp only [unsent, keeping, tally_append]
  omega

/-- `to_ready` sends `PROCESS_NEW`, `exit_process` sends `PROCESS_EXIT` and `io_listener` sends
`PROCESS_SUSPEND`. -/
theorem kind_of_mem_sends {request : Request} (h : request ∈ k.sends action) :
    action = .toReady ∧ request.kind = .new ∨ action = .exitProcess ∧ request.kind = .exit ∨
      (∃ now, action = .ioListener now) ∧ request.kind = .suspend := by
  unfold sends at h
  split at h
  · split at h
    · rw [List.mem_singleton.1 h]
      exact .inl ⟨rfl, rfl⟩
    · cases h
  · split at h
    · rw [List.mem_singleton.1 h]
      exact .inr (.inl ⟨rfl, rfl⟩)
    · cases h
  · split at h
    · rw [List.mem_singleton.1 h]
      exact .inr (.inr ⟨⟨_, rfl⟩, rfl⟩)
    · cases h
  · cases h

/-- The other threads do not send requests of that kind. -/
theorem tally_sends_eq_zero {kind : RequestKind}
    (h : ∀ request ∈ k.sends action, request.kind ≠ kind) (t : ℕ) :
    tally Request.about (kind, t) (k.sends action) = 0 :=
  weigh_eq_zero.2 fun request hmem =>
    one_of_ne fun heq => h request hmem (congrArg Prod.fst heq)

theorem tally_new_eq_zero (h : action ≠ .toReady) (t : ℕ) :
    tally Request.about (.new, t) (k.sends action) = 0 := by
  refine tally_sends_eq_zero (fun request hmem hkind => ?_) t
  rcases kind_of_mem_sends hmem with ⟨haction, -⟩ | ⟨-, hexit⟩ | ⟨-, hsuspend⟩
  · exact h haction
  · rw [hexit] at hkind
    cases hkind
  · rw [hsuspend] at hkind
    cases hkind

theorem tally_exit_eq_zero (h : action ≠ .exitProcess) (t : ℕ) :
    tally Request.about (.exit, t) (k.sends action) = 0 := by
  refine tally_sends_eq_zero (fun request hmem hkind => ?_) t
  rcases kind_of_mem_sends hmem with ⟨-, hnew⟩ | ⟨haction, -⟩ | ⟨-, hsuspend⟩
  · rw [hnew] at hkind
    cases hkind
  · exact h haction
  · rw [hsuspend] at hkind
    cases hkind

/-- `exit_process` keeps the PCB from the request on. -/
theorem step_exitsAsked (h : k.step cfg behaviour action = some k') (t : ℕ) :
    k'.exitsRequested t =
      k.exitsRequested t + tally Request.about (.exit, t) (k.sends action) := by
  have hwrites := step_writes h
  unfold step at h
  split at h
  · cases h
  cases action with
  | exitProcess =>
      simp only [exitProcess] at h
      repeat' split at h
      all_goals cases h
      all_goals simp_all [exitsRequested, ExitProcess.requested, sends, Request.about,
        Request.kind, Request.serial, one]
      all_goals omega
  | _ =>
      rw [tally_exit_eq_zero (by simp), hwrites.fields]
      rfl

theorem ToReady.unsent_mapWaiting (f : Job → Job) (state : ToReady) :
    (state.mapWaiting f).unsent = state.unsent := by
  cases state <;> rfl

/-- What the console threads change in the kernel is where nothing has been asked. -/
theorem unsent_of_consoles {t : ℕ} (hkeeping : k'.keeping = k.keeping)
    (hretired : k'.retired = k.retired)
    (htotal : tally Job.serial t k'.jobs + k.admittedCount t =
      tally Job.serial t k.jobs + k'.admittedCount t) :
    k'.unsent t + k.admittedCount t = k.unsent t + k'.admittedCount t := by
  have hbefore := k.unsent_add_keeping t
  have hafter := k'.unsent_add_keeping t
  rw [hkeeping, hretired] at hafter
  omega

/-- A process leaves the places where nothing has been asked for it with its `PROCESS_NEW`. -/
theorem step_unsent (h : k.step cfg behaviour action = some k') (hinit : k.InitHandshake) (t : ℕ) :
    k'.unsent t + tally Request.about (.new, t) (k.sends action) + k.admittedCount t =
      k.unsent t + k'.admittedCount t := by
  have hwrites := step_writes h
  have htotal := step_tally h hinit t
  unfold step at h
  split at h
  · cases h
  cases action with
  | toReady =>
      simp only [toReady, putToReady] at h
      repeat' split at h
      all_goals cases h
      all_goals simp_all [unsent, admittedCount, ToReady.unsent, sends, Request.about,
        Request.kind, Request.serial, one, PQueue.wait_eq_some, PQueue.pop_eq_some]
      all_goals omega
  | consoleAccept socket =>
      refine unsent_of_consoles ?_ ?_ htotal <;> rw [hwrites.fields] <;> rfl
  | consoleReceive i size instructions blank =>
      refine unsent_of_consoles ?_ ?_ htotal <;> rw [hwrites.fields] <;> rfl
  | console i => refine unsent_of_consoles ?_ ?_ htotal <;> rw [hwrites.fields] <;> rfl
  | memoryListener stale =>
      have hthread : k'.toReadyThread.unsent = k.toReadyThread.unsent := by
        simp only [memoryListener] at h
        repeat' split at h
        all_goals cases h
        all_goals first
          | rfl
          | exact ToReady.unsent_mapWaiting _ _
      have hunsent : k'.unsent t = k.unsent t := by
        rw [unsent, hthread, hwrites.fields]
        rfl
      rw [tally_new_eq_zero (by simp), hunsent, hwrites.fields]
      rfl
  | _ =>
      rw [tally_new_eq_zero (by simp), hwrites.fields]
      rfl

/-- A process is given up with a `PROCESS_SUSPEND` or a `PROCESS_EXIT`. -/
theorem step_retired_le (h : k.step cfg behaviour action = some k') (t : ℕ) :
    k'.retired.count t ≤ k.retired.count t + tally Request.about (.suspend, t) (k.sends action) +
      tally Request.about (.exit, t) (k.sends action) := by
  have hwrites := step_writes h
  have hcount : ∀ k : Kernel, k.retired.count t = tally Job.serial t (k.ioThread.retired ++
      k.suspendedBlockQ.items ++ k.suspendedReadyQ.items ++ k.exitProcessThread.retired ++
      k.memoryExitQ.items) := fun k => (tally_eq_count _).symm
  rw [hcount, hcount]
  unfold step at h
  split at h
  · cases h
  cases action with
  | toReady =>
      simp only [toReady, putToReady] at h
      repeat' split at h
      all_goals cases h
      all_goals simp_all [PQueue.wait_eq_some, PQueue.pop_eq_some]
      all_goals omega
  | ioListener now =>
      simp only [ioListener, putToReady] at h
      repeat' split at h
      all_goals cases h
      all_goals simp_all [IoListener.retired, sends, Request.about, Request.kind, Request.serial,
        one, PQueue.wait_eq_some, PQueue.pop_eq_some]
      all_goals omega
  | exitProcess =>
      simp only [exitProcess] at h
      repeat' split at h
      all_goals cases h
      all_goals simp_all [ExitProcess.retired, sends, Request.about, Request.kind, Request.serial,
        one]
      all_goals omega
  | _ =>
      rw [hwrites.fields]
      exact Nat.le_trans (Nat.le_add_right _ _) (Nat.le_add_right _ _)

/-- A process is kept in memory from its `PROCESS_NEW` on, until its suspension or its exit is
asked for. -/
theorem step_keeping (h : k.step cfg behaviour action = some k') (hinit : k.InitHandshake) (t : ℕ) :
    tally Job.serial t k.keeping + tally Request.about (.new, t) (k.sends action) ≤
      tally Job.serial t k'.keeping + tally Request.about (.suspend, t) (k.sends action) +
        tally Request.about (.exit, t) (k.sends action) := by
  have htotal := step_tally h hinit t
  have hunsent := step_unsent h hinit t
  have hretired := step_retired_le h t
  have hbefore := k.unsent_add_keeping t
  have hafter := k'.unsent_add_keeping t
  omega

/-- What is sent is sent for a process that occurs where the request says. -/
theorem sends_cases (k : Kernel) (action : KernelAction) :
    k.sends action = [] ∨ ∃ request, k.sends action = [request] ∧
      (request.kind = .new → 0 < k.unsent request.serial) ∧
      (request.kind ≠ .new → 0 < tally Job.serial request.serial k.keeping) := by
  unfold sends
  split
  · split
    · rename_i job hat
      refine .inr ⟨_, rfl, fun _ => ?_, fun hkind => absurd rfl hkind⟩
      simp only [unsent, hat, ToReady.unsent, Request.serial, tally_cons, one_self]
      omega
    · exact .inl rfl
  · split
    · rename_i job hat
      refine .inr ⟨_, rfl, fun hkind => (by cases hkind), fun _ => ?_⟩
      simp only [keeping, hat, ExitProcess.keeping, Request.serial, tally_append, tally_cons,
        one_self]
      omega
    · exact .inl rfl
  · split
    · rename_i job hat
      refine .inr ⟨_, rfl, fun hkind => (by cases hkind), fun _ => ?_⟩
      simp only [keeping, hat, IoListener.keeping, Request.serial, tally_append, tally_cons,
        one_self]
      omega
    · exact .inl rfl
  · exact .inl rfl

theorem exitsRequested_le_retired (k : Kernel) (t : ℕ) :
    k.exitsRequested t ≤ k.retired.count t := by
  have hthread : tally Job.serial t k.exitProcessThread.requested =
      tally Job.serial t k.exitProcessThread.retired := by
    cases k.exitProcessThread <;> rfl
  rw [exitsRequested, hthread, retired, ← tally_eq_count]
  simp only [tally_append]
  omega

end Kernel

/-! ## The kernel and its CPU -/

namespace Contract

variable {cfg : KernelConfig} {s : Contract}

/-- The PCBs that are kept in memory, those at the CPU among them. -/
def keeping (s : Contract) : List Job :=
  s.kernel.keeping ++ s.atCpu

/-- An admitted process is in one of the three parts, once. -/
theorem Conserved.parts (hs : s.Conserved) (t : ℕ) :
    s.kernel.unsent t + tally Job.serial t s.keeping + s.kernel.retired.count t =
      s.kernel.admittedCount t := by
  rw [← hs.once t, ← Kernel.unsent_add_keeping, keeping, tally_append]
  omega

/-- A process that is kept in memory holds a permit. -/
theorem Accounted.mem_holders_of_keeping (hconserved : s.Conserved) (hs : s.Accounted cfg) {t : ℕ}
    (ht : 0 < tally Job.serial t s.keeping) : t ∈ permitHolders s.kernel.history := by
  have htoReady : tally Job.serial t (s.kernel.toReadyThread.keeping s.kernel.pcbTableReady) ≤
      tally Job.serial t (s.kernel.toReadyThread.hands s.kernel.pcbTableReady) := by
    cases s.kernel.toReadyThread <;> simp [ToReady.keeping]
  have hio : tally Job.serial t s.kernel.ioThread.keeping ≤ s.kernel.ioThread.inMemory.count t := by
    cases s.kernel.ioThread <;> simp [IoListener.keeping, IoListener.inMemory, tally_eq_count]
  have hexitThread : tally Job.serial t s.kernel.exitProcessThread.keeping ≤
      tally Job.serial t s.kernel.exitProcessThread.hands := by
    cases s.kernel.exitProcessThread <;> simp [ExitProcess.keeping, ExitProcess.hands]
  have hparts := hconserved.parts t
  have hone := s.kernel.admittedCount_le_one t
  have hexits := s.kernel.exitsRequested_le_retired t
  refine hs.mem_holders_of_inMemory hconserved ?_ (by omega)
  simp only [keeping, Kernel.keeping, tally_append] at ht
  simp only [InMemory, Kernel.inMemory, countAtCpu]
  omega

end Contract

/-! ## Steps of the system -/

namespace System

variable {cfg : KernelConfig} {behaviour : MemoryBehaviour} {s s' : System} {action : Action}

/-- How a step moves processes between the three parts, given the requests it sends. -/
structure Passes (requests : List Request) (s s' : System) : Prop where
  unsent : ∀ t, s'.kernel.unsent t + tally Request.about (.new, t) requests +
    s.kernel.admittedCount t = s.kernel.unsent t + s'.kernel.admittedCount t
  exits : ∀ t, s'.kernel.exitsRequested t =
    s.kernel.exitsRequested t + tally Request.about (.exit, t) requests
  keeping : ∀ t, tally Job.serial t s.toContract.keeping +
      tally Request.about (.new, t) requests ≤
    tally Job.serial t s'.toContract.keeping + tally Request.about (.suspend, t) requests +
      tally Request.about (.exit, t) requests

/-- The CPU keeps what it receives until it answers. -/
theorem tally_keeping_of_answers {k : Kernel} {held held' : List Job} {ports : CpuPorts}
    (h : Cpu.Answers held k.ports held' ports) (t : ℕ) :
    tally Job.serial t (k.withPorts ports).keeping + tally Job.serial t held' =
      tally Job.serial t k.keeping + tally Job.serial t held := by
  simp only [Kernel.keeping, Kernel.withPorts, tally_append]
  cases h with
  | still => rfl
  | receive hto =>
      simp only [Kernel.ports] at hto ⊢
      rw [hto, tally_append]
      simp only [tally_cons, tally_nil]
      omega
  | @change i job hget pcb events hevents =>
      have hset := weigh_set (w := one Job.serial t) { job with pcb := pcb } hget
      have hone : one Job.serial t { job with pcb := pcb } = one Job.serial t job := rfl
      simp only [Kernel.ports, weigh_one] at hset ⊢
      omega
  | @answer i job hget header =>
      have herase := weigh_eraseIdx (w := one Job.serial t) hget
      simp only [Kernel.ports, weigh_one, List.map_append, tally_append, List.map_cons,
        List.map_nil, tally_cons, tally_nil] at herase ⊢
      omega
  | note => rfl

theorem step_passes (h : s.step cfg behaviour action = some s') (hguard : InterruptsHeld action s)
    (hs : (system cfg behaviour).ReachableBy InterruptsHeld s) :
    Passes (sends action s) s s' := by
  obtain ⟨hsound, hcontract⟩ := toContract_reachable hs
  have hinit := (Contract.conserved_of_reachable hcontract).handshake
  rcases step_cases h with ⟨action, k, rfl, hk, rfl⟩ | ⟨action, c, ports, rfl, hcpu, rfl⟩
  · refine ⟨Kernel.step_unsent hk hinit, Kernel.step_exitsAsked hk, fun t => ?_⟩
    have hkeeping := Kernel.step_keeping hk hinit t
    simp only [Contract.keeping, toContract, tally_append, sends]
    omega
  · have hone := (Contract.oneToken_of_reachable hcontract).atCpu_le_one
    simp only [toContract] at hone
    obtain ⟨-, hanswers⟩ := Cpu.step_answers hcpu (by simp only [Kernel.ports]; omega)
      (fun haction => hguard (by rw [haction])) hsound
    refine ⟨fun t => rfl, fun t => rfl, fun t => ?_⟩
    have hkept := tally_keeping_of_answers hanswers t
    simp only [Contract.keeping, toContract, tally_append, sends, tally_nil]
    omega

/-! ## Sessions -/

theorem session_append (t : ℕ) (log more : List Request) :
    session t (log ++ more) = session t log ++ session t more := by
  simp [session]

/-- Requests for others leave a session alone. -/
theorem session_singleton_of_ne {t : ℕ} {request : Request} (h : request.serial ≠ t) :
    session t [request] = [] := by
  simp [session, h]

theorem session_singleton (request : Request) :
    session request.serial [request] = [request.kind] := by
  simp [session]

/-- Where the PCB of a process is tells how far its session has come. -/
structure InSession (log : List Request) (s : System) (t : ℕ) : Prop where
  unsent : 0 < s.kernel.unsent t ∨ s.kernel.admittedCount t = 0 → session t log = []
  opened : s.kernel.unsent t = 0 → s.kernel.admittedCount t = 1 → s.kernel.exitsRequested t = 0 →
    ∃ n, session t log = .new :: List.replicate n .suspend
  ended : 0 < s.kernel.exitsRequested t →
    ∃ n, session t log = .new :: List.replicate n .suspend ++ [.exit]

theorem InSession.isSession {log : List Request} {t : ℕ} (h : InSession log s t) :
    IsSession (session t log) := by
  by_cases hunsent : 0 < s.kernel.unsent t ∨ s.kernel.admittedCount t = 0
  · exact .inl (h.unsent hunsent)
  · have hone := s.kernel.admittedCount_le_one t
    have hadmitted : s.kernel.admittedCount t = 1 := by omega
    by_cases hexits : s.kernel.exitsRequested t = 0
    · obtain ⟨n, hn⟩ := h.opened (by omega) hadmitted hexits
      exact .inr ⟨n, .inl hn⟩
    · obtain ⟨n, hn⟩ := h.ended (by omega)
      exact .inr ⟨n, .inr hn⟩

/-- A step without a request for the process. -/
theorem InSession.of_none {log requests : List Request} {t : ℕ} (h : InSession log s t)
    (hpasses : Passes requests s s') (hs : s.toContract.Conserved)
    (hs' : s'.toContract.Conserved) (hnone : ∀ request ∈ requests, request.serial ≠ t) :
    InSession (log ++ requests) s' t := by
  have hsession : session t (log ++ requests) = session t log := by
    have hnil : session t requests = [] := by
      simpa [session] using hnone
    rw [session_append, hnil, List.append_nil]
  have hcount : ∀ kind, tally Request.about (kind, t) requests = 0 := fun kind =>
    weigh_eq_zero.2 fun request hmem =>
      one_of_ne fun heq => hnone request hmem (congrArg Prod.snd heq)
  have hunsent := hpasses.unsent t
  have hexits := hpasses.exits t
  have hparts := hs.parts t
  have hparts' := hs'.parts t
  rw [hcount] at hunsent hexits
  simp only [toContract] at hparts hparts'
  have hone := s.kernel.admittedCount_le_one t
  have hone' := s'.kernel.admittedCount_le_one t
  constructor
  · intro hbefore
    rw [hsession]
    exact h.unsent (by omega)
  · intro hzero hadmitted hnoExit
    rw [hsession]
    exact h.opened (by omega) (by omega) (by omega)
  · intro hexit
    rw [hsession]
    exact h.ended (by omega)

/-- A step that sends a request for the process. -/
theorem InSession.of_request {log : List Request} {request : Request}
    (h : InSession log s request.serial) (hpasses : Passes [request] s s')
    (hs : s.toContract.Conserved) (hs' : s'.toContract.Conserved)
    (hnew : request.kind = .new → 0 < s.kernel.unsent request.serial)
    (hkept : request.kind ≠ .new → 0 < tally Job.serial request.serial s.kernel.keeping) :
    InSession (log ++ [request]) s' request.serial := by
  have hsession : session request.serial (log ++ [request]) =
      session request.serial log ++ [request.kind] := by
    rw [session_append, session_singleton]
  have hcount : ∀ kind, tally Request.about (kind, request.serial) [request] =
      if request.kind = kind then 1 else 0 := by
    intro kind
    simp [Request.about, one]
  have hunsent := hpasses.unsent request.serial
  have hexits := hpasses.exits request.serial
  have hparts := hs.parts request.serial
  have hparts' := hs'.parts request.serial
  have hle := s.kernel.exitsRequested_le_retired request.serial
  have hle' := s'.kernel.exitsRequested_le_retired request.serial
  rw [hcount] at hunsent hexits
  simp only [toContract, Contract.keeping, tally_append] at hparts hparts'
  have hone := s.kernel.admittedCount_le_one request.serial
  have hone' := s'.kernel.admittedCount_le_one request.serial
  cases hkind : request.kind with
  | new =>
      have hpos := hnew hkind
      have hnil := h.unsent (.inl hpos)
      rw [hkind] at hsession hunsent hexits
      simp only [if_true, reduceCtorEq, if_false] at hunsent hexits
      refine ⟨fun hbefore => ?_, fun _ _ _ => ⟨0, ?_⟩, fun hexit => ?_⟩
      · omega
      · rw [hsession, hnil]
        rfl
      · omega
  | suspend =>
      have hpos := hkept (by simp [hkind])
      obtain ⟨n, hn⟩ := h.opened (by omega) (by omega) (by omega)
      rw [hkind] at hsession hunsent hexits
      simp only [reduceCtorEq, if_false] at hunsent hexits
      refine ⟨fun hbefore => ?_, fun _ _ _ => ⟨n + 1, ?_⟩, fun hexit => ?_⟩
      · omega
      · rw [hsession, hn, List.replicate_succ', List.cons_append]
      · omega
  | exit =>
      have hpos := hkept (by simp [hkind])
      obtain ⟨n, hn⟩ := h.opened (by omega) (by omega) (by omega)
      rw [hkind] at hsession hunsent hexits
      simp only [if_true, reduceCtorEq, if_false] at hunsent hexits
      refine ⟨fun hbefore => ?_, fun _ _ hnoExit => ?_, fun _ => ⟨n, ?_⟩⟩
      · omega
      · omega
      · rw [hsession, hn]

/-! ## Commitments -/

/-- The processes committed are kept in memory, and were never more than the level. -/
structure Committed (cfg : KernelConfig) (log : List Request) (s : System) : Prop where
  kept : ∀ t ∈ commitments log, 0 < tally Job.serial t s.toContract.keeping
  bounded : ∀ before, before <+: log → (commitments before).card ≤ cfg.multiprogrammingLevel

/-- Processes that are kept in memory are as many as the level at most. -/
theorem card_le_of_keeping (hconserved : s.toContract.Conserved)
    (haccounted : s.toContract.Accounted cfg) {kept : Finset ℕ}
    (h : ∀ t ∈ kept, 0 < tally Job.serial t s.toContract.keeping) :
    kept.card ≤ cfg.multiprogrammingLevel :=
  calc kept.card
      ≤ (permitHolders s.kernel.history).toFinset.card :=
        Finset.card_le_card fun t ht => List.mem_toFinset.2
          (haccounted.mem_holders_of_keeping hconserved (h t ht))
    _ ≤ (permitHolders s.kernel.history).length := List.toFinset_card_le _
    _ ≤ cfg.multiprogrammingLevel := haccounted.length_holders_le

theorem step_committed {log : List Request} (hpasses : Passes (sends action s) s s')
    (hsends : sends action s = [] ∨ ∃ request, sends action s = [request])
    (hconserved : s'.toContract.Conserved) (haccounted : s'.toContract.Accounted cfg)
    (hs : Committed cfg log s) : Committed cfg (log ++ sends action s) s' := by
  have hkept : ∀ t ∈ commitments (log ++ sends action s),
      0 < tally Job.serial t s'.toContract.keeping := by
    intro t ht
    have hpassed := hpasses.keeping t
    rw [commitments_append] at ht
    rcases hsends with hnil | ⟨request, hone⟩
    · rw [hnil] at ht hpassed
      have := hs.kept t ht
      simp only [tally_nil] at hpassed
      omega
    · rw [hone] at ht hpassed
      simp only [tally_cons, tally_nil] at hpassed
      cases request with
      | processNew serial pid size =>
          rcases Finset.mem_insert.1 ht with rfl | hold
          · simp [one, Request.about, Request.kind, Request.serial] at hpassed
            omega
          · have := hs.kept t hold
            simp [one, Request.about, Request.kind] at hpassed
            omega
      | processSuspend serial pid pageTable index =>
          obtain ⟨hne, hold⟩ := Finset.mem_erase.1 ht
          have := hs.kept t hold
          simp [one, Request.about, Request.kind, Request.serial, hne.symm] at hpassed
          omega
      | processExit serial pid pageTable index =>
          obtain ⟨hne, hold⟩ := Finset.mem_erase.1 ht
          have := hs.kept t hold
          simp [one, Request.about, Request.kind, Request.serial, hne.symm] at hpassed
          omega
  refine ⟨hkept, fun before hbefore => ?_⟩
  rcases hsends with hnil | ⟨request, hone⟩
  · rw [hnil, List.append_nil] at hbefore
    exact hs.bounded before hbefore
  · rw [hone] at hbefore hkept
    rcases List.prefix_concat_iff.1 hbefore with rfl | hbefore
    · exact card_le_of_keeping hconserved haccounted hkept
    · exact hs.bounded before hbefore

/-! ## Runs -/

/-- The system, with the requests the kernel has sent so far. -/
abbrev requested (cfg : KernelConfig) (behaviour : MemoryBehaviour) :
    Machine (System × List Request) Action :=
  (system cfg behaviour).observe sends

theorem sends_eq_nil_or (action : Action) (s : System) :
    sends action s = [] ∨ ∃ request, sends action s = [request] := by
  cases action with
  | kernel action =>
      rcases s.kernel.sends_cases action with hnil | ⟨request, hone, -⟩
      · exact .inl hnil
      · exact .inr ⟨request, hone⟩
  | cpu action => exact .inl rfl

theorem inSession_of_reachable {p : System × List Request}
    (hp : (requested cfg behaviour).ReachableBy (fun action p => InterruptsHeld action p.1) p) :
    ∀ t, InSession p.2 p.1 t := by
  refine hp.invariant_of (fun _ => Machine.ReachableBy.unobserved) ?initial ?step
  case initial =>
    refine fun t => ⟨fun _ => rfl, fun _ hadmitted _ => ?_, fun hexit => ?_⟩
    · cases hadmitted
    · cases hexit
  case step =>
    intro action p p' hguard hreachable hp h t
    obtain ⟨hstep, hlog⟩ := Machine.observe_step.mp h
    have hpasses := step_passes hstep hguard hreachable
    have hconserved := Contract.conserved_of_reachable (toContract_reachable hreachable).2
    have hconserved' := Contract.conserved_of_reachable
      (toContract_reachable (.step hreachable hguard hstep)).2
    rw [hlog]
    by_cases hnone : ∀ request ∈ sends action p.1, request.serial ≠ t
    · exact (hp t).of_none hpasses hconserved hconserved' hnone
    · -- the one request of the step is for this process
      obtain ⟨kernelAction, rfl⟩ : ∃ kernelAction, action = .kernel kernelAction := by
        cases action with
        | kernel kernelAction => exact ⟨kernelAction, rfl⟩
        | cpu cpuAction => exact absurd nofun hnone
      simp only [sends] at hnone hpasses ⊢
      rcases p.1.kernel.sends_cases kernelAction with hnil | ⟨request, hone, hnew, hkept⟩
      · rw [hnil] at hnone
        exact absurd nofun hnone
      · rw [hone] at hnone hpasses ⊢
        obtain rfl : request.serial = t := by simpa using hnone
        exact (hp request.serial).of_request hpasses hconserved hconserved' hnew hkept

theorem committed_of_reachable (hanswers : AnswersExitsOnce behaviour) {p : System × List Request}
    (hp : (requested cfg behaviour).ReachableBy (fun action p => InterruptsHeld action p.1) p) :
    Committed cfg p.2 p.1 := by
  refine hp.invariant_of (fun _ => Machine.ReachableBy.unobserved) ?initial ?step
  case initial =>
    refine ⟨fun t ht => absurd ht (Finset.notMem_empty t), fun before hbefore => ?_⟩
    rw [List.prefix_nil.1 hbefore]
    exact Nat.zero_le _
  case step =>
    intro action p p' hguard hreachable hp h
    obtain ⟨hstep, hlog⟩ := Machine.observe_step.mp h
    have hcontract := (toContract_reachable (.step hreachable hguard hstep)).2
    rw [hlog]
    exact step_committed (step_passes hstep hguard hreachable) (sends_eq_nil_or action p.1)
      (Contract.conserved_of_reachable hcontract)
      (Contract.accounted_of_reachable hanswers hcontract) hp

/-- What the kernel asks about each process is a session, and after each request the processes
committed are as many as the multiprogramming level at most. -/
theorem sessions_of_reachable (hanswers : AnswersExitsOnce behaviour) {p : System × List Request}
    (hp : (requested cfg behaviour).ReachableBy (fun action p => InterruptsHeld action p.1) p) :
    (∀ t, IsSession (session t p.2)) ∧
      ∀ before, before <+: p.2 → (commitments before).card ≤ cfg.multiprogrammingLevel :=
  ⟨fun t => (inSession_of_reachable hp t).isSession, (committed_of_reachable hanswers hp).bounded⟩

/-- A process is suspended, and the next is admitted. -/
theorem sessions_small : ∃ p, (requested (.small .fifo) inOrder).ReachableBy
      (fun action p => InterruptsHeld action p.1) p ∧
    session 0 p.2 = [.new, .suspend] ∧ commitments p.2 = {1} ∧
    (∀ t, IsSession (session t p.2)) ∧ (commitments p.2).card ≤ 2 := by
  obtain ⟨p, hp, htest⟩ := (requested (.small .fifo) inOrder).exists_reachableBy_of_run
    (fun action p => InterruptsHeld action p.1)
    (suspensionRequested ++ onKernel (admission 1 8 [] ++ List.replicate 9 .toReady))
    (fun p => session 0 p.2 = [.new, .suspend] ∧ commitments p.2 = {1}) (by decide +kernel)
  obtain ⟨hsession, hcommitted⟩ := of_decide_eq_true htest
  obtain ⟨hsessions, hbounded⟩ := sessions_of_reachable inOrder_answersExitsOnce hp
  exact ⟨p, hp, hsession, hcommitted, hsessions, hbounded p.2 (List.prefix_refl _)⟩

end System

end SistemasOperativos
