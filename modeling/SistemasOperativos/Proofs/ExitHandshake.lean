import SistemasOperativos.Proofs.Conservation
import SistemasOperativos.Proofs.ExitRequests

/-!
# The exit handshake

What `exit_process` and `exit_process_success` owe each other: a PCB waits in `memory_exit_q`
while the reply to its request is outstanding, and the handler of the reply tells its console
and takes it out.  Nothing in the code takes a PCB out of `memory_exit_q`, so the handshake holds
exactly until the first reply has been handled.
-/

open Tally

namespace SistemasOperativos

/-- `PROCESS_OK` is sent to the console of this process. -/
def Event.isOkTo (t : ℕ) : Event → Bool
  | .processOk serial _ => serial = t
  | _ => false

/-- The memory listener is past the scan of `exit_process_success`. -/
def MemoryListener.scanned : MemoryListener → Bool
  | .exitAnswer .. | .exitPermit _ => true
  | _ => false

namespace Kernel

variable {cfg : KernelConfig} {behaviour : MemoryBehaviour} {k k' : Kernel} {stale : ℕ → Pcb}
  {action : KernelAction} {t : ℕ}

/-- A process whose reply has been handled has been told to its console once and is out of
`memory_exit_q`; the queue holds the PCBs whose reply is outstanding; and no destroyed PCB is
read. -/
structure ExitHandshake (k : Kernel) : Prop where
  told : ∀ t, .exitHandled t ∈ k.history → k.history.countP (Event.isOkTo t) = 1
  left : ∀ t, .exitHandled t ∈ k.history → t ∉ k.memoryExitQ.items.map Job.serial
  outstanding : ∀ t, t ∈ k.memoryExitQ.items.map Job.serial ↔
    .exitRequested t ∈ k.history ∧ .exitHandled t ∉ k.history ∧
      t ∉ k.exitProcessThread.requested.map Job.serial
  untouched : k.crashed = false ∧ ∀ t, .readDestroyed t ∉ k.history

/-! ## Whoever is told stays in the queue -/

/-- The PCB a scan has found is one of those it has visited. -/
theorem ExitScan.console_foldl {pid : Word} {jobs : List Job} {scan : ExitScan} {owner : ℕ}
    {socket : Word} (h : (jobs.foldl (visit pid stale) scan).console = some (owner, socket)) :
    owner ∈ jobs.map Job.serial ∨ scan.console = some (owner, socket) := by
  induction jobs generalizing scan with
  | nil => exact .inr h
  | cons job jobs ih =>
      rcases ih h with hmem | hconsole
      · exact .inl (List.mem_cons_of_mem _ hmem)
      · unfold visit at hconsole
        split at hconsole
        · exact .inr hconsole
        · split at hconsole
          · simp only [Option.some.injEq, Prod.mk.injEq] at hconsole
            exact .inl (by simp [hconsole.1])
          · exact .inr hconsole

/-- Every process `PROCESS_OK` has been or is about to be sent for is in `memory_exit_q`. -/
structure ToldQueued (k : Kernel) : Prop where
  sent : ∀ t socket, .processOk t socket ∈ k.history → t ∈ k.memoryExitQ.items.map Job.serial
  found : ∀ serial owner socket, k.memoryThread = .exitAnswer serial (some (owner, socket)) →
    owner ∈ k.memoryExitQ.items.map Job.serial

/-- `memory_exit_q` only grows. -/
theorem step_memoryExitQ (h : k.step cfg behaviour action = some k')
    (hmem : t ∈ k.memoryExitQ.items.map Job.serial) :
    t ∈ k'.memoryExitQ.items.map Job.serial := by
  have hwrites := step_writes h
  unfold step at h
  split at h
  · cases h
  cases action with
  | exitProcess =>
      simp only [exitProcess] at h
      repeat' split at h
      all_goals cases h
      all_goals first
        | exact hmem
        | simpa using Or.inl (List.mem_map.1 hmem)
  | _ => rw [hwrites.fields]; exact hmem

/-- A PCB found is found by a scan of `memory_exit_q`, or was found before. -/
theorem step_found (h : k.step cfg behaviour action = some k') {serial owner : ℕ} {socket : Word}
    (hat : k'.memoryThread = .exitAnswer serial (some (owner, socket))) :
    owner ∈ k.memoryExitQ.items.map Job.serial ∨ k.memoryThread = k'.memoryThread := by
  have hwrites := step_writes h
  unfold step at h
  split at h
  · cases h
  cases action with
  | memoryListener stale =>
      simp only [memoryListener] at h
      cases hthread : k.memoryThread with
      | exitScan serial pid =>
          simp only [hthread, Option.some.injEq] at h
          subst h
          simp only [MemoryListener.exitAnswer.injEq] at hat
          exact .inl (by simpa using ExitScan.console_foldl hat.2)
      | tableScan reply rest found =>
          cases rest <;> cases found <;> simp only [hthread] at h
          all_goals repeat' split at h
          all_goals cases h
          all_goals simp at hat
      | _ =>
          simp only [hthread] at h
          repeat' split at h
          all_goals cases h
          all_goals simp at hat
  | _ => rw [hwrites.fields]; exact .inr rfl

theorem step_toldQueued (h : k.step cfg behaviour action = some k') (hk : k.ToldQueued) :
    k'.ToldQueued := by
  refine ⟨fun t socket hmem => step_memoryExitQ h ?_, fun serial owner socket hat =>
    step_memoryExitQ h ?_⟩
  · obtain ⟨events, hevents, hadds⟩ := step_adds h
    rw [hevents, List.mem_append] at hmem
    rcases hmem with hold | hnew
    · exact hk.sent t socket hold
    · obtain ⟨-, reply, hat⟩ := hadds _ hnew
      exact hk.found reply t socket hat
  · rcases step_found h hat with hfound | hsame
    · exact hfound
    · exact hk.found serial owner socket (hsame.trans hat)

/-! ## Requests and the queue -/

/-- Each exit requested accounts for one occurrence behind the request. -/
theorem step_exitsRequested (h : k.step cfg behaviour action = some k') (t : ℕ) :
    k'.exitsRequested t + k.history.count (.exitRequested t) =
      k.exitsRequested t + k'.history.count (.exitRequested t) := by
  have hwrites := step_writes h
  unfold step at h
  split at h
  · cases h
  cases action with
  | exitProcess =>
      simp only [exitProcess] at h
      repeat' split at h
      all_goals cases h
      all_goals simp_all [exitsRequested, ExitProcess.requested, PQueue.wait_eq_some,
        PQueue.pop_eq_some, List.count_cons, one]
      all_goals omega
  | _ =>
      rw [hwrites.records.count_eq (by simp), hwrites.fields]
      rfl

/-! ## Before the first reply has been handled -/

/-- A scan of PCBs none of which is destroyed, and none of which occurs twice, reads no
destroyed PCB. -/
theorem ExitScan.foldl_untouched (pid : Word) (stale : ℕ → Pcb) {jobs : List Job}
    (scan : ExitScan) (hnodup : (jobs.map Job.serial).Nodup)
    (hlive : ∀ job ∈ jobs, job.serial ∉ scan.destroyed) :
    (jobs.foldl (visit pid stale) scan).history = scan.history ∧
      (jobs.foldl (visit pid stale) scan).crashed = scan.crashed := by
  induction jobs generalizing scan with
  | nil => exact ⟨rfl, rfl⟩
  | cons job jobs ih =>
      rw [List.map_cons, List.nodup_cons] at hnodup
      have hjob := hlive job List.mem_cons_self
      have hvisit : (scan.visit pid stale job).history = scan.history ∧
          (scan.visit pid stale job).crashed = scan.crashed := by
        rw [visit, if_neg hjob]
        split <;> exact ⟨rfl, rfl⟩
      have hrest : ∀ other ∈ jobs, other.serial ∉ (scan.visit pid stale job).destroyed := by
        intro other hmem
        have hother := hlive other (List.mem_cons_of_mem _ hmem)
        have hne : other.serial ≠ job.serial := fun heq =>
          hnodup.1 (List.mem_map.2 ⟨other, hmem, heq⟩)
        rw [visit, if_neg hjob]
        split
        · simpa using ⟨hne, hother⟩
        · exact hother
      obtain ⟨hhistory, hcrashed⟩ := ih _ hnodup.2 hrest
      exact ⟨hhistory.trans hvisit.1, hcrashed.trans hvisit.2⟩

/-- Until a reply has been handled there has been one scan at most, and it has read no
destroyed PCB. -/
def UntouchedYet (k : Kernel) : Prop :=
  (∀ t, .exitHandled t ∉ k.history) → k.crashed = false ∧ (∀ t, .readDestroyed t ∉ k.history) ∧
    (k.memoryThread.scanned = false → k.destroyed = [])

theorem memoryListener_untouchedYet (h : k.memoryListener stale = some k')
    (hnodup : (k.memoryExitQ.items.map Job.serial).Nodup) (hk : k.UntouchedYet) :
    k'.UntouchedYet := by
  unfold memoryListener at h
  cases hat : k.memoryThread with
  | exitScan serial pid =>
      simp only [hat, Option.some.injEq] at h
      subst h
      intro hnone
      obtain ⟨reads, hreads, -⟩ := ExitScan.history_foldl pid stale k.memoryExitQ.items
        ⟨k.destroyed, none, false, k.history⟩
      obtain ⟨hcrashed, huntouched, hdestroyed⟩ := hk fun t hmem => hnone t (by simp [hreads, hmem])
      replace hdestroyed := hdestroyed (by simp [hat, MemoryListener.scanned])
      obtain ⟨hhistory, hok⟩ := ExitScan.foldl_untouched pid stale
        ⟨k.destroyed, none, false, k.history⟩ hnodup (by simp [hdestroyed])
      exact ⟨hok, fun t => by simpa [hhistory] using huntouched t, by simp [MemoryListener.scanned]⟩
  | exitPermit serial =>
      simp only [hat, Option.some.injEq] at h
      subst h
      exact fun hnone => absurd (hnone serial) (by simp)
  | _ =>
      simp only [hat] at h
      repeat' split at h
      all_goals cases h
      all_goals simp_all [UntouchedYet, setTable, MemoryListener.scanned]

theorem step_untouchedYet (h : k.step cfg behaviour action = some k')
    (hnodup : (k.memoryExitQ.items.map Job.serial).Nodup) (hk : k.UntouchedYet) :
    k'.UntouchedYet := by
  have hwrites := step_writes h
  unfold step at h
  split at h
  · cases h
  cases action with
  | memoryListener stale => exact memoryListener_untouchedYet h hnodup hk
  | _ =>
      intro hnone
      obtain ⟨hcrashed, huntouched, hdestroyed⟩ := hk fun t hmem =>
        hnone t ((hwrites.records.mem_iff (by simp)).2 hmem)
      refine ⟨?_, fun t hmem => huntouched t ((hwrites.records.mem_iff (by simp)).1 hmem), ?_⟩
      all_goals rw [hwrites.fields]; assumption

/-- The reply of a process is handled by the last statement of `exit_process_success`. -/
theorem step_handles (h : k.step cfg behaviour action = some k')
    (hmem : .exitHandled t ∈ k'.history) : .exitHandled t ∈ k.history ∨
      (∃ stale, action = .memoryListener stale) ∧ k.memoryThread = .exitPermit t := by
  obtain ⟨events, hevents, hadds⟩ := step_adds h
  rw [hevents, List.mem_append] at hmem
  exact hmem.imp id (hadds (.exitHandled t))

end Kernel

/-! ## The kernel and its CPU -/

namespace Kernel

variable {k k' : Kernel} {ports : CpuPorts} {events : List Event} {event : Event}

/-- The invariants behind the exit handshake. -/
structure ExitsTraced (k : Kernel) : Prop where
  told : k.ToldQueued
  requested : ∀ t, k.exitsRequested t = k.history.count (.exitRequested t)
  untouched : k.UntouchedYet

theorem start_exitsTraced (cfg : KernelConfig) : (start cfg).ExitsTraced :=
  ⟨⟨nofun, nofun⟩, fun _ => rfl, fun _ => ⟨rfl, nofun, fun _ => rfl⟩⟩

theorem mem_of_mem_append (hcpu : ∀ event ∈ events, event.byCpu = true)
    (hevent : event.byCpu = false) (hmem : event ∈ k.history ++ events) : event ∈ k.history := by
  rcases List.mem_append.1 hmem with hold | hnew
  · exact hold
  · simp [hcpu event hnew] at hevent

/-- The exit handshake does not depend on the sockets to the CPU. -/
theorem ExitsTraced.withPorts (hk : k.ExitsTraced)
    (hhistory : ports.history = k.history ++ events)
    (hcpu : ∀ event ∈ events, event.byCpu = true) : (k.withPorts ports).ExitsTraced := by
  obtain ⟨⟨hsent, hfound⟩, hrequested, huntouched⟩ := hk
  have hmem : ∀ event : Event, event.byCpu = false → event ∈ (k.withPorts ports).history →
      event ∈ k.history := by
    intro event hevent hmem
    have hmem : event ∈ ports.history := hmem
    exact mem_of_mem_append hcpu hevent (hhistory ▸ hmem)
  refine ⟨⟨fun t socket h => hsent t socket (hmem _ rfl h), hfound⟩, fun t => ?_,
    fun hnone => ?_⟩
  · refine (hrequested t).trans ?_
    show _ = ports.history.count _
    rw [hhistory, List.count_append, Nat.left_eq_add, List.count_eq_zero]
    intro h
    simpa [Event.byCpu] using hcpu _ h
  · obtain ⟨hcrashed, hread, hdestroyed⟩ := huntouched fun t h => hnone t (by
      show _ ∈ ports.history
      exact hhistory ▸ List.mem_append_left events h)
    exact ⟨hcrashed, fun t h => hread t (hmem _ rfl h), hdestroyed⟩

end Kernel

namespace Contract

variable {cfg : KernelConfig} {behaviour : MemoryBehaviour} {s s' : Contract}
  {action : ContractAction}

/-- No process is in `memory_exit_q` or behind a request twice. -/
theorem Conserved.exitsRequested_le_one (hs : s.Conserved) (t : ℕ) :
    s.kernel.exitsRequested t ≤ 1 := by
  have hrequested : tally Job.serial t s.kernel.exitProcessThread.requested ≤
      tally Job.serial t s.kernel.exitProcessThread.hands := by
    cases s.kernel.exitProcessThread <;> simp [ExitProcess.requested, ExitProcess.hands]
  have hone := hs.tally_le_one t
  rw [Kernel.tally_jobs] at hone
  unfold Kernel.exitsRequested
  omega

theorem Conserved.nodup_memoryExitQ (hs : s.Conserved) :
    (s.kernel.memoryExitQ.items.map Job.serial).Nodup := by
  refine List.nodup_iff_count_le_one.2 fun t => ?_
  have hone := hs.exitsRequested_le_one t
  rw [Kernel.exitsRequested, tally_eq_count s.kernel.memoryExitQ.items] at hone
  omega

theorem exitsTraced_of_reachable (hs : (contract cfg behaviour).Reachable s) :
    s.kernel.ExitsTraced := by
  refine hs.invariant_of (fun _ => conserved_of_reachable) (Kernel.start_exitsTraced cfg) ?_
  intro action s s' _ hconserved hs h
  rcases step_kernel h with ⟨kernelAction, rfl, hstep⟩ | ⟨ports, events, heq, hhistory, hcpu⟩
  · refine ⟨Kernel.step_toldQueued hstep hs.told, fun t => ?_,
      Kernel.step_untouchedYet hstep hconserved.nodup_memoryExitQ hs.untouched⟩
    have := Kernel.step_exitsRequested hstep t
    have := hs.requested t
    omega
  · rw [heq]
    exact hs.withPorts hhistory hcpu

/-- The memory listener does not complete the handling of a reply to an exit request. -/
def NoExitHandled (action : ContractAction) (s : Contract) : Prop :=
  ∀ stale serial, action = .kernel (.memoryListener stale) →
    s.kernel.memoryThread ≠ .exitPermit serial

theorem no_exitHandled (hs : (contract cfg behaviour).ReachableBy NoExitHandled s) (t : ℕ) :
    .exitHandled t ∉ s.kernel.history := by
  refine hs.invariant ?initial ?step
  case initial => exact nofun
  case step =>
    intro action s s' hguard hs h hmem
    rcases step_kernel h with ⟨kernelAction, rfl, hstep⟩ | ⟨ports, events, heq, hhistory, hcpu⟩
    · rcases Kernel.step_handles hstep hmem with hold | ⟨⟨stale, rfl⟩, hat⟩
      · exact hs hold
      · exact hguard stale t rfl hat
    · have hmem : Event.exitHandled t ∈ ports.history := by rwa [heq] at hmem
      exact hs (Kernel.mem_of_mem_append hcpu rfl (hhistory ▸ hmem))

/-- While no reply has been handled the handshake holds. -/
theorem exitHandshake_of_none (hs : (contract cfg behaviour).Reachable s)
    (hnone : ∀ t, .exitHandled t ∉ s.kernel.history) : s.kernel.ExitHandshake := by
  have htraced := exitsTraced_of_reachable hs
  have hconserved := conserved_of_reachable hs
  obtain ⟨hcrashed, hread, -⟩ := htraced.untouched hnone
  refine ⟨fun t h => absurd h (hnone t), fun t h => absurd h (hnone t), fun t => ?_,
    hcrashed, hread⟩
  have hone := hconserved.exitsRequested_le_one t
  have hcount := htraced.requested t
  simp only [Kernel.exitsRequested, tally_eq_count] at hone hcount
  constructor
  · intro hmem
    have hqueued := List.count_pos_iff.2 hmem
    exact ⟨List.count_pos_iff.1 (by omega), hnone t, List.count_eq_zero.1 (by omega)⟩
  · rintro ⟨hmem, -, hnot⟩
    have hsent := List.count_pos_iff.2 hmem
    have hbehind := List.count_eq_zero.2 hnot
    exact List.count_pos_iff.1 (by omega)

/-- Once a reply has been handled it fails: a process told to its console is still in the
queue. -/
theorem not_exitHandshake_of_handled (hs : (contract cfg behaviour).Reachable s) {t : ℕ}
    (ht : .exitHandled t ∈ s.kernel.history) : ¬ s.kernel.ExitHandshake := by
  intro hhandshake
  have hpos : 0 < s.kernel.history.countP (Event.isOkTo t) := by
    rw [hhandshake.told t ht]
    exact Nat.one_pos
  obtain ⟨event, hmem, hok⟩ := List.countP_pos_iff.1 hpos
  cases event <;> simp [Event.isOkTo] at hok
  subst hok
  exact hhandshake.left _ ht ((exitsTraced_of_reachable hs).told.sent _ _ hmem)

/-- In runs that handle no reply to an exit request the handshake holds throughout; in every
other it fails from the first reply handled on. -/
theorem exit_handshake :
    (∀ s, (contract cfg behaviour).ReachableBy NoExitHandled s → s.kernel.ExitHandshake) ∧
    (∀ s, (contract cfg behaviour).Reachable s → (∃ t, .exitHandled t ∈ s.kernel.history) →
      ¬ s.kernel.ExitHandshake) :=
  ⟨fun _ hs => exitHandshake_of_none hs.reachable (no_exitHandled hs),
    fun _ hs ⟨_, ht⟩ => not_exitHandshake_of_handled hs ht⟩

/-- The kernel handles an EXIT_CALL, up to the reply of the memory module to its request. -/
def exitHandling (serial : ℕ) (pid : Word) : List KernelAction :=
  List.replicate 5 (.dispatchListener 0) ++ List.replicate 6 .exitProcess ++
    [.memory (.processExitReady serial pid)] ++ List.replicate 4 (.memoryListener default)

/-- A process enters the system, is dispatched, exits, and has its exit handled. -/
def exitRun (serial : ℕ) (pid : Word) : List ContractAction :=
  (admission serial pid [] ++ initialization pid ++ List.replicate 5 KernelAction.toReady ++
      List.replicate 8 (KernelAction.toExec 0)).map .kernel ++
    [.receive, .answer 0 .exitCall] ++ (exitHandling serial pid).map .kernel

/-- Two processes exit.  The first stays in `memory_exit_q`, and its destroyed PCB is read when
the reply of the second is handled. -/
theorem not_exit_handshake : ∃ s, (contract (.small .fifo) inOrder).Reachable s ∧
    .exitHandled 0 ∈ s.kernel.history ∧ 0 ∈ s.kernel.memoryExitQ.items.map Job.serial ∧
    .readDestroyed 0 ∈ s.kernel.history ∧ ¬ s.kernel.ExitHandshake := by
  obtain ⟨s, hs, htest⟩ := Machine.exists_reachable_of_run (contract (.small .fifo) inOrder)
    (exitRun 0 1 ++ exitRun 1 2)
    (fun s => .exitHandled 0 ∈ s.kernel.history ∧ 0 ∈ s.kernel.memoryExitQ.items.map Job.serial ∧
      .readDestroyed 0 ∈ s.kernel.history)
    (by decide +kernel)
  obtain ⟨hhandled, hqueued, hread⟩ := of_decide_eq_true htest
  exact ⟨s, hs, hhandled, hqueued, hread, fun hhandshake => hhandshake.left 0 hhandled hqueued⟩

end Contract
end SistemasOperativos
