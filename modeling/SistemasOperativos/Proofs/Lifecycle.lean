import SistemasOperativos.System.Lifecycle
import SistemasOperativos.Proofs.OnePlace
import SistemasOperativos.Proofs.Permits

/-!
# The kernel is a scheduler

Every step of the system leaves each process in its state, admits a process, or takes one process
along one edge of the diagram of states; one process executes at a time, and the active processes
are as many as the multiprogramming level at most.

The proof counts: `Moves` says how a step of the kernel changes the number of times a process
occurs in each state.  As a process occurs once (`Conserved`), the counts tell its state.
-/

open Tally

namespace SistemasOperativos

theorem KernelConfig.tally_sort (cfg : KernelConfig) (t : ℕ) (jobs : List Job) :
    tally Job.serial t (cfg.listSort.sort jobs) = tally Job.serial t jobs :=
  cfg.weigh_sort (one Job.serial t) jobs

/-- No process changes its state, or one does, along an edge: `box` and `box'` keep the PCBs, state
by state, before and after. -/
inductive Moves (box box' : ProcessState → List Job) : Prop
  | still (h : ∀ state t, tally Job.serial t (box' state) = tally Job.serial t (box state))
  | along (source target : ProcessState) (job : Job) (hedge : source.edge target = true)
      (h : ∀ state t, tally Job.serial t (box' state) +
        (if state = source then one Job.serial t job else 0) =
          tally Job.serial t (box state) + (if state = target then one Job.serial t job else 0))

/-! ## Each thread moves one process along an edge, or none -/

namespace Kernel

variable {cfg : KernelConfig} {behaviour : MemoryBehaviour} {k k' : Kernel} {now : Word}
  {stale : ℕ → Pcb} {action : KernelAction}

/-- The places of the kernel, state by state. -/
theorem tally_inState (t : ℕ) (k : Kernel) :
    tally Job.serial t (ProcessState.all.flatMap k.inState) = tally Job.serial t k.jobs := by
  have htoReady : tally Job.serial t (k.toReadyThread.hands k.pcbTableReady) =
      tally Job.serial t (k.toReadyThread.handsIn k.pcbTableReady .new) +
        tally Job.serial t (k.toReadyThread.handsIn k.pcbTableReady .ready) := by
    cases k.toReadyThread <;> simp [ToReady.handsIn, ToReady.hands]
  have hdispatch : tally Job.serial t k.dispatchThread.hands =
      tally Job.serial t (k.dispatchThread.handsIn .ready) +
        tally Job.serial t (k.dispatchThread.handsIn .exec) +
        tally Job.serial t (k.dispatchThread.handsIn .blocked) +
        tally Job.serial t (k.dispatchThread.handsIn .exit) := by
    cases k.dispatchThread <;> simp [DispatchListener.handsIn, DispatchListener.hands]
  have hio : tally Job.serial t k.ioThread.hands =
      tally Job.serial t (k.ioThread.handsIn .ready) +
        tally Job.serial t (k.ioThread.handsIn .blocked) +
        tally Job.serial t (k.ioThread.handsIn .suspendedBlocked) +
        tally Job.serial t (k.ioThread.handsIn .suspendedReady) := by
    cases k.ioThread <;> simp [IoListener.handsIn, IoListener.hands]
  rw [tally_jobs, htoReady, hdispatch, hio]
  simp only [ProcessState.all, inState, List.flatMap_cons, List.flatMap_nil, tally_append,
    tally_nil]
  omega

/-- Where every other state is left alone, `new` has what is left of the total. -/
theorem tally_new (hothers : ∀ state, state ≠ .new → k'.inState state = k.inState state) (t : ℕ) :
    tally Job.serial t (k'.inState .new) + tally Job.serial t k.jobs =
      tally Job.serial t (k.inState .new) + tally Job.serial t k'.jobs := by
  rw [← tally_inState, ← tally_inState]
  simp only [ProcessState.all, List.flatMap_cons, List.flatMap_nil, tally_append, tally_nil,
    hothers .ready nofun, hothers .exec nofun, hothers .blocked nofun,
    hothers .suspendedBlocked nofun, hothers .suspendedReady nofun, hothers .exit nofun]
  omega

/-- A step that leaves every state but `new` alone and keeps the number of occurrences. -/
theorem moves_of_others
    (htotal : ∀ t, tally Job.serial t k'.jobs = tally Job.serial t k.jobs)
    (hothers : ∀ state, state ≠ .new → k'.inState state = k.inState state) :
    Moves k.inState k'.inState := by
  refine .still fun state t => ?_
  cases state with
  | new =>
      have := tally_new hothers t
      have := htotal t
      omega
  | _ => exact congrArg _ (hothers _ (by decide))

/-- `to_ready` takes a process to `ready` when it enters `put_to_ready`. -/
theorem toReady_lifecycle (h : k.toReady cfg = some k') (hk : k.InitHandshake) :
    Moves k.inState k'.inState := by
  have hready := hk.ready_eq_zero
  unfold toReady at h
  cases hat : k.toReadyThread with
  | popSuspended =>
      simp only [hat] at h
      split at h <;> cases h
      rename_i job q hpop
      have hitems := (PQueue.pop_eq_some.1 hpop).1
      refine .along .suspendedReady .ready job rfl fun state t => ?_
      cases state <;> simp [inState, hat, hitems, ToReady.handsIn, ToReady.hands, PutToReady.hands]
      all_goals omega
  | awaitTable job =>
      simp only [hat] at h
      split at h <;> cases h
      rename_i n hn
      refine .along .new .ready job rfl fun state t => ?_
      cases state <;> simp [inState, hat, hn, ToReady.handsIn, ToReady.hands, PutToReady.hands]
      all_goals omega
  | put state =>
      simp only [hat, putToReady] at h
      refine .still fun state t => ?_
      have hsort := cfg.tally_sort t k.readyQ.items
      repeat' split at h
      all_goals cases h
      all_goals cases state
      all_goals simp_all [inState, ToReady.handsIn, ToReady.hands, PutToReady.hands]
      all_goals omega
  | _ =>
      simp only [hat] at h
      refine .still fun state t => ?_
      repeat' split at h
      all_goals cases h
      all_goals cases state
      all_goals simp_all [inState, ToReady.handsIn, ToReady.hands, ToReady.waiting,
        PQueue.wait_eq_some, PQueue.pop_eq_some]
      all_goals omega

/-- `to_exec` takes a process to `exec` when it pops its PCB from `ready_q`. -/
theorem toExec_lifecycle (h : k.toExec now = some k') : Moves k.inState k'.inState := by
  unfold toExec at h
  cases hat : k.toExecThread with
  | pop =>
      simp only [hat] at h
      split at h <;> cases h
      rename_i job q hpop
      have hitems := (PQueue.pop_eq_some.1 hpop).1
      refine .along .ready .exec job rfl fun state t => ?_
      cases state <;> simp [inState, hat, hitems, ToExec.hands]
      all_goals omega
  | _ =>
      simp only [hat] at h
      refine .still fun state t => ?_
      repeat' split at h
      all_goals cases h
      all_goals cases state
      all_goals simp_all [inState, ToExec.hands, PQueue.wait_eq_some]
      all_goals omega

theorem exitProcess_lifecycle (h : k.exitProcess = some k') : Moves k.inState k'.inState := by
  unfold exitProcess at h
  refine .still fun state t => ?_
  repeat' split at h
  all_goals cases h
  all_goals cases state
  all_goals simp_all [inState, ExitProcess.hands, PQueue.wait_eq_some, PQueue.pop_eq_some]
  all_goals omega

/-- The dispatch listener takes the process it has received to `ready`, `blocked` or `exit`. -/
theorem dispatchListener_lifecycle (h : k.dispatchListener cfg now = some k') :
    Moves k.inState k'.inState := by
  unfold dispatchListener at h
  cases hat : k.dispatchThread with
  | idle =>
      simp only [hat] at h
      split at h
      · cases h
      · cases h
        refine .still fun state t => ?_
        cases state <;> simp_all [inState, DispatchListener.handsIn]
        omega
      · cases h
        refine .still fun state t => ?_
        cases state <;> simp_all [inState, DispatchListener.handsIn]
        omega
      · cases h
        rename_i job rest hfrom
        refine .along .exec .exit job rfl fun state t => ?_
        cases state <;> simp [inState, hat, hfrom, DispatchListener.handsIn]
        all_goals omega
  | interrupted job =>
      simp only [hat] at h
      cases h
      refine .along .exec .ready job rfl fun state t => ?_
      cases state <;> simp [inState, hat, DispatchListener.handsIn, one]
      all_goals omega
  | io job =>
      simp only [hat] at h
      cases h
      refine .along .exec .blocked job rfl fun state t => ?_
      cases state <;> simp [inState, hat, DispatchListener.handsIn, one]
      all_goals omega
  | _ =>
      simp only [hat] at h
      cases h
      refine .still fun state t => ?_
      cases state <;> simp [inState, hat, DispatchListener.handsIn]
      all_goals omega

/-- `io_listener` takes a process to `ready` when its I/O is done, to `suspendedBlocked` when its
suspension is confirmed, and from there to `suspendedReady`. -/
theorem ioListener_lifecycle (h : k.ioListener cfg now = some k') : Moves k.inState k'.inState := by
  unfold ioListener at h
  cases hat : k.ioThread with
  | stamp job =>
      simp only [hat] at h
      split at h <;> cases h
      · refine .along .blocked .ready job rfl fun state t => ?_
        cases state <;> simp [inState, hat, IoListener.handsIn, PutToReady.hands]
        all_goals omega
      · refine .still fun state t => ?_
        cases state <;> simp [inState, hat, IoListener.handsIn, one]
  | awaitSuspension job =>
      simp only [hat] at h
      split at h <;> cases h
      refine .along .blocked .suspendedBlocked job rfl fun state t => ?_
      cases state <;> simp [inState, hat, IoListener.handsIn]
      all_goals omega
  | popSuspended =>
      simp only [hat] at h
      split at h <;> cases h
      rename_i job q hpop
      have hitems := (PQueue.pop_eq_some.1 hpop).1
      refine .along .suspendedBlocked .suspendedReady job rfl fun state t => ?_
      cases state <;> simp [inState, hat, hitems, IoListener.handsIn]
      all_goals omega
  | put state =>
      simp only [hat, putToReady] at h
      refine .still fun state t => ?_
      have hsort := cfg.tally_sort t k.readyQ.items
      repeat' split at h
      all_goals cases h
      all_goals cases state
      all_goals simp_all [inState, IoListener.handsIn, PutToReady.hands]
      all_goals omega
  | _ =>
      simp only [hat] at h
      refine .still fun state t => ?_
      repeat' split at h
      all_goals cases h
      all_goals cases state
      all_goals simp_all [inState, IoListener.handsIn, PQueue.wait_eq_some, PQueue.pop_eq_some]
      all_goals omega

theorem ToReady.handsIn_mapWaiting (n : ℕ) (f : Job → Job) (state : ToReady) :
    (state.mapWaiting f).handsIn n .ready = state.handsIn n .ready := by
  cases state <;> rfl

theorem ToReady.handsIn_succ (n : ℕ) (state : ToReady) :
    state.handsIn (n + 1) .ready = state.handsIn n .ready := by
  cases state <;> rfl

/-- `memory_listener` takes nothing out of `new`. -/
theorem memoryListener_inState (h : k.memoryListener stale = some k') {state : ProcessState}
    (hstate : state ≠ .new) : k'.inState state = k.inState state := by
  unfold memoryListener at h
  repeat' split at h
  all_goals cases h
  all_goals cases state
  all_goals first
    | exact absurd rfl hstate
    | rfl
    | simp [inState, setTable, ToReady.handsIn_mapWaiting, ToReady.handsIn_succ]

/-- The console threads, the memory module and `memory_listener` take nothing out of `new`. -/
theorem step_inState (h : k.step cfg behaviour action = some k')
    (haction : action ≠ .toReady ∧ (∀ now, action ≠ .toExec now) ∧ action ≠ .exitProcess ∧
      (∀ now, action ≠ .dispatchListener now) ∧ ∀ now, action ≠ .ioListener now)
    {state : ProcessState} (hstate : state ≠ .new) : k'.inState state = k.inState state := by
  have hwrites := step_writes h
  unfold step at h
  split at h
  · cases h
  obtain ⟨htoReady, htoExec, hexit, hdispatch, hio⟩ := haction
  cases action with
  | toReady => exact absurd rfl htoReady
  | toExec now => exact absurd rfl (htoExec now)
  | exitProcess => exact absurd rfl hexit
  | dispatchListener now => exact absurd rfl (hdispatch now)
  | ioListener now => exact absurd rfl (hio now)
  | memoryListener stale => exact memoryListener_inState h hstate
  | _ =>
      rw [hwrites.fields]
      cases state <;> first | exact absurd rfl hstate | rfl

/-- Every step that admits no process moves one process along an edge, or none. -/
theorem step_lifecycle (h : k.step cfg behaviour action = some k') (hk : k.InitHandshake)
    (hadmitted : k'.admitted = k.admitted) : Moves k.inState k'.inState := by
  have htotal : ∀ t, tally Job.serial t k'.jobs = tally Job.serial t k.jobs := by
    intro t
    have := step_tally h hk t
    rw [admittedCount, admittedCount, hadmitted] at this
    omega
  have hothers := step_inState h
  unfold step at h
  split at h
  · cases h
  cases action with
  | toReady => exact toReady_lifecycle h hk
  | toExec now => exact toExec_lifecycle h
  | exitProcess => exact exitProcess_lifecycle h
  | dispatchListener now => exact dispatchListener_lifecycle h
  | ioListener now => exact ioListener_lifecycle h
  | _ => exact moves_of_others htotal fun state hstate => hothers (by simp) hstate

end Kernel

/-! ## Beside any CPU that answers each dispatch once -/

namespace Contract

variable {cfg : KernelConfig} {behaviour : MemoryBehaviour} {s s' : Contract}
  {action : ContractAction}

theorem tally_inState (t : ℕ) (s : Contract) :
    tally Job.serial t (ProcessState.all.flatMap s.inState) =
      tally Job.serial t s.kernel.jobs + tally Job.serial t s.atCpu := by
  rw [← Kernel.tally_inState]
  simp [ProcessState.all, inState]
  omega

/-- Each admitted process is in the state in whose places it occurs. -/
theorem Conserved.stateOf_iff (hs : s.Conserved) {t : ℕ} (ht : t < s.kernel.admitted.length)
    {state : ProcessState} :
    s.stateOf t = some state ↔ 0 < tally Job.serial t (s.inState state) := by
  refine Diagram.locate_eq_some_iff ProcessState.nodup_all ProcessState.mem_all ?_
  rw [tally_inState, hs.once t, Kernel.admittedCount_of_lt ht]

theorem Conserved.exists_stateOf (hs : s.Conserved) {t : ℕ} (ht : t < s.kernel.admitted.length) :
    ∃ state, s.stateOf t = some state := by
  have hone := (tally_inState t s).trans ((hs.once t).trans (Kernel.admittedCount_of_lt ht))
  obtain ⟨state, -, hstate, -⟩ := exists_unique_of_tally_flatMap ProcessState.nodup_all hone
  exact ⟨state, (hs.stateOf_iff ht).2 (by omega)⟩

/-- A step that admits no process moves one process along an edge, or none. -/
theorem step_moves (h : s.step cfg behaviour action = some s') (hs : s.Conserved)
    (hadmitted : s'.kernel.admitted = s.kernel.admitted) : Moves s.inState s'.inState := by
  revert hadmitted
  refine step_elim (motive := fun s' => s'.kernel.admitted = s.kernel.admitted →
    Moves s.inState s'.inState) h ?kernel ?receive ?change ?answer ?note
  case kernel =>
    intro action k hk hadmitted
    cases Kernel.step_lifecycle hk hs.handshake hadmitted with
    | still hstill =>
        refine .still fun state t => ?_
        rw [inState, inState, tally_append, tally_append, hstill]
    | along source target job hedge halong =>
        refine .along source target job hedge fun state t => ?_
        have := halong state t
        simp only [inState, tally_append]
        omega
  case receive =>
    intro job rest hto _
    refine .still fun state t => ?_
    cases state <;> simp [inState, Kernel.inState, hto]
    omega
  case change =>
    intro i pcb events job hget _ _
    refine .still fun state t => ?_
    have hset := weigh_set (w := one Job.serial t) { job with pcb := pcb } hget
    cases state <;> simp_all [inState, Kernel.inState, one]
  case answer =>
    intro i header job hget _
    refine .still fun state t => ?_
    have herase := weigh_eraseIdx (w := one Job.serial t) hget
    simp only [weigh_one] at herase
    cases state <;> simp [inState, Kernel.inState]
    omega
  case note => exact fun n hn _ => .still fun state t => rfl

theorem states_getElem? (s : Contract) {t : ℕ} (ht : t < s.kernel.admitted.length) :
    s.states[t]? = some ((s.stateOf t).getD .new) := by
  simp [states, ht]

theorem length_states (s : Contract) : s.states.length = s.kernel.admitted.length := by
  simp [states]

/-- A step that admits no process leaves the states alone, or takes one along an edge. -/
theorem states_of_moves (h : Moves s.inState s'.inState) (hs : s.Conserved) (hs' : s'.Conserved)
    (hadmitted : s'.kernel.admitted = s.kernel.admitted) : s'.states = s.states ∨
      ∃ t source target, s.states[t]? = some source ∧ ProcessState.edge source target = true ∧
        s'.states = s.states.set t target := by
  cases h with
  | still hstill =>
      left
      rw [states, states, hadmitted]
      refine List.map_congr_left fun t _ => ?_
      rw [stateOf, stateOf, Diagram.locate_congr fun state => hstill state t]
  | along source target job hedge halong =>
      right
      have hne : source ≠ target := by
        rintro rfl
        cases source <;> cases hedge
      -- the process that moves is in the first state before and in the second after
      have hsource := halong source job.serial
      have htarget := halong target job.serial
      simp only [hne, hne.symm, if_true, if_false, one_self] at hsource htarget
      have ht : job.serial < s.kernel.admitted.length := by
        by_contra hge
        have hzero := (tally_inState job.serial s).trans
          ((hs.once job.serial).trans (Kernel.admittedCount_of_not_lt hge))
        rw [tally, weigh_flatMap, weigh_eq_zero] at hzero
        have := hzero source source.mem_all
        simp only [weigh_one] at this
        omega
      have hbefore : s.stateOf job.serial = some source := (hs.stateOf_iff ht).2 (by omega)
      have hafter : s'.stateOf job.serial = some target :=
        (hs'.stateOf_iff (hadmitted ▸ ht)).2 (by omega)
      refine ⟨job.serial, source, target, by rw [s.states_getElem? ht, hbefore]; rfl, hedge, ?_⟩
      refine List.ext_getElem? fun t => ?_
      by_cases heq : t = job.serial
      · subst heq
        rw [s'.states_getElem? (hadmitted ▸ ht), hafter,
          List.getElem?_set_self (by rw [length_states]; exact ht)]
        rfl
      · rw [List.getElem?_set_ne (Ne.symm heq)]
        have hsame : s'.stateOf t = s.stateOf t := by
          refine Diagram.locate_congr fun state => ?_
          have := halong state t
          simp only [one_of_ne (Ne.symm heq)] at this
          split at this <;> split at this <;> omega
        by_cases hlt : t < s.kernel.admitted.length
        · rw [s'.states_getElem? (hadmitted ▸ hlt), s.states_getElem? hlt, hsame]
        · rw [List.getElem?_eq_none (by rw [length_states, hadmitted]; omega),
            List.getElem?_eq_none (by rw [length_states]; omega)]

/-- A process received is new, and the others keep their states. -/
theorem states_of_receives {i : ℕ} {size : Word} {instructions : List Instruction} {blank : Pcb}
    {k' : Kernel} (h : s.kernel.step cfg behaviour (.consoleReceive i size instructions blank) =
      some k') (hs : s.Conserved) (hs' : (⟨k', s.atCpu⟩ : Contract).Conserved) :
    (⟨k', s.atCpu⟩ : Contract).states = s.states ++ [.new] := by
  have hothers : ∀ state, state ≠ .new → k'.inState state = s.kernel.inState state :=
    fun state => Kernel.step_inState h (by simp)
  have hadmitted : k'.admitted = s.kernel.admitted ++ [instructions] := by
    unfold Kernel.step at h
    split at h
    · cases h
    obtain ⟨job, -, -, hadmitted, -⟩ := Kernel.consoleReceive_weight h
    exact hadmitted
  have hlength : k'.admitted.length = s.kernel.admitted.length + 1 := by
    rw [hadmitted, List.length_append, List.length_singleton]
  have hnew : ∀ t, tally Job.serial t (k'.inState .new) + s.kernel.admittedCount t =
      tally Job.serial t (s.kernel.inState .new) + k'.admittedCount t := by
    intro t
    have := Kernel.step_tally h hs.handshake t
    have := Kernel.tally_new hothers t
    omega
  have hlast : (⟨k', s.atCpu⟩ : Contract).stateOf s.kernel.admitted.length = some .new := by
    refine (hs'.stateOf_iff (by simp only; omega)).2 ?_
    have := hnew s.kernel.admitted.length
    rw [Kernel.admittedCount_of_not_lt (Nat.lt_irrefl _), Kernel.admittedCount_of_lt (by omega)]
      at this
    simp only [inState, tally_append]
    omega
  have hfirst : ∀ t < s.kernel.admitted.length,
      (⟨k', s.atCpu⟩ : Contract).stateOf t = s.stateOf t := by
    intro t ht
    refine Diagram.locate_congr fun state => ?_
    cases state with
    | new =>
        have := hnew t
        rw [Kernel.admittedCount_of_lt ht, Kernel.admittedCount_of_lt (by omega)] at this
        simp only [inState, tally_append]
        omega
    | _ =>
        exact congrArg (fun jobs => tally Job.serial t (jobs ++ _)) (hothers _ (by decide))
  rw [states, hlength, List.range_succ, List.map_append, List.map_singleton, hlast]
  congr 1
  exact List.map_congr_left fun t ht => by rw [hfirst t (List.mem_range.1 ht)]

/-! ## One process executes, and the active processes are within the level -/

/-- The processes that execute are at most as many as the PCBs on their way to the CPU and back. -/
theorem OneToken.exec_le_one (hs : s.OneToken) : (s.inState .exec).length ≤ 1 := by
  have htoExec : s.kernel.toExecThread.hands.length ≤ s.kernel.toExecThread.token := by
    cases s.kernel.toExecThread <;> simp [ToExec.hands, ToExec.token]
  have hdispatch :
      (s.kernel.dispatchThread.handsIn .exec).length ≤ s.kernel.dispatchThread.token := by
    cases s.kernel.dispatchThread <;> simp [DispatchListener.handsIn, DispatchListener.token]
  simp only [OneToken, Kernel.tokens] at hs
  simp only [inState, Kernel.inState, List.length_append, List.length_map, if_true]
  omega

/-- An active process is in memory. -/
theorem tally_active_le (t : ℕ) (s : Contract) {state : ProcessState} (hactive : state.active) :
    tally Job.serial t (s.inState state) ≤ s.kernel.inMemory t + s.countAtCpu t := by
  have htoReady : tally Job.serial t (s.kernel.toReadyThread.handsIn s.kernel.pcbTableReady .ready)
      ≤ tally Job.serial t (s.kernel.toReadyThread.hands s.kernel.pcbTableReady) := by
    cases s.kernel.toReadyThread <;> simp [ToReady.handsIn, ToReady.hands]
  have hio : ∀ state : ProcessState, state.active →
      tally Job.serial t (s.kernel.ioThread.handsIn state) ≤
        s.kernel.ioThread.inMemory.count t := by
    intro state hactive
    cases state <;> cases s.kernel.ioThread <;>
      simp_all [IoListener.handsIn, IoListener.inMemory, ProcessState.active, tally_eq_count,
        List.count_singleton]
  have hdispatch : ∀ state, tally Job.serial t (s.kernel.dispatchThread.handsIn state) ≤
      tally Job.serial t s.kernel.dispatchThread.hands := by
    intro state
    cases state <;> cases s.kernel.dispatchThread <;>
      simp [DispatchListener.handsIn, DispatchListener.hands]
  have hheld := hdispatch state
  have hmoved := hio state hactive
  cases state with
  | ready | exec | blocked =>
      simp only [inState, Kernel.inState, Kernel.inMemory, countAtCpu, tally_append,
        reduceCtorEq, if_true, if_false, tally_nil]
      omega
  | _ => cases hactive

/-- An active process holds a permit. -/
theorem Accounted.mem_holders_of_active (hconserved : s.Conserved) (hs : s.Accounted cfg) {t : ℕ}
    (ht : t < s.kernel.admitted.length) {state : ProcessState} (hstate : s.stateOf t = some state)
    (hactive : state.active) : t ∈ permitHolders s.kernel.history := by
  have hpos := (hconserved.stateOf_iff ht).1 hstate
  have hmemory := tally_active_le t s hactive
  refine hs.mem_holders_of_inMemory hconserved (Nat.lt_of_lt_of_le hpos hmemory) ?_
  -- a process whose exit has been asked for is in `exit`
  by_contra hne
  have hrequested := Kernel.tally_requested_le t s.kernel
  have hexit : s.stateOf t = some .exit := by
    refine (hconserved.stateOf_iff ht).2 ?_
    simp only [inState, Kernel.inState, tally_append]
    omega
  cases Option.some.inj (hstate.symm.trans hexit)
  cases hactive

/-- Among the first `n` numbers as many pass a test as a list of them has items, at most. -/
theorem countP_range_le {n : ℕ} {test : ℕ → Bool} {l : List ℕ}
    (h : ∀ t < n, test t = true → t ∈ l) : (List.range n).countP test ≤ l.length := by
  rw [List.countP_eq_length_filter]
  refine List.Nodup.length_le_of_subset (List.Nodup.filter _ List.nodup_range) fun t ht => ?_
  obtain ⟨hmem, htest⟩ := List.mem_filter.1 ht
  exact h t (List.mem_range.1 hmem) htest

/-- The states of a reachable state are ones the scheduler allows. -/
theorem fits_of_reachable (hanswers : AnswersExitsOnce behaviour)
    (hs : (contract cfg behaviour).Reachable s) :
    (scheduler cfg.multiprogrammingLevel).fits s.states = true := by
  have hconserved := conserved_of_reachable hs
  have haccounted := accounted_of_reachable hanswers hs
  have hfound := fun t => hconserved.exists_stateOf (t := t)
  refine Bool.and_eq_true_iff.2 ⟨decide_eq_true ?_, decide_eq_true ?_⟩
  · calc s.states.count .exec
        ≤ ((s.inState .exec).map Job.serial).length := by
          rw [states, List.count_eq_countP, List.countP_map]
          refine countP_range_le fun t ht hexec => ?_
          obtain ⟨state, hstate⟩ := hfound t ht
          obtain rfl : state = .exec := by simpa [hstate] using hexec
          have := (hconserved.stateOf_iff ht).1 hstate
          rwa [tally_eq_count, List.count_pos_iff] at this
      _ ≤ 1 := by
          rw [List.length_map]
          exact (oneToken_of_reachable hs).exec_le_one
  · calc s.states.countP ProcessState.active
        ≤ (permitHolders s.kernel.history).length := by
          rw [states, List.countP_map]
          refine countP_range_le fun t ht hactive => ?_
          obtain ⟨state, hstate⟩ := hfound t ht
          refine haccounted.mem_holders_of_active hconserved ht hstate ?_
          simpa [hstate] using hactive
      _ ≤ cfg.multiprogrammingLevel := haccounted.length_holders_le

/-- The kernel, beside any CPU that answers each dispatch once, follows the scheduler. -/
theorem step_scheduler (hanswers : AnswersExitsOnce behaviour)
    (hs : (contract cfg behaviour).Reachable s) (h : s.step cfg behaviour action = some s') :
    s'.states = s.states ∨
      ∃ b, (scheduler cfg.multiprogrammingLevel).machine.step b s.states = some s'.states := by
  have hs' : (contract cfg behaviour).Reachable s' := hs.next h
  have hconserved := conserved_of_reachable hs
  have hconserved' := conserved_of_reachable hs'
  have hfits := fits_of_reachable hanswers hs'
  by_cases hadmitted : s'.kernel.admitted = s.kernel.admitted
  · rcases states_of_moves (step_moves h hconserved hadmitted) hconserved hconserved' hadmitted with
      heq | ⟨t, source, target, hsource, hedge, heq⟩
    · exact .inl heq
    · rw [heq] at hfits ⊢
      exact .inr ⟨.move t target, Diagram.step_move hsource hedge hfits⟩
  · rcases step_kernel h with ⟨kernelAction, rfl, hk⟩ | ⟨ports, events, hkernel, -⟩
    · rcases Kernel.step_receives hk with ⟨i, size, instructions, blank, rfl, -⟩ | ⟨-, hsame⟩
      · have hatCpu : s' = ⟨s'.kernel, s.atCpu⟩ := by
          simp only [step] at h
          split at h <;> cases h
          rfl
        have heq : s'.states = s.states ++ [.new] := by
          rw [hatCpu]
          exact states_of_receives hk hconserved (hatCpu ▸ hconserved')
        rw [heq] at hfits ⊢
        exact .inr ⟨.enter, Diagram.step_enter hfits⟩
      · exact absurd hsame hadmitted
    · exact absurd (by rw [hkernel]; rfl) hadmitted

end Contract

/-! ## The system -/

namespace System

variable {cfg : KernelConfig} {behaviour : MemoryBehaviour} {s s' : System}

/-- The states of the processes admitted. -/
def states (s : System) : List ProcessState :=
  s.toContract.states

theorem step_scheduler (hanswers : AnswersExitsOnce behaviour)
    (hs : (system cfg behaviour).ReachableBy InterruptsHeld s) {action : Action}
    (hguard : InterruptsHeld action s) (h : (system cfg behaviour).step action s = some s') :
    s'.states = s.states ∨
      ∃ b, (scheduler cfg.multiprogrammingLevel).machine.step b s.states = some s'.states := by
  obtain ⟨hsound, hcontract⟩ := toContract_reachable hs
  rcases (follows_contract.2 action s s' hguard hsound hcontract h).2 with heq | ⟨b, hb⟩
  · exact .inl (congrArg Contract.states heq)
  · exact Contract.step_scheduler hanswers hcontract hb

theorem follows_scheduler (hanswers : AnswersExitsOnce behaviour) :
    (system cfg behaviour).Follows InterruptsHeld (scheduler cfg.multiprogrammingLevel).machine
      states ((system cfg behaviour).ReachableBy InterruptsHeld) :=
  ⟨rfl, fun _ _ _ hguard hs _ h => ⟨.step hs hguard h, step_scheduler hanswers hs hguard h⟩⟩

/-- The first of two programs is at the CPU and the second waits to be admitted. -/
theorem follows_scheduler_small : ∃ s, (system (.small .fifo) inOrder).Reachable s ∧
    s.states = [.exec, .new] ∧ (scheduler 2).machine.Reachable [.exec, .new] := by
  obtain ⟨s, hs, htest⟩ := Machine.exists_reachable_of_run (system (.small .fifo) inOrder)
    (onKernel (admission 0 7 [] ++ initialization 1 ++ List.replicate 5 .toReady ++
      List.replicate 6 (.toExec 0)) ++ [.cpu .receivePcb] ++ onKernel ((admission 1 8 []).take 3))
    (fun s => s.states = [.exec, .new])
    (by decide +kernel)
  have hstates := of_decide_eq_true htest
  have hheld := reachableBy_interruptsHeld rfl hs
  have hfollows := (follows_scheduler inOrder_answersExitsOnce).reachable .initial hheld
  exact ⟨s, hs, hstates, hstates ▸ hfollows.2⟩

theorem interruptsHeld_of_fifo (hfifo : cfg.sortingAlgorithm = .fifo)
    (hs : (system cfg behaviour).Reachable s) (action : Action) : InterruptsHeld action s := by
  intro _ hat hnew
  have hflagged := (interruptions_eq_zero hfifo hs).2
  simp [Cpu.flagged, hat, hnew, Cycle.resetting] at hflagged

/-- No edge leaves `exit`. -/
theorem exit_final {state : ProcessState}
    (h : Relation.ReflTransGen (fun a b => ProcessState.edge a b = true) .exit state) :
    state = .exit := by
  induction h with
  | refl => rfl
  | @tail middle last _ hedge ih =>
      subst ih
      cases last <;> cases hedge

/-- Under FIFO, from one state of a run to a later one each process moves along the edges of the
diagram, and a process that has exited stays so. -/
theorem states_along_run (hfifo : cfg.sortingAlgorithm = .fifo)
    (hanswers : AnswersExitsOnce behaviour) (hs : (system cfg behaviour).Reachable s)
    {actions : List Action} (h : (system cfg behaviour).run actions s = some s') {t : ℕ}
    {state : ProcessState} (hstate : s.states[t]? = some state) :
    ∃ state', s'.states[t]? = some state' ∧
      Relation.ReflTransGen (fun a b => ProcessState.edge a b = true) state state' ∧
      (state = .exit → state' = .exit) := by
  have hsteps : ∀ action p p', (system cfg behaviour).Reachable p →
      (system cfg behaviour).step action p = some p' → states p' = states p ∨
        ∃ b, (scheduler cfg.multiprogrammingLevel).machine.step b (states p) =
          some (states p') := by
    intro action p p' hp hstep
    have hheld := reachableBy_interruptsHeld hfifo hp
    exact step_scheduler hanswers hheld (interruptsHeld_of_fifo hfifo hp action) hstep
  obtain ⟨state', hstate', hpath⟩ := Diagram.path_of_run hsteps hs h hstate
  exact ⟨state', hstate', hpath, fun hexit => exit_final (hexit ▸ hpath)⟩

/-- A process that waits to be admitted is at the CPU some steps later. -/
theorem states_along_run_small : ∃ s s' actions, (system (.small .fifo) inOrder).Reachable s ∧
    (system (.small .fifo) inOrder).run actions s = some s' ∧ s.states[0]? = some .new ∧
    ∃ state', s'.states[0]? = some state' ∧ state' = .exec ∧
      Relation.ReflTransGen (fun a b => ProcessState.edge a b = true) .new state' := by
  let actions := onKernel (initialization 1 ++ List.replicate 5 .toReady ++
    List.replicate 6 (.toExec 0)) ++ [.cpu .receivePcb]
  obtain ⟨s, hs, htest⟩ := Machine.exists_reachable_of_run (system (.small .fifo) inOrder)
    (onKernel (admission 0 7 []))
    (fun s => s.states[0]? = some .new ∧
      ((system (.small .fifo) inOrder).run actions s).any fun s' => s'.states[0]? = some .exec)
    (by decide +kernel)
  obtain ⟨hnew, hlater⟩ := of_decide_eq_true htest
  obtain ⟨s', hrun, hexec⟩ := (Option.any_eq_true _ _).1 hlater
  have hexec := of_decide_eq_true hexec
  obtain ⟨state', hstate', hpath, -⟩ := states_along_run rfl inOrder_answersExitsOnce hs hrun hnew
  exact ⟨s, s', actions, hs, hrun, hnew, state', hstate',
    Option.some.inj (hstate'.symm.trans hexec), hpath⟩

end System

end SistemasOperativos
