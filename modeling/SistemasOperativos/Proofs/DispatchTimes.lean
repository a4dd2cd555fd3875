import SistemasOperativos.Library.Logs
import SistemasOperativos.Proofs.Dispatch

/-!
# The time of a dispatch

`to_exec` sends the PCB to the CPU and records `toExecTime` in its next statement; the dispatch
listener reads `toExecTime` when the answer arrives.  Nothing makes the answer wait for the
statement, so the listener may read the time of an earlier dispatch, or none.  With a CPU that
answers each dispatch once this is the only way to a wrong time.
-/

namespace SistemasOperativos

/-! ## The iterations of `to_exec` -/

/-- The event is one of an iteration of `to_exec`. -/
def Event.ofIteration : Event → Bool
  | .dispatched _ | .stamped .. => true
  | _ => false

/-- What the iterations of `to_exec` have sent and recorded, in order. -/
def iterations (history : List Event) : List Event :=
  history.filter Event.ofIteration

@[simp] theorem iterations_append (history events : List Event) :
    iterations (history ++ events) = iterations history ++ iterations events :=
  List.filter_append ..

/-- The dispatches are those of the iterations. -/
theorem dispatches_iterations (history : List Event) :
    dispatches (iterations history) = dispatches history := by
  induction history with
  | nil => rfl
  | cons event history ih =>
      have happend := iterations_append [event] history
      rw [← List.singleton_append, happend, dispatches_append, dispatches_append, ih]
      cases event <;> rfl

/-- What is measured is measured from the time that the last iteration of `to_exec` has recorded,
and that iteration has dispatched the process. -/
def MeasuredOwn (before : List Event) : Event → Prop
  | .measured serial toExecTime =>
      ∃ earlier, iterations before = earlier ++ [.dispatched serial, .stamped serial toExecTime]
  | _ => True

/-- The PCB with which the dispatch listener is about to read `toExecTime`. -/
def DispatchListener.measuring : DispatchListener → Option Job
  | .interrupted job | .io job => some job
  | _ => none

namespace Kernel

variable {cfg : KernelConfig} {behaviour : MemoryBehaviour} {k k' : Kernel} {now : Word}
  {action : KernelAction}

/-- Every iteration of `to_exec` but the one between its two statements has recorded its time,
and `toExecTime` is the last. -/
structure IterationsRecorded (k : Kernel) : Prop where
  sent : ∀ serial, k.toExecThread = .stamp serial →
    ∃ earlier, iterations k.history = earlier ++ [.dispatched serial]
  recorded : (∀ serial, k.toExecThread ≠ .stamp serial) → iterations k.history = [] ∨
    ∃ earlier serial, iterations k.history =
      earlier ++ [.dispatched serial, .stamped serial k.toExecTime]

/-- The other threads send and record nothing. -/
theorem Records.iterations_eq {thread : Thread} (h : Records thread k k')
    (hne : thread ≠ .toExec) : iterations k'.history = iterations k.history := by
  obtain ⟨events, hhistory, hevents⟩ := h
  have hnone : iterations events = [] := by
    refine List.filter_eq_nil_iff.mpr fun event hmem hof => hne ?_
    rw [← hevents event hmem]
    cases event <;> first | rfl | cases hof
  rw [hhistory, iterations_append, hnone, List.append_nil]

theorem IterationsRecorded.congr (hk : k.IterationsRecorded)
    (hhistory : iterations k'.history = iterations k.history)
    (hthread : k'.toExecThread = k.toExecThread) (htime : k'.toExecTime = k.toExecTime) :
    k'.IterationsRecorded := by
  constructor
  · rw [hthread, hhistory]
    exact hk.sent
  · rw [hthread, hhistory, htime]
    exact hk.recorded

theorem toExec_iterationsRecorded (h : k.toExec now = some k') (hk : k.IterationsRecorded) :
    k'.IterationsRecorded := by
  unfold toExec at h
  cases hat : k.toExecThread with
  | send job =>
      simp only [hat, Option.some.injEq] at h
      subst h
      constructor
      · intro serial heq
        obtain rfl : job.serial = serial := by simpa using heq
        exact ⟨iterations k.history, iterations_append ..⟩
      · intro hne
        exact absurd rfl (hne job.serial)
  | stamp serial =>
      obtain ⟨earlier, hsent⟩ := hk.sent serial hat
      simp only [hat, Option.some.injEq] at h
      subst h
      refine ⟨nofun, fun _ => Or.inr ⟨earlier, serial, ?_⟩⟩
      calc iterations (k.history ++ [.stamped serial now])
          = iterations k.history ++ [.stamped serial now] := iterations_append ..
        _ = earlier ++ [.dispatched serial, .stamped serial now] := by
            rw [hsent, List.append_assoc, List.singleton_append]
  | _ =>
      have hrecorded := hk.recorded (by simp [hat])
      simp only [hat] at h
      repeat' split at h
      all_goals cases h
      all_goals exact ⟨nofun, fun _ => hrecorded⟩

theorem step_iterationsRecorded (h : k.step cfg behaviour action = some k')
    (hk : k.IterationsRecorded) : k'.IterationsRecorded := by
  have hwrites := step_writes h
  unfold step at h
  split at h
  · cases h
  cases action with
  | toExec now => exact toExec_iterationsRecorded h hk
  | _ =>
      have hiterations := hwrites.records.iterations_eq (by simp)
      rw [hwrites.fields] at hiterations ⊢
      exact hk.congr hiterations rfl rfl

/-! ## The PCB that is out -/

/-- The PCBs on the dispatch socket and with the dispatch listener. -/
def out (k : Kernel) : List Job :=
  k.toCpu ++ k.fromCpu.map Prod.snd ++ k.dispatchThread.hands

theorem DispatchListener.hands_eq_nil {state : DispatchListener} (h : state.token = 0) :
    state.hands = [] := by
  cases state <;> first | rfl | cases h

theorem toExec_out (h : k.toExec now = some k') :
    (k'.out = k.out ∧ dispatches k'.history = dispatches k.history) ∨
    ∃ job : Job, k.toExecThread.token = 1 ∧ k'.out ⊆ job :: k.out ∧
      dispatches k'.history = dispatches k.history ++ [job.serial] := by
  unfold toExec at h
  cases hat : k.toExecThread with
  | send job =>
      simp only [hat, Option.some.injEq] at h
      subst h
      refine Or.inr ⟨job, rfl, ?_, dispatches_append ..⟩
      intro other hother
      simp only [out, List.mem_append, List.mem_cons] at hother ⊢
      tauto
  | _ =>
      simp only [hat] at h
      repeat' split at h
      all_goals cases h
      all_goals exact Or.inl ⟨rfl, by simp [dispatches, Event.dispatches]⟩

/-- The dispatch listener has the PCB it received until it puts it into a queue. -/
theorem dispatchListener_out (h : k.dispatchListener cfg now = some k') :
    k'.out.map Job.serial ⊆ k.out.map Job.serial := by
  have hparts : (k'.fromCpu.map Prod.snd ++ k'.dispatchThread.hands).map Job.serial ⊆
      (k.fromCpu.map Prod.snd ++ k.dispatchThread.hands).map Job.serial ∧ k'.toCpu = k.toCpu := by
    unfold dispatchListener at h
    repeat' split at h
    all_goals cases h
    all_goals simp_all [DispatchListener.hands]
  obtain ⟨hparts, htoCpu⟩ := hparts
  intro serial hserial
  rw [out, htoCpu, List.append_assoc, List.map_append, List.mem_append] at hserial
  rw [out, List.append_assoc, List.map_append, List.mem_append]
  exact hserial.imp_right fun hmem => hparts hmem

/-- A step sends one PCB while `to_exec` has the token, or sends none. -/
theorem step_out (h : k.step cfg behaviour action = some k') :
    (k'.out.map Job.serial ⊆ k.out.map Job.serial ∧
      dispatches k'.history = dispatches k.history) ∨
    ∃ job : Job, k.toExecThread.token = 1 ∧ k'.out ⊆ job :: k.out ∧
      dispatches k'.history = dispatches k.history ++ [job.serial] := by
  have hwrites := step_writes h
  by_cases hexec : ∃ now, action = .toExec now
  · obtain ⟨now, rfl⟩ := hexec
    unfold step at h
    split at h
    · cases h
    rcases toExec_out h with ⟨hout, hdispatches⟩ | hsent
    · exact Or.inl ⟨hout ▸ List.Subset.refl _, hdispatches⟩
    · exact Or.inr hsent
  · have hother := fun now heq => hexec ⟨now, heq⟩
    obtain ⟨events, hevents, hadds⟩ := step_adds h
    refine Or.inl ⟨?_, by rw [hevents, dispatches_append, dispatches_of_adds hadds hother,
      List.append_nil]⟩
    unfold step at h
    split at h
    · cases h
    cases action with
    | toExec now => exact absurd rfl (hother now)
    | dispatchListener now => exact dispatchListener_out h
    | _ => rw [hwrites.fields]; exact List.Subset.refl _

end Kernel

namespace Contract

variable {cfg : KernelConfig} {behaviour : MemoryBehaviour} {s s' : Contract}
  {action : ContractAction}

/-- What is on the dispatch socket, at the CPU or with the dispatch listener is the PCB sent
last. -/
def LastOut (s : Contract) : Prop :=
  ∀ serial ∈ (s.kernel.out ++ s.atCpu).map Job.serial,
    (dispatches s.kernel.history).getLast? = some serial

/-- While `to_exec` has the token no PCB is out. -/
theorem OneToken.nothing_out (hs : s.OneToken) (htoken : s.kernel.toExecThread.token = 1) :
    s.kernel.out = [] ∧ s.atCpu = [] := by
  simp only [OneToken, Kernel.tokens] at hs
  have hhands := Kernel.DispatchListener.hands_eq_nil
    (show s.kernel.dispatchThread.token = 0 by omega)
  have htoCpu : s.kernel.toCpu = [] := List.eq_nil_of_length_eq_zero (by omega)
  have hfromCpu : s.kernel.fromCpu = [] := List.eq_nil_of_length_eq_zero (by omega)
  have hatCpu : s.atCpu = [] := List.eq_nil_of_length_eq_zero (by omega)
  exact ⟨by simp [Kernel.out, hhands, htoCpu, hfromCpu], hatCpu⟩

theorem step_lastOut (h : s.step cfg behaviour action = some s') (hone : s.OneToken)
    (hs : s.LastOut) : s'.LastOut := by
  refine step_elim h ?kernel ?receive ?change ?answer ?note
  case kernel =>
    intro action k' hk serial hserial
    rcases Kernel.step_out hk with ⟨hsub, hdispatches⟩ | ⟨job, htoken, hsub, hdispatches⟩
    · rw [hdispatches]
      refine hs serial ?_
      rw [List.map_append, List.mem_append] at hserial ⊢
      exact hserial.imp_left fun hmem => hsub hmem
    · -- the PCB sent is the only one
      obtain ⟨hout, hatCpu⟩ := hone.nothing_out htoken
      rw [hdispatches, List.getLast?_concat]
      simp only [hatCpu, List.append_nil, List.mem_map] at hserial
      obtain ⟨other, hother, rfl⟩ := hserial
      rw [hout] at hsub
      rw [List.mem_singleton.mp (hsub hother)]
  case receive =>
    intro job rest hto serial hserial
    refine hs serial ?_
    simp only [Kernel.out, hto, List.map_append, List.mem_append, List.map_cons,
      List.mem_cons, List.map_nil, List.not_mem_nil] at hserial ⊢
    tauto
  case change =>
    intro i pcb events job hget hevents serial hserial
    have hdispatches := (dispatches_of_ofCpu hevents).1
    rw [dispatches_append, hdispatches, List.append_nil]
    refine hs serial ?_
    rw [List.map_append, List.mem_append] at hserial ⊢
    refine hserial.imp_right fun hmem => ?_
    obtain ⟨other, hother, rfl⟩ := List.mem_map.mp hmem
    rcases List.mem_or_eq_of_mem_set hother with hother | rfl
    · exact List.mem_map_of_mem hother
    · exact List.mem_map.mpr ⟨job, List.mem_of_getElem? hget, rfl⟩
  case answer =>
    intro i header job hget serial hserial
    have hnone : dispatches [Event.answered header job.serial] = [] := rfl
    rw [dispatches_append, hnone, List.append_nil]
    refine hs serial ?_
    have hjob : job ∈ s.atCpu := List.mem_of_getElem? hget
    simp only [Kernel.out, List.map_append, List.mem_append, List.map_cons, List.map_nil,
      List.mem_singleton] at hserial ⊢
    rcases hserial with ((hto | hfrom | rfl) | hhands) | hatCpu
    · exact Or.inl (Or.inl (Or.inl hto))
    · exact Or.inl (Or.inl (Or.inr hfrom))
    · exact Or.inr (List.mem_map_of_mem hjob)
    · exact Or.inl (Or.inr hhands)
    · exact Or.inr (List.map_subset _ List.eraseIdx_subset hatCpu)
  case note => exact fun n hn => hs

theorem lastOut_of_reachable (hs : (contract cfg behaviour).Reachable s) : s.LastOut := by
  refine hs.invariant_of (fun _ => oneToken_of_reachable) ?initial ?step
  case initial => exact nofun
  case step => exact fun _ _ _ _ hone hs h => step_lastOut h hone hs

end Contract

/-! ## The measurements -/

/-- Events of the other threads measure nothing. -/
theorem Kernel.Records.eachAfter_iff {thread : Thread} {k k' : Kernel} (h : Records thread k k')
    (hne : thread ≠ .dispatchListener) :
    EachAfter MeasuredOwn k'.history ↔ EachAfter MeasuredOwn k.history := by
  obtain ⟨events, hhistory, hevents⟩ := h
  rw [hhistory, EachAfter.append_iff, and_iff_left]
  intro before event after heq
  have hthread : event.thread ≠ .dispatchListener := by
    rw [hevents event (by simp [heq])]
    exact hne
  cases event with
  | measured serial time => exact absurd rfl hthread
  | _ => trivial

/-- A step of the dispatch listener measures for the PCB in its hands, or measures nothing. -/
theorem Kernel.dispatchListener_measures {cfg : KernelConfig} {k k' : Kernel} {now : Word}
    (h : k.dispatchListener cfg now = some k') :
    EachAfter MeasuredOwn k'.history ↔ EachAfter MeasuredOwn k.history ∧
      ∀ job, k.dispatchThread.measuring = some job →
        MeasuredOwn k.history (.measured job.serial k.toExecTime) := by
  unfold dispatchListener at h
  cases hat : k.dispatchThread with
  | interrupted job | io job =>
      simp only [hat, Option.some.injEq] at h
      subst h
      simp [EachAfter.concat_iff, DispatchListener.measuring]
  | _ =>
      simp only [hat] at h
      repeat' split at h
      all_goals cases h
      all_goals simp [EachAfter.concat_iff, DispatchListener.measuring, MeasuredOwn]

namespace System

variable {cfg : KernelConfig} {behaviour : MemoryBehaviour} {s s' : System} {action : Action}

/-- The process for which the dispatch listener reads `toExecTime` while `to_exec` is between the
send of a PCB and the statement that records the time. -/
def earlyMeasures : Action → System → List ℕ
  | .kernel (.dispatchListener _), s =>
      match s.kernel.dispatchThread.measuring, s.kernel.toExecThread with
      | some job, .stamp _ => [job.serial]
      | _, _ => []
  | _, _ => []

/-- The measurement of the PCB sent last is right once its time has been recorded. -/
theorem measuredOwn_of_lastOut {job : Job} (hout : s.toContract.LastOut)
    (hiterations : s.kernel.IterationsRecorded)
    (hat : s.kernel.dispatchThread.measuring = some job) :
    MeasuredOwn s.kernel.history (.measured job.serial s.kernel.toExecTime) ↔
      ∀ serial, s.kernel.toExecThread ≠ .stamp serial := by
  constructor
  · rintro ⟨earlier, hown⟩ serial hthread
    obtain ⟨sent, hsent⟩ := hiterations.sent serial hthread
    have hlast := congrArg List.getLast? (hown.symm.trans hsent)
    simp at hlast
  · intro hthread
    have hjob : job ∈ s.kernel.dispatchThread.hands := by
      cases hd : s.kernel.dispatchThread <;>
        simp_all [DispatchListener.measuring, DispatchListener.hands]
    have hlast : (dispatches s.kernel.history).getLast? = some job.serial := by
      refine hout job.serial (List.mem_map_of_mem (List.mem_append_left _ ?_))
      exact List.mem_append_right _ hjob
    rcases hiterations.recorded hthread with hnone | ⟨earlier, serial, hrecorded⟩
    · rw [← dispatches_iterations, hnone] at hlast
      cases hlast
    · have hpair : dispatches [.dispatched serial, .stamped serial s.kernel.toExecTime] =
          [serial] := rfl
      rw [← dispatches_iterations, hrecorded, dispatches_append, hpair, List.getLast?_concat,
        Option.some.injEq] at hlast
      exact ⟨earlier, hlast ▸ hrecorded⟩

/-- A step measures right if it does not measure early. -/
theorem step_measuredOwn_iff (h : s.step cfg behaviour action = some s')
    (hout : s.toContract.LastOut) (hiterations : s.kernel.IterationsRecorded) :
    EachAfter MeasuredOwn s'.kernel.history ↔
      EachAfter MeasuredOwn s.kernel.history ∧ earlyMeasures action s = [] := by
  rcases step_cases h with ⟨action, k, rfl, hstep, rfl⟩ | ⟨action, c, ports, rfl, hstep, rfl⟩
  · have hwrites := Kernel.step_writes hstep
    cases action with
    | dispatchListener now =>
        unfold Kernel.step at hstep
        split at hstep
        · cases hstep
        rw [Kernel.dispatchListener_measures hstep]
        refine and_congr_right fun _ => ?_
        cases hat : s.kernel.dispatchThread.measuring with
        | none => simp [earlyMeasures, hat]
        | some job =>
            simp only [Option.some.injEq, forall_eq', measuredOwn_of_lastOut hout hiterations hat]
            cases hthread : s.kernel.toExecThread <;> simp [earlyMeasures, hat, hthread]
    | _ => rw [hwrites.records.eachAfter_iff (by simp), earlyMeasures, and_iff_left rfl]; simp
  · obtain ⟨events, hhistory, hcpu⟩ := Cpu.step_history hstep
    rw [earlyMeasures, and_iff_left rfl]
    · exact (Kernel.records_withPorts hhistory hcpu).eachAfter_iff (by simp)
    · simp

/-- The system, with the processes measured early so far. -/
abbrev timed (cfg : KernelConfig) (behaviour : MemoryBehaviour) :
    Machine (System × List ℕ) Action :=
  (system cfg behaviour).observe earlyMeasures

/-- In every run in which the CPU answers each dispatch once, what is measured is measured from
the time of the process' own dispatch if and only if nothing is measured between the send of a PCB
and the record of its time. -/
theorem measuredOwn_iff {p : System × List ℕ}
    (hp : (timed cfg behaviour).ReachableBy (fun action p => InterruptsHeld action p.1) p) :
    EachAfter MeasuredOwn p.1.kernel.history ↔ p.2 = [] := by
  have hout : ∀ p, (timed cfg behaviour).ReachableBy (fun action p => InterruptsHeld action p.1) p →
      p.1.toContract.LastOut := by
    intro p hp
    have hs : (system cfg behaviour).ReachableBy InterruptsHeld p.1 :=
      Machine.ReachableBy.unobserved hp
    exact Contract.lastOut_of_reachable (toContract_reachable hs).2
  have hboth : p.1.kernel.IterationsRecorded ∧
      (EachAfter MeasuredOwn p.1.kernel.history ↔ p.2 = []) := by
    refine hp.invariant_of hout ?_ fun action p p' _ hout hp h => ?_
    · exact ⟨⟨nofun, fun _ => Or.inl rfl⟩, iff_of_true EachAfter.nil rfl⟩
    · obtain ⟨hstep, hlog⟩ := Machine.observe_step.mp h
      obtain ⟨hiterations, hiff⟩ := hp
      refine ⟨?_, ?_⟩
      · rcases step_kernel hstep with ⟨_, -, hkernel⟩ | ⟨ports, events, heq, hhistory, hcpu⟩
        · exact Kernel.step_iterationsRecorded hkernel hiterations
        · have hsame := (Kernel.records_withPorts hhistory hcpu).iterations_eq (by simp)
          rw [heq]
          exact hiterations.congr hsame rfl rfl
      · rw [step_measuredOwn_iff hstep hout hiterations, hiff, hlog, List.append_eq_nil_iff]
  exact hboth.2

/-! ## A measurement that comes early -/

/-- A process with two I/O operations is dispatched at 100 and comes back from the first. -/
def firstIo : List Action :=
  onKernel (admission 0 7 [⟨ascii ['I', '/', 'O'], [5]⟩, ⟨ascii ['I', '/', 'O'], [5]⟩] ++
    initialization 1 ++ List.replicate 5 .toReady ++ List.replicate 8 (.toExec 100)) ++
  List.replicate 3 (.cpu .receivePcb) ++ onCycle 9 ++
  onKernel (List.replicate 6 (.dispatchListener 130) ++ List.replicate 10 (.ioListener 130))

/-- The first measurement is right. -/
theorem measuredOwn_small : ∃ p, (timed (.small .fifo) inOrder).ReachableBy
    (fun action p => InterruptsHeld action p.1) p ∧
    .measured 0 100 ∈ p.1.kernel.history ∧ EachAfter MeasuredOwn p.1.kernel.history := by
  obtain ⟨p, hp, htest⟩ := (timed (.small .fifo) inOrder).exists_reachableBy_of_run
    (fun action p => InterruptsHeld action p.1) firstIo
    (fun p => .measured 0 100 ∈ p.1.kernel.history ∧ p.2 = []) (by decide +kernel)
  obtain ⟨hmeasured, hnone⟩ := of_decide_eq_true htest
  exact ⟨p, hp, hmeasured, (measuredOwn_iff hp).mpr hnone⟩

/-- The process is dispatched again at 200, and its answer is measured before `to_exec` has
recorded that: with the time of the dispatch before. -/
theorem not_measuredOwn : ∃ p, (timed (.small .fifo) inOrder).ReachableBy
    (fun action p => InterruptsHeld action p.1) p ∧
    p.1.kernel.toExecThread = .stamp 0 ∧ ¬ EachAfter MeasuredOwn p.1.kernel.history := by
  obtain ⟨p, hp, htest⟩ := (timed (.small .fifo) inOrder).exists_reachableBy_of_run
    (fun action p => InterruptsHeld action p.1)
    (firstIo ++ onKernel (List.replicate 6 (.toExec 200)) ++
      List.replicate 3 (.cpu .receivePcb) ++ onCycle 6 ++
      onKernel (List.replicate 2 (.dispatchListener 230)))
    (fun p => p.1.kernel.toExecThread = .stamp 0 ∧
      iterations p.1.kernel.history = [.dispatched 0, .stamped 0 100, .dispatched 0] ∧
      p.1.kernel.history.getLast? = some (.measured 0 100))
    (by decide +kernel)
  obtain ⟨hthread, hiterations, hlast⟩ := of_decide_eq_true htest
  refine ⟨p, hp, hthread, fun hown => ?_⟩
  obtain ⟨before, hbefore⟩ := List.getLast?_eq_some_iff.mp hlast
  obtain ⟨earlier, hearlier⟩ := hown before (.measured 0 100) [] hbefore
  have hsame : iterations before = [.dispatched 0, .stamped 0 100, .dispatched 0] := by
    have hnone : iterations [.measured 0 100] = [] := rfl
    rw [← hiterations, hbefore, iterations_append, hnone, List.append_nil]
  have hends := congrArg List.getLast? (hsame.symm.trans hearlier)
  simp at hends

end System
end SistemasOperativos
