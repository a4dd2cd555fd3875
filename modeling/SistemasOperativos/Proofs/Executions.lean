import SistemasOperativos.Proofs.Deliveries
import SistemasOperativos.Proofs.Programs
import SistemasOperativos.Proofs.Submitted

/-!
# What is executed is what the consoles' files say

From the file of a console to the instructions that the CPU executes: parsed by the console, sent
over its connection, admitted, carried in its PCB through the queues and over the dispatch socket,
and executed over all its dispatches.
-/

namespace SistemasOperativos

namespace Terminals

variable {cfg : KernelConfig} {behaviour : MemoryBehaviour} {s s' : Terminals}
  {action : TerminalAction}

/-- The process has come from a console with this program and this size. -/
def Submits (s : Terminals) (t : ℕ) (size : Word) (instructions : List Instruction) : Prop :=
  ∃ i terminal, s.origins[t]? = some i ∧ s.links[i]? = some terminal ∧
    (terminal.Fits → size = terminal.process.size ∧ instructions = getCode terminal.file)

/-- The connections are those of before, and there may be more. -/
structure Extends (s s' : Terminals) : Prop where
  origins : s.origins <+: s'.origins
  links : ∀ (i : ℕ) (terminal : Terminal), s.links[i]? = some terminal →
    ∃ terminal', s'.links[i]? = some terminal' ∧ terminal'.host = terminal.host ∧
      terminal'.argv = terminal.argv

theorem Extends.submits (h : Extends s s') {t : ℕ} {size : Word} {instructions : List Instruction}
    (hs : s.Submits t size instructions) : s'.Submits t size instructions := by
  obtain ⟨i, terminal, ht, hi, hfits⟩ := hs
  obtain ⟨terminal', hi', hhost, hargv⟩ := h.links i terminal hi
  have hfile : terminal'.file = terminal.file := by rw [Terminal.file, Terminal.file, hhost, hargv]
  obtain ⟨more, hmore⟩ := h.origins
  have ht' : s'.origins[t]? = some i := by
    rw [← hmore, List.getElem?_append_left (List.getElem?_eq_some_iff.1 ht).1, ht]
  refine ⟨i, terminal', ht', hi', fun hterminal => ?_⟩
  have hold : terminal.Fits := by rwa [Terminal.Fits, ← hfile]
  rw [Terminal.process, hfile, hargv]
  exact hfits hold

theorem extends_set {old new : Terminal} {i : ℕ} (hat : s.links[i]? = some old)
    (hlinks : s'.links = s.links.set i new) (hhost : new.host = old.host)
    (hargv : new.argv = old.argv) (horigins : s.origins <+: s'.origins) : Extends s s' := by
  refine ⟨horigins, fun j terminal hj => ?_⟩
  rw [hlinks]
  by_cases heq : j = i
  · subst heq
    obtain rfl : old = terminal := Option.some.inj (hat.symm.trans hj)
    exact ⟨new, List.getElem?_set_self (List.getElem?_eq_some_iff.1 hat).1, hhost, hargv⟩
  · exact ⟨terminal, (List.getElem?_set_ne (Ne.symm heq)).trans hj, rfl, rfl⟩

/-- Every PCB has the program and the size of a console. -/
theorem step_submits (h : s.step cfg behaviour action = some s') (hdelivered : s.Delivered)
    (hs : s.system.Submitted s.Submits) : s'.system.Submitted s'.Submits := by
  -- only `receive_process` makes a new PCB
  have hother : ∀ {systemAction : Action}, Extends s s' →
      s.system.step cfg behaviour systemAction = some s'.system →
      (∀ i size instructions blank,
        systemAction ≠ .kernel (.consoleReceive i size instructions blank)) →
      s'.system.Submitted s'.Submits := by
    intro systemAction hextends hsystem hreceive
    refine System.step_submitted hsystem (fun i size instructions blank heq => ?_)
      (hs.imp fun _ _ _ => hextends.submits)
    exact absurd heq (hreceive i size instructions blank)
  cases action with
  | connect host argv socket =>
      simp only [step, connect] at h
      split at h
      · cases h
      obtain ⟨system, hsystem, heq⟩ := Option.bind_eq_some_iff.1 h
      cases heq
      refine hother ⟨List.prefix_rfl, fun i terminal hi => ⟨terminal, ?_, rfl, rfl⟩⟩ hsystem
        fun _ _ _ _ heq => by cases heq
      rw [List.getElem?_append_left (List.getElem?_eq_some_iff.1 hi).1, hi]
  | send i n =>
      simp only [step, send] at h
      split at h
      · cases h
      rename_i terminal hat
      obtain ⟨-, h⟩ := Option.ite_none_left_eq_some.1 h
      cases h
      refine hs.imp fun _ _ _ => Extends.submits ?_
      exact extends_set hat rfl rfl rfl List.prefix_rfl
  | close i =>
      simp only [step, close] at h
      split at h
      · cases h
      rename_i terminal hat
      obtain ⟨-, h⟩ := Option.ite_none_left_eq_some.1 h
      cases h
      refine hs.imp fun _ _ _ => Extends.submits ?_
      exact extends_set hat rfl rfl rfl List.prefix_rfl
  | receive i garbage arrivals blank =>
      obtain ⟨terminal, reader, hat, hadmitted | hnone⟩ := hdelivered.received h
      · obtain ⟨process, system, hsystem, hfits, rfl⟩ := hadmitted
        have hextends : Extends s { s with
            system := system, links := s.links.set i (terminal.called reader)
            origins := s.origins ++ [i] } :=
          extends_set hat rfl rfl rfl (List.prefix_append _ _)
        refine System.step_submitted hsystem (fun j size instructions blank heq => ?_)
          (hs.imp fun _ _ _ => hextends.submits)
        cases heq
        refine ⟨i, terminal.called reader, ?_, ?_, fun hterminal => ?_⟩
        · rw [← hdelivered.origins]
          exact List.getElem?_concat_length
        · exact List.getElem?_set_self (List.getElem?_eq_some_iff.1 hat).1
        · obtain ⟨rfl, -⟩ := hfits hterminal
          exact ⟨rfl, rfl⟩
      · obtain ⟨strayed, -, rfl⟩ := hnone
        refine hs.imp fun _ _ _ => Extends.submits ?_
        exact extends_set hat rfl rfl rfl List.prefix_rfl
  | system systemAction =>
      obtain ⟨hnot, h⟩ := Option.ite_none_left_eq_some.1 h
      obtain ⟨system, hsystem, rfl⟩ := Option.map_eq_some_iff.1 h
      refine hother ⟨List.prefix_rfl, fun i terminal hi => ⟨terminal, hi, rfl, rfl⟩⟩ hsystem ?_
      rintro i size instructions blank rfl
      exact hnot rfl

theorem submits_of_reachable (hs : (terminals cfg behaviour).Reachable s) :
    s.system.Submitted s.Submits :=
  hs.invariant_of (fun _ => delivered_of_reachable) (System.initial_submitted cfg behaviour)
    fun _ _ _ _ hdelivered hs h => step_submits h hdelivered hs

/-- Under FIFO, in every run of consoles whose files are short enough for 32-bit lengths, every
process has come from a console: what the CPU executes for it is a prefix of the program in the
console's file, when EXIT_CALL is sent the program through its first EXIT, and its PCB, wherever it
is, has that program and the size that the console was given. -/
theorem files_executed (hfifo : cfg.sortingAlgorithm = .fifo)
    (hs : (terminals cfg behaviour).Reachable s) (hfits : ∀ terminal ∈ s.links, terminal.Fits)
    {t : ℕ} (ht : t < s.system.kernel.admitted.length) :
    ∃ i terminal, s.origins[t]? = some i ∧ s.links[i]? = some terminal ∧
      executedBy t s.system.kernel.history <+: getCode terminal.file ∧
      (.answered .exitCall t ∈ s.system.kernel.history → ∃ before exit after,
        getCode terminal.file = before ++ exit :: after ∧
        executedBy t s.system.kernel.history = before ++ [exit] ∧
        exit.isExit = true ∧ ∀ instruction ∈ before, instruction.isExit = false) ∧
      s.system.EveryPcb fun job => job.serial = t →
        job.pcb.instructions = getCode terminal.file ∧ job.pcb.size = terminal.process.size := by
  obtain ⟨horigins, hknown, hserves, -⟩ := delivered_of_reachable hs
  have hguarded := System.reachableBy_interruptsHeld hfifo (system_reachable hs)
  have hconserved := Contract.conserved_of_reachable (System.toContract_reachable hguarded).2
  obtain ⟨hk, hc⟩ := System.inOrder_of_reachable hguarded
  have horigin := List.getElem?_eq_getElem (l := s.origins) (i := t) (by omega)
  have hlink := List.getElem?_eq_getElem (hknown _ (List.mem_of_getElem? horigin))
  have hterminal := hfits _ (List.mem_of_getElem? hlink)
  have hprogram := (hserves _ _ hlink hterminal).programs t horigin
  refine ⟨_, _, horigin, hlink, ?executed, fun hanswered => ?exited, ?pcbs⟩
  case executed => exact (System.runsInOrder_of_inOrder hconserved hk hc hprogram).1
  case exited =>
    obtain ⟨before, exit, after, hadmitted, hexecuted, hexit, hno⟩ := hk.answered t hanswered
    exact ⟨before, exit, after, Option.some.inj (hprogram.symm.trans hadmitted), hexecuted, hexit,
      hno⟩
  case pcbs =>
    have hpcbs := (submits_of_reachable hs).pcbs
    refine ⟨hpcbs.kernel.imp ?same, hpcbs.cpu.imp ?same⟩
    all_goals
      rintro job ⟨i, terminal, hi, hat, hof⟩ rfl
      rw [horigin, Option.some.injEq] at hi
      subst hi
      rw [hlink, Option.some.injEq] at hat
      subst hat
      exact (hof hterminal).symm

/-- A console sends its program, and the CPU executes it. -/
def oneConsole : List TerminalAction :=
  let bytes := (consoleMain exitHost exitArgv).bytes
  let execution : List Action :=
    onKernel (List.replicate 5 (.console 0) ++ initialization 1 ++ List.replicate 5 .toReady ++
      List.replicate 8 (.toExec 0)) ++ List.replicate 3 (.cpu .receivePcb) ++ onCycle 9
  [.connect exitHost exitArgv 7, .send 0 99, .receive 0 9 (byteByByte bytes) default] ++
    execution.map .system

/-- The EXIT in its file is executed, and EXIT_CALL is sent. -/
theorem files_executed_small : ∃ s, (terminals (.small .fifo) inOrder).Reachable s ∧
    .answered .exitCall 0 ∈ s.system.kernel.history ∧
    ∃ (i : ℕ) (terminal : Terminal), s.links[i]? = some terminal ∧
      executedBy 0 s.system.kernel.history <+: getCode terminal.file ∧
      ∃ before exit, executedBy 0 s.system.kernel.history = before ++ [exit] ∧
        exit.isExit = true := by
  obtain ⟨s, hs, htest⟩ := Machine.exists_reachable_of_run (terminals (.small .fifo) inOrder)
    oneConsole (fun s : Terminals => s.system.kernel.admitted.length = 1 ∧
      .answered .exitCall 0 ∈ s.system.kernel.history ∧
      ∀ terminal ∈ s.links, 8 + 13 * terminal.file.length < 2 ^ 32)
    (by decide +kernel)
  obtain ⟨hone, hanswered, hfits⟩ := of_decide_eq_true htest
  obtain ⟨i, terminal, -, hi, htaken, hexit, -⟩ :=
    files_executed rfl hs hfits (t := 0) (by rw [hone]; decide)
  obtain ⟨before, exit, after, -, hexecuted, hisExit, -⟩ := hexit hanswered
  exact ⟨s, hs, hanswered, i, terminal, hi, htaken, before, exit, hexecuted, hisExit⟩

end Terminals
end SistemasOperativos
