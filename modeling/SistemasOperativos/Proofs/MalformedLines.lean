import SistemasOperativos.Console.Parser
import SistemasOperativos.Proofs.Programs

/-!
# Malformed lines

No stage between `parse_instruction` and the executors rejects an instruction.  `get_op` decodes
an unknown operation as DEAD, for which the table `execute` has no entry, and an executor takes
its parameters from the list whether it has them or not.  Only the text keeps the CPU from both,
and only the lines the CPU comes to matter: those behind the first EXIT do no harm.
-/

namespace SistemasOperativos

/-! ## Lines -/

/-- The operations a line can name, with the number of parameters each reads. -/
def operations : List (CString × ℕ) :=
  [(ascii ['N', 'O', '_', 'O', 'P'], 1),
   (ascii ['I', '/', 'O'], 1),
   (ascii ['R', 'E', 'A', 'D'], 1),
   (ascii ['W', 'R', 'I', 'T', 'E'], 2),
   (ascii ['C', 'O', 'P', 'Y'], 2),
   (ascii ['E', 'X', 'I', 'T'], 0)]

/-- What is before the first blank of a line, without white space around it. -/
def operationName (line : List UInt8) : CString :=
  stringTrim ((lineString line).takeWhile (· ≠ 32))

/-- The blanks of a line.  Behind each is a parameter, though there may be no digit in it. -/
def blanks (line : List UInt8) : ℕ :=
  (lineString line).count 32

/-- The line names an operation, and has a blank for each parameter this reads. -/
def LineComplete (line : List UInt8) : Prop :=
  ∃ operation ∈ operations, operationName line = operation.1 ∧ operation.2 ≤ blanks line

instance (line : List UInt8) : Decidable (LineComplete line) :=
  inferInstanceAs (Decidable (∃ operation ∈ operations, _))

/-- The line names EXIT. -/
def ExitLine (line : List UInt8) : Prop :=
  operationName line = ascii ['E', 'X', 'I', 'T']

instance (line : List UInt8) : Decidable (ExitLine line) :=
  inferInstanceAs (Decidable (_ = _))

/-- The lines that the CPU comes to are complete: no line before them names EXIT, and their
number is below the size of the program, which the CPU reads as a word. -/
def FileComplete (file : List UInt8) : Prop :=
  ∀ i < (readLines file).length % 2 ^ 32,
    (∀ earlier ∈ (readLines file).take i, ¬ ExitLine earlier) →
      ∀ line ∈ (readLines file)[i]?, LineComplete line

instance (file : List UInt8) : Decidable (FileComplete file) :=
  inferInstanceAs (Decidable (∀ i < (readLines file).length % 2 ^ 32, _ → ∀ line ∈ _, _))

/-- Cutting at the blanks, the first part ends at the first blank and each blank begins another. -/
theorem exists_stringSplit_eq (text : CString) :
    ∃ params, stringSplit text = text.takeWhile (· ≠ 32) :: params ∧
      params.length = text.count 32 := by
  unfold stringSplit
  induction text with
  | nil => exact ⟨[], rfl, rfl⟩
  | cons c text ih =>
      obtain ⟨params, hsplit, hlength⟩ := ih
      by_cases hc : c = 32
      · subst hc
        refine ⟨text.splitOn 32, ?_, ?_⟩
        · simp [List.splitOn, List.splitOnP_cons_eq_if_modifyHead]
        · rw [hsplit, List.length_cons, hlength, List.count_cons_self]
      · have hcons : (c :: text).splitOn 32 = (text.splitOn 32).modifyHead (List.cons c) := by
          simp [List.splitOn, List.splitOnP_cons_eq_if_modifyHead, hc]
        refine ⟨params, ?_, ?_⟩
        · rw [hcons, hsplit, List.modifyHead_cons, List.takeWhile_cons_of_pos (by simp [hc])]
        · rw [hlength, List.count_cons_of_ne hc]

/-- What `parse_instruction` makes of a line. -/
theorem parseInstruction_shape (line : List UInt8) :
    (parseInstruction line).id = operationName line ∧
      (parseInstruction line).params.length = blanks line := by
  obtain ⟨params, hsplit, hlength⟩ := exists_stringSplit_eq (lineString line)
  unfold parseInstruction
  rw [hsplit]
  exact ⟨rfl, by rw [List.length_map, hlength, blanks]⟩

/-- `get_op` knows the operations of the list, and the executors read as many parameters. -/
theorem mem_operations_iff {id : CString} {n : ℕ} :
    (∃ operation ∈ operations, id = operation.1 ∧ operation.2 ≤ n) ↔
      getOp id ≠ .dead ∧ (getOp id).arity ≤ n := by
  constructor
  · rintro ⟨operation, hmem, rfl, hle⟩
    simp only [operations, List.mem_cons, List.not_mem_nil, or_false] at hmem
    rcases hmem with rfl | rfl | rfl | rfl | rfl | rfl
    all_goals exact ⟨by decide, hle⟩
  · rintro ⟨hknown, hle⟩
    unfold getOp at hknown hle
    split_ifs at hknown hle
    all_goals first
      | exact absurd rfl hknown
      | exact ⟨(id, _), by simp [operations, ‹id = _›], rfl, hle⟩

theorem lineComplete_iff {line : List UInt8} :
    LineComplete line ↔ (parseInstruction line).wellFormed = true := by
  obtain ⟨hid, hlength⟩ := parseInstruction_shape line
  rw [LineComplete, mem_operations_iff, Instruction.wellFormed, hid, hlength, decide_eq_true_iff]

theorem exitLine_iff {line : List UInt8} :
    ExitLine line ↔ (parseInstruction line).isExit = true := by
  rw [ExitLine, Instruction.isExit, (parseInstruction_shape line).1, decide_eq_true_iff]
  unfold getOp
  repeat' split
  all_goals simp_all [ascii]

/-! ## Programs -/

/-- The CPU comes to the instruction: it is within the size of the program, and behind no EXIT. -/
def Due (program : List Instruction) (instruction : Instruction) : Prop :=
  ∃ i < program.length % 2 ^ 32, NoExit (program.take i) ∧ program[i]? = some instruction

/-- The condition on the lines of a file is one on the instructions they are parsed into. -/
theorem fileComplete_iff {file : List UInt8} :
    FileComplete file ↔
      ∀ instruction, Due (getCode file) instruction → instruction.wellFormed = true := by
  have hexits : ∀ i, NoExit ((getCode file).take i) ↔
      ∀ earlier ∈ (readLines file).take i, ¬ ExitLine earlier := by
    intro i
    simp [NoExit, getCode, ← List.map_take, exitLine_iff]
  constructor
  · rintro hfile instruction ⟨i, hi, hno, hget⟩
    rw [getCode, List.getElem?_map, Option.map_eq_some_iff] at hget
    obtain ⟨line, hline, rfl⟩ := hget
    rw [getCode, List.length_map] at hi
    exact lineComplete_iff.mp (hfile i hi ((hexits i).mp hno) line hline)
  · intro hdue i hi hno line hline
    refine lineComplete_iff.mpr (hdue _ ⟨i, ?_, (hexits i).mpr hno, ?_⟩)
    · rwa [getCode, List.length_map]
    · rw [getCode, List.getElem?_map, Option.mem_def.mp hline, Option.map_some]

/-! ## The CPU -/

/-- The table `execute` has an entry for the operation, and its executor finds the parameters it
dereferences. -/
def Executable (op : Operation) (params : List Word) : Prop :=
  op ≠ .dead ∧ op.arity ≤ params.length

namespace Cpu

variable {c c' : Cpu} {k : Kernel} {ports ports' : CpuPorts} {op : Operation} {params : List Word}

/-- The instruction in execution is one that its process has come to, and a CPU that has crashed
is still at an instruction that cannot be executed. -/
structure Decoded (k : Kernel) (c : Cpu) : Prop where
  due : ∀ op params, c.cycle = .execute op params → ∃ program instruction,
    k.admitted[c.pcb.serial]? = some program ∧ Due program instruction ∧
      op = getOp instruction.id ∧ params = instruction.params
  crashed : c.crashed = true → ∃ op params, c.cycle = .execute op params ∧
    ¬ Executable op params

/-- An executor takes the CPU to another point of its cycle, but for an unknown operation or a
missing parameter: then it crashes. -/
theorem execute_cases (hcrashed : c.crashed = false) (op : Operation) (params : List Word) :
    (Executable op params ∧ (c.execute op params).crashed = false ∧
      ∀ op' params', (c.execute op params).cycle ≠ .execute op' params') ∨
    (¬ Executable op params ∧ c.execute op params = { c with crashed := true }) := by
  cases op <;> rcases params with _ | ⟨first, _ | ⟨second, rest⟩⟩ <;>
    simp [execute, Executable, Operation.arity, hcrashed]

theorem Decoded.congr (hc : c.Decoded k) (hcycle : c'.cycle = c.cycle) (hpcb : c'.pcb = c.pcb)
    (hcrashed : c'.crashed = c.crashed) : c'.Decoded k :=
  ⟨by rw [hcycle, hpcb]; exact hc.due, by rw [hcycle, hcrashed]; exact hc.crashed⟩

/-- Elsewhere in its cycle the CPU executes nothing. -/
theorem decoded_of_ne (hcycle : ∀ op params, c.cycle ≠ .execute op params)
    (hcrashed : c.crashed = false) : c.Decoded k :=
  ⟨fun op params hat => absurd hat (hcycle op params), fun h => by simp [hcrashed] at h⟩

/-- What `fetch_and_decode` returns is an instruction the process has come to. -/
theorem due_of_fetch {instruction : Instruction} {pcb : Pcb} (honTrack : k.OnTrack c.pcb)
    (hnext : c.pcb.pcb.hasNext = true)
    (hfetch : fetchAndDecode c.pcb.pcb = some (instruction, op, pcb)) :
    Due c.pcb.pcb.instructions instruction ∧ op = getOp instruction.id := by
  unfold fetchAndDecode at hfetch
  split at hfetch
  · cases hfetch
  · rename_i found hget
    cases hfetch
    refine ⟨⟨c.pcb.pcb.programCounter.toNat, ?_, ?_, hget⟩, rfl⟩
    · simpa [Pcb.hasNext, Pcb.programSize, BitVec.lt_def] using hnext
    · rw [← honTrack.executed]
      exact honTrack.noExit

theorem receivePcb_decoded (h : c.receivePcb ports = some (c', ports'))
    (hone : c.held.length ≤ 1) (hsound : c.Sound) (hcrashed : c.crashed = false)
    (hc : c.Decoded k) : c'.Decoded k := by
  unfold receivePcb at h
  cases hat : c.receiver with
  | idle =>
      simp only [hat] at h
      split at h <;> cases h
      exact hc.congr rfl rfl rfl
  | load job =>
      simp only [hat, Option.some.injEq, Prod.mk.injEq] at h
      obtain ⟨rfl, rfl⟩ := h
      -- a CPU that has yet to store a PCB executes nothing
      refine decoded_of_ne (fun op params hexecute => ?_) hcrashed
      have hexecute : c.cycle = .execute op params := hexecute
      have hstored : 0 < c.stored := stored_pos_of_working hsound
        (by simp [hexecute, Cycle.working]) (by simp [hexecute, Cycle.answered])
      simp only [held, hat, Receiver.loading, List.length_append, List.length_singleton,
        List.length_replicate] at hone
      omega
  | post =>
      simp only [hat, Option.some.injEq, Prod.mk.injEq] at h
      obtain ⟨rfl, rfl⟩ := h
      exact hc.congr rfl rfl rfl

theorem execute_decoded (hat : c.cycle = .execute op params) (hcrashed : c.crashed = false)
    (hc : c.Decoded k) : (c.execute op params).Decoded k := by
  rcases execute_cases hcrashed op params with ⟨-, hruns, hmoves⟩ | ⟨hmalformed, heq⟩
  · exact decoded_of_ne hmoves hruns
  · rw [heq]
    exact ⟨hc.due, fun _ => ⟨op, params, hat, hmalformed⟩⟩

theorem cpuCycle_decoded (h : c.cpuCycle ports = some (c', ports')) (hsound : c.Sound)
    (hcrashed : c.crashed = false) (hinOrder : c.InOrder k) (hc : c.Decoded k) :
    c'.Decoded k := by
  unfold cpuCycle at h
  cases hat : c.cycle with
  | fetch =>
      simp only [hat] at h
      split at h <;> cases h
      rename_i instruction op pcb hfetch
      have hstored : 0 < c.stored := stored_pos_of_working hsound (by simp [hat, Cycle.working])
        (by simp [hat, Cycle.answered])
      have honTrack := hinOrder.stored hstored (by simp [hat, Cycle.exiting])
      obtain ⟨hdue, hop⟩ := due_of_fetch honTrack (hinOrder.fetching hat) hfetch
      refine ⟨fun op' params hexecute => ?_, fun h => ?_⟩
      · cases hexecute
        exact ⟨_, instruction, honTrack.program, hdue, hop, rfl⟩
      · simp [hcrashed] at h
  | execute op params =>
      simp only [hat, Option.some.injEq, Prod.mk.injEq] at h
      obtain ⟨rfl, rfl⟩ := h
      exact execute_decoded hat hcrashed hc
  | waitLoaded | loop | check | waitBussy =>
      simp only [hat] at h
      repeat' split at h
      all_goals cases h
      all_goals exact decoded_of_ne (fun _ _ heq => by cases heq) hcrashed
  | postBussy | send | reset =>
      simp only [hat, Option.some.injEq, Prod.mk.injEq] at h
      obtain ⟨rfl, rfl⟩ := h
      exact decoded_of_ne (fun _ _ heq => by cases heq) hcrashed

theorem step_decoded {action : CpuAction} (h : c.step ports action = some (c', ports'))
    (hone : c.held.length ≤ 1) (hsound : c.Sound) (hinOrder : c.InOrder k) (hc : c.Decoded k) :
    c'.Decoded k := by
  unfold step at h
  split at h
  · cases h
  rename_i hcrashed
  have hcrashed : c.crashed = false := by simpa using hcrashed
  cases action with
  | receivePcb => exact receivePcb_decoded h hone hsound hcrashed hc
  | receiveInterruption =>
      simp only [receiveInterruption] at h
      split at h
      · cases h
      split at h <;> cases h
      exact hc.congr rfl rfl rfl
  | cpuCycle => exact cpuCycle_decoded h hsound hcrashed hinOrder hc

theorem Decoded.of_agree {k' : Kernel} (hc : c.Decoded k) (hagree : ∀ t, Kernel.Agree k k' t) :
    c.Decoded k' := by
  refine ⟨fun op params hat => ?_, hc.crashed⟩
  obtain ⟨program, instruction, hprogram, hdue⟩ := hc.due op params hat
  exact ⟨program, instruction, (hagree _).program program hprogram, hdue⟩

/-! ### Interruptions without a PCB -/

/-- `cpu_cycle` has found an interruption without a PCB to give back: it is to wait for
`cpu_bussy`, which no other thread posts. -/
structure Stranded (c : Cpu) : Prop where
  waiting : c.cycle = .send .interruptDispatch ∨ c.cycle = .waitBussy .interruptDispatch
  bussy : c.cpuBussy = 0
  crashed : c.crashed = false

theorem Stranded.decoded (hc : c.Stranded) : c.Decoded k := by
  refine decoded_of_ne (fun op params hat => ?_) hc.crashed
  rcases hc.waiting with hwaiting | hwaiting <;> simp [hwaiting] at hat

theorem stranded_of_check (h : c.cpuCycle ports = some (c', ports')) (hcrashed : c.crashed = false)
    (hlost : ¬ c.InterruptsHeld) : c'.Stranded := by
  obtain ⟨hat, hnew, hbussy⟩ : c.cycle = .check ∧ c.newInterruption = true ∧ c.cpuBussy = 0 := by
    simpa [InterruptsHeld] using hlost
  simp only [cpuCycle, hat, hnew, if_true, Option.some.injEq, Prod.mk.injEq] at h
  obtain ⟨rfl, rfl⟩ := h
  exact ⟨.inl rfl, hbussy, hcrashed⟩

theorem cpuCycle_stranded (h : c.cpuCycle ports = some (c', ports')) (hc : c.Stranded) :
    c'.Stranded := by
  rcases hc.waiting with hat | hat
  · simp only [cpuCycle, hat, Option.some.injEq, Prod.mk.injEq] at h
    obtain ⟨rfl, rfl⟩ := h
    exact ⟨.inr rfl, hc.bussy, hc.crashed⟩
  · simp [cpuCycle, hat, hc.bussy] at h

theorem step_stranded {action : CpuAction} (h : c.step ports action = some (c', ports'))
    (hc : c.Stranded) : c'.Stranded := by
  unfold step at h
  rw [if_neg (by simp [hc.crashed])] at h
  cases action with
  | receivePcb =>
      simp only [receivePcb] at h
      repeat' split at h
      all_goals cases h
      all_goals exact ⟨hc.waiting, hc.bussy, hc.crashed⟩
  | receiveInterruption =>
      simp only [receiveInterruption] at h
      repeat' split at h
      all_goals cases h
      all_goals exact ⟨hc.waiting, hc.bussy, hc.crashed⟩
  | cpuCycle => exact cpuCycle_stranded h hc

end Cpu

/-! ## The system -/

/-- The program a console sends. -/
def Action.given : Action → Option (List Instruction)
  | .kernel (.consoleReceive _ _ instructions _) => some instructions
  | _ => none

/-- What the consoles send is parsed from files of the kind allowed. -/
def ConsolesGive (allowed : List UInt8 → Prop) (action : Action) (_ : System) : Prop :=
  ∀ instructions ∈ action.given, ∃ file, allowed file ∧ instructions = getCode file

instance (file : List UInt8) (action : Action) (s : System) :
    Decidable (ConsolesGive (· = file) action s) :=
  decidable_of_iff (∀ instructions ∈ action.given, instructions = getCode file)
    (by simp [ConsolesGive])

theorem ConsolesGive.mono {allowed allowed' : List UInt8 → Prop}
    (h : ∀ file, allowed file → allowed' file) (action : Action) (s : System)
    (hgiven : ConsolesGive allowed action s) : ConsolesGive allowed' action s := by
  intro instructions hmem
  obtain ⟨file, hfile, hcode⟩ := hgiven instructions hmem
  exact ⟨file, h file hfile, hcode⟩

namespace System

variable {cfg : KernelConfig} {behaviour : MemoryBehaviour} {s : System}
  {allowed : List UInt8 → Prop}

/-- What is admitted was given. -/
theorem admitted_given (hs : (system cfg behaviour).ReachableBy (ConsolesGive allowed) s) :
    ∀ program ∈ s.kernel.admitted, ∃ file, allowed file ∧ program = getCode file := by
  refine hs.invariant ?initial ?step
  case initial => nofun
  case step =>
    rintro action s s' hgiven ih h
    rcases step_cases h with ⟨action, k, rfl, hstep, rfl⟩ | ⟨action, c, ports, rfl, -, rfl⟩
    · rcases Kernel.step_receives hstep with
        ⟨i, size, instructions, blank, rfl, hreceive⟩ | ⟨-, hadmitted⟩
      · obtain ⟨job, -, -, hadmitted, -⟩ := Kernel.consoleReceive_weight hreceive
        rw [hadmitted]
        refine List.forall_mem_append.mpr ⟨ih, ?_⟩
        exact List.forall_mem_singleton.mpr (hgiven instructions rfl)
      · exact hadmitted ▸ ih
    · exact ih

/-- The CPU finds interruptions only with a PCB to give back, or is stranded. -/
theorem interruptsHeld_or_stranded (hs : (system cfg behaviour).Reachable s) :
    (system cfg behaviour).ReachableBy InterruptsHeld s ∨ s.cpu.Stranded := by
  refine hs.guarded_or (fun s => s.cpu.Stranded) ?lost ?kept
  case lost =>
    rintro action s s' - hlost h
    rcases step_cases h with ⟨action, k, rfl, -, rfl⟩ | ⟨action, c, ports, rfl, hstep, rfl⟩
    · exact absurd (fun heq => by cases heq) hlost
    · obtain ⟨rfl, hcheck⟩ : action = .cpuCycle ∧ ¬ s.cpu.InterruptsHeld := by
        simpa [InterruptsHeld] using hlost
      unfold Cpu.step at hstep
      split at hstep
      · cases hstep
      · rename_i hcrashed
        exact Cpu.stranded_of_check hstep (by simpa using hcrashed) hcheck
  case kept =>
    rintro action s s' hstranded h
    rcases step_cases h with ⟨action, k, rfl, -, rfl⟩ | ⟨action, c, ports, rfl, hstep, rfl⟩
    · exact hstranded
    · exact Cpu.step_stranded hstep hstranded

/-- In every run the CPU executes only what its process has come to, and crashes nowhere else. -/
theorem decoded_of_reachable (hs : (system cfg behaviour).Reachable s) :
    s.cpu.Decoded s.kernel := by
  rcases interruptsHeld_or_stranded hs with hguarded | hstranded
  · refine hguarded.invariant_of
      (fun s hs => And.intro (toContract_reachable hs) (inOrder_of_reachable hs)) ?initial ?step
    case initial => exact Cpu.decoded_of_ne (fun _ _ heq => by cases heq) rfl
    case step =>
      rintro action s s' - ⟨⟨hsound, hcontract⟩, -, hinOrder⟩ ih h
      have hone := (Contract.oneToken_of_reachable hcontract).atCpu_le_one
      rcases step_cases h with ⟨action, k, rfl, hstep, rfl⟩ | ⟨action, c, ports, rfl, hstep, rfl⟩
      · exact ih.of_agree (Kernel.agree_step hstep)
      · simp only [toContract] at hone
        have hdecoded := Cpu.step_decoded hstep (by omega) hsound hinOrder ih
        exact ⟨hdecoded.due, hdecoded.crashed⟩
  · exact hstranded.decoded

/-- Where the lines of the files given are complete as far as the CPU comes to them, the CPU calls
no entry outside the table `execute` and misses no parameter. -/
theorem executable_of_complete
    (hs : (system cfg behaviour).ReachableBy (ConsolesGive FileComplete) s) :
    s.cpu.crashed = false ∧
      ∀ op params, s.cpu.cycle = .execute op params → op ≠ .dead ∧ op.arity ≤ params.length := by
  have hdecoded := decoded_of_reachable hs.reachable
  have hexecutable : ∀ op params, s.cpu.cycle = .execute op params → Executable op params := by
    intro op params hat
    obtain ⟨program, instruction, hprogram, hdue, rfl, rfl⟩ := hdecoded.due op params hat
    obtain ⟨file, hfile, rfl⟩ := admitted_given hs program (List.mem_of_getElem? hprogram)
    have hwellFormed := fileComplete_iff.mp hfile instruction hdue
    simpa [Instruction.wellFormed, Executable] using hwellFormed
  refine ⟨?_, hexecutable⟩
  by_contra hcrashed
  obtain ⟨op, params, hat, hmalformed⟩ := hdecoded.crashed (by simpa using hcrashed)
  exact hmalformed (hexecutable op params hat)

/-- A file with a line behind the EXIT that names no operation, run to its first instruction. -/
theorem executable_of_complete_small :
    ∃ s, (system (.small .fifo) inOrder).ReachableBy (ConsolesGive FileComplete) s ∧
      s.cpu.cycle = .execute .noOp [5] ∧ s.cpu.crashed = false := by
  -- NO_OP 5, EXIT, and a line without an operation
  let file : List UInt8 := ascii ['N', 'O', '_', 'O', 'P', ' ', '5'] ++ [10] ++
    ascii ['E', 'X', 'I', 'T'] ++ [10, 10]
  obtain ⟨s, hs, htest⟩ := Machine.exists_reachableBy_of_run (system (.small .fifo) inOrder)
    (ConsolesGive (· = file))
    (onKernel (admission 0 7 (getCode file) ++ initialization 1 ++ List.replicate 5 .toReady ++
      List.replicate 8 (.toExec 0)) ++ List.replicate 3 (.cpu .receivePcb) ++ onCycle 4)
    (fun s => s.cpu.cycle = .execute .noOp [5]) (by decide +kernel)
  have hfile : FileComplete file := by decide
  have hgiven := hs.mono (ConsolesGive.mono fun _ heq => heq.symm ▸ hfile)
  exact ⟨s, hgiven, of_decide_eq_true htest, (executable_of_complete hgiven).1⟩

/-- A blank line is parsed into an instruction without a name, which the CPU executes. -/
theorem not_executable :
    ¬ ∀ (file : List UInt8) (s : System),
      (system (.small .fifo) inOrder).ReachableBy (ConsolesGive (· = file)) s →
        s.cpu.crashed = false ∧ ∀ op params, s.cpu.cycle = .execute op params →
          op ≠ .dead ∧ op.arity ≤ params.length := by
  intro hexecutable
  -- NO_OP 5, a blank line, and EXIT
  let file : List UInt8 := ascii ['N', 'O', '_', 'O', 'P', ' ', '5'] ++ [10, 10] ++
    ascii ['E', 'X', 'I', 'T'] ++ [10]
  obtain ⟨s, hs, htest⟩ := Machine.exists_reachableBy_of_run (system (.small .fifo) inOrder)
    (ConsolesGive (· = file))
    (onKernel (admission 0 7 (getCode file) ++ initialization 1 ++ List.replicate 5 .toReady ++
      List.replicate 8 (.toExec 0)) ++ List.replicate 3 (.cpu .receivePcb) ++ onCycle 9)
    (fun s => s.cpu.crashed) (by decide +kernel)
  have hcrashed : s.cpu.crashed = true := htest
  simp [(hexecutable file s hs).1] at hcrashed

end System
end SistemasOperativos
