import SistemasOperativos.System.Composition

/-!
# The sleeps of an I/O burst

`io_listener` serves a burst that fits what is left of the time a process may stay blocked with
one sleep, and any other with a sleep to the limit and, once the process is suspended, a second
one for the rest.  The quantities are words of 32 bits, some with a sign and some without.  What
is left of the time is negative as soon as the process has waited for longer than the limit: the
device serves one process after the other.
-/

namespace SistemasOperativos

/-! ## What is slept -/

/-- A call of `usleep`: the time meant, its argument, and whether the product of the two
operands leaves their type. -/
structure Sleep where
  milliseconds : ℤ
  argument : Word
  wraps : Bool
deriving DecidableEq, Repr

/-- What `io_listener` does for a burst: the sleep in the blocked state, `pending_io_time` after
it, and the sleep in the suspended state, where there is one. -/
structure Service where
  blocked : Sleep
  pendingIoTime : Word
  suspended : Option Sleep
deriving DecidableEq, Repr

/-- `usleep(pcb->pending_io_time * 1000)`, a product of words without a sign. -/
def Pcb.sleepPending (pcb : Pcb) : Sleep :=
  ⟨pcb.pendingIoTime.toNat, pcb.pendingIoTime * 1000, pcb.pendingIoTime.umulOverflow 1000⟩

/-- `usleep(sleep_ms * 1000)`, a product of `int`s. -/
def Pcb.sleepLimit (cfg : KernelConfig) (pcb : Pcb) (currTime : Word) : Sleep :=
  ⟨(pcb.sleepMs cfg currTime).toInt, pcb.sleepMs cfg currTime * 1000,
    (pcb.sleepMs cfg currTime).smulOverflow 1000⟩

/-- `io_listener`, from the reading of the clock to the last sleep for the burst. -/
def Pcb.service (cfg : KernelConfig) (pcb : Pcb) (currTime : Word) : Service :=
  if 0 ≤ (pcb.remainingIoTime cfg currTime).toInt then
    ⟨pcb.sleepPending, pcb.pendingIoTime, none⟩
  else
    let suspended := pcb.sleepToLimit cfg currTime
    ⟨pcb.sleepLimit cfg currTime, suspended.pendingIoTime, some suspended.sleepPending⟩

/-- The step of `io_listener` that reads the clock leaves the PCB as the service says. -/
theorem Kernel.ioListener_stamp (cfg : KernelConfig) {k : Kernel} {job : Job}
    (h : k.ioThread = .stamp job) (now : Word) :
    k.ioListener cfg now = some { k with
      ioThread :=
        match (job.pcb.service cfg now).suspended with
        | none => .put (.lock job)
        | some _ => .sendSuspend { job with pcb :=
            { job.pcb with pendingIoTime := (job.pcb.service cfg now).pendingIoTime } } } := by
  simp only [ioListener, h, Pcb.service]
  split <;> rfl

/-! ## The exact split -/

/-- The argument of the call is the product, in its type. -/
def Sleep.Exact (sleep : Sleep) : Prop :=
  (sleep.argument.toNat : ℤ) = sleep.milliseconds * 1000 ∧ sleep.wraps = false

/-- The time slept in the suspended state. -/
def Service.suspendedMs (service : Service) : ℤ :=
  service.suspended.elim 0 Sleep.milliseconds

/-- The sleeps of a burst are as they should be: the first one within the limit, both together
the burst, and the arguments exact. -/
structure Service.SleepsExact (cfg : KernelConfig) (burst : Word) (service : Service) : Prop where
  nonneg : 0 ≤ service.blocked.milliseconds
  le_max : service.blocked.milliseconds ≤ cfg.maxBlockedTime.toInt
  sum : service.blocked.milliseconds + service.suspendedMs = burst.toNat
  blocked : service.blocked.Exact
  suspended : ∀ sleep ∈ service.suspended, sleep.Exact

/-- The burst is split exactly: besides, `pending_io_time` is what the first sleep leaves. -/
structure Service.Exact (cfg : KernelConfig) (burst : Word) (service : Service) : Prop
    extends service.SleepsExact cfg burst where
  pending : (service.pendingIoTime.toNat : ℤ) = burst.toNat - service.blocked.milliseconds
  pending_le : service.pendingIoTime.toNat ≤ burst.toNat

/-! ## When the split is exact -/

/-- What is left of the time the process may stay blocked, as the difference of two `int`s. -/
def Pcb.timeLeft (cfg : KernelConfig) (pcb : Pcb) (currTime : Word) : ℤ :=
  cfg.maxBlockedTime.toInt - (currTime - pcb.blockedTime).toInt

/-- The burst is served in the blocked state, within the limit and without a wrap. -/
def Pcb.Fits (cfg : KernelConfig) (pcb : Pcb) (currTime : Word) : Prop :=
  pcb.pendingIoTime.toNat ≤ cfg.maxBlockedTime.toInt ∧
  pcb.pendingIoTime.toNat ≤ pcb.timeLeft cfg currTime ∧
  pcb.timeLeft cfg currTime < 2 ^ 31 + pcb.pendingIoTime.toNat ∧
  pcb.pendingIoTime.toNat * 1000 < 2 ^ 32

/-- The burst is split at the limit, which is not past, without a wrap. -/
def Pcb.Splits (cfg : KernelConfig) (pcb : Pcb) (currTime : Word) : Prop :=
  0 ≤ pcb.timeLeft cfg currTime ∧
  pcb.timeLeft cfg currTime ≤ cfg.maxBlockedTime.toInt ∧
  pcb.timeLeft cfg currTime < pcb.pendingIoTime.toNat ∧
  pcb.timeLeft cfg currTime * 1000 < 2 ^ 31 ∧
  (pcb.pendingIoTime.toNat - pcb.timeLeft cfg currTime) * 1000 < 2 ^ 32

theorem Pcb.toInt_sleepMs (cfg : KernelConfig) (pcb : Pcb) (currTime : Word) :
    (pcb.sleepMs cfg currTime).toInt = (pcb.timeLeft cfg currTime).bmod (2 ^ 32) :=
  BitVec.toInt_sub ..

theorem Pcb.toInt_remainingIoTime (cfg : KernelConfig) (pcb : Pcb) (currTime : Word) :
    (pcb.remainingIoTime cfg currTime).toInt =
      (pcb.timeLeft cfg currTime - pcb.pendingIoTime.toNat).bmod (2 ^ 32) := by
  rw [remainingIoTime, BitVec.toInt_sub, toInt_sleepMs, BitVec.toInt_eq_toNat_bmod,
    Int.bmod_sub_bmod, Int.sub_bmod_bmod]

/-- An `int` from a difference that needs more than 32 bits. -/
theorem bmod_word (x : ℤ) :
    x.bmod (2 ^ 32) = if x % 2 ^ 32 < 2 ^ 31 then x % 2 ^ 32 else x % 2 ^ 32 - 2 ^ 32 := by
  rw [Int.bmod_def]
  rfl

/-- A product of words without a sign is exact as long as it is below `2 ^ 32`. -/
theorem Pcb.sleepPending_exact_iff (pcb : Pcb) :
    pcb.sleepPending.Exact ↔ pcb.pendingIoTime.toNat * 1000 < 2 ^ 32 := by
  have hproduct : (pcb.pendingIoTime * 1000).toNat = pcb.pendingIoTime.toNat * 1000 % 2 ^ 32 :=
    BitVec.toNat_mul ..
  have hwraps : pcb.sleepPending.wraps = false ↔ pcb.pendingIoTime.toNat * 1000 < 2 ^ 32 := by
    have h1000 : (1000 : Word).toNat = 1000 := rfl
    simp only [sleepPending, BitVec.umulOverflow, h1000, decide_eq_false_iff_not]
    omega
  constructor
  · exact fun h => hwraps.mp h.2
  · intro h
    refine ⟨?_, hwraps.mpr h⟩
    show ((pcb.pendingIoTime * 1000).toNat : ℤ) = pcb.pendingIoTime.toNat * 1000
    omega

/-- A product of `int`s is an exact number of microseconds as long as it is not negative and
below `2 ^ 31`. -/
theorem Pcb.sleepLimit_exact_iff (cfg : KernelConfig) (pcb : Pcb) (currTime : Word) :
    (pcb.sleepLimit cfg currTime).Exact ↔
      0 ≤ (pcb.sleepMs cfg currTime).toInt ∧
        (pcb.sleepMs cfg currTime).toInt * 1000 < 2 ^ 31 := by
  have h1000 : (1000 : Word).toInt = 1000 := by decide
  have hproduct : (pcb.sleepMs cfg currTime * 1000).toInt =
      ((pcb.sleepMs cfg currTime).toInt * 1000).bmod (2 ^ 32) := by
    rw [BitVec.toInt_mul, h1000]
  have hnat := BitVec.toInt_eq_toNat_cond (pcb.sleepMs cfg currTime * 1000)
  have hwraps : (pcb.sleepLimit cfg currTime).wraps = false ↔
      (pcb.sleepMs cfg currTime).toInt * 1000 < 2 ^ 31 ∧
        -2 ^ 31 ≤ (pcb.sleepMs cfg currTime).toInt * 1000 := by
    simp only [sleepLimit, BitVec.smulOverflow, h1000, Bool.or_eq_false_iff,
      decide_eq_false_iff_not]
    omega
  rw [bmod_word] at hproduct
  constructor
  · rintro ⟨hargument, hexact⟩
    have hargument : ((pcb.sleepMs cfg currTime * 1000).toNat : ℤ) =
      (pcb.sleepMs cfg currTime).toInt * 1000 := hargument
    have hbounds := hwraps.mp hexact
    omega
  · rintro ⟨hnonneg, hlt⟩
    refine ⟨?_, hwraps.mpr ⟨hlt, by omega⟩⟩
    show ((pcb.sleepMs cfg currTime * 1000).toNat : ℤ) =
      (pcb.sleepMs cfg currTime).toInt * 1000
    omega

/-! ### The two branches -/

section Branches

variable (cfg : KernelConfig) (pcb : Pcb) (currTime : Word)

theorem Pcb.timeLeft_bounds : cfg.maxBlockedTime.toInt - 2 ^ 31 < pcb.timeLeft cfg currTime ∧
    pcb.timeLeft cfg currTime ≤ cfg.maxBlockedTime.toInt + 2 ^ 31 := by
  have hlt := (currTime - pcb.blockedTime).toInt_lt
  have hle := (currTime - pcb.blockedTime).le_toInt
  rw [timeLeft]
  omega

variable {cfg pcb currTime}

/-- One sleep, in the blocked state. -/
theorem Pcb.service_of_nonneg (h : 0 ≤ (pcb.remainingIoTime cfg currTime).toInt) :
    pcb.service cfg currTime = ⟨pcb.sleepPending, pcb.pendingIoTime, none⟩ :=
  if_pos h

/-- A sleep to the limit, and one for the rest. -/
theorem Pcb.service_of_neg (h : ¬ 0 ≤ (pcb.remainingIoTime cfg currTime).toInt) :
    pcb.service cfg currTime =
      ⟨pcb.sleepLimit cfg currTime, (pcb.sleepToLimit cfg currTime).pendingIoTime,
        some (pcb.sleepToLimit cfg currTime).sleepPending⟩ :=
  if_neg h

/-- What the sleep to the limit leaves, as a word. -/
theorem Pcb.toNat_sleepToLimit (cfg : KernelConfig) (pcb : Pcb) (currTime : Word) :
    ((pcb.sleepToLimit cfg currTime).pendingIoTime.toNat : ℤ) =
      (pcb.pendingIoTime.toNat - (pcb.sleepMs cfg currTime).toInt) % 2 ^ 32 := by
  have hsub : (pcb.sleepToLimit cfg currTime).pendingIoTime.toNat =
      (2 ^ 32 - (pcb.sleepMs cfg currTime).toNat + pcb.pendingIoTime.toNat) % 2 ^ 32 :=
    BitVec.toNat_sub ..
  have hcond := BitVec.toInt_eq_toNat_cond (pcb.sleepMs cfg currTime)
  omega

/-- With one sleep, the sleeps are exact if the burst is within the limit and its product does
not wrap. -/
theorem Pcb.service_sleepsExact_of_nonneg (h : 0 ≤ (pcb.remainingIoTime cfg currTime).toInt) :
    (pcb.service cfg currTime).SleepsExact cfg pcb.pendingIoTime ↔
      pcb.pendingIoTime.toNat ≤ cfg.maxBlockedTime.toInt ∧
        pcb.pendingIoTime.toNat * 1000 < 2 ^ 32 := by
  rw [service_of_nonneg h]
  constructor
  · intro hexact
    exact ⟨hexact.le_max, pcb.sleepPending_exact_iff.mp hexact.blocked⟩
  · rintro ⟨hmax, hlt⟩
    exact {
      nonneg := Int.natCast_nonneg _
      le_max := hmax
      sum := add_zero _
      blocked := pcb.sleepPending_exact_iff.mpr hlt
      suspended := by simp }

/-- With two sleeps, they are exact if the first is between 0, the limit and the burst, and the
products do not wrap. -/
theorem Pcb.service_sleepsExact_of_neg (h : ¬ 0 ≤ (pcb.remainingIoTime cfg currTime).toInt) :
    (pcb.service cfg currTime).SleepsExact cfg pcb.pendingIoTime ↔
      0 ≤ (pcb.sleepMs cfg currTime).toInt ∧
        (pcb.sleepMs cfg currTime).toInt ≤ cfg.maxBlockedTime.toInt ∧
        (pcb.sleepMs cfg currTime).toInt ≤ pcb.pendingIoTime.toNat ∧
        (pcb.sleepMs cfg currTime).toInt * 1000 < 2 ^ 31 ∧
        (pcb.pendingIoTime.toNat - (pcb.sleepMs cfg currTime).toInt) * 1000 < 2 ^ 32 := by
  have hrest := pcb.toNat_sleepToLimit cfg currTime
  have hburst := pcb.pendingIoTime.isLt
  rw [service_of_neg h]
  constructor
  · intro hexact
    have hsum : (pcb.sleepMs cfg currTime).toInt +
      (pcb.sleepToLimit cfg currTime).pendingIoTime.toNat = pcb.pendingIoTime.toNat := hexact.sum
    have hfirst := (pcb.sleepLimit_exact_iff cfg currTime).mp hexact.blocked
    have hsecond := (pcb.sleepToLimit cfg currTime).sleepPending_exact_iff.mp
      (hexact.suspended _ rfl)
    exact ⟨hfirst.1, hexact.le_max, by omega, hfirst.2, by omega⟩
  · rintro ⟨hnonneg, hmax, hle, hfirst, hsecond⟩
    have hexact : ((pcb.sleepToLimit cfg currTime).pendingIoTime.toNat : ℤ) =
        pcb.pendingIoTime.toNat - (pcb.sleepMs cfg currTime).toInt := by
      rw [hrest]
      exact Int.emod_eq_of_lt (by omega) (by omega)
    exact {
      nonneg := hnonneg
      le_max := hmax
      sum := by
        show (pcb.sleepMs cfg currTime).toInt +
          (pcb.sleepToLimit cfg currTime).pendingIoTime.toNat = pcb.pendingIoTime.toNat
        omega
      blocked := (pcb.sleepLimit_exact_iff cfg currTime).mpr ⟨hnonneg, hfirst⟩
      suspended := by
        rintro sleep ⟨⟩
        exact (pcb.sleepToLimit cfg currTime).sleepPending_exact_iff.mpr (by omega) }

end Branches

/-- The sleeps are exact if the burst fits, or the limit is not past and the products do not
wrap. -/
theorem Pcb.service_sleepsExact_iff (cfg : KernelConfig) (pcb : Pcb) (currTime : Word) :
    (pcb.service cfg currTime).SleepsExact cfg pcb.pendingIoTime ↔
      pcb.Fits cfg currTime ∨ pcb.Splits cfg currTime := by
  have hremaining := pcb.toInt_remainingIoTime cfg currTime
  have hsleep := pcb.toInt_sleepMs cfg currTime
  have hbounds := pcb.timeLeft_bounds cfg currTime
  have hmax := cfg.maxBlockedTime.toInt_lt
  have hburst := pcb.pendingIoTime.isLt
  rw [bmod_word] at hremaining hsleep
  by_cases h : 0 ≤ (pcb.remainingIoTime cfg currTime).toInt
  · rw [service_sleepsExact_of_nonneg h, Fits, Splits]
    omega
  · rw [service_sleepsExact_of_neg h, Fits, Splits]
    omega

/-- The split is exact if the limit is not past, the burst needs more than what is left of the
time and the products do not wrap; or if there is nothing to sleep.  A burst that fits leaves
`pending_io_time` as it was. -/
theorem Pcb.service_exact_iff (cfg : KernelConfig) (pcb : Pcb) (currTime : Word) :
    (pcb.service cfg currTime).Exact cfg pcb.pendingIoTime ↔
      (pcb.pendingIoTime.toNat = 0 ∧ pcb.Fits cfg currTime) ∨ pcb.Splits cfg currTime := by
  have hsleeps := pcb.service_sleepsExact_iff cfg currTime
  have hremaining := pcb.toInt_remainingIoTime cfg currTime
  have hsleep := pcb.toInt_sleepMs cfg currTime
  have hburst := pcb.pendingIoTime.isLt
  rw [bmod_word] at hremaining hsleep
  by_cases h : 0 ≤ (pcb.remainingIoTime cfg currTime).toInt
  · have hnotSplits : ¬ pcb.Splits cfg currTime := by
      rintro ⟨-, -, hlt, -, hproduct⟩
      omega
    simp only [hnotSplits, or_false] at hsleeps ⊢
    constructor
    · intro hexact
      have hpending : (pcb.pendingIoTime.toNat : ℤ) =
          pcb.pendingIoTime.toNat - pcb.pendingIoTime.toNat := by
        simpa [service_of_nonneg h, sleepPending] using hexact.pending
      exact ⟨by omega, hsleeps.mp hexact.toSleepsExact⟩
    · rintro ⟨hzero, hfits⟩
      refine { hsleeps.mpr hfits with pending := ?_, pending_le := ?_ }
      · simp [service_of_nonneg h, sleepPending, hzero]
      · rw [service_of_nonneg h]
  · have hnotFits : ¬ (pcb.pendingIoTime.toNat = 0 ∧ pcb.Fits cfg currTime) := by
      rintro ⟨hzero, hfits, hle, hlt, -⟩
      omega
    have hrest := pcb.toNat_sleepToLimit cfg currTime
    simp only [hnotFits, false_or]
    constructor
    · intro hexact
      refine (hsleeps.mp hexact.toSleepsExact).resolve_left ?_
      rintro ⟨-, hle, hlt, -⟩
      omega
    · intro hsplits
      have hexact := hsleeps.mpr (Or.inr hsplits)
      obtain ⟨hnonneg, -, hle, -, -⟩ := (service_sleepsExact_of_neg h).mp hexact
      refine { hexact with pending := ?_, pending_le := ?_ }
      · rw [service_of_neg h]
        show ((pcb.sleepToLimit cfg currTime).pendingIoTime.toNat : ℤ) =
          pcb.pendingIoTime.toNat - (pcb.sleepMs cfg currTime).toInt
        omega
      · rw [service_of_neg h]
        show (pcb.sleepToLimit cfg currTime).pendingIoTime.toNat ≤ pcb.pendingIoTime.toNat
        omega

/-- A process that has waited for 250 ms where 100 are allowed: the first sleep is of −150 ms, and
155 of the burst's 5 ms are left. -/
theorem Pcb.not_service_exact_small :
    let pcb : Pcb := { (default : Pcb) with blockedTime := 1000, pendingIoTime := 5 }
    (pcb.service (.small .fifo) 1250).blocked.milliseconds = -150 ∧
      (pcb.service (.small .fifo) 1250).pendingIoTime = 155 ∧
      ¬ (pcb.service (.small .fifo) 1250).Exact (.small .fifo) pcb.pendingIoTime := by
  refine ⟨by decide, by decide, fun h => ?_⟩
  exact absurd h.nonneg (by decide)

end SistemasOperativos
