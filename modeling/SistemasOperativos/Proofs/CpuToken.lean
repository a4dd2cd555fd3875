import SistemasOperativos.System.Places

/-!
# The token of the CPU

`cpu_free` starts at one.  `to_exec` takes it before it dispatches and the dispatch listener
gives it back with the answer, so with a CPU that answers each dispatch once there is one token
in all: free, with `to_exec`, on the dispatch socket, at the CPU, or with the dispatch
listener.
-/

namespace SistemasOperativos

/-! ## Who has the token -/

/-- One when `to_exec` has taken `cpu_free` and not yet dispatched. -/
def ToExec.token : ToExec → ℕ
  | .lock | .take | .pop | .send _ => 1
  | _ => 0

/-- One when the dispatch listener has received a PCB and not yet posted `cpu_free`. -/
def DispatchListener.token : DispatchListener → ℕ
  | .idle | .interruptReady | .ioSignal => 0
  | _ => 1

namespace Kernel

variable {cfg : KernelConfig} {behaviour : MemoryBehaviour} {k k' : Kernel} {now : Word}
  {action : KernelAction}

/-- The tokens in the kernel and on the dispatch socket. -/
def tokens (k : Kernel) : ℕ :=
  k.cpuFree + k.toExecThread.token + k.toCpu.length + k.fromCpu.length + k.dispatchThread.token

theorem toExec_tokens (h : k.toExec now = some k') : k'.tokens = k.tokens := by
  unfold toExec at h
  repeat' split at h
  all_goals cases h
  all_goals simp_all [tokens, ToExec.token]
  all_goals omega

theorem dispatchListener_tokens (h : k.dispatchListener cfg now = some k') :
    k'.tokens = k.tokens := by
  unfold dispatchListener at h
  repeat' split at h
  all_goals cases h
  all_goals simp_all [tokens, DispatchListener.token]
  all_goals omega

theorem step_tokens (h : k.step cfg behaviour action = some k') : k'.tokens = k.tokens := by
  have hwrites := step_writes h
  unfold step at h
  split at h
  · cases h
  cases action with
  | toExec now => exact toExec_tokens h
  | dispatchListener now => exact dispatchListener_tokens h
  | _ => rw [hwrites.fields]; rfl

end Kernel

namespace Contract

variable {cfg : KernelConfig} {behaviour : MemoryBehaviour} {s s' : Contract}
  {action : ContractAction}

/-- There is one token. -/
def OneToken (s : Contract) : Prop :=
  s.kernel.tokens + s.atCpu.length = 1

theorem step_oneToken (h : s.step cfg behaviour action = some s') (hs : s.OneToken) :
    s'.OneToken := by
  refine step_elim h ?kernel ?receive ?change ?answer ?note
  case kernel =>
    intro action k hk
    have := Kernel.step_tokens hk
    simp_all [OneToken]
  case receive =>
    intro job rest hto
    simp_all [OneToken, Kernel.tokens]
    omega
  case change =>
    intro i pcb events job hget _
    simpa [OneToken, Kernel.tokens] using hs
  case answer =>
    intro i header job hget
    have hi := (List.getElem?_eq_some_iff.1 hget).1
    simp_all [OneToken, Kernel.tokens, List.length_eraseIdx]
    omega
  case note => exact fun n hn => hs

theorem oneToken_of_reachable (hs : (contract cfg behaviour).Reachable s) : s.OneToken :=
  hs.invariant (rfl : OneToken ⟨Kernel.start cfg, []⟩) fun _ _ _ _ hs h => step_oneToken h hs

/-- At most one PCB is at the CPU or in flight, and then the CPU is not free. -/
theorem OneToken.atCpu_le_one (hs : s.OneToken) :
    s.kernel.cpuFree + s.kernel.toCpu.length + s.atCpu.length + s.kernel.fromCpu.length ≤ 1 := by
  simp only [OneToken, Kernel.tokens] at hs
  omega

end Contract
end SistemasOperativos
