import SistemasOperativos.System.Places

/-!
# The execution mutex

Three threads take `execution_mutex`: `to_ready` and `io_listener` inside `put_to_ready`, and
`to_exec`.  At any time at most one of them is between its lock and its unlock.
-/

namespace SistemasOperativos

/-! ## Critical sections -/

/-- One between the lock and the unlock of `put_to_ready`. -/
def PutToReady.inside : PutToReady → ℕ
  | .lock _ | .signal => 0
  | _ => 1

/-- The state of `put_to_ready`, when `to_ready` is inside it. -/
def ToReady.putting : ToReady → Option PutToReady
  | .put state => some state
  | _ => none

/-- The state of `put_to_ready`, when `io_listener` is inside it. -/
def IoListener.putting : IoListener → Option PutToReady
  | .put state => some state
  | _ => none

/-- The weight of a caller of `put_to_ready`, zero when it is elsewhere. -/
def onPut (weight : PutToReady → ℕ) : Option PutToReady → ℕ
  | some state => weight state
  | none => 0

@[simp] theorem onPut_some (weight : PutToReady → ℕ) (state : PutToReady) :
    onPut weight (some state) = weight state := rfl

@[simp] theorem onPut_none (weight : PutToReady → ℕ) : onPut weight none = 0 := rfl

theorem onPut_le {weight weight' : PutToReady → ℕ} (h : ∀ state, weight state ≤ weight' state)
    (putting : Option PutToReady) : onPut weight putting ≤ onPut weight' putting := by
  cases putting with
  | none => exact Nat.le_refl 0
  | some state => exact h state

/-- One between the lock and the unlock of `to_exec`. -/
def ToExec.inside : ToExec → ℕ
  | .take | .pop | .send _ | .stamp _ | .unlock => 1
  | _ => 0

@[simp] theorem ToReady.putting_mapWaiting (f : Job → Job) (state : ToReady) :
    (state.mapWaiting f).putting = state.putting := by
  cases state <;> rfl

namespace Kernel

variable {cfg : KernelConfig} {behaviour : MemoryBehaviour} {k k' : Kernel}
  {action : KernelAction}

/-- The weight of both callers of `put_to_ready`. -/
def puts (k : Kernel) (weight : PutToReady → ℕ) : ℕ :=
  onPut weight k.toReadyThread.putting + onPut weight k.ioThread.putting

/-- One thread is inside its critical section while the mutex is held, and none otherwise. -/
def Exclusive (k : Kernel) : Prop :=
  k.puts PutToReady.inside + k.toExecThread.inside = if k.executionMutex then 1 else 0

theorem Exclusive.le_one (hk : k.Exclusive) :
    k.puts PutToReady.inside + k.toExecThread.inside ≤ 1 := by
  unfold Exclusive at hk
  split at hk <;> omega

theorem puts_le {weight weight' : PutToReady → ℕ} (h : ∀ state, weight state ≤ weight' state)
    (k : Kernel) : k.puts weight ≤ k.puts weight' :=
  Nat.add_le_add (onPut_le h _) (onPut_le h _)

/-- Only its two callers are inside `put_to_ready`. -/
theorem step_puts (h : k.step cfg behaviour action = some k') (htoReady : action.thread ≠ .toReady)
    (hio : action.thread ≠ .ioListener) (weight : PutToReady → ℕ) :
    k'.puts weight = k.puts weight := by
  have hwrites := step_writes h
  unfold step at h
  split at h
  · cases h
  cases action with
  | toReady => exact absurd rfl htoReady
  | ioListener now => exact absurd rfl hio
  | memoryListener stale =>
      rw [puts, memoryListener_toReadyThread ToReady.putting
        (fun _ _ => ToReady.putting_mapWaiting _) h, hwrites.fields]
      rfl
  | _ => rw [hwrites.fields]; rfl

theorem toReady_exclusive (h : k.toReady cfg = some k') (hk : k.Exclusive) : k'.Exclusive := by
  have hle := hk.le_one
  unfold toReady putToReady at h
  repeat' split at h
  all_goals cases h
  all_goals simp_all [Exclusive, puts, ToReady.putting, PutToReady.inside]
  all_goals omega

theorem ioListener_exclusive {now : Word} (h : k.ioListener cfg now = some k')
    (hk : k.Exclusive) : k'.Exclusive := by
  have hle := hk.le_one
  unfold ioListener putToReady at h
  repeat' split at h
  all_goals cases h
  all_goals simp_all [Exclusive, puts, IoListener.putting, PutToReady.inside]
  all_goals omega

theorem toExec_exclusive {now : Word} (h : k.toExec now = some k') (hk : k.Exclusive) :
    k'.Exclusive := by
  have hle := hk.le_one
  unfold toExec at h
  repeat' split at h
  all_goals cases h
  all_goals simp_all [Exclusive, puts, ToExec.inside]
  all_goals split at hk <;> omega

theorem step_exclusive (h : k.step cfg behaviour action = some k') (hk : k.Exclusive) :
    k'.Exclusive := by
  have hstep := h
  have hwrites := step_writes h
  unfold step at h
  split at h
  · cases h
  cases action with
  | toReady => exact toReady_exclusive h hk
  | ioListener now => exact ioListener_exclusive h hk
  | toExec now => exact toExec_exclusive h hk
  | _ =>
      rw [Exclusive, step_puts hstep (by simp) (by simp), hwrites.fields]
      exact hk

theorem start_exclusive (cfg : KernelConfig) : (start cfg).Exclusive := rfl

end Kernel
end SistemasOperativos
