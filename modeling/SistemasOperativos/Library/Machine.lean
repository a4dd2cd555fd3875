import Mathlib.Tactic.Common

/-!
# Machines that step one action at a time

A machine is an initial state and an executable step: `step a s` is the state after the
action `a`, and `none` where `a` cannot be taken in `s`.  Which action comes next is left
open, so a statement about every reachable state is a statement about every interleaving.

Runs are restricted by a guard on the steps they take.  `Reachable` is the unrestricted case;
`ReachableBy guard` keeps only the runs in which every step meets `guard` in the state before
it.
-/

/-- An initial state and an executable step function. -/
structure Machine (State Action : Type*) where
  initial : State
  step : Action → State → Option State

namespace Machine

variable {State Action State' Action' : Type*} (M : Machine State Action)

/-! ## Reachable states -/

/-- The states reached by runs in which every step meets `guard`. -/
inductive ReachableBy (guard : Action → State → Prop) : State → Prop
  | initial : ReachableBy guard M.initial
  | step {s s' : State} {a : Action} : ReachableBy guard s → guard a s →
      M.step a s = some s' → ReachableBy guard s'

/-- The states reached by any run. -/
abbrev Reachable : State → Prop :=
  M.ReachableBy fun _ _ => True

variable {M} {guard guard' : Action → State → Prop}

theorem Reachable.next {s s' : State} {a : Action} (h : M.Reachable s)
    (hstep : M.step a s = some s') : M.Reachable s' :=
  .step h trivial hstep

theorem ReachableBy.mono (h : ∀ a s, guard a s → guard' a s) {s : State}
    (hs : M.ReachableBy guard s) : M.ReachableBy guard' s := by
  induction hs with
  | initial => exact .initial
  | step _ hguard hstep ih => exact .step ih (h _ _ hguard) hstep

/-- Dropping the guard. -/
theorem ReachableBy.reachable {s : State} (hs : M.ReachableBy guard s) : M.Reachable s :=
  hs.mono fun _ _ _ => trivial

/-- A guard that every step from a reachable state meets restricts nothing. -/
theorem Reachable.guarded {s : State} (hs : M.Reachable s)
    (h : ∀ a s s', M.Reachable s → M.step a s = some s' → guard a s) :
    M.ReachableBy guard s := by
  induction hs with
  | initial => exact .initial
  | step hr _ hstep ih => exact .step ih (h _ _ _ hr hstep) hstep

/-- Where a step that violates a guard leads to a part of the states that no step leaves, every
state reached is reached under the guard or lies in that part. -/
theorem Reachable.guarded_or (Lost : State → Prop)
    (hlost : ∀ a s s', M.ReachableBy guard s → ¬ guard a s → M.step a s = some s' → Lost s')
    (hkeep : ∀ a s s', Lost s → M.step a s = some s' → Lost s') {s : State}
    (hs : M.Reachable s) : M.ReachableBy guard s ∨ Lost s := by
  induction hs with
  | initial => exact .inl .initial
  | @step s s' a _ _ hstep ih =>
      rcases ih with hguarded | hin
      · by_cases hguard : guard a s
        · exact .inl (.step hguarded hguard hstep)
        · exact .inr (hlost a s s' hguarded hguard hstep)
      · exact .inr (hkeep a s s' hin hstep)

/-! ## Invariants -/

/-- What holds initially and is kept by every guarded step holds in every state reached. -/
@[elab_as_elim]
theorem ReachableBy.invariant {Inv : State → Prop} (hinit : Inv M.initial)
    (hstep : ∀ a s s', guard a s → Inv s → M.step a s = some s' → Inv s')
    {s : State} (hs : M.ReachableBy guard s) : Inv s := by
  induction hs with
  | initial => exact hinit
  | step _ hguard h ih => exact hstep _ _ _ hguard ih h

/-- The same with an invariant `Known` proved before, which the step may use. -/
@[elab_as_elim]
theorem ReachableBy.invariant_of {Known Inv : State → Prop}
    (hknown : ∀ s, M.ReachableBy guard s → Known s) (hinit : Inv M.initial)
    (hstep : ∀ a s s', guard a s → Known s → Inv s → M.step a s = some s' → Inv s')
    {s : State} (hs : M.ReachableBy guard s) : Inv s := by
  induction hs with
  | initial => exact hinit
  | step hr hguard h ih => exact hstep _ _ _ hguard (hknown _ hr) ih h

/-! ## Loops that may fail -/

/-- What every iteration of a loop keeps, on the items it goes through, the loop keeps. -/
theorem foldlM_invariant_of_mem {α : Type*} {f : State → α → Option State} {Inv : State → Prop}
    {l : List α} (hstep : ∀ a ∈ l, ∀ s s', Inv s → f s a = some s' → Inv s') {s s' : State}
    (hs : Inv s) (h : l.foldlM f s = some s') : Inv s' := by
  induction l generalizing s with
  | nil => simp only [List.foldlM_nil, Option.pure_def, Option.some.injEq] at h; exact h ▸ hs
  | cons a rest ih =>
      simp only [List.foldlM_cons, Option.bind_eq_bind, Option.bind_eq_some_iff] at h
      obtain ⟨t, ht, hrest⟩ := h
      exact ih (fun b hb => hstep b (List.mem_cons_of_mem _ hb))
        (hstep a List.mem_cons_self _ _ hs ht) hrest

theorem foldlM_invariant {α : Type*} {f : State → α → Option State} {Inv : State → Prop}
    (hstep : ∀ s a s', Inv s → f s a = some s' → Inv s') {l : List α} {s s' : State}
    (hs : Inv s) (h : l.foldlM f s = some s') : Inv s' :=
  foldlM_invariant_of_mem (fun a _ s s' => hstep s a s') hs h

/-- What every iteration does, a loop that has one does. -/
theorem foldlM_of_ne_nil {α : Type*} {f : State → α → Option State} {P : State → Prop}
    (hf : ∀ s a s', f s a = some s' → P s') {l : List α} (hl : l ≠ []) {s s' : State}
    (h : l.foldlM f s = some s') : P s' := by
  cases l with
  | nil => exact absurd rfl hl
  | cons a rest =>
      simp only [List.foldlM_cons, Option.bind_eq_bind, Option.bind_eq_some_iff] at h
      obtain ⟨t, ht, hrest⟩ := h
      exact foldlM_invariant (fun s a s' _ h => hf s a s' h) (hf s a t ht) hrest

/-- What an iteration does for its item, and no iteration undoes, is done for all items. -/
theorem foldlM_done {α : Type*} {f : State → α → Option State} {l : List α}
    (Done : α → State → Prop) (hdo : ∀ a ∈ l, ∀ s s', f s a = some s' → Done a s')
    (hkeep : ∀ a ∈ l, ∀ b s s', Done b s → f s a = some s' → Done b s') {s s' : State}
    (h : l.foldlM f s = some s') : ∀ a ∈ l, Done a s' := by
  induction l generalizing s with
  | nil => simp
  | cons a rest ih =>
      have hkeep' : ∀ b ∈ rest, ∀ c s s', Done c s → f s b = some s' → Done c s' :=
        fun b hb => hkeep b (List.mem_cons_of_mem _ hb)
      simp only [List.foldlM_cons, Option.bind_eq_bind, Option.bind_eq_some_iff] at h
      obtain ⟨t, ht, hrest⟩ := h
      refine List.forall_mem_cons.2 ⟨?_, ?_⟩
      · exact foldlM_invariant_of_mem (fun b hb => hkeep' b hb a)
          (hdo a List.mem_cons_self s t ht) hrest
      · exact ih (fun b hb => hdo b (List.mem_cons_of_mem _ hb)) hkeep' hrest

/-- What the iterations of a loop log, each in the state before it, down to the first that fails. -/
def loopLog {α β : Type*} (f : State → α → Option State) (log : State → α → List β) :
    List α → State → List β
  | [], _ => []
  | a :: rest, s =>
      match f s a with
      | none => log s a
      | some s' => log s a ++ loopLog f log rest s'

theorem loopLog_cons {α β : Type*} {f : State → α → Option State} {log : State → α → List β}
    {a : α} {s s' : State} (h : f s a = some s') (rest : List α) :
    loopLog f log (a :: rest) s = log s a ++ loopLog f log rest s' := by
  rw [loopLog, h]

/-! ## Runs on a list of actions -/

/-- The state after the actions of a list, taken in order. -/
def run (M : Machine State Action) : List Action → State → Option State
  | [], s => some s
  | a :: rest, s =>
      match M.step a s with
      | none => none
      | some s' => M.run rest s'

theorem run_append (acts more : List Action) (s : State) :
    M.run (acts ++ more) s = (M.run acts s).bind (M.run more) := by
  induction acts generalizing s with
  | nil => rfl
  | cons a rest ih =>
      rw [List.cons_append, run, run]
      cases M.step a s with
      | none => rfl
      | some t => exact ih t

/-- What every step keeps a run keeps. -/
theorem run_invariant {Inv : State → Prop}
    (hstep : ∀ a s s', Inv s → M.step a s = some s' → Inv s') {s s' : State} (hs : Inv s)
    {acts : List Action} (h : M.run acts s = some s') : Inv s' := by
  induction acts generalizing s with
  | nil => simp only [run, Option.some.injEq] at h; exact h ▸ hs
  | cons a rest ih =>
      rw [run] at h
      cases hnext : M.step a s with
      | none => simp [hnext] at h
      | some t => rw [hnext] at h; exact ih (hstep a s t hs hnext) h

theorem reachable_run {s s' : State} (hs : M.Reachable s) {acts : List Action}
    (h : M.run acts s = some s') : M.Reachable s' :=
  run_invariant (fun _ _ _ => Reachable.next) hs h

/-- A run whose last state passes a test reaches a state that passes it. -/
theorem exists_reachable_of_run (M : Machine State Action) (acts : List Action)
    (test : State → Bool)
    (h : (M.run acts M.initial).any test = true) : ∃ s, M.Reachable s ∧ test s = true := by
  cases hrun : M.run acts M.initial with
  | none => simp [hrun] at h
  | some s => exact ⟨s, reachable_run .initial hrun, by simpa [hrun] using h⟩

/-- The machine that takes only the steps that meet `guard`. -/
def restrict (M : Machine State Action) (guard : Action → State → Prop)
    [∀ a s, Decidable (guard a s)] : Machine State Action where
  initial := M.initial
  step a s := if guard a s then M.step a s else none

theorem reachableBy_of_restrict [∀ a s, Decidable (guard a s)] {s : State}
    (hs : (M.restrict guard).Reachable s) : M.ReachableBy guard s := by
  refine hs.invariant .initial fun a s s' _ hs h => ?_
  simp only [restrict] at h
  split at h
  · exact .step hs ‹_› h
  · cases h

/-- The same with a guard that each step of the run meets. -/
theorem exists_reachableBy_of_run (M : Machine State Action) (guard : Action → State → Prop)
    [∀ a s, Decidable (guard a s)] (acts : List Action) (test : State → Bool)
    (h : ((M.restrict guard).run acts M.initial).any test = true) :
    ∃ s, M.ReachableBy guard s ∧ test s = true := by
  obtain ⟨s, hs, htest⟩ := exists_reachable_of_run (M.restrict guard) acts test h
  exact ⟨s, reachableBy_of_restrict hs, htest⟩

/-! ## Observers -/

/-- The machine with a log of what each step notes in the state before it. -/
def observe {Note : Type*} (M : Machine State Action) (note : Action → State → List Note) :
    Machine (State × List Note) Action where
  initial := (M.initial, [])
  step a p := (M.step a p.1).map fun s => (s, p.2 ++ note a p.1)

theorem observe_step {Note : Type*} {note : Action → State → List Note} {a : Action}
    {p p' : State × List Note} :
    (M.observe note).step a p = some p' ↔
      M.step a p.1 = some p'.1 ∧ p'.2 = p.2 ++ note a p.1 := by
  rw [observe, Option.map_eq_some_iff]
  constructor
  · rintro ⟨s, hs, rfl⟩
    exact ⟨hs, rfl⟩
  · rintro ⟨hs, hlog⟩
    exact ⟨p'.1, hs, by rw [← hlog]⟩

/-- Observed or not, the runs are the same. -/
theorem ReachableBy.unobserved {Note : Type*} {note : Action → State → List Note}
    {p : State × List Note}
    (hp : (M.observe note).ReachableBy (fun a p => guard a p.1) p) : M.ReachableBy guard p.1 := by
  induction hp with
  | initial => exact .initial
  | step _ hguard h ih => exact .step ih hguard (observe_step.mp h).1

theorem ReachableBy.observed {s : State} (hs : M.ReachableBy guard s) {Note : Type*}
    (note : Action → State → List Note) :
    ∃ log, (M.observe note).ReachableBy (fun a p => guard a p.1) (s, log) := by
  induction hs with
  | initial => exact ⟨[], .initial⟩
  | @step s s' a _ hguard h ih =>
      obtain ⟨log, hlog⟩ := ih
      exact ⟨log ++ note a s, .step hlog hguard (observe_step.mpr ⟨h, rfl⟩)⟩

/-! ## Simulation -/

/-- `N` follows `M` along `abs` on the states satisfying `Known`: it answers every guarded
step of `M` by one step of its own or by standing still. -/
def Follows (M : Machine State Action) (guard : Action → State → Prop)
    (N : Machine State' Action') (abs : State → State') (Known : State → Prop) : Prop :=
  abs M.initial = N.initial ∧ ∀ a s s', guard a s → Known s → N.Reachable (abs s) →
    M.step a s = some s' → Known s' ∧ (abs s' = abs s ∨ ∃ b, N.step b (abs s) = some (abs s'))

/-- Along a simulation the image of every state reached is reachable, and `Known` holds. -/
theorem Follows.reachable {N : Machine State' Action'} {abs : State → State'}
    {Known : State → Prop} (h : M.Follows guard N abs Known) (hinit : Known M.initial)
    {s : State} (hs : M.ReachableBy guard s) : Known s ∧ N.Reachable (abs s) := by
  induction hs with
  | initial => exact ⟨hinit, h.1 ▸ .initial⟩
  | step _ hguard hstep ih =>
      obtain ⟨hknown, hmatch⟩ := h.2 _ _ _ hguard ih.1 ih.2 hstep
      refine ⟨hknown, ?_⟩
      rcases hmatch with heq | ⟨b, hb⟩
      · exact heq ▸ ih.2
      · exact ih.2.next hb

end Machine
