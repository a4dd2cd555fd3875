import SistemasOperativos.Library.Machine

/-!
# Runs that come to an end

A machine is given work from outside, and each of its steps does some of it.  `work` counts what
is left to do in a state, and `budget` what has been brought in up to it.  Where every step does
at least one unit, no run is longer than what has been brought in; and if from some state on
nothing more is, a state is reached in which none of the machine's own actions can be taken.
-/

namespace Machine

variable {State Action : Type*} {M : Machine State Action} {work budget : State → ℕ}

/-- Every step does one unit of work at least, of what there was or what it brings in. -/
def Spends (M : Machine State Action) (work budget : State → ℕ) : Prop :=
  ∀ a s s', M.Reachable s → M.step a s = some s' → work s' + budget s + 1 ≤ work s + budget s'

/-- A run is no longer than the work there was and has been brought in, less what is left. -/
theorem Spends.length_le (h : M.Spends work budget) {s s' : State} (hs : M.Reachable s)
    {acts : List Action} (hrun : M.run acts s = some s') :
    acts.length + work s' + budget s ≤ work s + budget s' := by
  induction acts generalizing s with
  | nil =>
      simp only [run, Option.some.injEq] at hrun
      subst hrun
      simp
  | cons a rest ih =>
      rw [run] at hrun
      cases hnext : M.step a s with
      | none => simp [hnext] at hrun
      | some t =>
          rw [hnext] at hrun
          have hfirst := h a s t hs hnext
          have hrest := ih (hs.next hnext) hrun
          rw [List.length_cons]
          omega

end Machine
