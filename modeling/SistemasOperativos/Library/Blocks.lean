import Mathlib.Algebra.BigOperators.Group.List.Basic
import Mathlib.Algebra.GroupWithZero.Nat
import Mathlib.Data.List.Induction
import Mathlib.Tactic.Common

/-!
# Consecutive blocks

The numbers from 0 on, handed out in blocks of given lengths, one behind the other: `start` is
where a block begins.  Every number handed out is in one place of one block, and later blocks
move no earlier one.
-/

namespace Blocks

variable {lengths rest : List ℕ} {i j k l n p : ℕ}

/-- The first number of block `i`. -/
def start (lengths : List ℕ) (i : ℕ) : ℕ :=
  (lengths.take i).sum

@[simp] theorem start_zero : start lengths 0 = 0 := rfl

theorem start_succ (h : lengths[i]? = some n) : start lengths (i + 1) = start lengths i + n := by
  rw [start, start, List.take_add_one, h, List.sum_append]
  simp

@[simp] theorem start_length : start lengths lengths.length = lengths.sum := by
  rw [start, List.take_length]

theorem start_append (h : i ≤ lengths.length) : start (lengths ++ rest) i = start lengths i := by
  rw [start, start, List.take_append_of_le_length h]

theorem start_mono (h : i ≤ j) : start lengths i ≤ start lengths j := by
  obtain ⟨d, rfl⟩ := Nat.exists_eq_add_of_le h
  rw [start, start, List.take_add, List.sum_append]
  exact Nat.le_add_right _ _

/-- A block ends where the next one begins. -/
theorem start_add_lt_start (hi : lengths[i]? = some n) (hk : k < n) (hij : i < j) :
    start lengths i + k < start lengths j := by
  have hnext : start lengths (i + 1) ≤ start lengths j := start_mono hij
  rw [start_succ hi] at hnext
  omega

theorem start_add_lt_sum (hi : lengths[i]? = some n) (hk : k < n) :
    start lengths i + k < lengths.sum := by
  have hlt := (List.getElem?_eq_some_iff.1 hi).1
  rw [← start_length]
  exact start_add_lt_start hi hk hlt

/-- No number is in two places. -/
theorem start_add_injective (hi : lengths[i]? = some n) (hk : k < n) (hj : lengths[j]? = some p)
    (hl : l < p) (h : start lengths i + k = start lengths j + l) : i = j ∧ k = l := by
  rcases Nat.lt_trichotomy i j with hlt | heq | hgt
  · have := start_add_lt_start hi hk hlt
    omega
  · subst heq
    exact ⟨rfl, by omega⟩
  · have := start_add_lt_start hj hl hgt
    omega

/-- Every number handed out is in some place. -/
theorem exists_start_add (h : p < lengths.sum) :
    ∃ i n k, lengths[i]? = some n ∧ k < n ∧ start lengths i + k = p := by
  induction lengths using List.reverseRecOn with
  | nil => simp at h
  | append_singleton lengths last ih =>
      rw [List.sum_append, List.sum_singleton] at h
      rcases Nat.lt_or_ge p lengths.sum with hlt | hge
      · obtain ⟨i, n, k, hi, hk, heq⟩ := ih hlt
        have hi_lt := (List.getElem?_eq_some_iff.1 hi).1
        refine ⟨i, n, k, ?_, hk, ?_⟩
        · rw [List.getElem?_append_left hi_lt, hi]
        · rw [start_append (Nat.le_of_lt hi_lt), heq]
      · refine ⟨lengths.length, last, p - lengths.sum, ?_, by omega, ?_⟩
        · rw [List.getElem?_concat_length]
        · rw [start_append (Nat.le_refl _), start_length]
          omega

end Blocks
