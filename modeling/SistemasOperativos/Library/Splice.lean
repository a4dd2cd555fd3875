import Mathlib.Tactic.Common

/-!
# Lists that are overwritten in place

`splice l start data` writes `data` over the items of `l` from `start` on, and `slice l start n`
reads `n` items from there.  A list of length `n` represents an array, a function on the positions
below `n`; on arrays a write is `overwrite`, and what is read of disjoint positions is not changed
by it.
-/

namespace Splice

variable {α : Type*}

/-- The items of `l` from `start` on, replaced by those of `data`. -/
def splice (l : List α) (start : ℕ) (data : List α) : List α :=
  l.take start ++ data ++ l.drop (start + data.length)

/-- The `n` items of `l` from `start` on. -/
def slice (l : List α) (start n : ℕ) : List α :=
  (l.drop start).take n

variable {l data : List α} {start n : ℕ}

theorem length_splice (h : start + data.length ≤ l.length) :
    (splice l start data).length = l.length := by
  simp only [splice, List.length_append, List.length_take, List.length_drop]
  omega

theorem length_slice (h : start + n ≤ l.length) : (slice l start n).length = n := by
  simp only [slice, List.length_take, List.length_drop]
  omega

theorem getElem?_slice (i : ℕ) : (slice l start n)[i]? = if i < n then l[start + i]? else none := by
  rw [slice, List.getElem?_take, List.getElem?_drop]

/-- A position has an item of the data written there, or the item it had. -/
theorem getElem?_splice (h : start + data.length ≤ l.length) (i : ℕ) :
    (splice l start data)[i]? =
      if start ≤ i ∧ i < start + data.length then data[i - start]? else l[i]? := by
  have htake : (l.take start).length = start := by
    rw [List.length_take]
    omega
  rw [splice, List.append_assoc]
  by_cases hbefore : i < start
  · rw [List.getElem?_append_left (by omega), List.getElem?_take_of_lt hbefore, if_neg (by omega)]
  · rw [List.getElem?_append_right (by omega), htake]
    by_cases hinside : i < start + data.length
    · rw [List.getElem?_append_left (by omega), if_pos (by omega)]
    · rw [List.getElem?_append_right (by omega), List.getElem?_drop, if_neg (by omega)]
      congr 1
      omega

/-- What is written is read. -/
theorem slice_splice (h : start + data.length ≤ l.length) :
    slice (splice l start data) start data.length = data := by
  apply List.ext_getElem?
  intro i
  rw [getElem?_slice]
  by_cases hi : i < data.length
  · rw [if_pos hi, getElem?_splice h, if_pos (by omega), Nat.add_sub_cancel_left]
  · rw [if_neg hi, List.getElem?_eq_none (by omega)]

/-- A write elsewhere does not change what is read. -/
theorem slice_splice_of_disjoint {start' : ℕ} (h : start + data.length ≤ l.length)
    (hdisjoint : start' + n ≤ start ∨ start + data.length ≤ start') :
    slice (splice l start data) start' n = slice l start' n := by
  apply List.ext_getElem?
  intro i
  rw [getElem?_slice, getElem?_slice]
  by_cases hi : i < n
  · rw [if_pos hi, if_pos hi, getElem?_splice h, if_neg (by omega)]
  · rw [if_neg hi, if_neg hi]

/-- The data written over an array from `start` on. -/
def overwrite (array : ℕ → α) (start : ℕ) (data : List α) (i : ℕ) : α :=
  if start ≤ i then (data[i - start]?).getD (array i) else array i

/-- The items of an array from `start` on. -/
def items (array : ℕ → α) (start n : ℕ) : List α :=
  (List.range n).map fun i => array (start + i)

/-- The list is the array of its length. -/
def Represents (n : ℕ) (l : List α) (array : ℕ → α) : Prop :=
  l.length = n ∧ ∀ i < n, l[i]? = some (array i)

variable {array : ℕ → α} {size : ℕ}

theorem represents_splice (h : Represents size l array) (hinside : start + data.length ≤ size) :
    Represents size (splice l start data) (overwrite array start data) := by
  have hbound : start + data.length ≤ l.length := h.1.symm ▸ hinside
  refine ⟨(length_splice hbound).trans h.1, fun i hi => ?_⟩
  rw [getElem?_splice hbound, overwrite]
  by_cases hwritten : start ≤ i ∧ i < start + data.length
  · rw [if_pos hwritten, if_pos hwritten.1,
      List.getElem?_eq_getElem (show i - start < data.length by omega), Option.getD_some]
  · rw [if_neg hwritten, h.2 i hi]
    by_cases hstart : start ≤ i
    · rw [if_pos hstart, List.getElem?_eq_none (by omega), Option.getD_none]
    · rw [if_neg hstart]

theorem slice_of_represents (h : Represents size l array) (hinside : start + n ≤ size) :
    slice l start n = items array start n := by
  apply List.ext_getElem?
  intro i
  rw [getElem?_slice, items, List.getElem?_map]
  by_cases hi : i < n
  · rw [if_pos hi, h.2 _ (by omega), List.getElem?_range hi, Option.map_some]
  · rw [if_neg hi, List.getElem?_eq_none (by simpa using hi), Option.map_none]

end Splice
