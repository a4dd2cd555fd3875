import Mathlib.Algebra.BigOperators.Group.List.Basic
import Mathlib.Algebra.GroupWithZero.Nat
import Mathlib.Data.List.Count
import Mathlib.Tactic.Common

/-!
# Weights and tallies of lists

`weigh w l` is the total weight of the items of `l`, and `tally key t l` the number of items
whose key is `t`.  Conservation arguments over many lists become sums of weights: the lemmas
here turn every list operation into addition.
-/

namespace Tally

variable {α β κ : Type*}

/-! ## Weights -/

/-- The total weight of a list. -/
def weigh (w : α → ℕ) (l : List α) : ℕ :=
  (l.map w).sum

variable {w w' v : α → ℕ}

@[simp] theorem weigh_nil : weigh w [] = 0 := rfl

@[simp] theorem weigh_cons (a : α) (l : List α) : weigh w (a :: l) = w a + weigh w l := by
  simp [weigh]

@[simp] theorem weigh_append (l l' : List α) : weigh w (l ++ l') = weigh w l + weigh w l' := by
  simp [weigh]

/-- Mapping the items without touching their weights keeps the weight. -/
theorem weigh_map {f : α → α} (hf : ∀ a, w (f a) = w a) (l : List α) :
    weigh w (l.map f) = weigh w l := by
  simp only [weigh, List.map_map, Function.comp_def, hf]

theorem weigh_perm {l l' : List α} (h : l.Perm l') : weigh w l = weigh w l' :=
  (h.map w).sum_eq

/-- Lists with the same keys have the same weight, if the weight depends on the key only. -/
theorem weigh_congr {key : α → κ} (hw : ∀ a b, key a = key b → w a = w b) {l l' : List α}
    (h : l.map key = l'.map key) : weigh w l = weigh w l' := by
  induction l generalizing l' with
  | nil => rw [List.map_eq_nil_iff.1 h.symm]
  | cons a l ih =>
      cases l' with
      | nil => simp at h
      | cons b l' =>
          simp only [List.map_cons, List.cons.injEq] at h
          rw [weigh_cons, weigh_cons, hw a b h.1, ih h.2]

theorem weigh_le (h : ∀ a, w' a ≤ w a + v a) (l : List α) :
    weigh w' l ≤ weigh w l + weigh v l := by
  induction l with
  | nil => exact Nat.le_refl 0
  | cons a l ih =>
      have := h a
      simp only [weigh_cons]
      omega

theorem weigh_eq_zero {l : List α} : weigh w l = 0 ↔ ∀ a ∈ l, w a = 0 := by
  induction l with
  | nil => simp
  | cons a l ih => simp [ih]

/-- Replacing the `i`-th item exchanges its weight. -/
theorem weigh_set {l : List α} {i : ℕ} {old : α} (new : α) (h : l[i]? = some old) :
    weigh w (l.set i new) + w old = weigh w l + w new := by
  induction l generalizing i with
  | nil => simp at h
  | cons b l ih =>
      cases i with
      | zero =>
          simp only [List.getElem?_cons_zero, Option.some.injEq] at h
          subst h
          simp only [List.set_cons_zero, weigh_cons]
          omega
      | succ i =>
          have := ih (by simpa using h)
          simp only [List.set_cons_succ, weigh_cons]
          omega

/-- Taking the `i`-th item out takes its weight out. -/
theorem weigh_eraseIdx {l : List α} {i : ℕ} {old : α} (h : l[i]? = some old) :
    weigh w (l.eraseIdx i) + w old = weigh w l := by
  induction l generalizing i with
  | nil => simp at h
  | cons b l ih =>
      cases i with
      | zero =>
          simp only [List.getElem?_cons_zero, Option.some.injEq] at h
          subst h
          simp only [List.eraseIdx_cons_zero, weigh_cons]
          omega
      | succ i =>
          have := ih (by simpa using h)
          simp only [List.eraseIdx_cons_succ, weigh_cons]
          omega

/-- In a list of weight one at most, one item at most has a weight. -/
theorem eq_of_weigh_le_one {l : List α} {i j : ℕ} {a b : α} (h : weigh w l ≤ 1)
    (hi : l[i]? = some a) (hj : l[j]? = some b) (ha : 0 < w a) (hb : 0 < w b) : i = j := by
  induction l generalizing i j with
  | nil => simp at hi
  | cons c l ih =>
      rw [weigh_cons] at h
      have hrest : ∀ d ∈ l, 0 < w d → w c = 0 := by
        intro d hd hpos
        by_contra hne
        have hzero := weigh_eq_zero.1 (show weigh w l = 0 by omega) d hd
        omega
      cases i with
      | zero =>
          obtain rfl : c = a := by simpa using hi
          cases j with
          | zero => rfl
          | succ j =>
              have := hrest b (List.mem_of_getElem? (by simpa using hj)) hb
              omega
      | succ i =>
          cases j with
          | zero =>
              obtain rfl : c = b := by simpa using hj
              have := hrest a (List.mem_of_getElem? (by simpa using hi)) ha
              omega
          | succ j =>
              exact congrArg Nat.succ (ih (by omega) (by simpa using hi) (by simpa using hj))

theorem weigh_flatMap (f : β → List α) (l : List β) :
    weigh w (l.flatMap f) = weigh (fun b => weigh w (f b)) l := by
  induction l with
  | nil => rfl
  | cons b l ih => simp only [List.flatMap_cons, weigh_append, weigh_cons, ih]

/-! ## Tallies -/

variable [DecidableEq κ] {key : α → κ} {t : κ}

/-- The contribution of one item: one if its key is `t`. -/
def one (key : α → κ) (t : κ) (a : α) : ℕ :=
  if key a = t then 1 else 0

/-- The number of items of `l` with key `t`. -/
def tally (key : α → κ) (t : κ) (l : List α) : ℕ :=
  weigh (one key t) l

@[simp] theorem one_self (a : α) : one key (key a) a = 1 := if_pos rfl

theorem one_of_ne {a : α} (h : key a ≠ t) : one key t a = 0 := if_neg h

theorem one_congr {a b : α} (h : key a = key b) : one key t a = one key t b := by
  simp only [one, h]

@[simp] theorem weigh_one (l : List α) : weigh (one key t) l = tally key t l := rfl

@[simp] theorem tally_nil : tally key t [] = 0 := rfl

@[simp] theorem tally_cons (a : α) (l : List α) :
    tally key t (a :: l) = one key t a + tally key t l :=
  weigh_cons a l

@[simp] theorem tally_append (l l' : List α) :
    tally key t (l ++ l') = tally key t l + tally key t l' :=
  weigh_append l l'

theorem tally_eq_count (l : List α) : tally key t l = (l.map key).count t := by
  induction l with
  | nil => rfl
  | cons a l ih =>
      rw [tally_cons, List.map_cons, List.count_cons, ih, one]
      simp only [beq_iff_eq]
      omega

theorem tally_pos {l : List α} : 0 < tally key t l ↔ ∃ a ∈ l, key a = t := by
  rw [tally_eq_count, List.count_pos_iff, List.mem_map]

/-- An item that occurs once over several lists occurs once in one of them and nowhere
else. -/
theorem exists_unique_of_tally_flatMap {f : β → List α} {l : List β} (hnodup : l.Nodup)
    (h : tally key t (l.flatMap f) = 1) :
    ∃ b ∈ l, tally key t (f b) = 1 ∧ ∀ b' ∈ l, b' ≠ b → tally key t (f b') = 0 := by
  induction l with
  | nil => simp at h
  | cons b l ih =>
      rw [List.flatMap_cons, tally_append] at h
      obtain ⟨hb, hl⟩ := List.nodup_cons.1 hnodup
      rcases Nat.eq_zero_or_pos (tally key t (f b)) with hzero | hpos
      · obtain ⟨b₀, hmem, hone, hothers⟩ := ih hl (by omega)
        refine ⟨b₀, List.mem_cons_of_mem b hmem, hone, fun b' hb' hne => ?_⟩
        rcases List.mem_cons.1 hb' with rfl | hb'
        · exact hzero
        · exact hothers b' hb' hne
      · have hrest : tally key t (l.flatMap f) = 0 := by omega
        refine ⟨b, List.mem_cons_self, by omega, fun b' hb' hne => ?_⟩
        rcases List.mem_cons.1 hb' with rfl | hb'
        · exact absurd rfl hne
        · rw [tally, weigh_flatMap, weigh_eq_zero] at hrest
          exact hrest b' hb'

end Tally
