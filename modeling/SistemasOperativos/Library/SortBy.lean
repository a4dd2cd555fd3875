import Mathlib.Data.List.Sort

/-!
# Sorting functions that sort by their comparator

A sorting function of a library whose code is not at hand is a value of `SortBy le`: the
function together with the two facts its documentation gives.
-/

/-- A function that rearranges every list into the order of `le`. -/
structure SortBy {α : Type*} (le : α → α → Bool) where
  sort : List α → List α
  perm : ∀ l, (sort l).Perm l
  sorted : ∀ l, (sort l).Pairwise fun a b => le a b = true

namespace SortBy

variable {α : Type*} {le : α → α → Bool}

/-- Insertion sort, for a total and transitive comparator. -/
def insertion (total : ∀ a b, le a b = true ∨ le b a = true)
    (trans : ∀ a b c, le a b = true → le b c = true → le a c = true) : SortBy le :=
  haveI : Std.Total fun a b => le a b = true := ⟨total⟩
  haveI : IsTrans α fun a b => le a b = true := ⟨trans⟩
  { sort := List.insertionSort fun a b => le a b = true
    perm := List.perm_insertionSort _
    sorted := List.pairwise_insertionSort _ }

/-- In an ordered list the head comes before everything behind it. -/
theorem head_le {a b : α} {l : List α} (h : (a :: l).Pairwise fun a b => le a b = true)
    (hb : b ∈ l) : le a b = true :=
  (List.pairwise_cons.1 h).1 b hb

end SortBy
