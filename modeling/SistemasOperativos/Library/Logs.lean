import Mathlib.Tactic.Common

/-!
# Logs

A log grows at its end.  What is said of each of its entries and those before it stays true as
the log grows, and has to be shown for the new entries only.
-/

variable {α : Type*} {Q R : List α → α → Prop} {log more : List α} {a : α}

/-- Every entry of the log stands in `Q` to those before it. -/
def EachAfter (Q : List α → α → Prop) (log : List α) : Prop :=
  ∀ before a after, log = before ++ a :: after → Q before a

namespace EachAfter

theorem nil : EachAfter Q [] := by
  intro before a after h
  simp at h

theorem mono (h : EachAfter Q log) (hQ : ∀ before a, Q before a → R before a) :
    EachAfter R log :=
  fun before a after heq => hQ before a (h before a after heq)

/-- The entries of a longer log are those of the log and the new ones. -/
theorem append_iff : EachAfter Q (log ++ more) ↔
    EachAfter Q log ∧ EachAfter (fun before => Q (log ++ before)) more := by
  constructor
  · refine fun h => ⟨fun before a after heq => ?_, fun before a after heq => ?_⟩
    · exact h before a (after ++ more) (by simp [heq])
    · exact h (log ++ before) a after (by simp [heq])
  · rintro ⟨hold, hnew⟩ before a after heq
    rcases List.append_eq_append_iff.mp heq with ⟨inner, rfl, hmore⟩ | ⟨inner, rfl, hmore⟩
    · exact hnew inner a after hmore
    · cases inner with
      | nil =>
          simpa using hnew [] a after (by simpa using hmore.symm)
      | cons b inner =>
          obtain ⟨rfl, -⟩ := List.cons_eq_cons.mp hmore
          exact hold before a inner rfl

theorem singleton_iff : EachAfter Q [a] ↔ Q [] a := by
  constructor
  · exact fun h => h [] a [] rfl
  · intro h before b after heq
    rcases List.singleton_eq_append_iff.mp heq with ⟨rfl, hb⟩ | ⟨-, hnil⟩
    · obtain rfl := (List.cons_eq_cons.mp hb).1
      exact h
    · cases hnil

/-- One new entry. -/
theorem concat_iff : EachAfter Q (log ++ [a]) ↔ EachAfter Q log ∧ Q log a := by
  rw [append_iff, singleton_iff, List.append_nil]

end EachAfter

/-! ## First entries

`log.eraseDups` has each entry of the log once, where it came first.
-/

namespace FirstEntries

variable [DecidableEq α] {l m : List α}

/-- Entries that have come before do not count. -/
theorem eraseDups_insert_of_subset (h : more ⊆ l) :
    (l ++ more ++ m).eraseDups = (l ++ m).eraseDups := by
  have hnone : more.removeAll l = [] :=
    List.filter_eq_nil_iff.2 fun b hb => by simp [h hb]
  have hold : (l ++ more).eraseDups = l.eraseDups := by
    rw [List.eraseDups_append, hnone, List.eraseDups_nil, List.append_nil]
  have hsame : m.removeAll (l ++ more) = m.removeAll l := by
    refine List.filter_congr fun b _ => ?_
    by_cases hb : b ∈ more
    · simp [h hb]
    · simp [hb]
  rw [List.eraseDups_append, hold, hsame, ← List.eraseDups_append]

/-- An entry that has not come before is the last of the first ones. -/
theorem eraseDups_concat_of_notMem (h : a ∉ l) : (l ++ [a]).eraseDups = l.eraseDups ++ [a] := by
  have hnew : [a].removeAll l = [a] := by simp [List.removeAll, h]
  rw [List.eraseDups_append, hnew]
  rfl

/-- The first entries of the beginning of a log are the beginning of its first entries. -/
theorem eraseDups_prefix (h : l <+: m) : l.eraseDups <+: m.eraseDups := by
  obtain ⟨rest, rfl⟩ := h
  exact ⟨_, List.eraseDups_append.symm⟩

end FirstEntries
