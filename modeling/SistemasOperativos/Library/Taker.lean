import Mathlib.Data.List.Forall2
import Mathlib.Tactic.Common

/-!
# Taking values from a buffer

A taker reads a value from a buffer at an offset and moves the offset past it; it is `none`
where it would leave the buffer.  `Parses taker L` says which items it takes for which values:
`L a items` is the language of the taker.  The rules compose takers and their languages, so that
a statement about a decoder, forwards (it takes back what an encoder wrote) or backwards (what
it takes is well formed), is read off its language.
-/

/-- A buffer and the offset up to which it has been read. -/
structure Cursor (β : Type) where
  buffer : List β
  offset : ℕ

/-- A program that takes values from a buffer. -/
abbrev Taker (β : Type) := StateT (Cursor β) Option

namespace Taker

variable {β α γ : Type}

@[simp] theorem pure_apply (a : α) (cursor : Cursor β) :
    (pure a : Taker β α) cursor = some (a, cursor) := rfl

@[simp] theorem bind_apply (taker : Taker β α) (f : α → Taker β γ) (cursor : Cursor β) :
    (taker >>= f) cursor = (taker cursor).bind fun result => f result.1 result.2 := rfl

@[simp] theorem map_apply (f : α → γ) (taker : Taker β α) (cursor : Cursor β) :
    (f <$> taker) cursor = (taker cursor).map fun result => (f result.1, result.2) := by
  cases h : taker cursor <;> simp [Functor.map, StateT.map, h]

/-! ## Takers -/

/-- The next `size` items. -/
def take (size : ℕ) : Taker β (List β) := fun cursor =>
  if cursor.offset + size ≤ cursor.buffer.length then
    some ((cursor.buffer.drop cursor.offset).take size,
      { cursor with offset := cursor.offset + size })
  else none

/-- The same taker `n` times. -/
def times (taker : Taker β α) : ℕ → Taker β (List α)
  | 0 => pure []
  | n + 1 => do
      let a ← taker
      let rest ← times taker n
      pure (a :: rest)

/-- A value that a function does not accept is `none`. -/
def refine (f : γ → Option α) (taker : Taker β γ) : Taker β α := do
  let c ← taker
  match f c with
  | some a => pure a
  | none => failure

/-! ## Languages -/

/-- From any place of a buffer the taker takes items of its language, and no others. -/
def Parses (taker : Taker β α) (L : α → List β → Prop) : Prop :=
  ∀ before rest a cursor, taker ⟨before ++ rest, before.length⟩ = some (a, cursor) ↔
    ∃ items after, rest = items ++ after ∧ L a items ∧
      cursor = ⟨before ++ rest, before.length + items.length⟩

variable {taker : Taker β α} {L : α → List β → Prop}

/-- A taker takes the items of its language, whatever stands before and after them. -/
theorem Parses.take_eq (h : Parses taker L) {a : α} {items : List β} (hitems : L a items)
    (before after : List β) : taker ⟨before ++ (items ++ after), before.length⟩ =
      some (a, ⟨before ++ (items ++ after), before.length + items.length⟩) :=
  (h before (items ++ after) a _).2 ⟨items, after, rfl, hitems, rfl⟩

/-- A taker runs through a buffer exactly if the buffer begins with items of its language. -/
theorem Parses.isSome_iff (h : Parses taker L) (buffer : List β) :
    (taker ⟨buffer, 0⟩).isSome ↔ ∃ a items after, buffer = items ++ after ∧ L a items := by
  rw [Option.isSome_iff_exists]
  constructor
  · rintro ⟨⟨a, cursor⟩, htake⟩
    obtain ⟨items, after, hbuffer, hitems, -⟩ := (h [] buffer a cursor).1 htake
    exact ⟨a, items, after, hbuffer, hitems⟩
  · rintro ⟨a, items, after, rfl, hitems⟩
    exact ⟨_, h.take_eq hitems [] after⟩

theorem Parses.congr {L' : α → List β → Prop} (h : Parses taker L)
    (hL : ∀ a items, L' a items ↔ L a items) : Parses taker L' := by
  intro before rest a cursor
  rw [h before rest a cursor]
  simp only [hL]

theorem parses_pure (a : α) :
    Parses (pure a : Taker β α) (fun b items => b = a ∧ items = []) := by
  intro before rest b cursor
  simp only [pure_apply, Option.some.injEq, Prod.mk.injEq]
  constructor
  · rintro ⟨rfl, rfl⟩
    exact ⟨[], rest, rfl, ⟨rfl, rfl⟩, rfl⟩
  · rintro ⟨items, after, -, ⟨rfl, rfl⟩, rfl⟩
    exact ⟨rfl, rfl⟩

/-- Taking one value and then another. -/
theorem Parses.bind {f : α → Taker β γ} {M : α → γ → List β → Prop} (h : Parses taker L)
    (hf : ∀ a, Parses (f a) (M a)) :
    Parses (taker >>= f) fun c items =>
      ∃ a first second, items = first ++ second ∧ L a first ∧ M a c second := by
  intro before rest c cursor
  simp only [bind_apply, Option.bind_eq_some_iff]
  constructor
  · rintro ⟨⟨a, middle⟩, htaker, hrest⟩
    obtain ⟨first, after, rfl, hfirst, rfl⟩ := (h before rest a middle).1 htaker
    have hrest' : f a ⟨(before ++ first) ++ after, (before ++ first).length⟩ = some (c, cursor) := by
      simpa using hrest
    obtain ⟨second, after', rfl, hsecond, rfl⟩ := (hf a _ _ _ _).1 hrest'
    exact ⟨first ++ second, after', by simp, ⟨a, first, second, rfl, hfirst, hsecond⟩,
      by simp; omega⟩
  · rintro ⟨items, after, rfl, ⟨a, first, second, rfl, hfirst, hsecond⟩, rfl⟩
    refine ⟨(a, ⟨before ++ (first ++ (second ++ after)), before.length + first.length⟩), ?_, ?_⟩
    · simpa using h.take_eq hfirst before (second ++ after)
    · have := (hf a).take_eq hsecond (before ++ first) after
      simp only [List.append_assoc, List.length_append] at this ⊢
      rw [this]
      simp [Nat.add_assoc]

theorem parses_take (size : ℕ) :
    Parses (take size : Taker β (List β)) fun a items => a = items ∧ items.length = size := by
  intro before rest a cursor
  unfold take
  simp only [List.length_append, Nat.add_le_add_iff_left, List.drop_left]
  constructor
  · intro h
    split at h
    · rename_i hle
      cases h
      exact ⟨rest.take size, rest.drop size, (List.take_append_drop size rest).symm,
        ⟨rfl, List.length_take_of_le hle⟩, by rw [List.length_take_of_le hle]⟩
    · cases h
  · rintro ⟨items, after, rfl, ⟨rfl, rfl⟩, rfl⟩
    rw [if_pos (by simp), List.take_left]

/-- The values and items of a repetition. -/
theorem Parses.times (h : Parses taker L) (n : ℕ) :
    Parses (times taker n) fun values items => values.length = n ∧
      ∃ pieces, items = pieces.flatten ∧ List.Forall₂ L values pieces := by
  induction n with
  | zero =>
      refine (parses_pure []).congr fun values items => ?_
      constructor
      · rintro ⟨hlength, pieces, rfl, hpieces⟩
        obtain rfl := List.eq_nil_of_length_eq_zero hlength
        cases hpieces
        exact ⟨rfl, rfl⟩
      · rintro ⟨rfl, rfl⟩
        exact ⟨rfl, [], rfl, .nil⟩
  | succ n ih =>
      refine (h.bind fun a => ih.bind fun rest => parses_pure (a :: rest)).congr
        fun values items => ?_
      constructor
      · rintro ⟨hlength, pieces, rfl, hpieces⟩
        cases hpieces with
        | nil => cases hlength
        | @cons a piece rest pieces hpiece hrest =>
            exact ⟨a, piece, pieces.flatten, rfl, hpiece, rest, pieces.flatten, [],
              (List.append_nil _).symm, ⟨by simpa using hlength, pieces, rfl, hrest⟩, rfl, rfl⟩
      · rintro ⟨a, piece, rest, rfl, hpiece, values', first, second, rfl,
          ⟨hlength, pieces, rfl, hpieces⟩, rfl, rfl⟩
        exact ⟨by simp [hlength], piece :: pieces, by simp, .cons hpiece hpieces⟩

theorem Parses.refine {K : γ → List β → Prop} {taker : Taker β γ} {f : γ → Option α}
    (h : Parses taker K) :
    Parses (refine f taker) fun a items => ∃ c, f c = some a ∧ K c items := by
  intro before rest a cursor
  simp only [Taker.refine, bind_apply, Option.bind_eq_some_iff]
  constructor
  · rintro ⟨⟨c, middle⟩, htaker, hrest⟩
    obtain ⟨items, after, hrest', hitems, rfl⟩ := (h before rest c middle).1 htaker
    cases hf : f c with
    | none => rw [hf] at hrest; cases hrest
    | some b =>
        rw [hf] at hrest
        cases hrest
        exact ⟨items, after, hrest', ⟨c, hf, hitems⟩, rfl⟩
  · rintro ⟨items, after, rfl, ⟨c, hf, hitems⟩, rfl⟩
    exact ⟨_, h.take_eq hitems before after, by simp [hf]⟩

end Taker
