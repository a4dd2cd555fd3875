import Mathlib.Tactic.Common

/-!
# Reading a stream that arrives in pieces

A stream arrives as a list of non-empty pieces, with failures among them; behind the last it has
ended.  One `recv` gives at most one piece, and a `receive` of a given size repeats `recv` until
it has that many items, a failure or the end.  How the stream is cut into pieces makes no
difference to what is received: the lemmas here speak of the items only.
-/

/-- What one reading finds: some items, or a failure. -/
inductive Arrival (β : Type*)
  | piece (first : β) (rest : List β)
  | failure
deriving DecidableEq, Repr

/-- How a reading of a given size ends. -/
inductive Reception
  | complete | ended | failed
deriving DecidableEq, Repr

/-- The items received, how the reading ended, and what is still to arrive. -/
structure Receipt (β : Type*) where
  items : List β
  reception : Reception
  rest : List (Arrival β)
deriving DecidableEq, Repr

namespace Arrival

variable {β : Type*}

/-! ## Readings -/

/-- The items of an arrival. -/
def items : Arrival β → List β
  | .piece first rest => first :: rest
  | .failure => []

/-- The items of a stream, without its cuts and failures. -/
def stream (arrivals : List (Arrival β)) : List β :=
  arrivals.flatMap items

/-- What is left of a piece, in front of what arrives behind it. -/
def putBack : List β → List (Arrival β) → List (Arrival β)
  | [], arrivals => arrivals
  | first :: rest, arrivals => .piece first rest :: arrivals

/-- One reading of at most `size` items. -/
def recv (size : ℕ) : List (Arrival β) → Receipt β
  | [] => ⟨[], .ended, []⟩
  | .failure :: arrivals => ⟨[], .failed, arrivals⟩
  | .piece first rest :: arrivals =>
      ⟨(first :: rest).take size, .complete, putBack ((first :: rest).drop size) arrivals⟩

/-- Readings until `size` items have been received. -/
def receive : ℕ → List (Arrival β) → Receipt β
  | 0, arrivals => ⟨[], .complete, arrivals⟩
  | _ + 1, [] => ⟨[], .ended, []⟩
  | _ + 1, .failure :: arrivals => ⟨[], .failed, arrivals⟩
  | size + 1, .piece first rest :: arrivals =>
      if rest.length ≤ size then
        -- the whole piece is taken, and what is missing comes from the next
        let receipt := receive (size - rest.length) arrivals
        { receipt with items := first :: rest ++ receipt.items }
      else
        ⟨(first :: rest).take (size + 1), .complete,
          putBack ((first :: rest).drop (size + 1)) arrivals⟩

/-- A receipt is the loop over `recv`: what one reading gives, and then what is missing. -/
theorem receive_loop (size : ℕ) (arrivals : List (Arrival β)) :
    receive (size + 1) arrivals =
      match recv (size + 1) arrivals with
      | ⟨items, .complete, rest⟩ =>
          { receive (size + 1 - items.length) rest with
            items := items ++ (receive (size + 1 - items.length) rest).items }
      | receipt => receipt := by
  match arrivals with
  | [] => rfl
  | .failure :: arrivals => rfl
  | .piece first rest :: arrivals =>
      simp only [receive, recv]
      split
      · rename_i hle
        have htake : (first :: rest).take (size + 1) = first :: rest :=
          List.take_of_length_le (by simpa using hle)
        have hdrop : (first :: rest).drop (size + 1) = [] :=
          List.drop_eq_nil_of_le (by simpa using hle)
        simp [htake, hdrop, putBack]
      · rename_i hlt
        have hlength : ((first :: rest).take (size + 1)).length = size + 1 :=
          List.length_take_of_le (by simp only [List.length_cons]; omega)
        simp only [hlength, Nat.sub_self, receive, List.append_nil]

@[simp] theorem stream_nil : stream ([] : List (Arrival β)) = [] := rfl

@[simp] theorem stream_cons (arrival : Arrival β) (arrivals : List (Arrival β)) :
    stream (arrival :: arrivals) = arrival.items ++ stream arrivals := rfl

@[simp] theorem stream_putBack (items : List β) (arrivals : List (Arrival β)) :
    stream (putBack items arrivals) = items ++ stream arrivals := by
  cases items <;> rfl

/-! ## What is received -/

@[simp] theorem receive_zero (arrivals : List (Arrival β)) :
    receive 0 arrivals = ⟨[], .complete, arrivals⟩ := by
  cases arrivals <;> rfl

/-- Nothing of the stream is lost, doubled or moved. -/
theorem receive_stream (size : ℕ) (arrivals : List (Arrival β)) :
    (receive size arrivals).items ++ stream (receive size arrivals).rest = stream arrivals := by
  induction arrivals generalizing size with
  | nil => cases size <;> rfl
  | cons arrival arrivals ih =>
      cases size with
      | zero => rfl
      | succ size =>
          cases arrival with
          | failure => rfl
          | piece first rest =>
              simp only [receive]
              split
              · simp [items, ih]
              · simp [items, ← List.append_assoc]

/-- A reading that is complete has all the items asked for, any other has fewer. -/
theorem length_receive (size : ℕ) (arrivals : List (Arrival β)) :
    ((receive size arrivals).reception = .complete →
      (receive size arrivals).items.length = size) ∧
    ((receive size arrivals).reception ≠ .complete →
      (receive size arrivals).items.length < size) := by
  induction arrivals generalizing size with
  | nil => cases size <;> simp [receive]
  | cons arrival arrivals ih =>
      cases size with
      | zero => simp
      | succ size =>
          cases arrival with
          | failure => simp [receive]
          | piece first rest =>
              simp only [receive]
              split
              · obtain ⟨hcomplete, hless⟩ := ih (size - rest.length)
                constructor
                · intro h
                  have := hcomplete h
                  simp only [List.length_append, List.length_cons]
                  omega
                · intro h
                  have := hless h
                  simp only [List.length_append, List.length_cons]
                  omega
              · refine ⟨fun _ => ?_, fun h => absurd rfl h⟩
                rw [List.length_take_of_le (by simp only [List.length_cons]; omega)]

/-- A reading that is complete has the next items of the stream. -/
theorem items_receive {size : ℕ} {arrivals : List (Arrival β)}
    (h : (receive size arrivals).reception = .complete) :
    (receive size arrivals).items = (stream arrivals).take size ∧
      stream (receive size arrivals).rest = (stream arrivals).drop size := by
  have hstream := receive_stream size arrivals
  have hlength := (length_receive size arrivals).1 h
  constructor
  · calc (receive size arrivals).items
        = ((receive size arrivals).items ++ stream (receive size arrivals).rest).take size :=
          (List.take_left' hlength).symm
      _ = (stream arrivals).take size := by rw [hstream]
  · calc stream (receive size arrivals).rest
        = ((receive size arrivals).items ++ stream (receive size arrivals).rest).drop size :=
          (List.drop_left' hlength).symm
      _ = (stream arrivals).drop size := by rw [hstream]

/-! ## Streams without failures -/

/-- No reading fails. -/
def Steady (arrivals : List (Arrival β)) : Prop :=
  .failure ∉ arrivals

theorem steady_putBack {items : List β} {arrivals : List (Arrival β)} (h : Steady arrivals) :
    Steady (putBack items arrivals) := by
  cases items with
  | nil => exact h
  | cons first rest => simpa [putBack, Steady] using h

/-- As long as the stream has them, a reading without failures is complete, however the stream
is cut. -/
theorem receive_of_steady {size : ℕ} {arrivals : List (Arrival β)} (h : Steady arrivals)
    (hsize : size ≤ (stream arrivals).length) :
    (receive size arrivals).reception = .complete ∧ Steady (receive size arrivals).rest := by
  induction arrivals generalizing size with
  | nil =>
      obtain rfl : size = 0 := by simpa using hsize
      exact ⟨rfl, h⟩
  | cons arrival arrivals ih =>
      cases size with
      | zero => exact ⟨rfl, h⟩
      | succ size =>
          cases arrival with
          | failure => exact absurd List.mem_cons_self h
          | piece first rest =>
              have hrest : Steady arrivals := fun hmem => h (List.mem_cons_of_mem _ hmem)
              simp only [stream_cons, items, List.length_append, List.length_cons] at hsize
              simp only [receive]
              split
              · exact ih hrest (by omega)
              · exact ⟨rfl, steady_putBack hrest⟩

/-- A reading without failures of more than the stream has comes to its end. -/
theorem receive_of_short {size : ℕ} {arrivals : List (Arrival β)} (h : Steady arrivals)
    (hsize : (stream arrivals).length < size) :
    (receive size arrivals).reception = .ended ∧ (receive size arrivals).rest = [] := by
  induction arrivals generalizing size with
  | nil =>
      cases size with
      | zero => exact absurd hsize (Nat.not_lt_zero _)
      | succ size => exact ⟨rfl, rfl⟩
  | cons arrival arrivals ih =>
      cases size with
      | zero => exact absurd hsize (Nat.not_lt_zero _)
      | succ size =>
          cases arrival with
          | failure => exact absurd List.mem_cons_self h
          | piece first rest =>
              have hrest : Steady arrivals := fun hmem => h (List.mem_cons_of_mem _ hmem)
              simp only [stream_cons, items, List.length_append, List.length_cons] at hsize
              simp only [receive]
              rw [if_pos (by omega)]
              exact ih hrest (by omega)

end Arrival
