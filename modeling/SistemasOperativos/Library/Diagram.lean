import SistemasOperativos.Library.Machine
import SistemasOperativos.Library.Tally
import Mathlib.Logic.Relation

/-!
# Items that move along the edges of a diagram

A diagram has nodes, edges between them, a node at which items enter, and a test on the way the
items are spread over the nodes.  Its machine keeps the node of each item: items enter, one after
the other, and move along edges, as long as the result passes the test.

A system that keeps its items in boxes, one box for each node, has such a list of nodes: the item
`t` is at the node in whose box `t` is (`locate`).
-/

/-- Nodes with edges, an entry and a limit on how items are spread. -/
structure Diagram (Node : Type*) where
  entry : Node
  edge : Node → Node → Bool
  fits : List Node → Bool

/-- An item enters, or the item `i` moves to a node. -/
inductive DiagramAction (Node : Type*)
  | enter
  | move (i : ℕ) (node : Node)

namespace Diagram

variable {Node : Type*} (D : Diagram Node)

/-- The nodes of the items after one action. -/
def step : DiagramAction Node → List Node → Option (List Node)
  | .enter, nodes => if D.fits (nodes ++ [D.entry]) then some (nodes ++ [D.entry]) else none
  | .move i node, nodes =>
      match nodes[i]? with
      | none => none
      | some source =>
          if D.edge source node && D.fits (nodes.set i node) then some (nodes.set i node) else none

/-- The machine of a diagram, without items at first. -/
def machine : Machine (List Node) (DiagramAction Node) where
  initial := []
  step := D.step

variable {D} {nodes nodes' : List Node}

/-! ## Steps -/

theorem step_enter (hfits : D.fits (nodes ++ [D.entry]) = true) :
    D.machine.step .enter nodes = some (nodes ++ [D.entry]) :=
  if_pos hfits

theorem step_move {i : ℕ} {source node : Node} (hi : nodes[i]? = some source)
    (hedge : D.edge source node = true) (hfits : D.fits (nodes.set i node) = true) :
    D.machine.step (.move i node) nodes = some (nodes.set i node) := by
  simp only [machine, step, hi, hedge, hfits, Bool.and_self, if_true]

/-- In a step an item enters, or one item takes an edge. -/
theorem step_cases {action : DiagramAction Node} (h : D.machine.step action nodes = some nodes') :
    nodes' = nodes ++ [D.entry] ∨
    ∃ i source node, nodes[i]? = some source ∧ D.edge source node = true ∧
      nodes' = nodes.set i node := by
  cases action with
  | enter =>
      simp only [machine, step] at h
      split at h <;> cases h
      exact .inl rfl
  | move i node =>
      simp only [machine, step] at h
      split at h
      · cases h
      rename_i source hsource
      split at h <;> cases h
      rename_i hallowed
      exact .inr ⟨i, source, node, hsource, (Bool.and_eq_true_iff.1 hallowed).1, rfl⟩

/-- The result of a step passes the test. -/
theorem fits_of_step {action : DiagramAction Node}
    (h : D.machine.step action nodes = some nodes') : D.fits nodes' = true := by
  cases action with
  | enter =>
      simp only [machine, step] at h
      split at h <;> cases h
      assumption
  | move i node =>
      simp only [machine, step] at h
      split at h
      · cases h
      split at h <;> cases h
      rename_i hallowed
      exact (Bool.and_eq_true_iff.1 hallowed).2

theorem fits_of_reachable (hempty : D.fits [] = true) (h : D.machine.Reachable nodes) :
    D.fits nodes = true :=
  h.invariant hempty fun _ _ _ _ _ => fits_of_step

/-- A step takes an item along one edge at most. -/
theorem path_of_step {action : DiagramAction Node} (h : D.machine.step action nodes = some nodes')
    {i : ℕ} {node : Node} (hi : nodes[i]? = some node) :
    ∃ node', nodes'[i]? = some node' ∧
      Relation.ReflTransGen (fun a b => D.edge a b = true) node node' := by
  have hlt := (List.getElem?_eq_some_iff.1 hi).1
  rcases step_cases h with rfl | ⟨j, source, target, hj, hedge, rfl⟩
  · exact ⟨node, by rw [List.getElem?_append_left hlt, hi], .refl⟩
  · by_cases heq : j = i
    · subst heq
      obtain rfl : source = node := Option.some.inj (hj.symm.trans hi)
      exact ⟨target, by simp [hlt], .single hedge⟩
    · exact ⟨node, by rw [List.getElem?_set_ne heq, hi], .refl⟩

/-- Along a run of a machine that answers its steps by steps of the diagram, each item moves along
the edges. -/
theorem path_of_run {State Action : Type*} {M : Machine State Action} {abs : State → List Node}
    (hsteps : ∀ a s s', M.Reachable s → M.step a s = some s' →
      abs s' = abs s ∨ ∃ b, D.machine.step b (abs s) = some (abs s'))
    {acts : List Action} {s s' : State} (hs : M.Reachable s) (h : M.run acts s = some s') {i : ℕ}
    {node : Node} (hi : (abs s)[i]? = some node) :
    ∃ node', (abs s')[i]? = some node' ∧
      Relation.ReflTransGen (fun a b => D.edge a b = true) node node' := by
  induction acts generalizing s node with
  | nil =>
      obtain rfl : s = s' := by simpa [Machine.run] using h
      exact ⟨node, hi, .refl⟩
  | cons a acts ih =>
      rw [Machine.run] at h
      split at h
      · cases h
      rename_i middle hstep
      have hnext : ∃ node', (abs middle)[i]? = some node' ∧
          Relation.ReflTransGen (fun a b => D.edge a b = true) node node' := by
        rcases hsteps a s middle hs hstep with heq | ⟨b, hb⟩
        · exact ⟨node, heq ▸ hi, .refl⟩
        · exact path_of_step hb hi
      obtain ⟨node', hnode', hpath⟩ := hnext
      obtain ⟨last, hlast, hrest⟩ := ih (hs.next hstep) h hnode'
      exact ⟨last, hlast, hpath.trans hrest⟩

/-! ## Items in boxes -/

section Boxes

open Tally

variable {α κ : Type*} [DecidableEq κ] {key : α → κ}

/-- The first node in whose box an item with key `t` is. -/
def locate (key : α → κ) (all : List Node) (box : Node → List α) (t : κ) : Option Node :=
  all.find? fun node => decide (t ∈ (box node).map key)

variable {all : List Node} {box : Node → List α} {t : κ}

theorem locate_congr {box' : Node → List α}
    (h : ∀ node, tally key t (box' node) = tally key t (box node)) :
    locate key all box' t = locate key all box t := by
  have htest : ∀ node, (t ∈ (box' node).map key) = (t ∈ (box node).map key) := by
    intro node
    rw [← List.count_pos_iff, ← List.count_pos_iff, ← tally_eq_count, ← tally_eq_count, h]
  simp only [locate, htest]

/-- An item that is in one box once is at the node of that box. -/
theorem locate_eq_some_iff (hnodup : all.Nodup) (hall : ∀ node, node ∈ all)
    (hone : tally key t (all.flatMap box) = 1) {node : Node} :
    locate key all box t = some node ↔ 0 < tally key t (box node) := by
  obtain ⟨holder, -, hholder, hothers⟩ := exists_unique_of_tally_flatMap hnodup hone
  have hiff : ∀ node, t ∈ (box node).map key ↔ node = holder := by
    intro node
    rw [← List.count_pos_iff, ← tally_eq_count]
    constructor
    · intro hpos
      by_contra hne
      have := hothers node (hall node) hne
      omega
    · rintro rfl
      omega
  have hlocate : locate key all box t = some holder := by
    cases hfind : locate key all box t with
    | none =>
        have := List.find?_eq_none.1 hfind holder (hall holder)
        exact absurd (decide_eq_true ((hiff holder).2 rfl)) this
    | some found =>
        have hfound := List.find?_some (p := fun node => decide (t ∈ (box node).map key)) hfind
        rw [(hiff found).1 (of_decide_eq_true hfound)]
  rw [hlocate, Option.some.injEq, tally_eq_count, List.count_pos_iff, hiff node, eq_comm]

end Boxes

end Diagram
