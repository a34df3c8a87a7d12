import Mathlib.Algebra.BigOperators.Group.List.Basic
import Mathlib.Algebra.Order.Group.MinMax

/-!
# Reservoirs

A reservoir has a level that is at most its capacity. At each turn something flows in, what is
beyond the capacity is lost, and then a demand is met if the level allows it. All demands of a
series are met just when no stretch of turns asks for more than the capacity and what flows in
after its first turn.
-/

namespace Gateway.Reservoir

structure Turn (G : Type*) where
  inflow : G
  demand : G

section Totals
variable {G : Type*} [AddCommGroup G]

def inflow (turns : List (Turn G)) : G := (turns.map Turn.inflow).sum

def demand (turns : List (Turn G)) : G := (turns.map Turn.demand).sum

@[simp] theorem inflow_nil : inflow ([] : List (Turn G)) = 0 := rfl

@[simp] theorem demand_nil : demand ([] : List (Turn G)) = 0 := rfl

@[simp] theorem inflow_cons (t : Turn G) (turns : List (Turn G)) :
    inflow (t :: turns) = t.inflow + inflow turns := List.sum_cons

@[simp] theorem demand_cons (t : Turn G) (turns : List (Turn G)) :
    demand (t :: turns) = t.demand + demand turns := List.sum_cons

/-- What flows in during the later ones of the first `n` turns. -/
theorem inflow_drop_take (turns : List (Turn G)) {m n : ℕ} (h : m ≤ n) :
    inflow ((turns.take n).drop m) = inflow (turns.take n) - inflow (turns.take m) := by
  have hsplit : inflow (turns.take n) =
      inflow (turns.take m) + inflow ((turns.take n).drop m) := by
    conv_lhs => rw [← List.take_append_drop m (turns.take n), List.take_take, Nat.min_eq_left h]
    rw [inflow, List.map_append, List.sum_append, ← inflow, ← inflow]
  rw [hsplit, add_sub_cancel_left]

end Totals

variable {G : Type*} [AddCommGroup G] [LinearOrder G] [IsOrderedAddMonoid G]

/-- Every demand is met, from the level on. -/
def Supplies (capacity : G) : G → List (Turn G) → Prop
  | _, [] => True
  | level, t :: turns =>
    t.demand ≤ min (level + t.inflow) capacity ∧
      Supplies capacity (min (level + t.inflow) capacity - t.demand) turns

variable {capacity level : G} {turns : List (Turn G)}

/-- A total that the rest of the turns must pay, with the first one. -/
theorem le_min_sub_add_iff {x a d total paid : G} :
    total ≤ min (x + a) capacity - d + paid ↔
      d + total ≤ x + (a + paid) ∧ d + total ≤ capacity + paid := by
  rw [sub_add_eq_add_sub, le_sub_iff_add_le', ← min_add_add_right, le_min_iff, add_assoc x]

/-- The demands are met just when each of the first turns can be paid with the level, and each
stretch of turns `i` to `j` with the capacity. -/
theorem supplies_iff :
    Supplies capacity level turns ↔
      (∀ j < turns.length,
        demand (turns.take (j + 1)) ≤ level + inflow (turns.take (j + 1))) ∧
      ∀ i j, i ≤ j → j < turns.length →
        demand ((turns.take (j + 1)).drop i) ≤
          capacity + inflow ((turns.take (j + 1)).drop (i + 1)) := by
  -- the first turn leaves the level that the others start from
  induction turns generalizing level with
  | nil => simp [Supplies]
  | cons t turns ih =>
    rw [Supplies, ih]
    simp only [le_min_sub_add_iff, le_min_iff, List.length_cons, List.take_succ_cons, inflow_cons,
      demand_cons]
    constructor
    · rintro ⟨⟨hlevel, hcapacity⟩, hfirst, hstretch⟩
      constructor
      · intro j hj
        cases j with
        | zero => simpa using hlevel
        | succ j => exact (hfirst j (by omega)).1
      · intro i j hij hj
        cases i with
        | zero =>
          cases j with
          | zero => simpa using hcapacity
          | succ j => simpa using (hfirst j (by omega)).2
        | succ i =>
          cases j with
          | zero => omega
          | succ j => simpa using hstretch i j (by omega) (by omega)
    · rintro ⟨hfirst, hstretch⟩
      refine ⟨⟨?_, ?_⟩, ?_, ?_⟩
      · simpa using hfirst 0 (by omega)
      · simpa using hstretch 0 0 le_rfl (by omega)
      · intro j hj
        exact ⟨hfirst (j + 1) (by omega), by simpa using hstretch 0 (j + 1) (by omega) (by omega)⟩
      · intro i j hij hj
        simpa using hstretch (i + 1) (j + 1) (by omega) (by omega)

/-- From a full reservoir on, the stretches decide. -/
theorem supplies_full_iff (h : ∀ t ∈ turns, 0 ≤ t.inflow) :
    Supplies capacity capacity turns ↔ ∀ i j, i ≤ j → j < turns.length →
      demand ((turns.take (j + 1)).drop i) ≤
        capacity + inflow ((turns.take (j + 1)).drop (i + 1)) := by
  rw [supplies_iff]
  constructor
  · exact fun hsupplies => hsupplies.2
  · intro hstretch
    refine ⟨fun j hj => ?_, hstretch⟩
    cases turns with
    | nil => simp at hj
    | cons t turns =>
      have hfirst := hstretch 0 j (Nat.zero_le j) hj
      simp only [List.take_succ_cons, List.drop_zero, Nat.zero_add, List.drop_succ_cons,
        inflow_cons] at hfirst ⊢
      apply hfirst.trans
      apply add_le_add_right
      exact le_add_of_nonneg_left (h t List.mem_cons_self)

end Gateway.Reservoir
