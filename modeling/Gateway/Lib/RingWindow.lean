import Mathlib.Data.Fin.Basic
import Mathlib.Data.List.FinRange
import Mathlib.Data.List.GetD
import Mathlib.Data.List.Nodup
import Mathlib.Data.Nat.ModEq
import Mathlib.Logic.Function.Basic

/-!
# A queue stored in a window of a circular array

`N` cells are addressed by unbounded cursors modulo `N`. A window holds a list
when the list fills the cells from the start cursor on and the other cells are
free: pushing writes the cell after the last one, popping clears the first.
-/

namespace Gateway.RingWindow

variable {N : ℕ} [NeZero N] {α : Type*}

/-- The cell a cursor points at. -/
def slot (N : ℕ) [NeZero N] (cursor : ℕ) : Fin N := Fin.ofNat N cursor

theorem slot_eq_iff {a b : ℕ} : slot N a = slot N b ↔ a % N = b % N := by
  rw [slot, slot, Fin.ext_iff, Fin.val_ofNat, Fin.val_ofNat]

theorem slot_add_inj {start j k : ℕ} (hj : j < N) (hk : k < N) :
    slot N (start + j) = slot N (start + k) ↔ j = k := by
  rw [slot_eq_iff]
  constructor
  · intro h
    have hjk : j % N = k % N := Nat.ModEq.add_left_cancel' start h
    rwa [Nat.mod_eq_of_lt hj, Nat.mod_eq_of_lt hk] at hjk
  · rintro rfl
    rfl

/-- Every cell is within `N` steps of any cursor. -/
theorem exists_slot_add (start : ℕ) (i : Fin N) : ∃ k < N, slot N (start + k) = i := by
  have hN : 0 < N := Nat.pos_of_neZero N
  refine ⟨(N - start % N + i) % N, Nat.mod_lt _ hN, ?_⟩
  rw [slot, Fin.ext_iff, Fin.val_ofNat, Nat.add_mod_mod]
  have hs := Nat.mod_lt start hN
  have hi := i.isLt
  have heq : start + (N - start % N + i) = start / N * N + N + i := by
    have := Nat.div_add_mod start N
    rw [Nat.mul_comm] at this
    omega
  rw [heq, Nat.add_mod, Nat.add_mod_right, Nat.mul_mod_left, Nat.zero_add, Nat.mod_mod,
    Nat.mod_eq_of_lt hi]

/-- The cells hold `q`, in order, from `start` on, and nothing else. -/
structure Window (cells : Fin N → Option α) (start : ℕ) (q : List α) : Prop where
  length_le : q.length ≤ N
  cell : ∀ k < N, cells (slot N (start + k)) = q[k]?

namespace Window

variable {cells : Fin N → Option α} {start : ℕ} {q : List α}

theorem nil (start : ℕ) : Window (fun _ : Fin N => (none : Option α)) start [] where
  length_le := Nat.zero_le _
  cell _ _ := rfl

/-- Only the position of the start cursor on the ring matters. -/
theorem of_mod_eq {start' : ℕ} (h : Window cells start q) (hs : start' % N = start % N) :
    Window cells start' q where
  length_le := h.length_le
  cell k hk := by
    rw [← h.cell k hk, slot_eq_iff.mpr (Nat.ModEq.add_right k hs : start' + k ≡ start + k [MOD N])]

theorem cell_start (h : Window cells start q) : cells (slot N start) = q.head? := by
  have := h.cell 0 (Nat.pos_of_neZero N)
  rwa [Nat.add_zero, ← List.head?_eq_getElem?] at this

/-- A cell of a full window is taken. -/
theorem isSome_of_full (h : Window cells start q) (hq : q.length = N) (i : Fin N) :
    (cells i).isSome := by
  obtain ⟨k, hk, rfl⟩ := exists_slot_add start i
  rw [h.cell k hk, List.getElem?_eq_getElem (hq ▸ hk)]
  rfl

/-- The cell after the last one is free unless the window is full. -/
theorem cell_end (h : Window cells start q) (hq : q.length < N) :
    cells (slot N (start + q.length)) = none := by
  rw [h.cell _ hq, List.getElem?_eq_none le_rfl]

theorem push (h : Window cells start q) (hq : q.length < N) (a : α) :
    Window (Function.update cells (slot N (start + q.length)) (some a)) start (q ++ [a]) where
  length_le := by
    rw [List.length_append, List.length_singleton]
    exact hq
  cell k hk := by
    rcases lt_trichotomy k q.length with hlt | rfl | hgt
    · rw [Function.update_of_ne (mt (slot_add_inj hk hq).mp hlt.ne), h.cell k hk,
        List.getElem?_append_left hlt]
    · rw [Function.update_self, List.getElem?_concat_length]
    · rw [Function.update_of_ne (mt (slot_add_inj hk hq).mp hgt.ne'), h.cell k hk,
        List.getElem?_eq_none hgt.le, List.getElem?_eq_none (by simpa using Nat.succ_le_of_lt hgt)]

theorem pop {a : α} (h : Window cells start (a :: q)) :
    Window (Function.update cells (slot N start) none) (start + 1) q where
  length_le := (Nat.le_succ _).trans h.length_le
  cell k hk := by
    have hstart : slot N start = slot N (start + 0) := rfl
    rcases Nat.lt_or_ge (k + 1) N with hlt | hge
    · rw [hstart, Nat.add_right_comm, Nat.add_assoc,
        Function.update_of_ne (mt (slot_add_inj hlt (Nat.pos_of_neZero N)).mp (Nat.succ_ne_zero k)),
        h.cell _ hlt, List.getElem?_cons_succ]
    -- the last offset wraps around to the freed cell
    · have hwrap : slot N (start + 1 + k) = slot N start := by
        rw [slot_eq_iff, show start + 1 + k = start + N by omega, Nat.add_mod_right]
      have hlen : q.length ≤ k := by
        have := h.length_le
        rw [List.length_cons] at this
        omega
      rw [hwrap, Function.update_self, List.getElem?_eq_none hlen]

end Window

/-! ## What the cells hold, in any order -/

section Contents
omit [NeZero N]

/-- The contents of the cells that are taken. -/
def contents (cells : Fin N → Option α) : List α := (List.finRange N).filterMap cells

variable {cells : Fin N → Option α} {i : Fin N} {a : α}

/-- Taking a free cell adds one entry. -/
theorem contents_take (hi : cells i = none) :
    (contents (Function.update cells i (some a))).Perm (a :: contents cells) := by
  obtain ⟨s, t, hst⟩ := List.append_of_mem (List.mem_finRange i)
  have hnodup := List.nodup_finRange N
  rw [hst, List.nodup_middle, List.nodup_cons, List.mem_append, not_or] at hnodup
  obtain ⟨⟨hs, ht⟩, -⟩ := hnodup
  -- the other cells are as they were
  have hother (l : List (Fin N)) (hl : i ∉ l) :
      l.filterMap (Function.update cells i (some a)) = l.filterMap cells := by
    apply List.filterMap_congr
    intro j hj
    have hne : j ≠ i := fun h => hl (h ▸ hj)
    exact Function.update_of_ne hne _ _
  rw [contents, contents, hst, List.filterMap_append, List.filterMap_append, List.filterMap_cons,
    List.filterMap_cons, Function.update_self, hi, hother s hs, hother t ht]
  exact List.perm_middle

/-- Freeing a cell removes its entry. -/
theorem contents_free (hi : cells i = some a) :
    (contents cells).Perm (a :: contents (Function.update cells i none)) := by
  have htake := contents_take (a := a) (Function.update_self i none cells)
  rwa [Function.update_idem, ← hi, Function.update_eq_self] at htake

end Contents

end Gateway.RingWindow
