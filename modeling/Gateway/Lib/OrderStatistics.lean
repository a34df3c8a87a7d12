import Mathlib.Algebra.Order.Floor.Semiring
import Mathlib.Data.List.Sort
import Mathlib.Data.Rat.Floor

/-!
# Order statistics of a list

The entry of a sorted list at a rounded-down fraction of its length is a quantile, whatever
ties the list has.
-/

namespace Gateway

variable {α : Type*} [LinearOrder α] {l : List α} {k : ℕ} {p : α}

/-- More than the fraction `q` of the entries are at most `p`, and at most the fraction `q` of
them are below it. -/
def IsQuantile (q : ℚ) (l : List α) (p : α) : Prop :=
  q * l.length < l.countP (· ≤ p) ∧ l.countP (· < p) ≤ q * l.length

theorem IsQuantile.perm {q : ℚ} {l' : List α} (h : IsQuantile q l p) (hperm : l.Perm l') :
    IsQuantile q l' p := by
  rw [IsQuantile, ← hperm.countP_eq, ← hperm.countP_eq, ← hperm.length_eq]
  exact h

theorem le_of_getElem? (h : l.SortedLE) {i j : ℕ} {a b : α} (hi : l[i]? = some a)
    (hj : l[j]? = some b) (hij : i ≤ j) : a ≤ b := by
  obtain ⟨hi', rfl⟩ := List.getElem?_eq_some_iff.mp hi
  obtain ⟨hj', rfl⟩ := List.getElem?_eq_some_iff.mp hj
  exact h.getElem_le_getElem_of_le hij

/-- What stands before an entry of a sorted list is all that can be below it. -/
theorem countP_lt_le (h : l.SortedLE) (hk : l[k]? = some p) : l.countP (· < p) ≤ k := by
  have hdrop : (l.drop k).countP (· < p) = 0 := by
    rw [List.countP_eq_zero]
    intro a ha
    obtain ⟨i, hi⟩ := List.getElem?_of_mem ha
    rw [List.getElem?_drop] at hi
    have hle := le_of_getElem? h hk hi (by omega)
    simpa using hle
  have htake : (l.take k).countP (· < p) ≤ k :=
    List.countP_le_length.trans (List.length_take_le k l)
  rw [← List.take_append_drop k l, List.countP_append, hdrop]
  omega

/-- An entry of a sorted list and what stands before it are at most that entry. -/
theorem lt_countP_le (h : l.SortedLE) (hk : l[k]? = some p) : k < l.countP (· ≤ p) := by
  obtain ⟨hlt, -⟩ := List.getElem?_eq_some_iff.mp hk
  have htake : (l.take (k + 1)).countP (· ≤ p) = k + 1 := by
    rw [List.countP_eq_length.mpr, List.length_take]
    · omega
    · intro a ha
      obtain ⟨i, hi⟩ := List.getElem?_of_mem ha
      rw [List.getElem?_take, Option.ite_none_right_eq_some] at hi
      obtain ⟨hik, hi⟩ := hi
      have hle := le_of_getElem? h hi hk (by omega)
      simpa using hle
  rw [← List.take_append_drop (k + 1) l, List.countP_append, htake]
  omega

section Floor
variable {q : ℚ}

theorem floor_mul_lt {n : ℕ} (hn : 0 < n) (hq : 0 ≤ q) (hlt : q < 1) : ⌊(n : ℚ) * q⌋₊ < n := by
  have hn' : (0 : ℚ) < n := Nat.cast_pos.mpr hn
  rw [Nat.floor_lt (mul_nonneg hn'.le hq)]
  exact mul_lt_of_lt_one_right hn' hlt

theorem floor_mul_mono {q' : ℚ} (n : ℕ) (h : q ≤ q') : ⌊(n : ℚ) * q⌋₊ ≤ ⌊(n : ℚ) * q'⌋₊ :=
  Nat.floor_mono (mul_le_mul_of_nonneg_left h (Nat.cast_nonneg n))

theorem isQuantile_of_getElem? (h : l.SortedLE) (hq : 0 ≤ q)
    (hk : l[⌊(l.length : ℚ) * q⌋₊]? = some p) : IsQuantile q l p := by
  have hlt : ((⌊(l.length : ℚ) * q⌋₊ + 1 : ℕ) : ℚ) ≤ l.countP (· ≤ p) :=
    Nat.cast_le.mpr (lt_countP_le h hk)
  have hle : (l.countP (· < p) : ℚ) ≤ ⌊(l.length : ℚ) * q⌋₊ := Nat.cast_le.mpr (countP_lt_le h hk)
  have hlen : (0 : ℚ) ≤ l.length := Nat.cast_nonneg _
  have hfloor := Nat.floor_le (mul_nonneg hlen hq)
  have hceil := Nat.lt_floor_add_one ((l.length : ℚ) * q)
  rw [IsQuantile, mul_comm q]
  refine ⟨?_, hle.trans hfloor⟩
  push_cast at hlt
  exact hceil.trans_le hlt

end Floor

end Gateway
