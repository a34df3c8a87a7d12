import Gateway.Lib.Threads
import Mathlib.Algebra.Order.Group.Multiset
import Mathlib.Order.Basic

/-!
# Atomic objects with relaxed memory order

The writes to one object have one order, its modification order, and a read-modify-write takes
its place at the end of it. A relaxed load may return the value at an earlier place, though none
that is before what the same thread has read already. Each thread makes calls, and a call is a
list of writes to several objects.
-/

namespace Gateway.Atomics
open Steps Threads

inductive Write (κ M : Type*) where
  | fetchAdd (c : κ) (n : M)
  | store (c : κ) (v : M)

namespace Write
variable {κ M : Type*}

def target : Write κ M → κ
  | .fetchAdd c _ | .store c _ => c

/-- The value of the object after the write, from the one before. -/
def apply [Add M] : M → Write κ M → M
  | v, .fetchAdd _ n => v + n
  | _, .store _ v => v

/-- What the write adds. -/
def added [Zero M] : Write κ M → M
  | .fetchAdd _ n => n
  | .store _ _ => 0

end Write

/-- The value after the writes, from zero. -/
def value {κ M : Type*} [Zero M] [Add M] (order : List (Write κ M)) : M :=
  order.foldl Write.apply 0

theorem value_of_no_store {κ M : Type*} [AddMonoid M] {order : List (Write κ M)}
    (h : ∀ c v, .store c v ∉ order) : value order = (order.map Write.added).sum := by
  induction order using List.reverseRecOn with
  | nil => rfl
  | append_singleton order w ih =>
    have horder (c : κ) (v : M) : .store c v ∉ order := by
      intro hmem
      exact h c v (List.mem_append_left [w] hmem)
    rw [value, List.foldl_append, ← value, ih horder, List.map_append, List.sum_append]
    cases w with
    | fetchAdd c n => simp [Write.apply, Write.added]
    | store c v => exact absurd (List.mem_append_right order List.mem_cons_self) (h c v)

/-! ## Threads that write -/

/-- The threads' calls under way and the modification orders; `begun` are the writes of all calls
so far, and `seen` the places of what the reader has read. -/
structure Memory (T κ M : Type*) where
  rest : T → List (Write κ M)
  order : κ → List (Write κ M)
  begun : List (Write κ M)
  seen : κ → ℕ

namespace Memory
variable {T κ M : Type*} [DecidableEq T] [DecidableEq κ]

/-- No call under way and no write. -/
def init : Memory T κ M := ⟨fun _ => [], fun _ => [], [], fun _ => 0⟩

/-- A thread that has no call under way begins one. -/
def call (m : Memory T κ M) (t : T) (writes : List (Write κ M)) : Option (Memory T κ M) :=
  match m.rest t with
  | [] => some { m with rest := Function.update m.rest t writes, begun := m.begun ++ writes }
  | _ :: _ => none

/-- The next write of the thread's call. -/
def write (m : Memory T κ M) (t : T) : Option (Memory T κ M) :=
  match m.rest t with
  | [] => none
  | w :: rest => some { m with
      rest := Function.update m.rest t rest
      order := Function.update m.order w.target (m.order w.target ++ [w]) }

/-- The value of the object at a place of its modification order. -/
def valueAt [Zero M] [Add M] (m : Memory T κ M) (c : κ) (place : ℕ) : M :=
  value ((m.order c).take place)

/-- A relaxed load that returns the value at the place. -/
def load [Zero M] [Add M] (m : Memory T κ M) (c : κ) (place : ℕ) : Option (M × Memory T κ M) :=
  if m.seen c ≤ place ∧ place ≤ (m.order c).length then
    some (m.valueAt c place, { m with seen := Function.update m.seen c place })
  else none

/-! ## No write is lost or made twice -/

/-- The writes of a list to an object. -/
def on (c : κ) (writes : List (Write κ M)) : Multiset (Write κ M) :=
  ↑(writes.filter (·.target = c))

/-- Every write of the calls begun is made or still to come. -/
def Accounted [Fintype T] (m : Memory T κ M) : Prop :=
  ∀ c, (m.order c : Multiset (Write κ M)) + ∑ t, on c (m.rest t) = on c m.begun

theorem on_cons (c : κ) (w : Write κ M) (writes : List (Write κ M)) :
    on c (w :: writes) = on c [w] + on c writes := by
  simp only [on]
  rw [← List.singleton_append, List.filter_append]
  exact (Multiset.coe_add _ _).symm

variable [Fintype T]

omit [DecidableEq T] in
theorem accounted_init : (init : Memory T κ M).Accounted := by
  intro c
  simp [init, on]

variable {m m' : Memory T κ M} {t : T}

theorem Accounted.call {writes : List (Write κ M)} (h : m.Accounted)
    (hcall : m.call t writes = some m') : m'.Accounted := by
  unfold Memory.call at hcall
  split at hcall
  · next hrest =>
    intro c
    have hsum := sum_update_add (on c) m.rest t writes
    have hnone : on c (m.rest t) = 0 := by
      rw [hrest]
      rfl
    have hbegun : on c (m.begun ++ writes) = on c m.begun + on c writes := by
      simp only [on, List.filter_append]
      exact (Multiset.coe_add _ _).symm
    rw [hnone, add_zero] at hsum
    rw [← Option.some.inj hcall]
    dsimp only
    rw [hsum, hbegun, ← h c, add_assoc]
  · exact absurd hcall (by simp)

theorem Accounted.write (h : m.Accounted) (hwrite : m.write t = some m') : m'.Accounted := by
  unfold Memory.write at hwrite
  split at hwrite
  · exact absurd hwrite (by simp)
  · next w rest hrest =>
    intro c
    have hsum := sum_update_add (on c) m.rest t rest
    have horder : (↑(Function.update m.order w.target (m.order w.target ++ [w]) c) :
        Multiset (Write κ M)) = ↑(m.order c) + on c [w] := by
      by_cases hc : w.target = c
      · subst hc
        rw [Function.update_self, ← Multiset.coe_add]
        simp [on]
      · rw [Function.update_of_ne (Ne.symm hc)]
        simp [on, hc]
    rw [hrest, on_cons] at hsum
    rw [← Option.some.inj hwrite]
    dsimp only
    -- the write leaves the thread's call and comes to the order
    have hmoved : on c [w] + ∑ u, on c (Function.update m.rest t rest u) = ∑ u, on c (m.rest u) := by
      apply add_right_cancel (b := on c rest)
      rw [← hsum, add_comm (on c [w]), add_assoc]
    rw [horder, add_assoc, hmoved, h c]

omit [DecidableEq T] in
theorem Accounted.load [Zero M] [Add M] {c : κ} {place : ℕ} {v : M} (h : m.Accounted)
    (hload : m.load c place = some (v, m')) : m'.Accounted := by
  unfold Memory.load at hload
  split_ifs at hload
  rw [← (Prod.mk.inj (Option.some.inj hload)).2]
  exact h

omit [DecidableEq T] in
theorem Accounted.mem_begun (h : m.Accounted) {c : κ} {w : Write κ M} (hw : w ∈ m.order c) :
    w ∈ m.begun ∧ w.target = c := by
  have hmem : w ∈ on c m.begun := by
    rw [← h c]
    exact Multiset.mem_add.mpr (Or.inl hw)
  simpa [on] using hmem

/-- What a list of writes adds to an object. -/
def amount [AddCommMonoid M] (c : κ) (writes : List (Write κ M)) : M :=
  ((on c writes).map Write.added).sum

omit [DecidableEq T] [Fintype T] in
theorem amount_append [AddCommMonoid M] (c : κ) (writes later : List (Write κ M)) :
    amount c (writes ++ later) = amount c writes + amount c later := by
  simp [amount, on, List.filter_append, ← Multiset.coe_add]

omit [DecidableEq T] in
/-- The value of an object that is only added to, and what is still to be added. -/
theorem Accounted.value_add_amount [AddCommMonoid M] (h : m.Accounted) {c : κ}
    (hstore : ∀ v, .store c v ∉ m.begun) :
    value (m.order c) + ∑ t, amount c (m.rest t) = amount c m.begun := by
  have hadds (c' : κ) (v : M) : .store c' v ∉ m.order c := by
    intro hmem
    obtain ⟨hbegun, htarget⟩ := h.mem_begun hmem
    obtain rfl : c' = c := htarget
    exact hstore v hbegun
  have hsum := congrArg (fun s => (Multiset.map Write.added s).sum) (h c)
  simp only [Multiset.map_add, Multiset.sum_add, Multiset.map_coe, Multiset.sum_coe] at hsum
  rw [value_of_no_store hadds, amount, ← hsum]
  congr 1
  simp only [amount]
  rw [← Multiset.coe_mapAddMonoidHom, map_sum, ← Multiset.coe_sumAddMonoidHom, map_sum]

/-! ## What was read stays where it was -/

omit [Fintype T]

/-- The modification orders only grow. -/
def Extends (m m' : Memory T κ M) : Prop := ∀ c, m.order c <+: m'.order c

omit [DecidableEq T] [DecidableEq κ] in
theorem Extends.length_le (h : m.Extends m') (c : κ) :
    (m.order c).length ≤ (m'.order c).length := (h c).length_le

omit [DecidableEq T] [DecidableEq κ] in
theorem Extends.valueAt [Zero M] [Add M] (h : m.Extends m') {c : κ} {place : ℕ}
    (hplace : place ≤ (m.order c).length) : m'.valueAt c place = m.valueAt c place := by
  obtain ⟨later, hlater⟩ := h c
  rw [Memory.valueAt, Memory.valueAt, ← hlater, List.take_append_of_le_length hplace]

omit [DecidableEq κ] in
theorem extends_call {writes : List (Write κ M)} (hcall : m.call t writes = some m') :
    m.Extends m' ∧ m'.seen = m.seen := by
  unfold call at hcall
  split at hcall
  · rw [← Option.some.inj hcall]
    exact ⟨fun c => List.prefix_rfl, rfl⟩
  · exact absurd hcall (by simp)

theorem extends_write (hwrite : m.write t = some m') : m.Extends m' ∧ m'.seen = m.seen := by
  unfold write at hwrite
  split at hwrite
  · exact absurd hwrite (by simp)
  · next w rest hrest =>
    rw [← Option.some.inj hwrite]
    refine ⟨?_, rfl⟩
    intro c
    dsimp only
    by_cases hc : c = w.target
    · subst hc
      rw [Function.update_self]
      exact List.prefix_append _ _
    · rw [Function.update_of_ne hc]

omit [DecidableEq T] in
theorem load_eq_some [Zero M] [Add M] {c : κ} {place : ℕ} {v : M} :
    m.load c place = some (v, m') ↔
      m.seen c ≤ place ∧ place ≤ (m.order c).length ∧ v = m.valueAt c place ∧
        m' = { m with seen := Function.update m.seen c place } := by
  unfold load
  split_ifs with h
  · simp [h.1, h.2, eq_comm]
  · simp only [false_iff]
    intro hall
    exact h ⟨hall.1, hall.2.1⟩

end Memory

end Gateway.Atomics
