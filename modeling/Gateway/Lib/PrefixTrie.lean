import Mathlib.Data.List.Basic
import Mathlib.Data.List.Infix
import Mathlib.Tactic.Cases

/-!
# Binary tries and longest-prefix match

A trie stands for a partial map from bit strings to values. `insert` overwrites
one key, and `longest` walks the bits of a key and answers with the value of its
longest stored prefix.
-/

namespace Gateway

/-- A possibly null pointer to a node with one child per bit. -/
inductive Trie (α : Type*) where
  | null
  | node (zero one : Trie α) (value : Option α)
deriving Repr

namespace Trie

variable {α : Type*}

/-- A node with no children and no value. -/
def empty : Trie α := .node .null .null none

def child : Trie α → Bool → Trie α
  | .null, _ => .null
  | .node zero one _, bit => if bit then one else zero

def value : Trie α → Option α
  | .null => none
  | .node _ _ v => v

def setValue (t : Trie α) (a : α) : Trie α := .node (t.child false) (t.child true) (some a)

/-- Replace one child, creating the node when the pointer is null. -/
def setChild (t : Trie α) (bit : Bool) (c : Trie α) : Trie α :=
  .node (if bit then t.child false else c) (if bit then c else t.child true) t.value

@[simp] theorem child_null (bit : Bool) : (null : Trie α).child bit = null := rfl

@[simp] theorem value_null : (null : Trie α).value = none := rfl

@[simp] theorem child_setValue (t : Trie α) (a : α) (bit : Bool) :
    (t.setValue a).child bit = t.child bit := by
  cases bit <;> rfl

@[simp] theorem value_setValue (t : Trie α) (a : α) : (t.setValue a).value = some a := rfl

@[simp] theorem child_setChild (t : Trie α) (bit bit' : Bool) (c : Trie α) :
    (t.setChild bit c).child bit' = if bit' = bit then c else t.child bit' := by
  cases bit <;> cases bit' <;> rfl

@[simp] theorem value_setChild (t : Trie α) (bit : Bool) (c : Trie α) :
    (t.setChild bit c).value = t.value := rfl

def insert : List Bool → α → Trie α → Trie α
  | [], a, t => t.setValue a
  | bit :: bits, a, t => t.setChild bit (insert bits a (t.child bit))

/-- The value stored under a key. -/
def find : Trie α → List Bool → Option α
  | t, [] => t.value
  | t, bit :: bits => find (t.child bit) bits

/-- The value of the longest stored prefix of a key. -/
def longest : Trie α → List Bool → Option α
  | t, [] => t.value
  | t, bit :: bits => (longest (t.child bit) bits).or t.value

@[simp] theorem find_null (key : List Bool) : (null : Trie α).find key = none := by
  induction key with
  | nil => rfl
  | cons bit bits ih => exact ih

@[simp] theorem find_empty (key : List Bool) : (empty : Trie α).find key = none := by
  cases key with
  | nil => rfl
  | cons bit bits => cases bit <;> exact find_null bits

@[simp] theorem longest_null (key : List Bool) : (null : Trie α).longest key = none := by
  induction key with
  | nil => rfl
  | cons bit bits ih =>
    rw [longest, child_null, ih]
    rfl

/-- Insertion changes the value of its own key and no other. -/
theorem find_insert (t : Trie α) (key key' : List Bool) (a : α) :
    (t.insert key a).find key' = if key' = key then some a else t.find key' := by
  induction key generalizing t key' with
  | nil =>
    cases key' with
    | nil => simp [insert, find]
    | cons bit bits => simp [insert, find]
  | cons bit bits ih =>
    cases key' with
    | nil => simp [insert, find]
    | cons bit' bits' =>
      simp only [insert, find, child_setChild, List.cons.injEq]
      by_cases hbit : bit' = bit
      · simp [hbit, ih]
      · simp [hbit]

theorem longest_eq_none_iff (t : Trie α) (key : List Bool) :
    t.longest key = none ↔ ∀ m ≤ key.length, t.find (key.take m) = none := by
  induction key generalizing t with
  | nil => simp [longest, find]
  | cons bit bits ih =>
    rw [longest, Option.or_eq_none_iff, ih]
    constructor
    · rintro ⟨hdeep, hhere⟩ (_ | m) hm
      · exact hhere
      · exact hdeep m (Nat.le_of_succ_le_succ hm)
    · intro h
      exact ⟨fun m hm => h (m + 1) (Nat.succ_le_succ hm), h 0 (Nat.zero_le _)⟩

/-- The walk answers with the deepest value on its path. -/
theorem longest_eq_some_iff (t : Trie α) (key : List Bool) (a : α) :
    t.longest key = some a ↔ ∃ n ≤ key.length, t.find (key.take n) = some a ∧
      ∀ m ≤ key.length, n < m → t.find (key.take m) = none := by
  induction key generalizing t with
  | nil =>
    constructor
    · intro h
      exact ⟨0, le_rfl, h, fun m hm h0 => absurd (hm.trans_lt h0) (lt_irrefl _)⟩
    · rintro ⟨n, -, h, -⟩
      rwa [List.take_nil] at h
  | cons bit bits ih =>
    rw [longest, Option.or_eq_some_iff, longest_eq_none_iff, ih]
    constructor
    · rintro (⟨n, hn, hfind, hmax⟩ | ⟨hdeep, hhere⟩)
      · refine ⟨n + 1, Nat.succ_le_succ hn, hfind, ?_⟩
        rintro (_ | m) hm hlt
        · exact absurd hlt (Nat.not_lt_zero _)
        · exact hmax m (Nat.le_of_succ_le_succ hm) (Nat.lt_of_succ_lt_succ hlt)
      · refine ⟨0, Nat.zero_le _, hhere, ?_⟩
        rintro (_ | m) hm hlt
        · exact absurd hlt (lt_irrefl _)
        · exact hdeep m (Nat.le_of_succ_le_succ hm)
    · rintro ⟨_ | n, hn, hfind, hmax⟩
      · exact Or.inr ⟨fun m hm => hmax (m + 1) (Nat.succ_le_succ hm) (Nat.succ_pos m), hfind⟩
      · refine Or.inl ⟨n, Nat.le_of_succ_le_succ hn, hfind, ?_⟩
        intro m hm hlt
        exact hmax (m + 1) (Nat.succ_le_succ hm) (Nat.succ_lt_succ hlt)

/-- The walk reads the values of the prefixes of its key and nothing else. -/
theorem longest_congr {t t' : Trie α} {key : List Bool}
    (h : ∀ m ≤ key.length, t.find (key.take m) = t'.find (key.take m)) :
    t.longest key = t'.longest key := by
  induction key generalizing t t' with
  | nil => exact h 0 le_rfl
  | cons bit bits ih =>
    rw [longest, longest, ih fun m hm => h (m + 1) (Nat.succ_le_succ hm)]
    exact congrArg _ (h 0 (Nat.zero_le _))

/-- An insertion changes the walks past its key that find nothing deeper. -/
theorem longest_insert_of_deepest (t : Trie α) {key path : List Bool} (a : α) (hkey : key <+: path)
    (hdeeper : ∀ m ≤ path.length, key.length < m → t.find (path.take m) = none) :
    (t.insert key a).longest path = some a := by
  rw [longest_eq_some_iff]
  refine ⟨key.length, hkey.length_le, ?_, ?_⟩
  · rw [find_insert, if_pos (List.prefix_iff_eq_take.mp hkey).symm]
  · intro m hm hlt
    have hne : path.take m ≠ key := by
      intro heq
      have hlen := congrArg List.length heq
      rw [List.length_take, min_eq_left hm] at hlen
      omega
    rw [find_insert, if_neg hne, hdeeper m hm hlt]

/-- It leaves those alone that do not come past its key or find something deeper. -/
theorem longest_insert_of_not_deepest (t : Trie α) {key path : List Bool} (a : α)
    (h : key <+: path → ∃ m ≤ path.length, key.length < m ∧ t.find (path.take m) ≠ none) :
    (t.insert key a).longest path = t.longest path := by
  by_cases hkey : key <+: path
  · obtain ⟨m, hm, hlt, hfound⟩ := h hkey
    cases hbest : t.longest path with
    | none => exact absurd ((longest_eq_none_iff t path).mp hbest m hm) hfound
    | some b =>
      obtain ⟨n, hn, hfind, hmax⟩ := (longest_eq_some_iff t path b).mp hbest
      have hmn : m ≤ n := by
        by_contra hnm
        exact hfound (hmax m hm (by omega))
      have hne (k : ℕ) (hk : k ≤ path.length) (hkn : n ≤ k) : path.take k ≠ key := by
        intro heq
        have hlen := congrArg List.length heq
        rw [List.length_take, min_eq_left hk] at hlen
        omega
      rw [longest_eq_some_iff]
      refine ⟨n, hn, ?_, ?_⟩
      · rw [find_insert, if_neg (hne n hn le_rfl), hfind]
      · intro k hk hnk
        rw [find_insert, if_neg (hne k hk hnk.le), hmax k hk hnk]
  · apply longest_congr
    intro m _
    have hne : path.take m ≠ key := by
      intro heq
      exact hkey (heq ▸ List.take_prefix m path)
    rw [find_insert, if_neg hne]

/-- Inserting a list of entries, in order. -/
def insertAll (entries : List (List Bool × α)) (t : Trie α) : Trie α :=
  entries.foldl (fun t e => t.insert e.1 e.2) t

/-- After a sequence of insertions a key holds the last value inserted under it. -/
theorem find_insertAll (entries : List (List Bool × α)) (t : Trie α) (key : List Bool) :
    (t.insertAll entries).find key =
      ((entries.filter fun e => e.1 = key).getLast?.map Prod.snd).or (t.find key) := by
  induction entries using List.reverseRecOn with
  | nil => simp [insertAll]
  | append_singleton entries e ih =>
    simp only [insertAll, List.foldl_append, List.foldl_cons, List.foldl_nil] at ih ⊢
    rw [find_insert, ih, List.filter_append]
    by_cases h : e.1 = key
    · simp [h]
    · simp [h, Ne.symm h]

end Trie

end Gateway
