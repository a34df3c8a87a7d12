import Mathlib.Data.List.DropRight
import Mathlib.Data.List.TakeWhile

/-!
# Trimming a list at both ends

A list is trimmed by dropping the entries with a property from its start and from its end.
An entry without the property stops both.
-/

namespace Gateway.Trim

variable {α : Type*} (p : α → Bool)

def trim (s : List α) : List α := (s.dropWhile p).rdropWhile p

/-- Neither end of the list is to be trimmed. -/
def Trimmed (s : List α) : Prop :=
  (∀ c ∈ s.head?, p c = false) ∧ ∀ c ∈ s.getLast?, p c = false

instance (s : List α) : Decidable (Trimmed p s) :=
  inferInstanceAs (Decidable ((∀ c ∈ s.head?, p c = false) ∧ ∀ c ∈ s.getLast?, p c = false))

variable {p} {s pre post : List α} {c : α}

theorem rdropWhile_append_of_all (hpost : ∀ c ∈ post, p c = true) (s : List α) :
    (s ++ post).rdropWhile p = s.rdropWhile p := by
  induction post using List.reverseRecOn with
  | nil => rw [List.append_nil]
  | append_singleton post c ih =>
    rw [← List.append_assoc, List.rdropWhile_concat_pos _ _ _ (hpost c (by simp))]
    exact ih fun c hc => hpost c (List.mem_append_left _ hc)

theorem dropWhile_append_cons (hc : p c = false) (s t : List α) :
    (s ++ c :: t).dropWhile p = s.dropWhile p ++ c :: t := by
  rw [List.dropWhile_append]
  split_ifs with hs
  · rw [List.isEmpty_iff.mp hs, List.dropWhile_cons_of_neg (by simp [hc]), List.nil_append]
  · rfl

theorem rdropWhile_append_cons (hc : p c = false) (s t : List α) :
    (s ++ c :: t).rdropWhile p = s ++ c :: t.rdropWhile p := by
  induction t using List.reverseRecOn with
  | nil => exact List.rdropWhile_concat_neg _ _ _ (by simp [hc])
  | append_singleton t d ih =>
    have hassoc : s ++ c :: (t ++ [d]) = (s ++ c :: t) ++ [d] := by simp
    rw [hassoc]
    by_cases hd : p d = true
    · rw [List.rdropWhile_concat_pos _ _ _ hd, List.rdropWhile_concat_pos _ _ _ hd, ih]
    · rw [List.rdropWhile_concat_neg _ _ _ hd, List.rdropWhile_concat_neg _ _ _ hd, hassoc]

/-- Both sides of an entry that is kept are trimmed on their own. -/
theorem trim_append_cons (hc : p c = false) (s t : List α) :
    trim p (s ++ c :: t) = s.dropWhile p ++ c :: t.rdropWhile p := by
  rw [trim, dropWhile_append_cons hc, rdropWhile_append_cons hc]

theorem trim_of_all (hs : ∀ c ∈ s, p c = true) : trim p s = [] := by
  rw [trim, List.dropWhile_eq_nil_iff.mpr hs, List.rdropWhile_nil]

theorem trim_dropWhile (s : List α) : trim p (s.dropWhile p) = trim p s := by
  rw [trim, trim, List.dropWhile_idempotent]

theorem trim_rdropWhile (s : List α) : trim p (s.rdropWhile p) = trim p s := by
  by_cases hs : ∀ c ∈ s, p c = true
  · rw [List.rdropWhile_eq_nil_iff.mpr hs, trim_of_all hs, trim_of_all (by simp)]
  · simp only [not_forall, Bool.not_eq_true] at hs
    obtain ⟨c, hmem, hc⟩ := hs
    obtain ⟨a, b, rfl⟩ := List.append_of_mem hmem
    rw [rdropWhile_append_cons hc, trim_append_cons hc, trim_append_cons hc,
      List.rdropWhile_idempotent]

/-- The padding around a trimmed list is dropped. -/
theorem trim_padded (hs : Trimmed p s) (hpre : ∀ c ∈ pre, p c = true)
    (hpost : ∀ c ∈ post, p c = true) : trim p (pre ++ (s ++ post)) = s := by
  rw [trim, List.dropWhile_append_of_pos hpre]
  cases s with
  | nil => exact trim_of_all hpost
  | cons c s =>
    have hc : p c = false := hs.1 c rfl
    have hlast : (c :: s).rdropWhile p = c :: s := by
      rw [List.rdropWhile_eq_self_iff]
      intro hne
      simp [hs.2 _ (List.getLast?_eq_some_getLast hne)]
    rw [List.cons_append, List.dropWhile_cons_of_neg (by simp [hc]), ← List.cons_append,
      rdropWhile_append_of_all hpost, hlast]

/-- What is trimmed was in the list. -/
theorem mem_of_mem_trim (h : c ∈ trim p s) : c ∈ s :=
  (List.dropWhile_suffix p).subset ((List.rdropWhile_prefix p _).subset h)

end Gateway.Trim
