import Mathlib.Data.Finset.Basic
import Mathlib.Logic.Function.Basic

/-!
# Resources with one owner each

An owner holds at most one resource, and no resource has two owners.
-/

namespace Gateway.Owners

variable {ι ρ : Type*}

/-- `f` says what each owner holds, and `held` is what is held altogether. -/
structure Owns (f : ι → Option ρ) (held : Finset ρ) : Prop where
  unique : ∀ i j r, f i = some r → f j = some r → i = j
  mem_iff : ∀ r, r ∈ held ↔ ∃ i, f i = some r

theorem owns_empty : Owns (fun _ : ι => none) (∅ : Finset ρ) where
  unique _ _ _ h := nomatch h
  mem_iff _ := by simp

variable [DecidableEq ι] [DecidableEq ρ] {f : ι → Option ρ} {held : Finset ρ} {i : ι} {r : ρ}

/-- An owner that holds nothing takes a resource that is free. -/
theorem Owns.acquire (h : Owns f held) (hi : f i = none) (hr : r ∉ held) :
    Owns (Function.update f i (some r)) (insert r held) := by
  have hfree : ∀ j, f j ≠ some r := fun j hj => hr ((h.mem_iff r).mpr ⟨j, hj⟩)
  constructor
  · intro j k q hj hk
    rw [Function.update_apply] at hj hk
    split_ifs at hj hk with hji hki hki
    · exact hji.trans hki.symm
    · exact absurd (Option.some.inj hj ▸ hk) (hfree k)
    · exact absurd (Option.some.inj hk ▸ hj) (hfree j)
    · exact h.unique j k q hj hk
  · intro q
    rw [Finset.mem_insert, h.mem_iff]
    constructor
    · rintro (rfl | ⟨j, hj⟩)
      · exact ⟨i, Function.update_self _ _ _⟩
      · have hne : j ≠ i := fun heq => absurd ((heq ▸ hj).symm.trans hi) nofun
        exact ⟨j, (Function.update_of_ne hne _ _).trans hj⟩
    · rintro ⟨j, hj⟩
      rw [Function.update_apply] at hj
      split_ifs at hj
      · exact Or.inl (Option.some.inj hj).symm
      · exact Or.inr ⟨j, hj⟩

theorem Owns.release (h : Owns f held) (hi : f i = some r) :
    Owns (Function.update f i none) (held.erase r) := by
  constructor
  · intro j k q hj hk
    rw [Function.update_apply] at hj hk
    split_ifs at hj hk
    exact h.unique j k q hj hk
  · intro q
    rw [Finset.mem_erase, h.mem_iff]
    constructor
    · rintro ⟨hq, j, hj⟩
      have hne : j ≠ i := fun heq => hq (Option.some.inj ((heq ▸ hj).symm.trans hi))
      exact ⟨j, (Function.update_of_ne hne _ _).trans hj⟩
    · rintro ⟨j, hj⟩
      rw [Function.update_apply] at hj
      split_ifs at hj with hne
      refine ⟨?_, j, hj⟩
      intro heq
      exact hne (h.unique j i q hj (heq ▸ hi))

end Gateway.Owners
