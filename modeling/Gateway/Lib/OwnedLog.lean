import Mathlib.Data.List.Nodup
import Mathlib.Data.List.Perm.Subperm

/-!
# A log kept by several owners

Entries carry the owner that wrote them. Two logs with the same entries of each owner,
in the owner's order, hold the same entries; how the owners interleave does not matter.
-/

namespace Gateway.OwnedLog

variable {W α : Type*} [DecidableEq W]

/-- The entries of one owner. -/
def ofOwner (w : W) (log : List (W × α)) : List (W × α) := log.filter fun e => e.1 = w

theorem ofOwner_append_self (log : List (W × α)) (w : W) (a : α) :
    ofOwner w (log ++ [(w, a)]) = ofOwner w log ++ [(w, a)] := by
  simp [ofOwner]

theorem ofOwner_append_of_ne (log : List (W × α)) {w v : W} (h : v ≠ w) (a : α) :
    ofOwner w (log ++ [(v, a)]) = ofOwner w log := by
  simp [ofOwner, h]

variable [DecidableEq α]

theorem count_ofOwner (log : List (W × α)) (e : W × α) :
    (ofOwner e.1 log).count e = log.count e :=
  List.count_filter (by simp)

theorem perm_of_ofOwner_eq {l₁ l₂ : List (W × α)} (h : ∀ w, ofOwner w l₁ = ofOwner w l₂) :
    l₁.Perm l₂ := by
  rw [List.perm_iff_count]
  intro e
  rw [← count_ofOwner l₁, ← count_ofOwner l₂, h]

/-- What no entry of the longer log has twice, none of the shorter one has. -/
theorem nodup_map_of_owner_prefixes {β : Type*} {f : W × α → β} {l₁ l₂ : List (W × α)}
    (h : ∀ w, ofOwner w l₁ <+: ofOwner w l₂) (hnodup : (l₂.map f).Nodup) : (l₁.map f).Nodup := by
  have hsub : l₁.Subperm l₂ := by
    apply List.subperm_ext_iff.mpr
    intro e _
    rw [← count_ofOwner l₁, ← count_ofOwner l₂]
    exact (h e.1).sublist.count_le e
  obtain ⟨l, hperm, hsub⟩ := hsub
  exact (hperm.map f).nodup_iff.mp ((hsub.map f).nodup hnodup)

end Gateway.OwnedLog
