import Gateway.Lib.Steps

/-!
# Refinement

A system refines another one when each of its steps, seen through a map of the states, is a
step of the other system or leaves its state alone. Which step it is may depend on the state.
-/

namespace Gateway.Steps

variable {S A T B : Type*} (step : S → A → Option S) (step' : T → B → Option T)

/-- From `t` to `t'` the other system takes the labelled step, or none. -/
def Follows (t t' : T) : Option B → Prop
  | none => t' = t
  | some b => step' t b = some t'

/-- The steps of the other system along a run. -/
def labels (label : S → A → Option B) : S → List A → List B
  | _, [] => []
  | s, a :: as =>
    (label s a).toList ++
      match step s a with
      | none => []
      | some t => labels label t as

variable {step step'} {label : S → A → Option B} {abs : S → T}

theorem exec_of_follows {t t' : T} {b : Option B} (h : Follows step' t t' b) :
    exec step' t b.toList = some t' := by
  cases b with
  | none => exact congrArg some h.symm
  | some b => exact exec_cons.mpr ⟨t', h, rfl⟩

/-- Every run of the system is a run of the other one, when the steps from the states it
reaches follow the other one. -/
theorem exec_labels {s₀ : S}
    (hsim : ∀ as s a t, exec step s₀ as = some s → step s a = some t →
      Follows step' (abs s) (abs t) (label s a))
    {before as : List A} {s t : S} (hs : exec step s₀ before = some s)
    (hrun : exec step s as = some t) :
    exec step' (abs s) (labels step label s as) = some (abs t) := by
  induction as generalizing s before with
  | nil =>
    obtain rfl := Option.some.inj hrun
    rfl
  | cons a as ih =>
    obtain ⟨u, hu, hrest⟩ := exec_cons.mp hrun
    have hreach : exec step s₀ (before ++ [a]) = some u :=
      exec_append.mpr ⟨s, hs, exec_cons.mpr ⟨u, hu, rfl⟩⟩
    rw [labels, hu]
    exact exec_append.mpr ⟨abs u, exec_of_follows (hsim before s a u hs hu), ih hreach hrest⟩

theorem mem_labels {s : S} {as : List A} {b : B} (h : b ∈ labels step label s as) :
    ∃ t, ∃ a ∈ as, label t a = some b := by
  induction as generalizing s with
  | nil => exact absurd h List.not_mem_nil
  | cons a as ih =>
    rw [labels, List.mem_append] at h
    rcases h with h | h
    · exact ⟨s, a, List.mem_cons_self, Option.mem_toList.mp h⟩
    · split at h
      · exact absurd h List.not_mem_nil
      · obtain ⟨t, a', ha', hb⟩ := ih h
        exact ⟨t, a', List.mem_cons_of_mem a ha', hb⟩

/-- What a ghost of the system records along a run is the record of its steps' labels. -/
theorem record_labels {R : Type*} {record : S → List R} {entry : B → List R}
    (hstep : ∀ s a t, step s a = some t →
      record t = record s ++ ((label s a).toList.flatMap entry))
    {s t : S} {as : List A} (hrun : exec step s as = some t) :
    record t = record s ++ (labels step label s as).flatMap entry := by
  induction as generalizing s with
  | nil =>
    obtain rfl := Option.some.inj hrun
    simp [labels]
  | cons a as ih =>
    obtain ⟨u, hu, hrest⟩ := exec_cons.mp hrun
    rw [ih hrest, hstep s a u hu, labels, hu, List.flatMap_append, List.append_assoc]

end Gateway.Steps
