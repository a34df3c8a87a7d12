import Gateway.Lib.Steps

/-!
# Systems with undefined steps

A step may end in a state or be undefined (`Except U S`). Nothing is known of a system after
an undefined step, so it stays undefined whatever comes next.
-/

namespace Gateway.Steps

variable {S A U : Type*} {step : S → A → Option (Except U S)}

/-- The system `step`, run on from what came out of the step before. -/
def orUndefined (step : S → A → Option (Except U S)) : Except U S → A → Option (Except U S)
  | .ok s, a => step s a
  | .error u, _ => some (.error u)

/-- The system is in a state, and the state and the action meet `G`. -/
def Defined (G : S → A → Prop) : Except U S → A → Prop
  | .ok s, a => G s a
  | .error _, _ => False

instance {G : S → A → Prop} [∀ s a, Decidable (G s a)] :
    ∀ (o : Except U S) (a : A), Decidable (Defined G o a)
  | .ok s, a => inferInstanceAs (Decidable (G s a))
  | .error _, _ => inferInstanceAs (Decidable False)

theorem exec_error (u : U) (as : List A) :
    exec (orUndefined step) (.error u) as = some (.error u) := by
  induction as with
  | nil => rfl
  | cons a as ih => exact exec_cons.mpr ⟨.error u, rfl, ih⟩

/-- A run that ends in a state went through states only. -/
theorem exec_cons_ok {s t : S} {a : A} {as : List A} :
    exec (orUndefined step) (.ok s) (a :: as) = some (.ok t) ↔
      ∃ u, step s a = some (.ok u) ∧ exec (orUndefined step) (.ok u) as = some (.ok t) := by
  rw [exec_cons]
  constructor
  · rintro ⟨o, hstep, hrun⟩
    cases o with
    | ok u => exact ⟨u, hstep, hrun⟩
    | error e =>
      rw [exec_error] at hrun
      cases hrun
  · rintro ⟨u, hstep, hrun⟩
    exact ⟨.ok u, hstep, hrun⟩

/-- What the defined steps keep holds wherever a run ends in a state. -/
theorem invariant_of_ok {I : S → Prop} (hstep : ∀ s a t, I s → step s a = some (.ok t) → I t)
    {s t : S} {as : List A} (hs : I s)
    (hrun : exec (orUndefined step) (.ok s) as = some (.ok t)) : I t := by
  induction as generalizing s with
  | nil =>
    obtain rfl := Except.ok.inj (Option.some.inj hrun)
    exact hs
  | cons a as ih =>
    obtain ⟨u, hu, hrun⟩ := exec_cons_ok.mp hrun
    exact ih (hstep s a u hs hu) hrun

/-- A run of defined steps is a run of any system that takes the same steps. -/
theorem exec_of_ok {step' : S → A → Option S}
    (hstep : ∀ s a t, step s a = some (.ok t) → step' s a = some t) {s t : S} {as : List A}
    (hrun : exec (orUndefined step) (.ok s) as = some (.ok t)) : exec step' s as = some t := by
  induction as generalizing s with
  | nil =>
    obtain rfl := Except.ok.inj (Option.some.inj hrun)
    rfl
  | cons a as ih =>
    obtain ⟨u, hu, hrest⟩ := exec_cons_ok.mp hrun
    exact exec_cons.mpr ⟨u, hstep s a u hu, ih hrest⟩

/-- A run is defined when none of its actions is undefined in the state it is taken in. -/
theorem exists_ok_of_reachable {s : S} {as : List A} {o : Except U S}
    (h : ∀ bs a, bs ++ [a] <+: as → ∀ t, exec (orUndefined step) (.ok s) bs = some (.ok t) →
      ∀ u, step t a ≠ some (.error u))
    (hrun : exec (orUndefined step) (.ok s) as = some o) : ∃ t, o = .ok t := by
  induction as using List.reverseRecOn generalizing o with
  | nil => exact ⟨s, (Option.some.inj hrun).symm⟩
  | append_singleton as a ih =>
    obtain ⟨p, hp, hlast⟩ := exec_append.mp hrun
    have hbefore : ∀ bs b, bs ++ [b] <+: as → ∀ t,
        exec (orUndefined step) (.ok s) bs = some (.ok t) → ∀ u, step t b ≠ some (.error u) := by
      intro bs b hbs
      exact h bs b (hbs.trans (List.prefix_append as [a]))
    obtain ⟨t, rfl⟩ := ih hbefore hp
    obtain ⟨q, hq, hend⟩ := exec_cons.mp hlast
    obtain rfl := Option.some.inj hend
    cases q with
    | ok u => exact ⟨u, rfl⟩
    | error u => exact absurd hq (h as a (List.prefix_refl _) t hp u)

/-- Where `G` says which steps are defined, a run ends in a state exactly when every step of
it meets `G`. -/
theorem meets_defined_iff {G : S → A → Prop}
    (hG : ∀ s a o, step s a = some o → (G s a ↔ ∃ t, o = .ok t)) {s : S} {as : List A}
    {o : Except U S} (hrun : exec (orUndefined step) (.ok s) as = some o) :
    Meets (orUndefined step) (Defined G) (.ok s) as ↔ ∃ t, o = .ok t := by
  induction as generalizing s with
  | nil =>
    obtain rfl := Option.some.inj hrun
    exact iff_of_true trivial ⟨s, rfl⟩
  | cons a as ih =>
    obtain ⟨u, hu, hrest⟩ := exec_cons.mp hrun
    have hfirst := hG s a u hu
    cases u with
    | ok t =>
      constructor
      · intro h
        exact (ih hrest).mp (h.2 (.ok t) hu)
      · intro h
        refine ⟨hfirst.mpr ⟨t, rfl⟩, fun v hv => ?_⟩
        obtain rfl := Option.some.inj (hu.symm.trans hv)
        exact (ih hrest).mpr h
    | error u =>
      rw [exec_error] at hrest
      obtain rfl := Option.some.inj hrest
      constructor
      · intro h
        exact hfirst.mp h.1
      · rintro ⟨t, ht⟩
        cases ht

/-- What the defined steps that meet `G` keep, a run that meets it keeps. -/
theorem invariant_of_meets_defined {I : S → Prop} {G : S → A → Prop}
    (hstep : ∀ s a o, I s → G s a → step s a = some o → ∃ t, o = .ok t ∧ I t) {s : S}
    {as : List A} {o : Except U S} (hs : I s)
    (hG : Meets (orUndefined step) (Defined G) (.ok s) as)
    (hrun : exec (orUndefined step) (.ok s) as = some o) : ∃ t, o = .ok t ∧ I t := by
  induction as generalizing s with
  | nil =>
    obtain rfl := Option.some.inj hrun
    exact ⟨s, rfl, hs⟩
  | cons a as ih =>
    obtain ⟨u, hu, hrest⟩ := exec_cons.mp hrun
    obtain ⟨t, rfl, ht⟩ := hstep s a u hs hG.1 hu
    exact ih ht (hG.2 _ hu) hrest

/-- Where `G` says which steps keep `P`, a run has `P` after each of its steps exactly when
it meets `G` throughout. -/
theorem meets_defined_iff_prefixes {I P : S → Prop} {G : S → A → Prop} (hP : ∀ s, I s → P s)
    (hG : ∀ s a o, I s → step s a = some o → (G s a ↔ ∃ t, o = .ok t ∧ P t))
    (hstep : ∀ s a t, I s → G s a → step s a = some (.ok t) → I t) {s : S} {as : List A}
    {o : Except U S} (hs : I s) (hrun : exec (orUndefined step) (.ok s) as = some o) :
    Meets (orUndefined step) (Defined G) (.ok s) as ↔
      ∀ bs p, bs <+: as → exec (orUndefined step) (.ok s) bs = some p → ∃ t, p = .ok t ∧ P t := by
  induction as generalizing s with
  | nil =>
    refine iff_of_true trivial fun bs p hbs hp => ?_
    obtain rfl := List.prefix_nil.mp hbs
    obtain rfl := Option.some.inj hp
    exact ⟨s, rfl, hP s hs⟩
  | cons a as ih =>
    obtain ⟨u, hu, hrest⟩ := exec_cons.mp hrun
    have hfirst := hG s a u hs hu
    constructor
    · rintro ⟨hGa, hmeets⟩ bs p hbs hp
      obtain ⟨t, rfl, -⟩ := hfirst.mp hGa
      rcases List.prefix_cons_iff.mp hbs with rfl | ⟨cs, rfl, hcs⟩
      · obtain rfl := Option.some.inj hp
        exact ⟨s, rfl, hP s hs⟩
      · obtain ⟨v, hv, hp⟩ := exec_cons.mp hp
        obtain rfl := Option.some.inj (hu.symm.trans hv)
        exact (ih (hstep s a t hs hGa hu) hrest).mp (hmeets _ hu) cs p hcs hp
    -- the one-step prefix tells of the first step, the longer ones of the rest
    · intro h
      have hone : exec (orUndefined step) (.ok s) [a] = some u := exec_cons.mpr ⟨u, hu, rfl⟩
      have hGa : G s a := hfirst.mpr (h [a] u ((List.prefix_cons_inj a).mpr List.nil_prefix) hone)
      obtain ⟨t, rfl, -⟩ := hfirst.mp hGa
      refine ⟨hGa, fun v hv => ?_⟩
      obtain rfl := Option.some.inj (hu.symm.trans hv)
      refine (ih (hstep s a t hs hGa hu) hrest).mpr fun bs p hbs hp => ?_
      exact h (a :: bs) p ((List.prefix_cons_inj a).mpr hbs) (exec_cons.mpr ⟨_, hu, hp⟩)

end Gateway.Steps
