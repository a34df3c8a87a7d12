import Mathlib.Data.List.Induction

/-!
# Systems that take one labelled step after another

A system is a partial step function: `step s a = none` says that the action `a`
is not enabled in `s`. A run is a list of actions, so a statement about every
run speaks about every interleaving of the parties whose actions it lists.
-/

namespace Gateway.Steps

variable {S A : Type*} (step : S → A → Option S)

/-- The state after a list of actions, when each of them was enabled. -/
def exec : S → List A → Option S
  | s, [] => some s
  | s, a :: as => (step s a).bind fun t => exec t as

/-- Every action of the run is taken in a state that meets `G`. -/
def Meets (G : S → A → Prop) : S → List A → Prop
  | _, [] => True
  | s, a :: as => G s a ∧ ∀ t, step s a = some t → Meets G t as

variable {step}

@[simp] theorem exec_nil (s : S) : exec step s [] = some s := rfl

theorem exec_cons {s t : S} {a : A} {as : List A} :
    exec step s (a :: as) = some t ↔ ∃ u, step s a = some u ∧ exec step u as = some t :=
  Option.bind_eq_some_iff

theorem exec_append {s t : S} {as bs : List A} :
    exec step s (as ++ bs) = some t ↔ ∃ u, exec step s as = some u ∧ exec step u bs = some t := by
  induction as generalizing s with
  | nil => simp
  | cons a as ih =>
    simp only [List.cons_append, exec_cons, ih]
    constructor
    · rintro ⟨u, hu, v, hv, ht⟩
      exact ⟨v, ⟨u, hu, hv⟩, ht⟩
    · rintro ⟨v, ⟨u, hu, hv⟩, ht⟩
      exact ⟨u, hu, v, hv, ht⟩

/-- What every step that meets the guard keeps, every run that meets it keeps. -/
theorem invariant_of_meets {I : S → Prop} {G : S → A → Prop}
    (hstep : ∀ s a t, I s → G s a → step s a = some t → I t) {s t : S} {as : List A}
    (hs : I s) (hG : Meets step G s as) (h : exec step s as = some t) : I t := by
  induction as generalizing s with
  | nil => exact Option.some.inj h ▸ hs
  | cons a as ih =>
    obtain ⟨u, hu, h⟩ := exec_cons.mp h
    exact ih (hstep s a u hs hG.1 hu) (hG.2 u hu) h

theorem Meets.mono {G G' : S → A → Prop} (hG : ∀ s a, G s a → G' s a) {s : S} {as : List A}
    (h : Meets step G s as) : Meets step G' s as := by
  induction as generalizing s with
  | nil => trivial
  | cons a as ih => exact ⟨hG s a h.1, fun t ht => ih (h.2 t ht)⟩

instance decidableMeets {G : S → A → Prop} [∀ s a, Decidable (G s a)] :
    ∀ (s : S) (as : List A), Decidable (Meets step G s as)
  | _, [] => inferInstanceAs (Decidable True)
  | s, a :: as =>
    have : Decidable (∀ t, step s a = some t → Meets step G t as) :=
      match step s a with
      | none => isTrue fun _ h => nomatch h
      | some t =>
        have : Decidable (Meets step G t as) := decidableMeets t as
        decidable_of_iff (Meets step G t as)
          ⟨fun h _ ht => Option.some.inj ht ▸ h, fun h => h t rfl⟩
    inferInstanceAs (Decidable (G s a ∧ _))

theorem meets_of_forall_mem {G : S → A → Prop} {as : List A} (h : ∀ a ∈ as, ∀ s, G s a) (s : S) :
    Meets step G s as := by
  induction as generalizing s with
  | nil => trivial
  | cons a as ih =>
    exact ⟨h a List.mem_cons_self s, fun t _ => ih (fun b hb => h b (List.mem_cons_of_mem a hb)) t⟩

theorem meets_append {G : S → A → Prop} {s : S} {as bs : List A} (has : Meets step G s as)
    (hbs : ∀ t, exec step s as = some t → Meets step G t bs) : Meets step G s (as ++ bs) := by
  induction as generalizing s with
  | nil => exact hbs s rfl
  | cons a as ih =>
    refine ⟨has.1, ?_⟩
    intro u hu
    exact ih (has.2 u hu) fun t ht => hbs t (exec_cons.mpr ⟨u, hu, ht⟩)

/-- A step may use what is known of every reachable state. -/
theorem invariant_of_reachable {K I : S → Prop} {s : S}
    (hK : ∀ as t, exec step s as = some t → K t)
    (hstep : ∀ s a t, K s → I s → step s a = some t → I t) (hs : I s) {t : S} {as : List A}
    (h : exec step s as = some t) : I t := by
  induction as using List.reverseRecOn generalizing t with
  | nil => exact Option.some.inj h ▸ hs
  | append_singleton as a ih =>
    obtain ⟨u, hu, hat⟩ := exec_append.mp h
    obtain ⟨v, hv, hvt⟩ := exec_cons.mp hat
    obtain rfl := Option.some.inj hvt
    exact hstep u a v (hK as u hu) (ih hu) hv

/-- Repeating one action: each repetition takes a state of rank `n + 1` to one of rank `n`. -/
theorem exec_replicate {R : S → ℕ → Prop} {a : A}
    (hstep : ∀ s n, R s (n + 1) → ∃ t, step s a = some t ∧ R t n) {s : S} {n : ℕ} (hs : R s n) :
    ∃ t, exec step s (List.replicate n a) = some t ∧ R t 0 := by
  induction n generalizing s with
  | zero => exact ⟨s, rfl, hs⟩
  | succ n ih =>
    obtain ⟨u, hu, hR⟩ := hstep s n hs
    obtain ⟨t, ht, hR⟩ := ih hR
    exact ⟨t, exec_cons.mpr ⟨u, hu, ht⟩, hR⟩

end Gateway.Steps
