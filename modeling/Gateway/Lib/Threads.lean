import Gateway.Lib.Steps
import Mathlib.Algebra.BigOperators.Group.Finset.Basic
import Mathlib.Logic.Function.Basic

/-!
# Threads over a shared state

Each thread has a local state (its program point and local variables) and takes
atomic steps that read and write the shared state. The environment may change the
shared state on its own, for instance by letting time pass.
-/

namespace Gateway.Threads
open Steps

variable {T A E L G : Type*}

structure Config (T L G : Type*) where
  locals : T → L
  shared : G

inductive Action (T A E : Type*) where
  | thread (t : T) (a : A)
  | env (e : E)

/-- The same step of one thread, `n` times. -/
def times (n : ℕ) (t : T) (a : A) : List (Action T A E) := List.replicate n (.thread t a)

variable (move : T → A → L → G → Option (L × G)) (env : E → G → G)

/-- One atomic step of one thread, or of the environment. -/
def step [DecidableEq T] (c : Config T L G) : Action T A E → Option (Config T L G)
  | .thread t a =>
    (move t a (c.locals t) c.shared).map fun r => ⟨Function.update c.locals t r.1, r.2⟩
  | .env e => some { c with shared := env e c.shared }

/-- The guard `Q` on the steps of threads. -/
def Guarded (Q : T → A → L → G → Prop) (c : Config T L G) : Action T A E → Prop
  | .thread t a => Q t a (c.locals t) c.shared
  | .env _ => True

instance {Q : T → A → L → G → Prop} [∀ t a l g, Decidable (Q t a l g)] (c : Config T L G) :
    ∀ a : Action T A E, Decidable (Guarded Q c a)
  | .thread t a => inferInstanceAs (Decidable (Q t a (c.locals t) c.shared))
  | .env _ => inferInstanceAs (Decidable True)

variable {move env} [DecidableEq T]

theorem step_thread {c c' : Config T L G} {t : T} {a : A} :
    step move env c (.thread t a) = some c' ↔
      ∃ l' g', move t a (c.locals t) c.shared = some (l', g') ∧
        c' = ⟨Function.update c.locals t l', g'⟩ := by
  rw [step, Option.map_eq_some_iff]
  constructor
  · rintro ⟨⟨l', g'⟩, hmove, rfl⟩
    exact ⟨l', g', hmove, rfl⟩
  · rintro ⟨l', g', hmove, rfl⟩
    exact ⟨(l', g'), hmove, rfl⟩

/-- A shared invariant `I` and local assertions `P` hold along every run when each thread
keeps the invariant and its own assertion and interferes with no other thread's. -/
theorem invariant_of_noninterference {I : G → Prop} {P : T → L → G → Prop}
    {Q : T → A → L → G → Prop}
    (hown : ∀ t a l g l' g', I g → P t l g → Q t a l g → move t a l g = some (l', g') →
      I g' ∧ P t l' g')
    (hother : ∀ t a l g l' g' u m, u ≠ t → P t l g → P u m g → move t a l g = some (l', g') →
      P u m g')
    (henv : ∀ e g, I g → I (env e g) ∧ ∀ t l, P t l g → P t l (env e g))
    {c c' : Config T L G} {as : List (Action T A E)}
    (hI : I c.shared) (hP : ∀ t, P t (c.locals t) c.shared)
    (hQ : Meets (step move env) (Guarded Q) c as) (hrun : exec (step move env) c as = some c') :
    I c'.shared ∧ ∀ t, P t (c'.locals t) c'.shared := by
  refine invariant_of_meets (I := fun c => I c.shared ∧ ∀ t, P t (c.locals t) c.shared) ?_
    ⟨hI, hP⟩ hQ hrun
  rintro c (⟨t, a⟩ | e) d ⟨hI, hP⟩ hq hd
  · obtain ⟨l', g', hmove, rfl⟩ := step_thread.mp hd
    obtain ⟨hI', hP'⟩ := hown t a _ _ l' g' hI (hP t) hq hmove
    refine ⟨hI', fun u => ?_⟩
    dsimp only
    by_cases hu : u = t
    · subst hu
      rwa [Function.update_self]
    · rw [Function.update_of_ne hu]
      exact hother t a _ _ l' g' u _ hu (hP t) (hP u) hmove
  · obtain rfl := Option.some.inj hd
    exact ⟨(henv e _ hI).1, fun t => (henv e _ hI).2 t _ (hP t)⟩

/-- A sum over the threads changes by what the moving thread's share changes. -/
theorem sum_update [Fintype T] {M : Type*} [AddCommGroup M] (φ : L → M) (locals : T → L) (t : T)
    (l : L) :
    ∑ u, φ (Function.update locals t l u) = ∑ u, φ (locals u) - φ (locals t) + φ l := by
  rw [← Finset.add_sum_erase _ _ (Finset.mem_univ t),
    ← Finset.add_sum_erase _ (fun u => φ (locals u)) (Finset.mem_univ t), Function.update_self]
  have hrest : ∑ u ∈ Finset.univ.erase t, φ (Function.update locals t l u) =
      ∑ u ∈ Finset.univ.erase t, φ (locals u) := by
    apply Finset.sum_congr rfl
    intro u hu
    rw [Function.update_of_ne (Finset.ne_of_mem_erase hu)]
  rw [hrest, add_sub_cancel_left, add_comm]

/-- What the moving thread gives up and what it gets, in a sum over the threads. -/
theorem sum_update_add [Fintype T] {M : Type*} [AddCommMonoid M] (φ : L → M) (locals : T → L)
    (t : T) (l : L) :
    ∑ u, φ (Function.update locals t l u) + φ (locals t) = ∑ u, φ (locals u) + φ l := by
  rw [← Finset.add_sum_erase _ _ (Finset.mem_univ t),
    ← Finset.add_sum_erase _ (fun u => φ (locals u)) (Finset.mem_univ t), Function.update_self]
  have hrest : ∑ u ∈ Finset.univ.erase t, φ (Function.update locals t l u) =
      ∑ u ∈ Finset.univ.erase t, φ (locals u) := by
    apply Finset.sum_congr rfl
    intro u hu
    rw [Function.update_of_ne (Finset.ne_of_mem_erase hu)]
  rw [hrest, add_comm (φ l), add_comm (φ (locals t)), add_right_comm]

end Gateway.Threads
