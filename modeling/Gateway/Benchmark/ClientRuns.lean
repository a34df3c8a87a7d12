import Gateway.Benchmark.LatencyTracker
import Gateway.Lib.Threads
import Mathlib.Algebra.BigOperators.Fin
import Mathlib.Algebra.Order.BigOperators.Group.Finset
import Mathlib.Data.Fintype.BigOperators

/-!
# The benchmark runs (`src/phase16_benchmarking_suite.cpp`)

Each client measures its operations, then records them in the shared tracker under
`tracker_mutex`. `benchmark_thread_per_client` joins its threads before it reads the tracker;
`benchmark_thread_pool` has no futures and waits until `completed_tasks` reaches the number of
all operations. The clients interleave in any order here, of which the pool allows some.
-/

namespace Gateway.Benchmark
open Steps Threads

def numOperationsPerClient : ℕ := 1000

/-- Where a client is. -/
inductive ClientPoint (α : Type*) where
  | measuring (localSamples : List α)
  /-- before `lock_guard` -/
  | locking (localSamples : List α)
  /-- holds the mutex, with these samples to record -/
  | recording (rest : List α)
  /-- before `completed_tasks.fetch_add` -/
  | adding
  | finished
deriving DecidableEq

/-- What the clients share, with what each of them has measured. -/
structure ClientShared (n : ℕ) (α : Type*) where
  tracker : LatencyTracker α
  mutex : Option (Fin n)
  completedTasks : UInt64
  measured : Fin n → List α

inductive ClientAct (α : Type*) where
  /-- an operation that took `us` microseconds -/
  | measure (us : α)
  | next

section Model
variable {n : ℕ} {α : Type*} (counts : Bool) (ops : ℕ)

/-- One step of client `c`; `counts` says whether it adds to `completed_tasks`. -/
def clientMove (c : Fin n) : ClientAct α → ClientPoint α → ClientShared n α →
    Option (ClientPoint α × ClientShared n α)
  | .measure us, .measuring samples, g =>
    if samples.length < ops then
      some (.measuring (samples ++ [us]),
        { g with measured := Function.update g.measured c (g.measured c ++ [us]) })
    else none
  | .next, .measuring samples, g =>
    if samples.length < ops then none else some (.locking samples, g)
  | .next, .locking samples, g =>
    match g.mutex with
    | none => some (.recording samples, { g with mutex := some c })
    | some _ => none
  | .next, .recording (us :: rest), g =>
    some (.recording rest, { g with tracker := g.tracker.recordUs us })
  | .next, .recording [], g =>
    some (if counts then .adding else .finished, { g with mutex := none })
  | .next, .adding, g =>
    some (.finished, { g with completedTasks := g.completedTasks + .ofNat ops })
  | _, _, _ => none

abbrev ClientRun (n : ℕ) (α : Type*) := Config (Fin n) (ClientPoint α) (ClientShared n α)

def clientStep : ClientRun n α → Action (Fin n) (ClientAct α) Empty → Option (ClientRun n α) :=
  Threads.step (clientMove counts ops) nofun

def clientInit (n : ℕ) (α : Type*) : ClientRun n α :=
  ⟨fun _ => .measuring [], ⟨{}, none, 0, fun _ => []⟩⟩

/-- `total_ops` -/
def totalOps (n : ℕ) : UInt64 := .ofNat n * .ofNat ops

/-- `while (completed_tasks.load() < total_ops)` -/
def stillWaits (c : ClientRun n α) : Bool := c.shared.completedTasks < totalOps ops n

end Model

namespace ClientPoint
variable {α : Type*}

def holds : ClientPoint α → Bool
  | .recording _ => true
  | _ => false

/-- What the client has measured and not recorded. -/
def pending : ClientPoint α → List α
  | .measuring samples => samples
  | .locking samples => samples
  | .recording rest => rest
  | .adding => []
  | .finished => []

/-- What the client has added to `completed_tasks`. -/
def credit (ops : ℕ) : ClientPoint α → ℕ
  | .finished => ops
  | _ => 0

/-- What the client has measured has the right number once it leaves its loop. -/
def Measured (ops : ℕ) (measured : List α) : ClientPoint α → Prop
  | .measuring samples => measured = samples ∧ samples.length ≤ ops
  | _ => measured.length = ops

end ClientPoint

section Moves
variable {n : ℕ} {α : Type*} {counts : Bool} {ops : ℕ} {c : Fin n}

inductive ClientMoves (counts : Bool) (ops : ℕ) (c : Fin n) (g : ClientShared n α) :
    ClientPoint α → ClientPoint α → ClientShared n α → Prop
  | measure {samples : List α} (us : α) (hlt : samples.length < ops) :
      ClientMoves counts ops c g (.measuring samples) (.measuring (samples ++ [us]))
        { g with measured := Function.update g.measured c (g.measured c ++ [us]) }
  | leave {samples : List α} (hge : ops ≤ samples.length) :
      ClientMoves counts ops c g (.measuring samples) (.locking samples) g
  | lock {samples : List α} (hfree : g.mutex = none) :
      ClientMoves counts ops c g (.locking samples) (.recording samples)
        { g with mutex := some c }
  | record (us : α) (rest : List α) :
      ClientMoves counts ops c g (.recording (us :: rest)) (.recording rest)
        { g with tracker := g.tracker.recordUs us }
  | unlock :
      ClientMoves counts ops c g (.recording []) (if counts then .adding else .finished)
        { g with mutex := none }
  | add :
      ClientMoves counts ops c g .adding .finished
        { g with completedTasks := g.completedTasks + .ofNat ops }

theorem clientMoves_of_move {a : ClientAct α} {p p' : ClientPoint α} {g g' : ClientShared n α}
    (h : clientMove counts ops c a p g = some (p', g')) : ClientMoves counts ops c g p p' g' := by
  unfold clientMove at h
  split at h
  · split_ifs at h with hlt
    cases h
    exact .measure _ hlt
  · split_ifs at h with hlt
    cases h
    exact .leave (not_lt.mp hlt)
  · split at h
    · next hfree =>
      cases h
      exact .lock hfree
    · cases h
  · cases h
    exact .record _ _
  · cases h
    exact .unlock
  · cases h
    exact .add
  · cases h

end Moves

/-! ## What the clients keep -/

structure ClientInv {n : ℕ} {α : Type*} (counts : Bool) (ops : ℕ) (c : ClientRun n α) :
    Prop where
  held : ∀ t, (c.locals t).holds = true ↔ c.shared.mutex = some t
  measured : ∀ t, (c.locals t).Measured ops (c.shared.measured t)
  /-- what was recorded and what is still to be recorded is what was measured -/
  samples : (c.shared.tracker.samples : Multiset α) + ∑ t, ((c.locals t).pending : Multiset α) =
    ∑ t, (c.shared.measured t : Multiset α)
  completed : counts = true → c.shared.completedTasks = .ofNat (∑ t, (c.locals t).credit ops)

section Steps
variable {n : ℕ} {α : Type*} {counts : Bool} {ops : ℕ} {c : ClientRun n α} {t : Fin n}
  {p p' : ClientPoint α} {g : ClientShared n α}

theorem clientInv_init (ops : ℕ) : ClientInv counts ops (clientInit n α) where
  held t := by simp [clientInit, ClientPoint.holds]
  measured t := ⟨rfl, Nat.zero_le ops⟩
  samples := by simp [clientInit, ClientPoint.pending]
  completed _ := by simp [clientInit, ClientPoint.credit]

theorem held_move (hinv : ClientInv counts ops c) (hp : c.locals t = p)
    (hm : ClientMoves counts ops t c.shared p p' g) (u : Fin n) :
    (Function.update c.locals t p' u).holds = true ↔ g.mutex = some u := by
  have hu := hinv.held u
  have ht := hinv.held t
  rw [hp] at ht
  rw [Function.update_apply]
  by_cases hut : u = t
  · subst hut
    rw [if_pos rfl]
    cases hm with
    | measure us hlt => exact ht
    | leave hge => exact ht
    | lock hfree => exact iff_of_true rfl rfl
    | record us rest => exact ht
    | unlock =>
      apply iff_of_false
      · cases counts <;> simp [ClientPoint.holds]
      · simp
    | add => exact ht
  · rw [if_neg hut]
    cases hm with
    | measure us hlt => exact hu
    | leave hge => exact hu
    | lock hfree =>
      rw [hu, hfree]
      simp [Ne.symm hut]
    | record us rest => exact hu
    | unlock =>
      -- who unlocks is the holder, so `u` was not
      have hmutex : c.shared.mutex = some t := ht.mp rfl
      rw [hu, hmutex]
      simp [Ne.symm hut]
    | add => exact hu

theorem measured_move (hinv : ClientInv counts ops c) (hp : c.locals t = p)
    (hm : ClientMoves counts ops t c.shared p p' g) (u : Fin n) :
    (Function.update c.locals t p' u).Measured ops (g.measured u) := by
  have hu := hinv.measured u
  rw [Function.update_apply]
  by_cases hut : u = t
  · subst hut
    rw [if_pos rfl]
    rw [hp] at hu
    cases hm with
    | measure us hlt =>
      refine ⟨?_, ?_⟩
      · simp [hu.1]
      · simp only [List.length_append, List.length_singleton]
        omega
    | leave hge =>
      have hlength := hu.2
      show (c.shared.measured u).length = ops
      rw [hu.1]
      omega
    | lock hfree => exact hu
    | record us rest => exact hu
    | unlock => cases counts <;> exact hu
    | add => exact hu
  · rw [if_neg hut]
    cases hm with
    | measure us hlt =>
      dsimp only
      rwa [Function.update_of_ne hut]
    | _ => exact hu

/-- The samples still to be recorded, when a client goes from `p` to `p'`. -/
theorem pending_move (hp : c.locals t = p) (p' : ClientPoint α) :
    ∑ u, ((Function.update c.locals t p' u).pending : Multiset α) + p.pending =
      ∑ u, ((c.locals u).pending : Multiset α) + p'.pending := by
  rw [← hp]
  exact sum_update_add (fun q : ClientPoint α => (q.pending : Multiset α)) c.locals t p'

theorem samples_move (hinv : ClientInv counts ops c) (hp : c.locals t = p)
    (hm : ClientMoves counts ops t c.shared p p' g) :
    (g.tracker.samples : Multiset α) +
        ∑ u, ((Function.update c.locals t p' u).pending : Multiset α) =
      ∑ u, (g.measured u : Multiset α) := by
  have hsamples := hinv.samples
  have hmove := pending_move hp p'
  -- a step that neither measures nor records moves no sample
  have hquiet (heq : p'.pending = p.pending) (htracker : g.tracker = c.shared.tracker)
      (hmeasured : g.measured = c.shared.measured) :
      (g.tracker.samples : Multiset α) +
          ∑ u, ((Function.update c.locals t p' u).pending : Multiset α) =
        ∑ u, (g.measured u : Multiset α) := by
    rw [heq] at hmove
    rw [htracker, hmeasured, add_right_cancel hmove, hsamples]
  cases hm with
  | @measure samples us hlt =>
    have hmeasured := sum_update_add (fun l : List α => (l : Multiset α)) c.shared.measured t
      (c.shared.measured t ++ [us])
    -- a new sample is counted on both sides at once
    have hall : ∑ u, ((Function.update c.shared.measured t (c.shared.measured t ++ [us]) u :
        List α) : Multiset α) = ∑ u, (c.shared.measured u : Multiset α) + ([us] : List α) := by
      apply add_right_cancel (b := (c.shared.measured t : Multiset α))
      rw [hmeasured, ← Multiset.coe_add, add_assoc, add_comm (([us] : List α) : Multiset α)]
    have hpending : ∑ u, ((Function.update c.locals t (.measuring (samples ++ [us]))
        u).pending : Multiset α) =
          ∑ u, ((c.locals u).pending : Multiset α) + ([us] : List α) := by
      apply add_right_cancel (b := (samples : Multiset α))
      rw [show (samples : Multiset α) = ((ClientPoint.measuring samples).pending : List α) from rfl,
        hmove, add_assoc, add_comm (([us] : List α) : Multiset α)]
      rfl
    show _ = ∑ u, ((Function.update c.shared.measured t (c.shared.measured t ++ [us]) u :
      List α) : Multiset α)
    rw [hall, hpending, ← add_assoc, hsamples]
  | leave hge => exact hquiet rfl rfl rfl
  | lock hfree => exact hquiet rfl rfl rfl
  | record us rest =>
    -- a recorded sample goes from the client to the tracker
    have hpending : ∑ u, ((c.locals u).pending : Multiset α) =
        ∑ u, ((Function.update c.locals t (.recording rest) u).pending : Multiset α) +
          ([us] : List α) := by
      apply add_right_cancel (b := (rest : Multiset α))
      rw [show (rest : Multiset α) = ((ClientPoint.recording rest).pending : List α) from rfl,
        ← hmove, add_assoc]
      rfl
    show ((c.shared.tracker.samples ++ [us] : List α) : Multiset α) + _ = _
    rw [← hsamples, hpending, ← Multiset.coe_add, add_assoc,
      add_comm (([us] : List α) : Multiset α)]
  | unlock => exact hquiet (by cases counts <;> rfl) rfl rfl
  | add => exact hquiet rfl rfl rfl

theorem completed_move (hinv : ClientInv true ops c) (hp : c.locals t = p)
    (hm : ClientMoves true ops t c.shared p p' g) :
    g.completedTasks = .ofNat (∑ u, (Function.update c.locals t p' u).credit ops) := by
  have hcompleted := hinv.completed rfl
  have hmove := sum_update_add (ClientPoint.credit ops) c.locals t p'
  rw [hp] at hmove
  have hsame (hg : g.completedTasks = c.shared.completedTasks)
      (heq : p'.credit ops = p.credit ops) :
      g.completedTasks = .ofNat (∑ u, (Function.update c.locals t p' u).credit ops) := by
    rw [heq] at hmove
    rw [hg, hcompleted, Nat.add_right_cancel hmove]
  cases hm with
  | measure us hlt => exact hsame rfl rfl
  | leave hge => exact hsame rfl rfl
  | lock hfree => exact hsame rfl rfl
  | record us rest => exact hsame rfl rfl
  | unlock => exact hsame rfl rfl
  | add =>
    have hadd : ∑ u, (Function.update c.locals t .finished u).credit ops =
        ∑ u, (c.locals u).credit ops + ops := hmove
    rw [hadd, UInt64.ofNat_add, ← hcompleted]

theorem clientInv_step {c c' : ClientRun n α} {action : Action (Fin n) (ClientAct α) Empty}
    (hinv : ClientInv counts ops c) (hstep : clientStep counts ops c action = some c') :
    ClientInv counts ops c' := by
  cases action with
  | thread t a =>
    obtain ⟨p', g, hmove, rfl⟩ := step_thread.mp hstep
    have hm := clientMoves_of_move hmove
    refine ⟨held_move hinv rfl hm, measured_move hinv rfl hm, samples_move hinv rfl hm, ?_⟩
    intro hcounts
    subst hcounts
    exact completed_move hinv rfl hm
  | env e => exact e.elim

theorem clientInv_run {acts : List (Action (Fin n) (ClientAct α) Empty)}
    (hrun : exec (clientStep counts ops) (clientInit n α) acts = some c) :
    ClientInv counts ops c :=
  invariant_of_meets (G := fun _ _ => True) (fun _ _ _ h _ hstep => clientInv_step h hstep)
    (clientInv_init ops) (meets_of_forall_mem (fun _ _ _ => trivial) _) hrun

theorem perm_of_coe_eq_sum {measured : Fin n → List α} {l : List α}
    (h : (l : Multiset α) = ∑ t, (measured t : Multiset α)) :
    l.Perm ((List.finRange n).flatMap measured) := by
  rw [← Multiset.coe_eq_coe, h, Fin.sum_univ_def, ← Multiset.coe_bind, Multiset.bind,
    Multiset.join, Multiset.map_coe, Multiset.sum_coe]

/-- Once the last client has finished, the tracker holds what all of them measured. -/
theorem samples_of_finished (hinv : ClientInv counts ops c)
    (hfinished : ∀ t, c.locals t = .finished) :
    c.shared.tracker.samples.Perm ((List.finRange n).flatMap c.shared.measured) ∧
      c.shared.tracker.samples.length = n * ops := by
  have hpending : ∑ t, ((c.locals t).pending : Multiset α) = 0 := by
    apply Finset.sum_eq_zero
    intro t _
    rw [hfinished t]
    rfl
  have hsamples := hinv.samples
  rw [hpending, add_zero] at hsamples
  refine ⟨perm_of_coe_eq_sum hsamples, ?_⟩
  have hlength := congrArg Multiset.card hsamples
  rw [Multiset.coe_card, Multiset.card_sum] at hlength
  have hops : ∀ t ∈ Finset.univ, (c.shared.measured t : Multiset α).card = ops := by
    intro t _
    have hmeasured := hinv.measured t
    rw [hfinished t] at hmeasured
    exact hmeasured
  rw [hlength, Finset.sum_congr rfl hops]
  simp

/-- The counter reaches `total_ops` only when every client has finished. -/
theorem finished_of_not_stillWaits (hinv : ClientInv true ops c) (hops : 0 < ops)
    (hfits : n * ops < 2 ^ 64) (hwait : stillWaits ops c = false) (t : Fin n) :
    c.locals t = .finished := by
  have hle : ∀ u ∈ Finset.univ, (c.locals u).credit ops ≤ ops := by
    intro u _
    cases c.locals u <;> simp [ClientPoint.credit]
  have hsum : ∑ u, (c.locals u).credit ops ≤ n * ops := by
    simpa using Finset.sum_le_card_nsmul Finset.univ _ ops hle
  have htotal : (totalOps ops n).toNat = n * ops := by
    rw [totalOps, ← UInt64.ofNat_mul, UInt64.toNat_ofNat', Nat.mod_eq_of_lt hfits]
  have hreached : n * ops ≤ ∑ u, (c.locals u).credit ops := by
    have hnot : ¬c.shared.completedTasks < totalOps ops n := by
      simpa [stillWaits] using hwait
    rw [hinv.completed rfl, UInt64.lt_iff_toNat_lt, htotal, UInt64.toNat_ofNat',
      Nat.mod_eq_of_lt (by omega)] at hnot
    omega
  by_contra hne
  have hlt : ∑ u, (c.locals u).credit ops < ∑ _u : Fin n, ops := by
    apply Finset.sum_lt_sum hle
    refine ⟨t, Finset.mem_univ t, ?_⟩
    generalize c.locals t = p at hne
    cases p with
    | finished => exact absurd rfl hne
    | _ => exact hops
  rw [Finset.sum_const, Finset.card_univ, Fintype.card_fin, smul_eq_mul] at hlt
  omega

end Steps

section Results
variable {n : ℕ} {α : Type*} {ops : ℕ} {c : ClientRun n α}
  [LinearOrder α] [Zero α] [Add α] [Div α] [NatCast α]

/-- The results for what the clients measured, one client after the other. -/
def sequentialResults (c : ClientRun n α) (name : Bytes) (elapsedSec : α) (total : UInt64) :
    Option (BenchmarkResult α) :=
  (((List.finRange n).flatMap c.shared.measured).foldl LatencyTracker.recordUs
    {}).computeResults name elapsedSec total

theorem computeResults_of_finished {counts : Bool} (hinv : ClientInv counts ops c)
    (hfinished : ∀ t, c.locals t = .finished) (name : Bytes) (elapsedSec : α) (total : UInt64) :
    c.shared.tracker.computeResults name elapsedSec total =
      sequentialResults c name elapsedSec total := by
  apply LatencyTracker.computeResults_perm
  rw [LatencyTracker.samples_foldl_recordUs]
  exact (samples_of_finished hinv hfinished).1

/-- `main` goes on to the results: the threads are joined, or the wait has ended. -/
def GoesOn (counts : Bool) (ops : ℕ) (c : ClientRun n α) : Prop :=
  if counts then stillWaits ops c = false else ∀ t, c.locals t = .finished

/-- When `main` goes on, in whatever order the clients ran, every sample of every client is in
the tracker, no client will touch it again, and the results are those of the clients run one
after the other. -/
theorem results_see_all_samples (counts : Bool) (hops : 0 < ops) (hfits : n * ops < 2 ^ 64)
    (acts : List (Action (Fin n) (ClientAct α) Empty)) (c : ClientRun n α)
    (hrun : exec (clientStep counts ops) (clientInit n α) acts = some c)
    (hgo : GoesOn counts ops c) :
    c.shared.tracker.samples.length = n * ops ∧
      (∀ t a, clientStep counts ops c (.thread t a) = none) ∧
      ∀ name elapsedSec, c.shared.tracker.computeResults name elapsedSec (totalOps ops n) =
        sequentialResults c name elapsedSec (totalOps ops n) := by
  have hinv := clientInv_run hrun
  have hfinished : ∀ t, c.locals t = .finished := by
    unfold GoesOn at hgo
    cases counts with
    | true => exact finished_of_not_stillWaits hinv hops hfits hgo
    | false => exact hgo
  refine ⟨(samples_of_finished hinv hfinished).2, ?_, ?_⟩
  · intro t a
    cases a <;> simp [clientStep, Threads.step, hfinished t, clientMove]
  · intro name elapsedSec
    exact computeResults_of_finished hinv hfinished name elapsedSec _

-- the source's constant, with any `int` number of clients
example {n : ℕ} (hn : n < 2 ^ 31) : n * numOperationsPerClient < 2 ^ 64 := by
  unfold numOperationsPerClient
  omega

/-- Two clients with one operation each; the one that was measured last is recorded first. -/
def twoClients : List (Action (Fin 2) (ClientAct ℕ) Empty) :=
  let first : Fin 2 := ⟨0, by decide⟩
  let second : Fin 2 := ⟨1, by decide⟩
  [.thread first (.measure 7), .thread second (.measure 5), .thread second .next,
    .thread second .next, .thread first .next, .thread second .next, .thread second .next,
    .thread first .next, .thread second .next, .thread first .next, .thread first .next,
    .thread first .next]

theorem results_see_all_samples_twoClients :
    ∃ c, exec (clientStep true 1) (clientInit 2 ℕ) twoClients = some c ∧
      c.shared.tracker.samples = [5, 7] ∧ c.shared.tracker.samples.length = 2 * 1 := by
  have hrun : (exec (clientStep true 1) (clientInit 2 ℕ) twoClients).map (fun c =>
      (c.shared.tracker.samples, stillWaits 1 c)) = some ([5, 7], false) := by
    decide +kernel
  obtain ⟨c, hc, hend⟩ := Option.map_eq_some_iff.mp hrun
  obtain ⟨hsamples, hwait⟩ := Prod.mk.inj hend
  exact ⟨c, hc, hsamples,
    (results_see_all_samples true Nat.one_pos (by decide) twoClients c hc hwait).1⟩

end Results

end Gateway.Benchmark
