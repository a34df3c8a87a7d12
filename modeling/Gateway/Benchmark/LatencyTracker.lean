import Gateway.Lib.Bytes
import Gateway.Lib.OrderStatistics

/-!
# Latency percentiles (`include/benchmark/BenchmarkingSuite.hpp`)

The samples are of any ordered type with the operations the tracker uses; nothing is assumed
of the arithmetic. The products `n * 0.50`, `n * 0.90` and `n * 0.99` are taken exactly.
-/

namespace Gateway.Benchmark

structure BenchmarkResult (α : Type*) where
  name : Bytes
  totalOps : UInt64
  durationSec : α
  throughputOpsSec : α
  minUs : α
  p50Us : α
  p90Us : α
  p99Us : α
  maxUs : α
  avgUs : α

structure LatencyTracker (α : Type*) where
  samples : List α := []

/-- `static_cast<size_t>(n * fraction)` -/
def percentileIndex (n : ℕ) (fraction : ℚ) : ℕ := ⌊(n : ℚ) * fraction⌋₊

namespace LatencyTracker
variable {α : Type*}

def recordUs (t : LatencyTracker α) (microseconds : α) : LatencyTracker α where
  samples := t.samples ++ [microseconds]

theorem samples_foldl_recordUs (samples : List α) (t : LatencyTracker α) :
    (samples.foldl recordUs t).samples = t.samples ++ samples := by
  induction samples generalizing t with
  | nil => simp
  | cons x samples ih => simp [ih, recordUs]

variable [LinearOrder α] [Zero α] [Add α] [Div α] [NatCast α]

/-- `compute_results`; `none` when an index is outside of the sorted samples. -/
def computeResults (t : LatencyTracker α) (name : Bytes) (elapsedSec : α) (totalOps : UInt64) :
    Option (BenchmarkResult α) :=
  if t.samples.isEmpty then some ⟨name, totalOps, elapsedSec, 0, 0, 0, 0, 0, 0, 0⟩
  else do
    let sorted := t.samples.mergeSort (· ≤ ·)
    let n := sorted.length
    let sum := sorted.foldl (· + ·) 0
    let avg := sum / (n : α)
    let minVal ← sorted.head?
    let maxVal ← sorted.getLast?
    let p50 ← sorted[percentileIndex n 0.50]?
    let p90 ← sorted[percentileIndex n 0.90]?
    let p99 ← sorted[min (percentileIndex n 0.99) (n - 1)]?
    let throughput := if 0 < elapsedSec then (totalOps.toNat : α) / elapsedSec else 0
    some ⟨name, totalOps, elapsedSec, throughput, minVal, p50, p90, p99, maxVal, avg⟩

/-- The order of the samples does not enter the results. -/
theorem computeResults_perm {t t' : LatencyTracker α} (h : t.samples.Perm t'.samples)
    (name : Bytes) (elapsedSec : α) (totalOps : UInt64) :
    t.computeResults name elapsedSec totalOps = t'.computeResults name elapsedSec totalOps := by
  have hsorted : t.samples.mergeSort (· ≤ ·) = t'.samples.mergeSort (· ≤ ·) := by
    apply List.Perm.eq_of_sortedLE List.sortedLE_mergeSort List.sortedLE_mergeSort
    exact ((List.mergeSort_perm _ _).trans h).trans (List.mergeSort_perm _ _).symm
  rw [computeResults, computeResults, hsorted, h.isEmpty_eq]

/-- On non-empty samples every index is in bounds. -/
theorem computeResults_of_ne_nil {t : LatencyTracker α} (hne : t.samples ≠ []) (name : Bytes)
    (elapsedSec : α) (totalOps : UInt64) :
    ∃ r, t.computeResults name elapsedSec totalOps = some r ∧
      (t.samples.mergeSort (· ≤ ·))[0]? = some r.minUs ∧
      (t.samples.mergeSort (· ≤ ·))[percentileIndex t.samples.length 0.50]? = some r.p50Us ∧
      (t.samples.mergeSort (· ≤ ·))[percentileIndex t.samples.length 0.90]? = some r.p90Us ∧
      (t.samples.mergeSort (· ≤ ·))[percentileIndex t.samples.length 0.99]? = some r.p99Us ∧
      (t.samples.mergeSort (· ≤ ·))[t.samples.length - 1]? = some r.maxUs := by
  have hlen : (t.samples.mergeSort (· ≤ ·)).length = t.samples.length := List.length_mergeSort _
  have hpos := List.length_pos_of_ne_nil hne
  have hget {i : ℕ} (hi : i < t.samples.length) :
      ∃ x, (t.samples.mergeSort (· ≤ ·))[i]? = some x :=
    ⟨_, List.getElem?_eq_getElem (hlen ▸ hi)⟩
  have hlt (fraction : ℚ) (h : 0 ≤ fraction ∧ fraction < 1) :
      percentileIndex t.samples.length fraction < t.samples.length := floor_mul_lt hpos h.1 h.2
  have h99 := hlt 0.99 (by norm_num)
  obtain ⟨minUs, hmin⟩ := hget hpos
  obtain ⟨p50, hp50⟩ := hget (hlt 0.50 (by norm_num))
  obtain ⟨p90, hp90⟩ := hget (hlt 0.90 (by norm_num))
  obtain ⟨p99, hp99⟩ := hget h99
  obtain ⟨maxUs, hmax⟩ := hget (Nat.sub_lt hpos Nat.one_pos)
  have hclamp : min (percentileIndex t.samples.length 0.99) (t.samples.length - 1) =
      percentileIndex t.samples.length 0.99 := by omega
  rw [computeResults, if_neg (by simpa using hne)]
  simp only [List.head?_eq_getElem?, List.getLast?_eq_getElem?, hlen, hclamp, hmin, hp50, hp90,
    hp99, hmax, Option.bind_eq_bind, Option.bind_some]
  exact ⟨_, rfl, rfl, rfl, rfl, rfl, rfl⟩

/-- The percentiles of any samples, in whatever order they were recorded, are quantiles between
the least and the greatest sample. -/
theorem computeResults_percentiles (samples : List α) (hne : samples ≠ []) (name : Bytes)
    (elapsedSec : α) (totalOps : UInt64) :
    ∃ r, (samples.foldl recordUs {}).computeResults name elapsedSec totalOps = some r ∧
      IsQuantile (1 / 2) samples r.p50Us ∧ IsQuantile (9 / 10) samples r.p90Us ∧
      IsQuantile (99 / 100) samples r.p99Us ∧
      r.minUs ≤ r.p50Us ∧ r.p50Us ≤ r.p90Us ∧ r.p90Us ≤ r.p99Us ∧ r.p99Us ≤ r.maxUs ∧
      ∀ samples' : List α, samples'.Perm samples →
        (samples'.foldl recordUs {}).computeResults name elapsedSec totalOps = some r := by
  have hrecorded (samples : List α) : (samples.foldl recordUs {}).samples = samples :=
    samples_foldl_recordUs samples {}
  have hrec := hrecorded samples
  obtain ⟨r, hr, hmin, hp50, hp90, hp99, hmax⟩ :=
    computeResults_of_ne_nil (hrec.symm ▸ hne) name elapsedSec totalOps
  rw [hrec] at hmin hp50 hp90 hp99 hmax
  have hsorted : (samples.mergeSort (· ≤ ·)).SortedLE := List.sortedLE_mergeSort
  have hperm := List.mergeSort_perm samples (· ≤ ·)
  have hquantile {q : ℚ} {p : α} (hq : 0 ≤ q)
      (hp : (samples.mergeSort (· ≤ ·))[percentileIndex samples.length q]? = some p) :
      IsQuantile q samples p := by
    rw [← hperm.length_eq] at hp
    exact (isQuantile_of_getElem? hsorted hq hp).perm hperm
  -- the index of `p99` is not behind the last sample
  have hlt : percentileIndex samples.length 0.99 < samples.length :=
    floor_mul_lt (List.length_pos_of_ne_nil hne) (by norm_num) (by norm_num)
  refine ⟨r, hr, ?_, ?_, ?_, ?_, ?_, ?_, ?_, ?_⟩
  · rw [show (1 / 2 : ℚ) = 0.50 by norm_num]
    exact hquantile (by norm_num) hp50
  · rw [show (9 / 10 : ℚ) = 0.90 by norm_num]
    exact hquantile (by norm_num) hp90
  · rw [show (99 / 100 : ℚ) = 0.99 by norm_num]
    exact hquantile (by norm_num) hp99
  · exact le_of_getElem? hsorted hmin hp50 (Nat.zero_le _)
  · exact le_of_getElem? hsorted hp50 hp90 (floor_mul_mono _ (by norm_num))
  · exact le_of_getElem? hsorted hp90 hp99 (floor_mul_mono _ (by norm_num))
  · exact le_of_getElem? hsorted hp99 hmax (by omega)
  · intro samples' hperm'
    have hsame : (samples'.foldl recordUs {}).samples.Perm (samples.foldl recordUs {}).samples := by
      rwa [hrecorded, hrecorded]
    rw [computeResults_perm hsame, hr]

/-- Three samples out of order, two of them equal. -/
theorem computeResults_percentiles_ties :
    ∃ r, ([3, 1, 3].foldl recordUs {} : LatencyTracker ℚ).computeResults (ascii "run") 1 3 =
        some r ∧
      IsQuantile (1 / 2) [3, 1, 3] r.p50Us := by
  obtain ⟨r, hr, hp50, -⟩ := computeResults_percentiles ([3, 1, 3] : List ℚ)
    (List.cons_ne_nil _ _) (ascii "run") 1 3
  exact ⟨r, hr, hp50⟩

end LatencyTracker

end Gateway.Benchmark
