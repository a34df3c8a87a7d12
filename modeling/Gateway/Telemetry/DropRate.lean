import Gateway.Telemetry.Counters
import Mathlib.Algebra.Order.Field.Rat
import Mathlib.Tactic.NormNum
import Mathlib.Tactic.Positivity

/-!
# The drop rate of a snapshot (`include/telemetry/Telemetry.hpp`)

`take_snapshot` adds the two counts as 64-bit numbers before it divides by their sum, and it has
loaded them at different times. The rate is the result of four rounded operations.
-/

namespace Gateway.Telemetry
open Steps Atomics Rounding

/-! ## One snapshot -/

section Snapshot
variable (loaded : Counter → UInt64) (uptime cpuPct rssMb : ℚ)

theorem dropRatePct_nonneg : 0 ≤ (snapshotOf loaded uptime cpuPct rssMb).dropRatePct := by
  simp only [snapshotOf]
  split_ifs with hpos
  · apply roundBits_nonneg
    apply mul_nonneg _ (by norm_num)
    apply roundBits_nonneg
    exact div_nonneg (roundBits_nonneg (Nat.cast_nonneg _)) hpos.le
  · exact le_rfl

theorem toNat_total
    (h : (loaded .packetsReceived).toNat + (loaded .packetsDropped).toNat < 2 ^ 64) :
    (loaded .packetsReceived + loaded .packetsDropped).toNat =
      (loaded .packetsReceived).toNat + (loaded .packetsDropped).toNat := by
  rw [UInt64.toNat_add, Nat.mod_eq_of_lt h]

/-- Each of the roundings is monotone and leaves one and hundred alone. -/
theorem dropRatePct_le
    (h : (loaded .packetsReceived).toNat + (loaded .packetsDropped).toNat < 2 ^ 64) :
    (snapshotOf loaded uptime cpuPct rssMb).dropRatePct ≤ 100 := by
  have hone : toDouble 1 = 1 := roundBits_natCast (n := 1) (by norm_num)
  have hhundred : toDouble 100 = 100 := roundBits_natCast (n := 100) (by norm_num)
  simp only [snapshotOf]
  split_ifs with hpos
  · have hdropped : (0 : ℚ) ≤ (loaded .packetsDropped).toNat := Nat.cast_nonneg _
    -- the sum does not wrap around, so it is not below the dropped packets
    have hle : toDouble (loaded .packetsDropped).toNat ≤
        toDouble (loaded .packetsReceived + loaded .packetsDropped).toNat := by
      apply roundBits_mono hdropped
      rw [toNat_total loaded h]
      exact_mod_cast Nat.le_add_left _ _
    have hshare : toDouble (toDouble (loaded .packetsDropped).toNat /
        toDouble (loaded .packetsReceived + loaded .packetsDropped).toNat) ≤ 1 := by
      rw [← hone]
      exact roundBits_mono (div_nonneg (roundBits_nonneg hdropped) hpos.le)
        ((div_le_one hpos).mpr hle)
    have hnonneg : 0 ≤ toDouble (toDouble (loaded .packetsDropped).toNat /
        toDouble (loaded .packetsReceived + loaded .packetsDropped).toNat) :=
      roundBits_nonneg (div_nonneg (roundBits_nonneg hdropped) hpos.le)
    calc toDouble (toDouble (toDouble (loaded .packetsDropped).toNat /
            toDouble (loaded .packetsReceived + loaded .packetsDropped).toNat) * 100)
        ≤ toDouble 100 :=
          roundBits_mono (mul_nonneg hnonneg (by norm_num))
            (mul_le_of_le_one_left (by norm_num) hshare)
      _ = 100 := hhundred
  · norm_num

/-- The share of the dropped packets, in percent. -/
def dropShare (received dropped : UInt64) : ℚ :=
  dropped.toNat / (received.toNat + dropped.toNat) * 100

section Percent
variable {dropped total : ℚ} (hdropped : 0 ≤ dropped) (htotal : 0 < total)
include hdropped htotal

theorem quotient_nonneg : 0 ≤ toDouble (toDouble dropped / toDouble total) * 100 :=
  mul_nonneg (roundBits_nonneg (div_nonneg (roundBits_nonneg hdropped)
    (roundBits_nonneg htotal.le))) (by norm_num)

theorem percent_le :
    toDouble (toDouble (toDouble dropped / toDouble total) * 100) ≤
      dropped / total * 100 * (1 + 1 / 2 ^ 50) := by
  have hshare : 0 ≤ dropped / total * 100 :=
    mul_nonneg (div_nonneg hdropped htotal.le) (by norm_num)
  calc toDouble (toDouble (toDouble dropped / toDouble total) * 100)
      ≤ toDouble (toDouble dropped / toDouble total) * 100 * (1 + roundoff 52) :=
        roundBits_le (quotient_nonneg hdropped htotal)
    _ ≤ dropped / total * ((1 + roundoff 52) ^ 2 / (1 - roundoff 52)) * 100 *
          (1 + roundoff 52) := by
        gcongr
        · norm_num [roundoff]
        · exact roundBits_div_le hdropped htotal
    _ = dropped / total * 100 * ((1 + roundoff 52) ^ 3 / (1 - roundoff 52)) := by ring
    _ ≤ dropped / total * 100 * (1 + 1 / 2 ^ 50) := by
        apply mul_le_mul_of_nonneg_left _ hshare
        norm_num [roundoff]

theorem le_percent :
    dropped / total * 100 * (1 - 1 / 2 ^ 50) ≤
      toDouble (toDouble (toDouble dropped / toDouble total) * 100) := by
  have hshare : 0 ≤ dropped / total * 100 :=
    mul_nonneg (div_nonneg hdropped htotal.le) (by norm_num)
  calc dropped / total * 100 * (1 - 1 / 2 ^ 50)
      ≤ dropped / total * 100 * ((1 - roundoff 52) ^ 3 / (1 + roundoff 52)) := by
        apply mul_le_mul_of_nonneg_left _ hshare
        norm_num [roundoff]
    _ = dropped / total * ((1 - roundoff 52) ^ 2 / (1 + roundoff 52)) * 100 *
          (1 - roundoff 52) := by ring
    _ ≤ toDouble (toDouble dropped / toDouble total) * 100 * (1 - roundoff 52) := by
        gcongr
        · norm_num [roundoff]
        · exact le_roundBits_div hdropped htotal
    _ ≤ toDouble (toDouble (toDouble dropped / toDouble total) * 100) :=
        le_roundBits (quotient_nonneg hdropped htotal)

end Percent

/-- The four roundings together change the rate by at most one part in `2 ^ 50`. -/
theorem abs_dropRatePct_sub_le
    (h : (loaded .packetsReceived).toNat + (loaded .packetsDropped).toNat < 2 ^ 64) :
    |(snapshotOf loaded uptime cpuPct rssMb).dropRatePct -
        dropShare (loaded .packetsReceived) (loaded .packetsDropped)| ≤
      dropShare (loaded .packetsReceived) (loaded .packetsDropped) / 2 ^ 50 := by
  have hsum := toNat_total loaded h
  have hdropped : (0 : ℚ) ≤ (loaded .packetsDropped).toNat := Nat.cast_nonneg _
  simp only [snapshotOf, hsum, dropShare]
  rw [← Nat.cast_add]
  generalize (loaded .packetsReceived).toNat + (loaded .packetsDropped).toNat = total
  generalize ((loaded .packetsDropped).toNat : ℚ) = dropped at hdropped
  rcases total.eq_zero_or_pos with rfl | hpos
  · simp [toDouble, roundBits_zero]
  · have htotal : (0 : ℚ) < total := Nat.cast_pos.mpr hpos
    have hrounded : 0 < toDouble total := roundBits_pos htotal
    have hhigh := percent_le hdropped htotal
    have hlow := le_percent hdropped htotal
    rw [if_pos hrounded, abs_le]
    constructor <;> linarith

end Snapshot

/-! ## Whole runs -/

/-- A packet that is counted as received or as dropped. -/
def Call.isPacket : Call → Bool
  | .recordPacketIn _ | .recordDrop => true
  | _ => false

/-- How often a counter is added to. -/
def additions (c : Counter) (writes : List (Write Counter UInt64)) : ℕ :=
  writes.countP fun
    | .fetchAdd c' _ => c' = c
    | .store _ _ => false

theorem additions_append (c : Counter) (writes later : List (Write Counter UInt64)) :
    additions c (writes ++ later) = additions c writes + additions c later :=
  List.countP_append

/-- A call adds one to these two counters, or stores zero. -/
theorem writes_packets {c : Counter} (hc : c = .packetsReceived ∨ c = .packetsDropped)
    (call : Call) : ∀ w ∈ call.writes, w.target = c → w = .fetchAdd c 1 ∨ w = .store c 0 := by
  rcases hc with rfl | rfl <;> cases call <;> simp [Call.writes, Write.target]

/-- A call counts at most one packet, and in one of the counters. -/
theorem additions_writes (call : Call) :
    additions .packetsReceived call.writes + additions .packetsDropped call.writes =
      if call.isPacket then 1 else 0 := by
  cases call <;> rfl

theorem additions_flatMap (calls : List Call) :
    additions .packetsReceived (calls.flatMap Call.writes) +
      additions .packetsDropped (calls.flatMap Call.writes) = calls.countP Call.isPacket := by
  induction calls with
  | nil => rfl
  | cons call calls ih =>
    have hcall := additions_writes call
    rw [List.flatMap_cons, additions_append, additions_append, List.countP_cons]
    omega

/-- A counter shows at most as many packets as were added to it. -/
theorem toNat_value_le {c : Counter} {order : List (Write Counter UInt64)}
    (h : ∀ w ∈ order, w = .fetchAdd c 1 ∨ w = .store c 0) :
    (value order).toNat ≤ additions c order := by
  induction order using List.reverseRecOn with
  | nil => exact Nat.le_refl 0
  | append_singleton order w ih =>
    have hprevious := ih fun w hw => h w (List.mem_append_left _ hw)
    rw [value, List.foldl_append, ← value, additions_append]
    rcases h w (by simp) with rfl | rfl
    · have hadd : (value order + 1).toNat ≤ (value order).toNat + 1 := by
        rw [UInt64.toNat_add]
        exact Nat.mod_le _ _
      have hone : additions c [.fetchAdd c 1] = 1 := by simp [additions]
      rw [hone]
      exact hadd.trans (Nat.add_le_add_right hprevious 1)
    · exact Nat.zero_le _

namespace Monitor
variable {T : Type*} [DecidableEq T] [Fintype T]

omit [DecidableEq T] in
/-- A value that a counter had is at most what the calls of the run add to it. -/
theorem toNat_valueAt_le {m : Memory T Counter UInt64} (h : m.Accounted) {calls : List Call}
    (hbegun : m.begun = calls.flatMap Call.writes) {c : Counter}
    (hc : c = .packetsReceived ∨ c = .packetsDropped) (place : ℕ) :
    (m.valueAt c place).toNat ≤ additions c (calls.flatMap Call.writes) := by
  have hones : ∀ w ∈ m.order c, w = .fetchAdd c 1 ∨ w = .store c 0 := by
    intro w hw
    obtain ⟨hw, htarget⟩ := h.mem_begun hw
    rw [hbegun] at hw
    obtain ⟨call, -, hw⟩ := List.mem_flatMap.mp hw
    exact writes_packets hc call w hw htarget
  calc (m.valueAt c place).toNat ≤ additions c ((m.order c).take place) :=
        toNat_value_le fun w hw => hones w (List.mem_of_mem_take hw)
    _ ≤ additions c (m.order c) := (List.take_sublist _ _).countP_le
    _ ≤ additions c (m.begun.filter (·.target = c)) := by
        have hmade : (m.order c).Subperm (m.begun.filter (·.target = c)) :=
          Multiset.coe_le.mp ((Multiset.le_add_right _ _).trans_eq (h c))
        exact hmade.countP_le _
    _ ≤ additions c m.begun := List.filter_sublist.countP_le
    _ = additions c (calls.flatMap Call.writes) := by rw [hbegun]

/-- In every interleaving, the drop rate of a snapshot is a percentage, and up to one part in
`2 ^ 50` the share of the dropped packets among the counts beside it, however far apart they were
loaded, when their sum does not wrap around; and it does not in a run with fewer than 2^64
packets. -/
theorem drop_rate_is_percentage (now : ℤ) (acts : List (Act T)) (s : Monitor T)
    (hrun : exec step (new now) acts = some s) :
    (∀ shot ∈ s.snapshots, 0 ≤ shot.dropRatePct ∧
      (shot.packetsReceived.toNat + shot.packetsDropped.toNat < 2 ^ 64 →
        shot.dropRatePct ≤ 100 ∧
        |shot.dropRatePct - dropShare shot.packetsReceived shot.packetsDropped| ≤
          dropShare shot.packetsReceived shot.packetsDropped / 2 ^ 50)) ∧
      ((acts.flatMap called).countP Call.isPacket < 2 ^ 64 → ∀ shot ∈ s.snapshots,
        shot.packetsReceived.toNat + shot.packetsDropped.toNat < 2 ^ 64) := by
  have hinv := inv_run hrun
  have hbegun : s.memory.begun = (acts.flatMap called).flatMap Call.writes := begun_run hrun
  have hshown : ∀ shot ∈ s.snapshots, ∃ place, Shows s.memory shot place := by
    obtain ⟨places, hshows, -⟩ := hinv.coherent
    exact ((List.forall₂_and_left _ _).mp (hshows.imp fun _ _ h => ⟨⟨_, h⟩, h⟩)).1
  constructor
  · intro shot hshot
    obtain ⟨place, -, uptime, cpuPct, rssMb, rfl⟩ := hshown shot hshot
    refine ⟨dropRatePct_nonneg _ _ _ _, ?_⟩
    intro hsum
    exact ⟨dropRatePct_le _ _ _ _ hsum, abs_dropRatePct_sub_le _ _ _ _ hsum⟩
  · intro hfew shot hshot
    obtain ⟨place, -, uptime, cpuPct, rssMb, rfl⟩ := hshown shot hshot
    have hreceived := toNat_valueAt_le hinv.accounted hbegun (Or.inl rfl)
      (place .packetsReceived)
    have hdropped := toNat_valueAt_le hinv.accounted hbegun (Or.inr rfl)
      (place .packetsDropped)
    have hpackets := additions_flatMap (acts.flatMap called)
    show (s.memory.valueAt .packetsReceived (place .packetsReceived)).toNat +
      (s.memory.valueAt .packetsDropped (place .packetsDropped)).toNat < 2 ^ 64
    omega

/-- Three packets come in and one is dropped, and then a snapshot is taken. -/
def quarterDropped : List (Act Unit) :=
  (List.replicate 3 [Act.call () (Call.recordPacketIn 100), Act.write (), Act.write ()]).flatten ++
    [Act.call () Call.recordDrop, Act.write (), Act.snapshot 7, Act.load 3, Act.load 0, Act.load 1,
      Act.load 3, Act.load 0, Act.load 0, Act.load 0, Act.load 0, Act.load 0,
      Act.finish 7 none none 100]

theorem drop_rate_is_percentage_quarterDropped :
    ∃ s, exec step (new 0) quarterDropped = some s ∧ s.snapshots.map Snapshot.dropRatePct = [25] ∧
      ∀ shot ∈ s.snapshots, shot.dropRatePct ≤ 100 ∧
        |shot.dropRatePct - dropShare shot.packetsReceived shot.packetsDropped| ≤
          dropShare shot.packetsReceived shot.packetsDropped / 2 ^ 50 := by
  have hrun : (exec step (new 0) quarterDropped).map (fun s =>
      s.snapshots.map Snapshot.dropRatePct) = some [25] := by
    decide +kernel
  obtain ⟨s, hs, hrates⟩ := Option.map_eq_some_iff.mp hrun
  obtain ⟨hshots, hfew⟩ := drop_rate_is_percentage 0 quarterDropped s hs
  refine ⟨s, hs, hrates, ?_⟩
  intro shot hshot
  exact (hshots shot hshot).2 (hfew (by decide) shot hshot)

end Monitor

end Gateway.Telemetry
