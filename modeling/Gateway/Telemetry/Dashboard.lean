import Gateway.Telemetry.Counters

/-!
# The traffic behind the dashboard (`src/phase15_telemetry_dashboard.cpp`)

`main` takes snapshots while one thread runs `simulate_traffic`. The counters that the thread
leaves behind are determined by the number of its bursts.
-/

namespace Gateway.Telemetry
open Steps Atomics Monitor

/-- The body of the inner loop. -/
def packet (pkt : UInt64) : List Call :=
  [.recordPacketIn (512 + pkt % 256), .recordPacketOut 256, .recordLatency (12 + pkt % 15)]

/-- Passes of the inner loop, and the number of the next packet. -/
def burst : ℕ → UInt64 → List Call × UInt64
  | 0, pkt => ([], pkt)
  | k + 1, pkt =>
    let (calls, next) := burst k (pkt + 1)
    (packet pkt ++ calls, next)

/-- Passes of the outer loop. -/
def bursts : ℕ → UInt64 → List Call
  | 0, _ => []
  | n + 1, pkt =>
    let (calls, pkt) := burst 50 pkt
    calls ++ (if pkt % 500 < 5 then [.recordDrop] else []) ++
      (if pkt % 2000 = 0 ∧ 0 < pkt then [.recordAuthFailure] else []) ++ bursts n pkt

/-- The calls of `simulate_traffic` when `running` was true for a number of passes. -/
def simulateTraffic (n : ℕ) : List Call := .setActiveConnections 3 :: bursts n 0

/-- What the calls add to a counter. -/
def totalOf (c : Counter) (calls : List Call) : UInt64 :=
  Memory.amount c (calls.flatMap Call.writes)

theorem totalOf_append (c : Counter) (calls later : List Call) :
    totalOf c (calls ++ later) = totalOf c calls + totalOf c later := by
  rw [totalOf, List.flatMap_append, Memory.amount_append, totalOf, totalOf]

theorem burst_snd (k : ℕ) (pkt : UInt64) : (burst k pkt).2 = pkt + .ofNat k := by
  induction k generalizing pkt with
  | zero => exact (UInt64.add_zero pkt).symm
  | succ k ih =>
    rw [burst, ih, UInt64.ofNat_add, UInt64.add_assoc, UInt64.add_comm 1]
    rfl

/-- A counter to which each packet adds the same. -/
theorem totalOf_burst {c : Counter} {n : UInt64} (hpacket : ∀ pkt, totalOf c (packet pkt) = n)
    (k : ℕ) (pkt : UInt64) : totalOf c (burst k pkt).1 = .ofNat k * n := by
  induction k generalizing pkt with
  | zero => exact UInt64.zero_mul.symm
  | succ k ih =>
    have hone : UInt64.ofNat 1 * n = n := UInt64.one_mul n
    rw [burst, totalOf_append, hpacket, ih, UInt64.ofNat_add, UInt64.add_mul, hone,
      UInt64.add_comm]

theorem drop_iff {m : ℕ} (hm : 50 * m < 2 ^ 64) :
    UInt64.ofNat (50 * m) % 500 < 5 ↔ m % 10 = 0 := by
  have hmod : (500 : UInt64).toNat = 500 := rfl
  have hfive : (5 : UInt64).toNat = 5 := rfl
  rw [UInt64.lt_iff_toNat_lt, UInt64.toNat_mod, UInt64.toNat_ofNat_of_lt' hm, hmod, hfive]
  omega

theorem authFailure_iff {m : ℕ} (hm : 50 * m < 2 ^ 64) (hpos : 0 < m) :
    (UInt64.ofNat (50 * m) % 2000 = 0 ∧ 0 < UInt64.ofNat (50 * m)) ↔ m % 40 = 0 := by
  have hmod : (2000 : UInt64).toNat = 2000 := rfl
  have hzero : (0 : UInt64).toNat = 0 := rfl
  rw [← UInt64.toNat_inj, UInt64.lt_iff_toNat_lt, UInt64.toNat_mod,
    UInt64.toNat_ofNat_of_lt' hm, hmod, hzero]
  omega

theorem bursts_succ (k : ℕ) (pkt : UInt64) :
    bursts (k + 1) pkt = (burst 50 pkt).1 ++
      (if (pkt + .ofNat 50) % 500 < 5 then [.recordDrop] else []) ++
      (if (pkt + .ofNat 50) % 2000 = 0 ∧ 0 < pkt + .ofNat 50 then [.recordAuthFailure] else []) ++
      bursts k (pkt + .ofNat 50) := by
  rw [← burst_snd]
  rfl

/-- A call that is made every so many bursts. -/
theorem totalOf_every {c : Counter} {call : Call} {n : UInt64} (hcall : totalOf c [call] = n)
    (m every : ℕ) :
    .ofNat (m / every) * n + totalOf c (if (m + 1) % every = 0 then [call] else []) =
      .ofNat ((m + 1) / every) * n := by
  have hnone : totalOf c [] = 0 := rfl
  have hone : UInt64.ofNat 1 * n = n := UInt64.one_mul n
  simp only [Nat.succ_div, Nat.dvd_iff_mod_eq_zero]
  split_ifs
  · rw [hcall, UInt64.ofNat_add, UInt64.add_mul, hone]
  · rw [hnone, UInt64.add_zero, Nat.add_zero]

/-- What the bursts add to a counter, from the packet that some bursts have come to: so much for
each packet, each drop and each failure. -/
theorem totalOf_bursts {c : Counter} {n d f : UInt64} (hpacket : ∀ pkt, totalOf c (packet pkt) = n)
    (hdrop : totalOf c [.recordDrop] = d) (hfailure : totalOf c [.recordAuthFailure] = f)
    (k m : ℕ) (hfits : 50 * (m + k) < 2 ^ 64) :
    .ofNat (50 * m) * n + .ofNat (m / 10) * d + .ofNat (m / 40) * f +
        totalOf c (bursts k (.ofNat (50 * m))) =
      .ofNat (50 * (m + k)) * n + .ofNat ((m + k) / 10) * d + .ofNat ((m + k) / 40) * f := by
  induction k generalizing m with
  | zero => exact UInt64.add_zero _
  | succ k ih =>
    have hnext : UInt64.ofNat (50 * m) + .ofNat 50 = .ofNat (50 * (m + 1)) :=
      (UInt64.ofNat_add (50 * m) 50).symm
    have hlt : 50 * (m + 1) < 2 ^ 64 := by omega
    have hsum : m + (k + 1) = m + 1 + k := by omega
    rw [bursts_succ, hnext, hsum, ← ih (m + 1) (by omega)]
    simp only [totalOf_append, totalOf_burst hpacket, drop_iff hlt,
      authFailure_iff hlt m.succ_pos]
    rw [← totalOf_every hdrop m 10, ← totalOf_every hfailure m 40, ← hnext, UInt64.add_mul]
    grind

theorem totalOf_bursts_zero {c : Counter} {k d f : UInt64}
    (hpacket : ∀ pkt, totalOf c (packet pkt) = k) (hdrop : totalOf c [.recordDrop] = d)
    (hfailure : totalOf c [.recordAuthFailure] = f) {n : ℕ} (hn : n < 2 ^ 56) :
    totalOf c (bursts n 0) = .ofNat (50 * n) * k + .ofNat (n / 10) * d + .ofNat (n / 40) * f := by
  have hsum := totalOf_bursts hpacket hdrop hfailure n 0 (by omega)
  have hnone : UInt64.ofNat (50 * 0) * k + .ofNat (0 / 10) * d + .ofNat (0 / 40) * f = 0 := by
    have hzero : UInt64.ofNat 0 = 0 := rfl
    simp [hzero]
  rw [hnone, UInt64.zero_add, Nat.zero_add] at hsum
  exact hsum

/-! ## The counters and what is shown of them -/

/-- The counters that the dashboard shows as numbers of packets. -/
def shownCounts : List ((Snapshot → UInt64) × Counter) :=
  [(Snapshot.packetsReceived, .packetsReceived), (Snapshot.packetsSent, .packetsSent),
    (Snapshot.packetsDropped, .packetsDropped), (Snapshot.authFailures, .authFailures)]

/-- Calls of the traffic other than the first. -/
def IsTraffic (call : Call) : Prop :=
  (∃ pkt, call ∈ packet pkt) ∨ call = .recordDrop ∨ call = .recordAuthFailure

theorem isTraffic_burst {k : ℕ} {pkt : UInt64} {call : Call} (h : call ∈ (burst k pkt).1) :
    IsTraffic call := by
  induction k generalizing pkt with
  | zero => exact absurd h List.not_mem_nil
  | succ k ih =>
    rcases List.mem_append.mp h with h | h
    · exact Or.inl ⟨pkt, h⟩
    · exact ih h

theorem isTraffic_bursts {n : ℕ} {pkt : UInt64} {call : Call} (h : call ∈ bursts n pkt) :
    IsTraffic call := by
  induction n generalizing pkt with
  | zero => exact absurd h List.not_mem_nil
  | succ n ih =>
    rw [bursts_succ] at h
    simp only [List.mem_append, List.mem_ite_nil_right, List.mem_singleton] at h
    rcases h with ((h | h) | h) | h
    · exact isTraffic_burst h
    · exact Or.inr (Or.inl h.2)
    · exact Or.inr (Or.inr h.2)
    · exact ih h

theorem write_of_isTraffic {call : Call} (h : IsTraffic call) {w : Write Counter UInt64}
    (hw : w ∈ call.writes) : ∃ c n, w = .fetchAdd c n ∧ c ≠ .activeConnections ∧
      (c ∈ shownCounts.map Prod.snd → n = 1) := by
  rcases h with ⟨pkt, h⟩ | rfl | rfl
  · simp only [packet, List.mem_cons, List.not_mem_nil, or_false] at h
    rcases h with rfl | rfl | rfl <;>
    · simp only [Call.writes, List.mem_cons, List.not_mem_nil, or_false] at hw
      rcases hw with rfl | rfl <;> exact ⟨_, _, rfl, by decide, by simp [shownCounts]⟩
  all_goals
    rw [Call.writes, List.mem_singleton] at hw
    exact ⟨_, _, hw, by decide, fun _ => rfl⟩

theorem length_burst (k : ℕ) (pkt : UInt64) : (burst k pkt).1.length = 3 * k := by
  induction k generalizing pkt with
  | zero => rfl
  | succ k ih =>
    rw [burst, List.length_append, ih]
    simp only [packet, List.length_cons, List.length_nil]
    omega

theorem length_bursts_le (n : ℕ) (pkt : UInt64) : (bursts n pkt).length ≤ 152 * n := by
  induction n generalizing pkt with
  | zero => exact le_rfl
  | succ n ih =>
    have hnext := ih (pkt + .ofNat 50)
    rw [bursts_succ]
    simp only [List.length_append, length_burst]
    split_ifs <;> simp only [List.length_cons, List.length_nil] <;> omega

/-- A call writes a counter once at most. -/
theorem length_filter_writes_le (c : Counter) (calls : List Call) :
    ((calls.flatMap Call.writes).filter (·.target = c)).length ≤ calls.length := by
  induction calls with
  | nil => exact le_rfl
  | cons call calls ih =>
    have hone : (call.writes.filter (·.target = c)).length ≤ 1 := by
      cases call <;> cases c <;> simp [Call.writes, Write.target]
    rw [List.flatMap_cons, List.filter_append, List.length_append, List.length_cons]
    omega

section Finished
variable {n : ℕ} {m : Memory Unit Counter UInt64}

/-- What the thread has left behind in a counter that it only adds to. -/
theorem value_of_finished (h : m.Accounted)
    (hbegun : m.begun = (simulateTraffic n).flatMap Call.writes) (hdone : m.rest () = [])
    {c : Counter} (hc : c ≠ .activeConnections) : value (m.order c) = totalOf c (bursts n 0) := by
  have hstore (v : UInt64) : .store c v ∉ m.begun := by
    intro hmem
    rw [hbegun, simulateTraffic, List.flatMap_cons, List.mem_append] at hmem
    rcases hmem with hmem | hmem
    · exact hc (congrArg Write.target (List.mem_singleton.mp hmem))
    · obtain ⟨call, hcall, hw⟩ := List.mem_flatMap.mp hmem
      obtain ⟨c', k, hk, -⟩ := write_of_isTraffic (isTraffic_bursts hcall) hw
      exact absurd hk (by simp)
  have hsum := h.value_add_amount hstore
  have hfirst : Memory.amount c (Call.setActiveConnections 3).writes = 0 := by
    simp [Memory.amount, Memory.on, Call.writes, Write.target, Ne.symm hc]
  rw [hbegun, simulateTraffic, List.flatMap_cons, Memory.amount_append, hfirst, zero_add,
    Fintype.sum_unique] at hsum
  have hnone : Memory.amount c (m.rest default) = 0 := by
    rw [hdone]
    rfl
  rw [hnone, add_zero] at hsum
  exact hsum

/-- The same in numbers, from what a packet, a drop and a failure add. -/
theorem value_of_adds (h : m.Accounted)
    (hbegun : m.begun = (simulateTraffic n).flatMap Call.writes) (hdone : m.rest () = [])
    (hn : n < 2 ^ 56) {c : Counter} (hc : c ≠ .activeConnections) {k d f : UInt64}
    (hpacket : ∀ pkt, totalOf c (packet pkt) = k) (hdrop : totalOf c [.recordDrop] = d)
    (hfailure : totalOf c [.recordAuthFailure] = f) :
    value (m.order c) = .ofNat (50 * n) * k + .ofNat (n / 10) * d + .ofNat (n / 40) * f := by
  rw [value_of_finished h hbegun hdone hc, totalOf_bursts_zero hpacket hdrop hfailure hn]

theorem length_order_le (h : m.Accounted)
    (hbegun : m.begun = (simulateTraffic n).flatMap Call.writes) (c : Counter) :
    (m.order c).length ≤ (simulateTraffic n).length := by
  have hall := congrArg Multiset.card (h c)
  have hmade := length_filter_writes_le c (simulateTraffic n)
  rw [Multiset.card_add, hbegun, Memory.on, Multiset.coe_card, Multiset.coe_card] at hall
  omega

/-- The connections are stored once. -/
theorem connections_of_finished (h : m.Accounted)
    (hbegun : m.begun = (simulateTraffic n).flatMap Call.writes) (hdone : m.rest () = []) :
    value (m.order .activeConnections) = 3 := by
  have hon : Memory.on .activeConnections m.begun = {.store .activeConnections 3} := by
    have hothers : ((bursts n 0).flatMap Call.writes).filter
        (·.target = Counter.activeConnections) = [] := by
      apply List.filter_eq_nil_iff.mpr
      intro w hw
      obtain ⟨call, hcall, hw⟩ := List.mem_flatMap.mp hw
      obtain ⟨c, k, rfl, hc, -⟩ := write_of_isTraffic (isTraffic_bursts hcall) hw
      rw [decide_eq_true_iff]
      exact hc
    rw [hbegun, simulateTraffic, List.flatMap_cons, Memory.on, List.filter_append, hothers]
    rfl
  have hall := h .activeConnections
  have hnone : Memory.on .activeConnections (m.rest default) = 0 := by
    rw [hdone]
    rfl
  rw [hon, Fintype.sum_unique, hnone, add_zero] at hall
  rw [Multiset.coe_eq_singleton.mp hall]
  rfl

end Finished

theorem ones_of_shown {n : ℕ} {field : (Snapshot → UInt64) × Counter} (hfield : field ∈ shownCounts)
    {w : Write Counter UInt64} (hw : w ∈ (simulateTraffic n).flatMap Call.writes)
    (htarget : w.target = field.2) : w = .fetchAdd field.2 1 := by
  have hcounter : field.2 ∈ shownCounts.map Prod.snd := List.mem_map_of_mem hfield
  rw [simulateTraffic, List.flatMap_cons, List.mem_append] at hw
  rcases hw with hw | hw
  · rw [← htarget, List.mem_singleton.mp hw] at hcounter
    exact absurd hcounter (by simp [shownCounts, Write.target])
  · obtain ⟨call, hcall, hw⟩ := List.mem_flatMap.mp hw
    obtain ⟨c, k, rfl, -, hk⟩ := write_of_isTraffic (isTraffic_bursts hcall) hw
    obtain rfl : c = field.2 := htarget
    rw [hk hcounter]

/-- However its operations and the loads of the snapshots interleave, the traffic thread that has
returned after a number of bursts leaves behind what the bursts were, and the numbers of packets
that the dashboard shows never decrease. -/
theorem dashboard_counts_traffic (n : ℕ) (hn : n < 2 ^ 56) (now : ℤ) (acts : List (Act Unit))
    (s : Monitor Unit) (hrun : exec step (new now) acts = some s)
    (hcalls : acts.flatMap called = simulateTraffic n) (hdone : s.memory.rest () = []) :
    (∀ c ∈ [Counter.packetsReceived, .packetsSent, .latencySamples],
        value (s.memory.order c) = .ofNat (50 * n)) ∧
      value (s.memory.order .bytesOut) = .ofNat (50 * n) * 256 ∧
      value (s.memory.order .packetsDropped) = .ofNat (n / 10) ∧
      value (s.memory.order .authFailures) = .ofNat (n / 40) ∧
      value (s.memory.order .activeConnections) = 3 ∧
      ∀ field ∈ shownCounts, (s.snapshots.map fun shot => (field.1 shot).toNat).Pairwise (· ≤ ·) := by
  have hinv := inv_run hrun
  have hbegun : s.memory.begun = (simulateTraffic n).flatMap Call.writes := by
    rw [begun_run hrun, writesOf, hcalls]
    rfl
  have hvalue {c : Counter} (hc : c ≠ .activeConnections) {k d f : UInt64} :=
    value_of_adds (k := k) (d := d) (f := f) hinv.accounted hbegun hdone hn hc
  refine ⟨?_, ?_, ?_, ?_, connections_of_finished hinv.accounted hbegun hdone, ?_⟩
  -- three counters that every packet adds one to
  · intro c hc
    obtain ⟨hpacket, hdrop, hfailure, hother⟩ : (∀ pkt, totalOf c (packet pkt) = 1) ∧
        totalOf c [.recordDrop] = 0 ∧ totalOf c [.recordAuthFailure] = 0 ∧
        c ≠ .activeConnections := by
      simp only [List.mem_cons, List.not_mem_nil, or_false] at hc
      rcases hc with rfl | rfl | rfl <;> exact ⟨fun _ => rfl, rfl, rfl, by decide⟩
    rw [hvalue hother hpacket hdrop hfailure]
    simp
  · have hpacket (pkt : UInt64) : totalOf .bytesOut (packet pkt) = 256 := rfl
    rw [hvalue (d := 0) (f := 0) (by decide) hpacket rfl rfl]
    simp
  -- a drop with every tenth burst
  · have hpacket (pkt : UInt64) : totalOf .packetsDropped (packet pkt) = 0 := rfl
    rw [hvalue (d := 1) (f := 0) (by decide) hpacket rfl rfl]
    simp
  -- a failed login with every fortieth burst
  · have hpacket (pkt : UInt64) : totalOf .authFailures (packet pkt) = 0 := rfl
    rw [hvalue (d := 0) (f := 1) (by decide) hpacket rfl rfl]
    simp
  · intro field hfield
    have hshown (loaded : Counter → UInt64) (uptime cpuPct rssMb : ℚ) :
        field.1 (snapshotOf loaded uptime cpuPct rssMb) = loaded field.2 := by
      simp only [shownCounts, List.mem_cons, List.not_mem_nil, or_false] at hfield
      rcases hfield with rfl | rfl | rfl | rfl <;> rfl
    -- each write adds one, so a counter grows along its modification order until it wraps around,
    -- which takes more writes than there are
    apply hinv.pairwise_shown hshown (fun w hw => ones_of_shown hfield (hbegun ▸ hw))
    have hwritten := length_order_le hinv.accounted hbegun field.2
    have hlength := length_bursts_le n 0
    rw [simulateTraffic, List.length_cons] at hwritten
    omega

/-- One burst, with a snapshot before its first packet. -/
def oneBurst : List (Act Unit) :=
  [Act.call () (.setActiveConnections 3), Act.snapshot 0] ++ List.replicate 9 (Act.load 0) ++
    [Act.finish 0 none none 100, Act.write ()] ++
    (bursts 1 0).flatMap fun c => Act.call () c :: c.writes.map fun _ => Act.write ()

theorem dashboard_counts_traffic_oneBurst :
    ∃ s, exec step (new 0) oneBurst = some s ∧ value (s.memory.order .packetsReceived) = 50 := by
  have hrun : (exec step (new 0) oneBurst).map (fun s => (s.memory.rest ()).isEmpty) =
      some true := by
    decide +kernel
  obtain ⟨s, hs, hdone⟩ := Option.map_eq_some_iff.mp hrun
  have hcalls : oneBurst.flatMap called = simulateTraffic 1 := by decide +kernel
  exact ⟨s, hs, (dashboard_counts_traffic 1 (by decide) 0 oneBurst s hs hcalls
    (List.isEmpty_iff.mp hdone)).1 .packetsReceived (by simp)⟩

end Gateway.Telemetry
