import Gateway.Lib.Atomics
import Gateway.Lib.Rounding
import Gateway.Telemetry.MemoryUsage
import Mathlib.Data.UInt

/-!
# Counters and snapshots (`include/telemetry/Telemetry.hpp`)

Any number of threads record what happens, while one thread takes snapshots, as the dashboard of
`src/phase15_telemetry_dashboard.cpp` does. Every atomic operation of the source is relaxed. What
`take_snapshot` computes is rounded as `double` operations are, the conversions of the 64-bit
counts included.
-/

namespace Gateway.Telemetry
open Steps Atomics Rounding

/-- The atomic members of the class. -/
inductive Counter where
  | packetsReceived
  | packetsSent
  | packetsDropped
  | bytesIn
  | bytesOut
  | activeConnections
  | authFailures
  | totalLatencyUs
  | latencySamples
deriving DecidableEq

/-- The member functions that write. -/
inductive Call where
  | recordPacketIn (bytes : UInt64)
  | recordPacketOut (bytes : UInt64)
  | recordDrop
  | recordAuthFailure
  | recordLatency (micros : UInt64)
  | setActiveConnections (n : Int64)
  | connectionOpened
  | connectionClosed
  | reset
deriving DecidableEq

/-- The body of the function, one atomic operation after another. The bits of the `int64_t`
member are those of the unsigned number, and `fetch_sub` wraps around as `fetch_add` does. -/
def Call.writes : Call → List (Write Counter UInt64)
  | .recordPacketIn bytes => [.fetchAdd .packetsReceived 1, .fetchAdd .bytesIn bytes]
  | .recordPacketOut bytes => [.fetchAdd .packetsSent 1, .fetchAdd .bytesOut bytes]
  | .recordDrop => [.fetchAdd .packetsDropped 1]
  | .recordAuthFailure => [.fetchAdd .authFailures 1]
  | .recordLatency micros => [.fetchAdd .totalLatencyUs micros, .fetchAdd .latencySamples 1]
  | .setActiveConnections n => [.store .activeConnections n.toUInt64]
  | .connectionOpened => [.fetchAdd .activeConnections 1]
  | .connectionClosed => [.fetchAdd .activeConnections (-1)]
  | .reset =>
    [.store .packetsReceived 0, .store .packetsSent 0, .store .packetsDropped 0,
      .store .bytesIn 0, .store .bytesOut 0, .store .activeConnections 0, .store .authFailures 0,
      .store .totalLatencyUs 0, .store .latencySamples 0]

structure Snapshot where
  packetsReceived : UInt64
  packetsSent : UInt64
  packetsDropped : UInt64
  bytesIn : UInt64
  bytesOut : UInt64
  activeConnections : Int64
  authFailures : UInt64
  uptimeSec : ℚ
  pktPerSecIn : ℚ
  dropRatePct : ℚ
  cpuUsagePct : ℚ
  rssMemoryMb : ℚ
  avgLatencyUs : ℚ

/-- The loads of `take_snapshot`, in order. -/
def loadOrder : List Counter :=
  [.packetsReceived, .packetsSent, .packetsDropped, .bytesIn, .bytesOut, .activeConnections,
    .authFailures, .totalLatencyUs, .latencySamples]

/-- What `take_snapshot` computes from the loads. -/
def snapshotOf (loaded : Counter → UInt64) (uptime cpuPct rssMb : ℚ) : Snapshot :=
  let rx := loaded .packetsReceived
  let drp := loaded .packetsDropped
  let samples := loaded .latencySamples
  let total := toDouble (rx + drp).toNat
  { packetsReceived := rx
    packetsSent := loaded .packetsSent
    packetsDropped := drp
    bytesIn := loaded .bytesIn
    bytesOut := loaded .bytesOut
    activeConnections := (loaded .activeConnections).toInt64
    authFailures := loaded .authFailures
    uptimeSec := uptime
    pktPerSecIn := if 0 < uptime then toDouble (toDouble rx.toNat / uptime) else 0
    dropRatePct :=
      if 0 < total then toDouble (toDouble (toDouble drp.toNat / total) * 100) else 0
    cpuUsagePct := cpuPct
    rssMemoryMb := rssMb
    avgLatencyUs :=
      if 0 < samples then
        toDouble (toDouble (loaded .totalLatencyUs).toNat / toDouble samples.toNat)
      else 0 }

/-- Where the thread that takes snapshots is. -/
inductive ReaderPoint where
  | idle
  /-- Inside of `take_snapshot`, with the loads still to be made. -/
  | loading (uptime : ℚ) (loaded : Counter → UInt64) (left : List Counter)

/-- The counters with the threads that write them, and the one that takes snapshots. -/
structure Monitor (T : Type*) where
  memory : Memory T Counter UInt64
  point : ReaderPoint := .idle
  startTime : ℤ
  cpu : CpuBaseline
  snapshots : List Snapshot := []

inductive Act (T : Type*) where
  /-- A thread calls a member function. -/
  | call (t : T) (c : Call)
  /-- The next atomic operation of a thread's call. -/
  | write (t : T)
  /-- `take_snapshot` is called, with the clock. -/
  | snapshot (now : ℤ)
  /-- The next load, of the value at a place of the modification order. -/
  | load (place : ℕ)
  /-- The rest of `take_snapshot`, with the clock, the two files of `/proc/self` and what
  `sysconf` returns. -/
  | finish (now : ℤ) (statFile statusFile : Option Bytes) (clkTck : ℤ)

namespace Monitor
variable {T : Type*} [DecidableEq T]

/-- After the constructor, whose own `reset` stores the zeros that are there. -/
def new (now : ℤ) : Monitor T := { memory := .init, startTime := now, cpu := ⟨now, 0⟩ }

def step (s : Monitor T) : Act T → Option (Monitor T)
  | .call t c => (s.memory.call t c.writes).map fun memory => { s with memory }
  | .write t => (s.memory.write t).map fun memory => { s with memory }
  | .snapshot now =>
    match s.point with
    | .idle => some { s with
        point := .loading (toDouble (toDouble (now - s.startTime : ℤ) / 10 ^ 9)) (fun _ => 0)
          loadOrder }
    | .loading .. => none
  | .load place =>
    match s.point with
    | .loading uptime loaded (c :: left) =>
      (s.memory.load c place).map fun (v, memory) =>
        { s with memory, point := .loading uptime (Function.update loaded c v) left }
    | _ => none
  | .finish now statFile statusFile clkTck =>
    match s.point with
    | .loading uptime loaded [] =>
      let (cpuPct, cpu) := getCpuUsagePct s.cpu statFile now clkTck
      let snapshot := snapshotOf loaded uptime cpuPct (getRssMemoryMb statusFile)
      some { s with point := .idle, cpu, snapshots := s.snapshots ++ [snapshot] }
    | _ => none

/-! ## What a snapshot shows -/

/-- The snapshot shows values that the counters had, each at its place. -/
def Shows (m : Memory T Counter UInt64) (snapshot : Snapshot) (place : Counter → ℕ) : Prop :=
  (∀ c, place c ≤ (m.order c).length) ∧ ∃ uptime cpuPct rssMb,
    snapshot = snapshotOf (fun c => m.valueAt c (place c)) uptime cpuPct rssMb

/-- The places of a snapshot do not go back behind those of the one before. -/
def Coherent (m : Memory T Counter UInt64) (snapshots : List Snapshot) : Prop :=
  ∃ places : List (Counter → ℕ), List.Forall₂ (Shows m) snapshots places ∧
    places.Pairwise (· ≤ ·) ∧ ∀ place ∈ places, place ≤ m.seen

/-- What `take_snapshot` has loaded so far. -/
def Loaded (m : Memory T Counter UInt64) : ReaderPoint → Prop
  | .idle => True
  | .loading _ loaded left => ∀ c ∉ left, loaded c = m.valueAt c (m.seen c)

structure Inv [Fintype T] (s : Monitor T) : Prop where
  accounted : s.memory.Accounted
  seen_le : ∀ c, s.memory.seen c ≤ (s.memory.order c).length
  loaded : Loaded s.memory s.point
  coherent : Coherent s.memory s.snapshots

section Steps
variable {m m' : Memory T Counter UInt64} {snapshots : List Snapshot} {s s' : Monitor T}

omit [DecidableEq T] in
theorem Shows.of_extends {snapshot : Snapshot} {place : Counter → ℕ} (h : Shows m snapshot place)
    (hext : m.Extends m') : Shows m' snapshot place := by
  obtain ⟨hle, uptime, cpuPct, rssMb, hsnapshot⟩ := h
  refine ⟨fun c => (hle c).trans (hext.length_le c), uptime, cpuPct, rssMb, ?_⟩
  rw [hsnapshot]
  congr 1
  funext c
  exact (hext.valueAt (hle c)).symm

omit [DecidableEq T] in
theorem Coherent.of_extends (h : Coherent m snapshots) (hext : m.Extends m')
    (hle : m.seen ≤ m'.seen) : Coherent m' snapshots := by
  obtain ⟨places, hshows, hpairwise, hpast⟩ := h
  exact ⟨places, hshows.imp fun _ _ h => h.of_extends hext, hpairwise,
    fun place hplace => (hpast place hplace).trans hle⟩

variable [Fintype T]

omit [DecidableEq T] in
/-- A step of a thread that writes. -/
theorem Inv.of_extends (h : s.Inv) (haccounted : m'.Accounted)
    (hext : s.memory.Extends m' ∧ m'.seen = s.memory.seen) : Inv { s with memory := m' } := by
  obtain ⟨hext, hseen⟩ := hext
  refine ⟨haccounted, ?_, ?_, h.coherent.of_extends hext hseen.ge⟩
  · intro c
    dsimp only
    rw [hseen]
    exact (h.seen_le c).trans (hext.length_le c)
  · have hloaded := h.loaded
    cases hpoint : s.point with
    | idle => trivial
    | loading uptime loaded left =>
      rw [hpoint] at hloaded
      intro c hc
      dsimp only at hc ⊢
      rw [hloaded c hc, hseen, hext.valueAt (h.seen_le c)]

omit [DecidableEq T] in
theorem Inv.load (h : s.Inv) {uptime : ℚ} {loaded : Counter → UInt64} {c : Counter}
    {left : List Counter} (hpoint : s.point = .loading uptime loaded (c :: left)) {place : ℕ}
    {v : UInt64} (hload : s.memory.load c place = some (v, m')) :
    Inv { s with memory := m', point := .loading uptime (Function.update loaded c v) left } := by
  have haccounted := h.accounted.load hload
  obtain ⟨hge, hle, hv, rfl⟩ := Memory.load_eq_some.mp hload
  have hseen : s.memory.seen ≤ Function.update s.memory.seen c place :=
    le_update_self_iff.mpr hge
  refine ⟨haccounted, ?_, ?_, h.coherent.of_extends (fun _ => List.prefix_rfl) hseen⟩
  · intro c'
    dsimp only
    by_cases hc : c' = c
    · subst hc
      rw [Function.update_self]
      exact hle
    · rw [Function.update_of_ne hc]
      exact h.seen_le c'
  · have hloaded := h.loaded
    rw [hpoint] at hloaded
    intro c' hc'
    dsimp only
    by_cases hc : c' = c
    · subst hc
      rw [Function.update_self, Function.update_self, hv]
      rfl
    · rw [Function.update_of_ne hc, Function.update_of_ne hc]
      exact hloaded c' (by simp [hc, hc'])

omit [DecidableEq T] in
theorem Inv.finish (h : s.Inv) {uptime : ℚ} {loaded : Counter → UInt64}
    (hpoint : s.point = .loading uptime loaded []) (cpuPct rssMb : ℚ) (cpu : CpuBaseline) :
    Inv { s with
      point := .idle, cpu
      snapshots := s.snapshots ++ [snapshotOf loaded uptime cpuPct rssMb] } := by
  refine ⟨h.accounted, h.seen_le, trivial, ?_⟩
  have hloaded := h.loaded
  rw [hpoint] at hloaded
  have hshows : Shows s.memory (snapshotOf loaded uptime cpuPct rssMb) s.memory.seen := by
    refine ⟨h.seen_le, uptime, cpuPct, rssMb, ?_⟩
    congr 1
    funext c
    exact hloaded c (by simp)
  obtain ⟨places, hplaces, hpairwise, hpast⟩ := h.coherent
  refine ⟨places ++ [s.memory.seen], List.rel_append hplaces (.cons hshows .nil), ?_, ?_⟩
  · apply List.pairwise_append.mpr
    exact ⟨hpairwise, List.pairwise_singleton _ _, by simpa using hpast⟩
  · simpa [or_imp, forall_and] using hpast

theorem inv_step (h : s.Inv) {a : Act T} (hstep : s.step a = some s') : s'.Inv := by
  cases a with
  | call t c =>
    obtain ⟨memory, hcall, rfl⟩ := Option.map_eq_some_iff.mp hstep
    exact h.of_extends (h.accounted.call hcall) (Memory.extends_call hcall)
  | write t =>
    obtain ⟨memory, hwrite, rfl⟩ := Option.map_eq_some_iff.mp hstep
    exact h.of_extends (h.accounted.write hwrite) (Memory.extends_write hwrite)
  | snapshot now =>
    rw [step] at hstep
    split at hstep
    · rw [← Option.some.inj hstep]
      refine ⟨h.accounted, h.seen_le, ?_, h.coherent⟩
      intro c hc
      exact absurd (by cases c <;> decide) hc
    · exact absurd hstep (by simp)
  | load place =>
    rw [step] at hstep
    split at hstep
    · next hpoint =>
      obtain ⟨⟨v, memory⟩, hload, rfl⟩ := Option.map_eq_some_iff.mp hstep
      exact h.load hpoint hload
    · exact absurd hstep (by simp)
  | finish now statFile statusFile clkTck =>
    rw [step] at hstep
    split at hstep
    · next hpoint =>
      rw [← Option.some.inj hstep]
      exact h.finish hpoint _ _ _
    · exact absurd hstep (by simp)

omit [DecidableEq T] in
theorem inv_new (now : ℤ) : (new now : Monitor T).Inv :=
  ⟨Memory.accounted_init, fun _ => le_rfl, trivial, [], .nil, .nil, by simp⟩

theorem inv_run {now : ℤ} {acts : List (Act T)} (hrun : exec step (new now) acts = some s) :
    s.Inv :=
  invariant_of_reachable (K := fun _ => True) (fun _ _ _ => trivial)
    (fun _ _ _ _ h hstep => inv_step h hstep) (inv_new now) hrun

end Steps

/-! ## Counters that go up by one -/

section Counts
variable [Fintype T] {m : Memory T Counter UInt64} {c : Counter}

omit [DecidableEq T] in
/-- A counter whose calls all add one to it shows how many of them it has seen. -/
theorem valueAt_of_ones (h : m.Accounted) (hones : ∀ w ∈ m.begun, w.target = c → w = .fetchAdd c 1)
    {place : ℕ} (hplace : place ≤ (m.order c).length) : m.valueAt c place = .ofNat place := by
  have horder : m.order c = List.replicate (m.order c).length (.fetchAdd c 1) := by
    apply List.eq_replicate_of_mem
    intro w hw
    obtain ⟨hbegun, htarget⟩ := h.mem_begun hw
    exact hones w hbegun htarget
  have hvalue : ∀ k, value (List.replicate k (.fetchAdd c 1)) = UInt64.ofNat k := by
    intro k
    induction k with
    | zero => rfl
    | succ k ih =>
      rw [List.replicate_succ', value, List.foldl_append, ← value, ih, UInt64.ofNat_add]
      rfl
  rw [Memory.valueAt, horder, List.take_replicate, Nat.min_eq_left hplace, hvalue]

omit [DecidableEq T] in
/-- What successive snapshots show of such a counter does not decrease. -/
theorem Inv.pairwise_shown {s : Monitor T} (h : s.Inv) {shown : Snapshot → UInt64}
    (hshown : ∀ loaded uptime cpuPct rssMb,
      shown (snapshotOf loaded uptime cpuPct rssMb) = loaded c)
    (hones : ∀ w ∈ s.memory.begun, w.target = c → w = .fetchAdd c 1)
    (hfew : (s.memory.order c).length < 2 ^ 64) :
    (s.snapshots.map fun shot => (shown shot).toNat).Pairwise (· ≤ ·) := by
  obtain ⟨places, hshows, hpairwise, -⟩ := h.coherent
  have hcounts : s.snapshots.map (fun shot => (shown shot).toNat) = places.map (· c) := by
    apply List.forall₂_eq_eq_eq ▸ (List.forall₂_map_left_iff.mpr
      (List.forall₂_map_right_iff.mpr (hshows.imp ?_)))
    intro shot place hshow
    obtain ⟨hle, uptime, cpuPct, rssMb, hshot⟩ := hshow
    rw [hshot, hshown, valueAt_of_ones h.accounted hones (hle c), UInt64.toNat_ofNat_of_lt']
    exact (hle c).trans_lt hfew
  rw [hcounts]
  exact List.pairwise_map.mpr (hpairwise.imp fun hle => hle c)

end Counts

/-! ## Whole runs -/

/-- The member function that the action calls. -/
def called : Act T → List Call
  | .call _ c => [c]
  | _ => []

/-- The atomic operations of the calls of a run. -/
def writesOf (acts : List (Act T)) : List (Write Counter UInt64) :=
  (acts.flatMap called).flatMap Call.writes

theorem begun_step {s s' : Monitor T} {a : Act T} (hstep : s.step a = some s') :
    s'.memory.begun = s.memory.begun ++ (called a).flatMap Call.writes := by
  cases a with
  | call t c =>
    obtain ⟨memory, hcall, rfl⟩ := Option.map_eq_some_iff.mp hstep
    unfold Memory.call at hcall
    split at hcall
    · rw [← Option.some.inj hcall]
      simp [called]
    · exact absurd hcall (by simp)
  | write t =>
    obtain ⟨memory, hwrite, rfl⟩ := Option.map_eq_some_iff.mp hstep
    unfold Memory.write at hwrite
    split at hwrite
    · exact absurd hwrite (by simp)
    · rw [← Option.some.inj hwrite]
      simp [called]
  | snapshot now =>
    rw [step] at hstep
    split at hstep
    · rw [← Option.some.inj hstep]
      simp [called]
    · exact absurd hstep (by simp)
  | load place =>
    rw [step] at hstep
    split at hstep
    · obtain ⟨⟨v, memory⟩, hload, rfl⟩ := Option.map_eq_some_iff.mp hstep
      obtain ⟨-, -, -, rfl⟩ := Memory.load_eq_some.mp hload
      simp [called]
    · exact absurd hstep (by simp)
  | finish now statFile statusFile clkTck =>
    rw [step] at hstep
    split at hstep
    · rw [← Option.some.inj hstep]
      simp [called]
    · exact absurd hstep (by simp)

theorem begun_run {s s' : Monitor T} {acts : List (Act T)} (hrun : exec step s acts = some s') :
    s'.memory.begun = s.memory.begun ++ writesOf acts := by
  induction acts generalizing s with
  | nil =>
    rw [← Option.some.inj hrun]
    simp [writesOf]
  | cons a acts ih =>
    obtain ⟨next, hstep, hrun⟩ := exec_cons.mp hrun
    rw [ih hrun, begun_step hstep]
    simp [writesOf]

/-- In every interleaving no update is lost: a counter that nothing is stored to, with what the
calls under way have still to add to it, is what all calls add. Each snapshot shows values that
the counters had, at places of their modification orders that do not go back from one snapshot to
the next. -/
theorem counters_lose_no_update [Fintype T] (now : ℤ) (acts : List (Act T)) (s : Monitor T)
    (hrun : exec step (new now) acts = some s) :
    (∀ c, (∀ v, .store c v ∉ writesOf acts) →
      value (s.memory.order c) + ∑ t, Memory.amount c (s.memory.rest t) =
        Memory.amount c (writesOf acts)) ∧
      ∃ places : List (Counter → ℕ), List.Forall₂ (Shows s.memory) s.snapshots places ∧
        places.Pairwise (· ≤ ·) := by
  have hinv := inv_run hrun
  have hbegun : s.memory.begun = writesOf acts := begun_run hrun
  constructor
  · intro c hstore
    rw [← hbegun] at hstore ⊢
    exact hinv.accounted.value_add_amount hstore
  · obtain ⟨places, hshows, hpairwise, -⟩ := hinv.coherent
    exact ⟨places, hshows, hpairwise⟩

/-- A packet comes in on one thread and is dropped on another while a snapshot is taken that
misses the packet and finds the drop. -/
def snapshotBetween : List (Act Bool) :=
  [.call false (.recordPacketIn 100), .write false, .snapshot 7, .load 0, .load 0,
    .call true .recordDrop, .write true, .load 1, .load 0, .load 0, .load 0, .load 0, .load 0,
    .load 0, .finish 7 none none 100]

theorem counters_lose_no_update_snapshotBetween :
    ∃ s, exec step (new 0) snapshotBetween = some s ∧
      s.snapshots.map (fun shot => (shot.packetsReceived, shot.dropRatePct)) = [(0, 100)] ∧
      value (s.memory.order .bytesIn) + ∑ t, Memory.amount .bytesIn (s.memory.rest t) = 100 := by
  have hrun : (exec step (new 0) snapshotBetween).map (fun s =>
      s.snapshots.map (fun shot => (shot.packetsReceived, shot.dropRatePct))) =
        some [(0, 100)] := by
    decide +kernel
  obtain ⟨s, hs, hshots⟩ := Option.map_eq_some_iff.mp hrun
  refine ⟨s, hs, hshots, ?_⟩
  rw [(counters_lose_no_update 0 snapshotBetween s hs).1 .bytesIn
    (by simp [writesOf, called, Call.writes, snapshotBetween])]
  rfl

end Monitor

end Gateway.Telemetry
