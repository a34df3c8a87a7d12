import Gateway.Lib.Steps
import Gateway.Network.ConnectionManager
import Mathlib.Data.Set.Card

/-!
# Which connections an idle purge removes

The calls on the manager and on the connection objects are kept as a history. A descriptor
survives a purge when the object that the history says is current for it was touched less
than the timeout ago, whatever was done through handles of earlier objects.
-/

namespace Gateway.Network.ConnectionManager
open Steps

/-- A method of `Connection` that touches it. -/
inductive Method where
  | recordRecv (bytes : ℕ)
  | recordSend (bytes : ℕ)
  | setState (newState : ConnectionState)
deriving DecidableEq

def Method.apply (now : ℤ) : Method → Connection → Connection
  | recordRecv bytes, c => c.recordRecv bytes now
  | recordSend bytes, c => c.recordSend bytes now
  | setState newState, c => c.setState newState now

/-- A call on the manager, or through a handle that it returned. -/
inductive Operation where
  | addConnection (fd : ℤ) (clientIp : Bytes) (clientPort : UInt16)
  | getConnection (fd : ℤ)
  | removeConnection (fd : ℤ)
  | method (ptr : ℕ) (method : Method)
deriving DecidableEq

/-- An operation and the time it is made at. -/
structure Call where
  op : Operation
  now : ℤ
deriving DecidableEq

/-- There is a handle of every object made so far, and of no other. -/
def step (m : ConnectionManager Connection) (call : Call) : Option (ConnectionManager Connection) :=
  match call.op with
  | .addConnection fd clientIp clientPort =>
    some (m.addConnection fd (.new fd clientIp clientPort call.now)).2
  | .getConnection _ => some m
  | .removeConnection fd => some (m.removeConnection fd)
  | .method ptr method =>
    if ptr < m.objects.length then some (m.modify ptr (method.apply call.now)) else none

/-- The descriptors returned by `get_expired_connections` are removed one by one. -/
def purge (m : ConnectionManager Connection) (timeoutSec now : ℤ) : ConnectionManager Connection :=
  (m.getExpiredConnections timeoutSec fun _ => now).foldl removeConnection m

/-! ## Histories, with the last call first -/

/-- How many objects were made. -/
def made : List Call → ℕ
  | [] => 0
  | ⟨.addConnection _ _ _, _⟩ :: past => made past + 1
  | _ :: past => made past

/-- The object of the latest `add_connection` on a descriptor, unless it was removed. -/
def current (fd : ℤ) : List Call → Option ℕ
  | [] => none
  | ⟨.addConnection fd' _ _, _⟩ :: past => if fd = fd' then some (made past) else current fd past
  | ⟨.removeConnection fd', _⟩ :: past => if fd = fd' then none else current fd past
  | _ :: past => current fd past

/-- When an object was made or last touched. -/
def lastTouch (ptr : ℕ) : List Call → Option ℤ
  | [] => none
  | ⟨.addConnection _ _ _, now⟩ :: past =>
    if ptr = made past then some now else lastTouch ptr past
  | ⟨.method ptr' _, now⟩ :: past => if ptr = ptr' then some now else lastTouch ptr past
  | _ :: past => lastTouch ptr past

/-- The current object of a descriptor was touched less than the timeout before `now`. -/
def Fresh (past : List Call) (timeoutSec now fd : ℤ) : Prop :=
  ∃ ptr touched, current fd past = some ptr ∧ lastTouch ptr past = some touched ∧
    now - touched < timeoutSec * 10 ^ 9

/-- What the manager holds after a history. -/
structure Follows (m : ConnectionManager Connection) (past : List Call) : Prop where
  length_objects : m.objects.length = made past
  lookup : ∀ fd, m.connections.lookup fd = current fd past
  lastActivity : ∀ ptr, m.objects[ptr]?.map Connection.lastActivity = lastTouch ptr past

variable {m m' : ConnectionManager Connection} {call : Call} {past : List Call}

theorem lastActivity_apply (now : ℤ) (method : Method) (c : Connection) :
    (method.apply now c).lastActivity = now := by
  cases method <;> rfl

theorem Follows.of_step (h : Follows m past) (hstep : step m call = some m') :
    Follows m' (call :: past) := by
  obtain ⟨op, now⟩ := call
  cases op with
  | addConnection fd clientIp clientPort =>
    obtain rfl := Option.some.inj hstep
    refine ⟨?_, fun fd' => ?_, fun ptr => ?_⟩
    · simp [addConnection, made, h.length_objects]
    · simp only [addConnection, current, h.length_objects]
      split_ifs with hfd
      · rw [hfd, AList.lookup_insert]
      · rw [AList.lookup_insert_ne hfd, h.lookup]
    · simp only [addConnection, lastTouch, ← h.length_objects]
      -- the new connection has the next number, and `now` as its last activity
      rcases Nat.lt_trichotomy ptr m.objects.length with hlt | heq | hgt
      · rw [List.getElem?_append_left hlt, if_neg hlt.ne, h.lastActivity]
      · rw [heq, List.getElem?_concat_length, if_pos rfl]
        rfl
      · rw [if_neg hgt.ne', ← h.lastActivity, List.getElem?_eq_none hgt.le,
          List.getElem?_eq_none (by rw [List.length_append]; exact hgt)]
  | getConnection fd =>
    obtain rfl := Option.some.inj hstep
    exact ⟨h.length_objects, h.lookup, h.lastActivity⟩
  | removeConnection fd =>
    obtain rfl := Option.some.inj hstep
    refine ⟨h.length_objects, fun fd' => ?_, h.lastActivity⟩
    simp only [removeConnection, current]
    split_ifs with hfd
    · rw [hfd, AList.lookup_erase]
    · rw [AList.lookup_erase_ne hfd, h.lookup]
  | method ptr method =>
    obtain ⟨hptr, hm⟩ := Option.ite_none_right_eq_some.mp hstep
    obtain rfl := Option.some.inj hm
    refine ⟨?_, h.lookup, fun ptr' => ?_⟩
    · simp [modify, made, h.length_objects]
    · simp only [modify, lastTouch]
      -- each method calls `touch`
      split_ifs with heq
      · rw [heq, List.getElem?_modify_eq, List.getElem?_eq_getElem hptr]
        exact congrArg some (lastActivity_apply now method _)
      · rw [List.getElem?_modify_ne _ _ (Ne.symm heq), h.lastActivity]

theorem follows_of_exec {calls : List Call} (hrun : exec step new calls = some m) :
    Follows m calls.reverse := by
  induction calls using List.reverseRecOn generalizing m with
  | nil =>
    obtain rfl := Option.some.inj hrun
    exact ⟨rfl, fun _ => rfl, fun _ => rfl⟩
  | append_singleton calls call ih =>
    obtain ⟨u, hu, hcall⟩ := exec_append.mp hrun
    obtain ⟨v, hv, hvm⟩ := exec_cons.mp hcall
    obtain rfl := Option.some.inj hvm
    rw [List.reverse_append]
    exact (ih hu).of_step hv

/-- Every object was last touched by one of the calls. -/
theorem exists_call_of_lastTouch {ptr : ℕ} {touched : ℤ} (h : lastTouch ptr past = some touched) :
    ∃ call ∈ past, call.now = touched := by
  induction past with
  | nil => cases h
  | cons call past ih =>
    have hpast (h : lastTouch ptr past = some touched) : ∃ c ∈ call :: past, c.now = touched := by
      obtain ⟨c, hc, hnow⟩ := ih h
      exact ⟨c, List.mem_cons_of_mem call hc, hnow⟩
    obtain ⟨op, now⟩ := call
    cases op with
    | addConnection fd clientIp clientPort =>
      rw [lastTouch] at h
      split_ifs at h with hptr
      · exact ⟨_, List.mem_cons_self, Option.some.inj h⟩
      · exact hpast h
    | getConnection fd => exact hpast h
    | removeConnection fd => exact hpast h
    | method ptr' method =>
      rw [lastTouch] at h
      split_ifs at h with hptr
      · exact ⟨_, List.mem_cons_self, Option.some.inj h⟩
      · exact hpast h

theorem current_lt_made {fd : ℤ} {ptr : ℕ} (h : current fd past = some ptr) : ptr < made past := by
  induction past with
  | nil => cases h
  | cons call past ih =>
    obtain ⟨op, now⟩ := call
    cases op with
    | addConnection fd' clientIp clientPort =>
      rw [current] at h
      rw [made]
      split_ifs at h with hfd
      · obtain rfl := Option.some.inj h
        exact Nat.lt_succ_self _
      · exact Nat.lt_succ_of_lt (ih h)
    | getConnection fd' => exact ih h
    | removeConnection fd' =>
      rw [current] at h
      split_ifs at h with hfd
      exact ih h
    | method ptr' method => exact ih h

/-! ## The purge -/

/-- The truncated seconds reach a whole timeout exactly when the nanoseconds do. -/
theorem le_getIdleSeconds_iff {c : Connection} {timeoutSec now : ℤ} (hnow : c.lastActivity ≤ now) :
    timeoutSec ≤ c.getIdleSeconds now ↔ timeoutSec * 10 ^ 9 ≤ now - c.lastActivity := by
  rw [Connection.getIdleSeconds, Int.tdiv_eq_ediv_of_nonneg (by omega)]
  exact Int.le_ediv_iff_mul_le (by decide)

theorem mem_getExpiredConnections {timeoutSec fd : ℤ} {now : ℤ → ℤ} :
    fd ∈ m.getExpiredConnections timeoutSec now ↔
      ∃ ptr c, m.connections.lookup fd = some ptr ∧ m.objects[ptr]? = some c ∧
        timeoutSec ≤ c.getIdleSeconds (now fd) := by
  simp only [getExpiredConnections, List.mem_map, List.mem_filter, Option.any_eq_true,
    decide_eq_true_eq]
  constructor
  · rintro ⟨⟨fd, ptr⟩, ⟨hentry, c, hc, hidle⟩, rfl⟩
    exact ⟨ptr, c, AList.mem_lookup_iff.mpr hentry, hc, hidle⟩
  · rintro ⟨ptr, c, hptr, hc, hidle⟩
    exact ⟨⟨fd, ptr⟩, ⟨AList.mem_lookup_iff.mp hptr, c, hc, hidle⟩, rfl⟩

theorem nodup_getExpiredConnections (m : ConnectionManager Connection) (timeoutSec : ℤ)
    (now : ℤ → ℤ) : (m.getExpiredConnections timeoutSec now).Nodup :=
  m.connections.keys_nodup.sublist (List.filter_sublist.map Sigma.fst)

theorem connections_foldl_removeConnection (fds : List ℤ) (m : ConnectionManager Connection) :
    (fds.foldl removeConnection m).connections =
      fds.foldl (fun connections fd => connections.erase fd) m.connections := by
  induction fds generalizing m with
  | nil => rfl
  | cons fd fds ih => exact ih (m.removeConnection fd)

theorem lookup_foldl_removeConnection (fds : List ℤ) (m : ConnectionManager Connection) (fd : ℤ) :
    (fds.foldl removeConnection m).connections.lookup fd =
      if fd ∈ fds then none else m.connections.lookup fd := by
  induction fds generalizing m with
  | nil => rfl
  | cons fd' fds ih =>
    rw [List.foldl_cons, ih, removeConnection]
    dsimp only
    by_cases heq : fd = fd'
    · rw [heq, AList.lookup_erase, ite_self, if_pos List.mem_cons_self]
    · rw [AList.lookup_erase_ne heq]
      simp [heq]

/-- The current object of a descriptor, and when it was last touched. -/
theorem Follows.exists_object (h : Follows m past) {fd : ℤ} {ptr : ℕ}
    (hptr : current fd past = some ptr) :
    ∃ c, m.objects[ptr]? = some c ∧ lastTouch ptr past = some c.lastActivity := by
  have hlt : ptr < m.objects.length := by
    rw [h.length_objects]
    exact current_lt_made hptr
  refine ⟨m.objects[ptr], List.getElem?_eq_getElem hlt, ?_⟩
  rw [← h.lastActivity, List.getElem?_eq_getElem hlt, Option.map_some]

/-- After a purge the fresh descriptors are managed and no other. -/
theorem getConnection_purge_iff {calls : List Call} (hrun : exec step new calls = some m)
    {now : ℤ} (hnow : ∀ call ∈ calls, call.now ≤ now) (timeoutSec fd : ℤ) :
    (∃ ptr, (m.purge timeoutSec now).getConnection fd = some ptr) ↔
      Fresh calls.reverse timeoutSec now fd := by
  have hfollows := follows_of_exec hrun
  have hlookup := hfollows.lookup fd
  rw [getConnection, purge, lookup_foldl_removeConnection, hlookup]
  cases hptr : current fd calls.reverse with
  | none => simp [Fresh, hptr]
  | some ptr =>
    obtain ⟨c, hc, htouch⟩ := hfollows.exists_object hptr
    obtain ⟨call, hcall, hcallNow⟩ := exists_call_of_lastTouch htouch
    have hle : c.lastActivity ≤ now := by
      rw [← hcallNow]
      exact hnow call (List.mem_reverse.mp hcall)
    have hexpired : fd ∈ m.getExpiredConnections timeoutSec (fun _ => now) ↔
        timeoutSec * 10 ^ 9 ≤ now - c.lastActivity := by
      rw [mem_getExpiredConnections, hlookup, hptr, ← le_getIdleSeconds_iff hle]
      simp [hc]
    have hfresh : Fresh calls.reverse timeoutSec now fd ↔
        now - c.lastActivity < timeoutSec * 10 ^ 9 := by
      simp [Fresh, hptr, htouch]
    rw [hfresh, ← not_le, ← hexpired]
    split_ifs with h
    · simp [h]
    · simp [h]

theorem activeConnectionCount_eq_encard (m : ConnectionManager Connection) :
    (m.activeConnectionCount : ℕ∞) = {fd | ∃ ptr, m.getConnection fd = some ptr}.encard := by
  have hset : {fd | ∃ ptr, m.getConnection fd = some ptr} =
      (m.connections.keys.toFinset : Set ℤ) := by
    ext fd
    rw [Set.mem_ofPred_eq, getConnection, ← Option.isSome_iff_exists, AList.lookup_isSome]
    simp [AList.mem_keys]
  rw [hset, Set.encard_coe_eq_coe_finsetCard, List.toFinset_card_of_nodup m.connections.keys_nodup]
  simp [activeConnectionCount, AList.keys, List.keys]

/-! ## Stale handles -/

/-- The managers differ at most in an object that is not current for any descriptor. -/
structure SameBut (ptr : ℕ) (m m' : ConnectionManager Connection) : Prop where
  connections : m'.connections = m.connections
  length_objects : m'.objects.length = m.objects.length
  object : ∀ i, i ≠ ptr → m'.objects[i]? = m.objects[i]?
  stale : ∀ fd, m.connections.lookup fd ≠ some ptr
  lt_length : ptr < m.objects.length

theorem SameBut.of_step {ptr : ℕ} {t : ConnectionManager Connection} (h : SameBut ptr m m')
    (hstep : step m call = some t) :
    ∃ t', step m' call = some t' ∧ SameBut ptr t t' := by
  obtain ⟨op, now⟩ := call
  cases op with
  | addConnection fd clientIp clientPort =>
    obtain rfl := Option.some.inj hstep
    refine ⟨_, rfl, ?_, ?_, fun i hi => ?_, fun fd' => ?_, ?_⟩
    · simp [addConnection, h.connections, h.length_objects]
    · simp [addConnection, h.length_objects]
    · simp only [addConnection, List.getElem?_append, h.length_objects, h.object i hi]
    · simp only [addConnection]
      -- a new connection is not the stale one: its number is the length
      by_cases hfd : fd' = fd
      · rw [hfd, AList.lookup_insert]
        have := h.lt_length
        simpa using this.ne'
      · rw [AList.lookup_insert_ne hfd]
        exact h.stale fd'
    · have := h.lt_length
      simp only [addConnection, List.length_append, List.length_singleton]
      omega
  | getConnection fd =>
    obtain rfl := Option.some.inj hstep
    exact ⟨m', rfl, h⟩
  | removeConnection fd =>
    obtain rfl := Option.some.inj hstep
    refine ⟨_, rfl, ?_, h.length_objects, h.object, fun fd' => ?_, h.lt_length⟩
    · simp [removeConnection, h.connections]
    · simp only [removeConnection]
      by_cases hfd : fd' = fd
      · rw [hfd, AList.lookup_erase]
        simp
      · rw [AList.lookup_erase_ne hfd]
        exact h.stale fd'
  | method i method =>
    obtain ⟨hi, ht⟩ := Option.ite_none_right_eq_some.mp hstep
    obtain rfl := Option.some.inj ht
    refine ⟨_, if_pos (by rw [h.length_objects]; exact hi), h.connections, ?_, fun j hj => ?_,
      h.stale, ?_⟩
    · simp [modify, h.length_objects]
    · simp only [modify, List.getElem?_modify, h.object j hj]
    · simpa [modify] using h.lt_length

theorem SameBut.of_exec {ptr : ℕ} {calls : List Call} {t : ConnectionManager Connection}
    (h : SameBut ptr m m') (hrun : exec step m calls = some t) :
    ∃ t', exec step m' calls = some t' ∧ SameBut ptr t t' := by
  induction calls generalizing m m' with
  | nil =>
    obtain rfl := Option.some.inj hrun
    exact ⟨m', rfl, h⟩
  | cons call calls ih =>
    obtain ⟨u, hu, hrun⟩ := exec_cons.mp hrun
    obtain ⟨u', hu', hsame⟩ := h.of_step hu
    obtain ⟨t', ht', hsame⟩ := ih hsame hrun
    exact ⟨t', exec_cons.mpr ⟨u', hu', ht'⟩, hsame⟩

/-- Only current objects are looked at. -/
theorem SameBut.getExpiredConnections_eq {ptr : ℕ} (h : SameBut ptr m m') (timeoutSec : ℤ)
    (now : ℤ → ℤ) :
    m'.getExpiredConnections timeoutSec now = m.getExpiredConnections timeoutSec now := by
  rw [getExpiredConnections, getExpiredConnections, h.connections]
  congr 1
  apply List.filter_congr
  intro entry hentry
  have hne : entry.2 ≠ ptr := by
    intro heq
    have hlookup : m.connections.lookup entry.1 = some entry.2 := AList.mem_lookup_iff.mpr hentry
    exact h.stale entry.1 (hlookup.trans (congrArg some heq))
  rw [h.object _ hne]

/-- A call through the handle of an object that is not current may be left out. -/
theorem exec_without_stale {before after : List Call} {ptr : ℕ} {method : Method} {time : ℤ}
    (hrun : exec step new (before ++ ⟨.method ptr method, time⟩ :: after) = some m)
    (hstale : ∀ fd, current fd before.reverse ≠ some ptr) :
    ∃ m', exec step new (before ++ after) = some m' ∧ SameBut ptr m m' := by
  obtain ⟨u, hu, hrun⟩ := exec_append.mp hrun
  obtain ⟨v, hv, hrun⟩ := exec_cons.mp hrun
  obtain ⟨hptr, hv⟩ := Option.ite_none_right_eq_some.mp hv
  obtain rfl := Option.some.inj hv
  have hsame : SameBut ptr (u.modify ptr (method.apply time)) u := by
    refine ⟨rfl, ?_, fun i hi => ?_, fun fd => ?_, ?_⟩
    · simp [modify]
    · rw [modify, List.getElem?_modify_ne _ _ hi.symm]
    · rw [modify, (follows_of_exec hu).lookup]
      exact hstale fd
    · simpa [modify] using hptr
  obtain ⟨m', hm', hsame⟩ := hsame.of_exec hrun
  exact ⟨m', exec_append.mpr ⟨u, hu, hm'⟩, hsame⟩

/-- After any calls, a purge leaves exactly the descriptors whose current object was touched
less than the timeout ago, reports each at most once, and does not depend on what was done
through the handle of an object that was no longer current. -/
theorem purge_exact (calls : List Call) (m : ConnectionManager Connection)
    (hrun : exec step new calls = some m) (now : ℤ) (hnow : ∀ call ∈ calls, call.now ≤ now)
    (timeoutSec : ℤ) :
    (∀ fd, (∃ ptr, (m.purge timeoutSec now).getConnection fd = some ptr) ↔
      Fresh calls.reverse timeoutSec now fd) ∧
    (m.getExpiredConnections timeoutSec fun _ => now).Nodup ∧
    ((m.purge timeoutSec now).activeConnectionCount : ℕ∞) =
      {fd | Fresh calls.reverse timeoutSec now fd}.encard ∧
    ∀ before after ptr method time, calls = before ++ ⟨.method ptr method, time⟩ :: after →
      (∀ fd, current fd before.reverse ≠ some ptr) →
      ∃ m', exec step new (before ++ after) = some m' ∧
        (m'.getExpiredConnections timeoutSec fun _ => now) =
          m.getExpiredConnections timeoutSec (fun _ => now) ∧
        (m'.purge timeoutSec now).connections = (m.purge timeoutSec now).connections := by
  have hfresh := getConnection_purge_iff hrun hnow timeoutSec
  refine ⟨hfresh, nodup_getExpiredConnections m timeoutSec _, ?_, ?_⟩
  · rw [activeConnectionCount_eq_encard]
    congr 1
    ext fd
    exact hfresh fd
  · rintro before after ptr method time rfl hstale
    obtain ⟨m', hm', hsame⟩ := exec_without_stale hrun hstale
    have hexpired := hsame.getExpiredConnections_eq timeoutSec fun _ => now
    refine ⟨m', hm', hexpired, ?_⟩
    rw [purge, purge, hexpired, connections_foldl_removeConnection,
      connections_foldl_removeConnection, hsame.connections]

/-- Descriptor 10 is reused after a second, and the handle of its first connection is used
after that. -/
def reusedDescriptor : List Call :=
  [⟨Operation.addConnection 10 [] 5010, 0⟩, ⟨Operation.addConnection 10 [] 5011, 1000000000⟩,
    ⟨Operation.addConnection 11 [] 5012, 1500000000⟩,
    ⟨Operation.method 0 (Method.recordRecv 64), 1900000000⟩]

/-- At two seconds descriptor 10 was idle for exactly one. -/
theorem purge_exact_reusedDescriptor :
    ∃ m, exec step new reusedDescriptor = some m ∧
      (∀ fd, (∃ ptr, (m.purge 1 2000000000).getConnection fd = some ptr) ↔
        Fresh reusedDescriptor.reverse 1 2000000000 fd) ∧
      ¬ Fresh reusedDescriptor.reverse 1 2000000000 10 ∧
      Fresh reusedDescriptor.reverse 1 2000000000 11 := by
  refine ⟨_, rfl, (purge_exact reusedDescriptor _ rfl 2000000000 (by decide) 1).1, ?_, ?_⟩
  · rintro ⟨ptr, touched, hptr, htouched, hlt⟩
    obtain rfl : 1 = ptr := Option.some.inj hptr
    obtain rfl : 1000000000 = touched := Option.some.inj htouched
    exact absurd hlt (by decide)
  · exact ⟨2, 1500000000, rfl, rfl, by decide⟩

end Gateway.Network.ConnectionManager
