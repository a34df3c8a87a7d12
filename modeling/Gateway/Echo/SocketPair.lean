import Gateway.Echo.SendLoops
import Gateway.Lib.Steps

/-!
# The two ends of a socket pair (`src/phase18_resilience_audit.cpp`)

One end is in `send_with_retry`, the other one calls `recv_with_retry` over and over, and the
kernel holds the bytes that are on their way. The two run one system call at a time in any
order; what a call returns is what the code's own function makes of its system calls.
-/

namespace Gateway.Echo
open Steps

/-- `EAGAIN`, which is `EWOULDBLOCK` too. -/
def eagain : Errno := .other 11

/-- What one `recv` does. -/
inductive RecvOutcome where
  | received (bytes : Bytes)
  | failed (errno : Errno)
deriving DecidableEq

/-- What a call of `recv_with_retry` has done by the time it returns. -/
structure Receiving where
  ret : ℤ
  bytes : Bytes := []
  out : Bytes := []
  unused : List RecvOutcome

/-- `recv_with_retry(fd, buf, len)`; `none` when the script ends before the call returns. -/
def recvWithRetry : List RecvOutcome → Option Receiving
  | [] => none
  | .failed errno :: rest =>
    if errno = .eintr then
      (recvWithRetry rest).map fun r =>
        { r with
          out := ascii "  [RETRY] recv() interrupted by EINTR signal, retrying...\n" ++ r.out }
    else if errno = eagain then some { ret := -2, unused := rest }
    else some { ret := -1, unused := rest }
  | .received bytes :: rest => some { ret := bytes.length, bytes, unused := rest }

/-- What a `recv` is for the caller of `recv_with_retry`: nothing when it was interrupted. -/
def RecvOutcome.result : RecvOutcome → Option (ℤ × Bytes)
  | .failed errno =>
    if errno = .eintr then none else if errno = eagain then some (-2, []) else some (-1, [])
  | .received bytes => some (bytes.length, bytes)

/-- A call that returns has made some interrupted calls and one that was not. -/
theorem recvWithRetry_eq_some {script : List RecvOutcome} {r : Receiving}
    (h : recvWithRetry script = some r) :
    r.unused.length < script.length ∧
      script.filterMap RecvOutcome.result =
        (r.ret, r.bytes) :: r.unused.filterMap RecvOutcome.result := by
  induction script generalizing r with
  | nil => cases h
  | cons outcome rest ih =>
    cases outcome with
    | received bytes =>
      obtain rfl := Option.some.inj h
      exact ⟨Nat.lt_succ_self _, rfl⟩
    | failed errno =>
      rw [recvWithRetry] at h
      split_ifs at h with hintr hagain
      · obtain ⟨r', hr', rfl⟩ := Option.map_eq_some_iff.mp h
        obtain ⟨hlt, hresults⟩ := ih hr'
        refine ⟨Nat.lt_succ_of_lt hlt, ?_⟩
        rw [List.filterMap_cons_none (by simp [RecvOutcome.result, hintr]), hresults]
      · obtain rfl := Option.some.inj h
        refine ⟨Nat.lt_succ_self _, ?_⟩
        simp [RecvOutcome.result, hagain, eagain]
      · obtain rfl := Option.some.inj h
        refine ⟨Nat.lt_succ_self _, ?_⟩
        simp [RecvOutcome.result, hintr, hagain]

theorem recvWithRetry_eq_none {script : List RecvOutcome} (h : recvWithRetry script = none) :
    script.filterMap RecvOutcome.result = [] := by
  induction script with
  | nil => rfl
  | cons outcome rest ih =>
    cases outcome with
    | received bytes => cases h
    | failed errno =>
      rw [recvWithRetry] at h
      split_ifs at h with hintr
      rw [List.filterMap_cons_none (by simp [RecvOutcome.result, hintr])]
      exact ih (Option.map_eq_none_iff.mp h)

/-- The calls of `recv_with_retry` that the system calls add up to, one after the other. -/
def receivings (script : List RecvOutcome) : List Receiving :=
  match _h : recvWithRetry script with
  | none => []
  | some r => r :: receivings r.unused
termination_by script.length
decreasing_by exact (recvWithRetry_eq_some _h).1

theorem receivings_results (script : List RecvOutcome) :
    (receivings script).map (fun r => (r.ret, r.bytes)) =
      script.filterMap RecvOutcome.result := by
  induction hlen : script.length using Nat.strongRecOn generalizing script with
  | ind n ih =>
    rw [receivings]
    split
    · next h => rw [recvWithRetry_eq_none h, List.map_nil]
    · next r h =>
      obtain ⟨hlt, hresults⟩ := recvWithRetry_eq_some h
      rw [List.map_cons, hresults, ih _ (hlen ▸ hlt) r.unused rfl]

/-! ## The pair -/

/-- The system calls that each end has made, the bytes accepted from the sender so far, those
on their way, and whether the sender's end is closed. -/
structure SocketPair where
  sends : List SendOutcome := []
  recvs : List RecvOutcome := []
  total : ℕ := 0
  channel : Bytes := []
  closed : Bool := false

inductive PairAct where
  | send (outcome : SendOutcome)
  | recv (outcome : RecvOutcome)
  | close

namespace SocketPair
variable (strerror : Errno → Bytes) (buf : Bytes) (len : ℕ)

/-- What a `recv` of `len` bytes can do on a stream: it takes bytes from the front, reports the
end when there are none and the other end is closed, and blocks only when there are none. -/
def Possible (s : SocketPair) : RecvOutcome → Prop
  | .received bytes =>
    bytes.length ≤ len ∧ bytes <+: s.channel ∧
      (bytes = [] → len = 0 ∨ s.channel = [] ∧ s.closed = true)
  | .failed errno => errno = eagain → s.channel = []

instance (s : SocketPair) : ∀ outcome, Decidable (s.Possible len outcome)
  | .received bytes =>
    inferInstanceAs (Decidable (bytes.length ≤ len ∧ bytes <+: s.channel ∧
      (bytes = [] → len = 0 ∨ s.channel = [] ∧ s.closed = true)))
  | .failed errno => inferInstanceAs (Decidable (errno = eagain → s.channel = []))

/-- The bytes that a `recv` takes. -/
def taken : RecvOutcome → Bytes
  | .received bytes => bytes
  | .failed _ => []

/-- The sender goes on while `send_with_retry` has not returned, and its end is closed after. -/
def step (s : SocketPair) : PairAct → Option SocketPair
  | .send outcome =>
    if (sendWithRetry strerror buf s.sends).isNone then
      let bytes := (buf.drop s.total).take outcome.count
      some
        { s with
          sends := s.sends ++ [outcome], total := s.total + bytes.length
          channel := s.channel ++ bytes }
    else none
  | .recv outcome =>
    if s.Possible len outcome then
      some
        { s with
          recvs := s.recvs ++ [outcome]
          channel := s.channel.drop (taken outcome).length }
    else none
  | .close =>
    if (sendWithRetry strerror buf s.sends).isSome then some { s with closed := true } else none

/-- Everything that `recv_with_retry` has returned. -/
def got (s : SocketPair) : Bytes := (receivings s.recvs).flatMap Receiving.bytes

/-- The call is in its loop with `total` bytes out: more system calls do what they do from
there. -/
def InLoop (s : SocketPair) : Prop :=
  ∀ rest, (sendWithRetryFrom strerror buf 0 (s.sends ++ rest)).map (fun r => (r.ret, r.accepted)) =
    (sendWithRetryFrom strerror buf s.total rest).map fun r =>
      (r.ret, buf.take s.total ++ r.accepted)

/-- The call has returned after it got `total` bytes out. -/
def Returned (s : SocketPair) : Prop :=
  ∃ r, sendWithRetry strerror buf s.sends = some r ∧ r.accepted = buf.take s.total

structure Inv (s : SocketPair) : Prop where
  sender : s.InLoop strerror buf ∨ s.Returned strerror buf
  total_le : s.total ≤ buf.length
  conserved : s.recvs.flatMap taken ++ s.channel = buf.take s.total
  closed : s.closed = true → (sendWithRetry strerror buf s.sends).isSome = true
  /-- the end of the stream was seen after everything before it -/
  ended : 0 < len → .received [] ∈ s.recvs → s.closed = true ∧ s.channel = []

section Steps
variable {strerror : Errno → Bytes} {buf : Bytes} {len : ℕ} {s t : SocketPair}

theorem inv_init : Inv strerror buf len {} where
  sender := Or.inl fun rest => by simp
  total_le := Nat.zero_le _
  conserved := rfl
  closed h := absurd h (by simp)
  ended _ h := absurd h (by simp)

theorem take_add_take (buf : Bytes) (total count : ℕ) :
    buf.take total ++ (buf.drop total).take count =
      buf.take (total + ((buf.drop total).take count).length) := by
  rw [List.take_add, List.length_take]
  congr 1
  rw [List.take_eq_take_iff]
  omega

/-- The system call that follows in the loop. -/
theorem sender_send (hloop : s.InLoop strerror buf) (hlt : s.total < buf.length)
    (outcome : SendOutcome) {u : SocketPair} (hsends : u.sends = s.sends ++ [outcome])
    (htotal : u.total = s.total + ((buf.drop s.total).take outcome.count).length) :
    u.InLoop strerror buf ∨ u.Returned strerror buf := by
  have hnext (rest : List SendOutcome) := hloop (outcome :: rest)
  -- a call that gives up has sent what was out
  have hgives {r : Sending} (hr : sendWithRetryFrom strerror buf s.total [outcome] = some r)
      (hnone : r.accepted = []) (hsame : u.total = s.total) : u.Returned strerror buf := by
    have hview := hnext []
    rw [hr, Option.map_some] at hview
    obtain ⟨r', hr', heq⟩ := Option.map_eq_some_iff.mp hview
    refine ⟨r', ?_, ?_⟩
    · rw [sendWithRetry, hsends, hr']
    · rw [(Prod.mk.inj heq).2, hnone, List.append_nil, hsame]
  cases outcome with
  | failed errno =>
    have hsame : u.total = s.total := by
      rw [htotal]
      simp [SendOutcome.count]
    by_cases hintr : errno = .eintr
    · subst hintr
      refine Or.inl fun rest => ?_
      have hview := hnext rest
      rw [sendWithRetryFrom, if_pos hlt] at hview
      rw [hsends, hsame, List.append_assoc]
      refine hview.trans ?_
      simp only [if_true, Option.map_map]
      rfl
    · have hr : sendWithRetryFrom strerror buf s.total [.failed errno] =
          some (giveUp strerror errno (s.total, buf.length - s.total) []) := by
        rw [sendWithRetryFrom, if_pos hlt]
        exact if_neg hintr
      exact Or.inr (hgives hr (giveUp_ret strerror errno _ []).2.1 hsame)
  | sent count =>
    by_cases hzero : ((buf.drop s.total).take count).length = 0
    · have hr : sendWithRetryFrom strerror buf s.total [.sent count] =
          some { ret := s.total, slices := [(s.total, buf.length - s.total)], unused := [] } := by
        rw [sendWithRetryFrom, if_pos hlt]
        exact if_pos hzero
      exact Or.inr (hgives hr rfl (htotal.trans (congrArg (s.total + ·) hzero)))
    · refine Or.inl fun rest => ?_
      have hview := hnext rest
      rw [sendWithRetryFrom, if_pos hlt] at hview
      rw [hsends, List.append_assoc]
      refine hview.trans ?_
      simp only [if_neg hzero, Option.map_map, htotal, SendOutcome.count]
      congr 1
      funext r
      simp only [Function.comp_apply, Sending.afterSend, ← take_add_take, List.append_assoc]

theorem inv_send (hinv : Inv strerror buf len s) {outcome : SendOutcome}
    (hnone : sendWithRetry strerror buf s.sends = none) :
    Inv strerror buf len
      { s with
        sends := s.sends ++ [outcome]
        total := s.total + ((buf.drop s.total).take outcome.count).length
        channel := s.channel ++ (buf.drop s.total).take outcome.count } := by
  have hloop : s.InLoop strerror buf := by
    apply hinv.sender.resolve_right
    rintro ⟨r, hr, -⟩
    exact absurd (hr.symm.trans hnone) (by simp)
  have hopen : s.closed = false := by
    rw [← Bool.not_eq_true]
    intro hclosed
    have hsome := hinv.closed hclosed
    rw [hnone] at hsome
    cases hsome
  have hlt : s.total < buf.length := by
    by_contra hge
    have hview := hloop []
    rw [List.append_nil, show sendWithRetryFrom strerror buf 0 s.sends = none from hnone,
      sendWithRetryFrom.eq_def, if_neg hge] at hview
    cases hview
  refine ⟨sender_send hloop hlt outcome rfl rfl, ?_, ?_, ?_, ?_⟩
  · simp only [List.length_take, List.length_drop]
    omega
  · rw [← List.append_assoc, hinv.conserved, take_add_take]
  · intro hclosed
    exact absurd (hopen.symm.trans hclosed) (by simp)
  · intro hlen hmem
    exact absurd (hopen.symm.trans (hinv.ended hlen hmem).1) (by simp)

theorem taken_append_drop {outcome : RecvOutcome} (h : s.Possible len outcome) :
    taken outcome ++ s.channel.drop (taken outcome).length = s.channel := by
  cases outcome with
  | received bytes =>
    obtain ⟨rest, hrest⟩ := h.2.1
    rw [← hrest, taken, List.drop_left]
  | failed errno => rfl

theorem inv_recv (hinv : Inv strerror buf len s) {outcome : RecvOutcome}
    (h : s.Possible len outcome) :
    Inv strerror buf len
      { s with
        recvs := s.recvs ++ [outcome]
        channel := s.channel.drop (taken outcome).length } := by
  refine ⟨hinv.sender, hinv.total_le, ?_, hinv.closed, ?_⟩
  · rw [List.flatMap_append, List.flatMap_singleton, List.append_assoc, taken_append_drop h,
      hinv.conserved]
  · intro hlen hmem
    rcases List.mem_append.mp hmem with hmem | hmem
    · obtain ⟨hclosed, hempty⟩ := hinv.ended hlen hmem
      exact ⟨hclosed, by simp [hempty]⟩
    · obtain rfl := List.mem_singleton.mp hmem
      obtain ⟨hempty, hclosed⟩ := (h.2.2 rfl).resolve_left (by omega)
      exact ⟨hclosed, by simp [hempty]⟩

theorem inv_step {act : PairAct} (hinv : Inv strerror buf len s)
    (hstep : s.step strerror buf len act = some t) : Inv strerror buf len t := by
  cases act with
  | send outcome =>
    rw [step] at hstep
    split_ifs at hstep with hnone
    obtain rfl := Option.some.inj hstep
    exact inv_send hinv (Option.isNone_iff_eq_none.mp hnone)
  | recv outcome =>
    rw [step] at hstep
    split_ifs at hstep with hpossible
    obtain rfl := Option.some.inj hstep
    exact inv_recv hinv hpossible
  | close =>
    rw [step] at hstep
    split_ifs at hstep with hsome
    obtain rfl := Option.some.inj hstep
    refine ⟨hinv.sender, hinv.total_le, hinv.conserved, fun _ => hsome, ?_⟩
    intro hlen hmem
    exact ⟨rfl, (hinv.ended hlen hmem).2⟩

theorem inv_run {acts : List PairAct}
    (hrun : exec (step strerror buf len) {} acts = some s) : Inv strerror buf len s :=
  invariant_of_meets (G := fun _ _ => True) (fun _ _ _ h _ hstep => inv_step h hstep) inv_init
    (meets_of_forall_mem (fun _ _ _ => trivial) _) hrun

theorem accepted_of_returned (hinv : Inv strerror buf len s) {r : Sending}
    (hr : sendWithRetry strerror buf s.sends = some r) : r.accepted = buf.take s.total := by
  rcases hinv.sender with hloop | ⟨r', hr', haccepted⟩
  · have hview := hloop []
    rw [List.append_nil, show sendWithRetryFrom strerror buf 0 s.sends = some r from hr] at hview
    have hge : ¬s.total < buf.length := by
      intro hlt
      rw [sendWithRetryFrom, if_pos hlt] at hview
      cases hview
    rw [sendWithRetryFrom.eq_def, if_neg hge] at hview
    have heq := (Prod.mk.inj (Option.some.inj hview)).2
    rw [heq, List.append_nil]
  · rw [← haccepted, Option.some.inj (hr.symm.trans hr')]

/-- What the calls of `recv_with_retry` have returned is what their system calls took. -/
theorem got_eq (s : SocketPair) : s.got = s.recvs.flatMap taken := by
  have hresults := receivings_results s.recvs
  have hgot : s.got = ((receivings s.recvs).map fun r => (r.ret, r.bytes)).flatMap Prod.snd := by
    rw [got, List.flatMap_map]
  rw [hgot, hresults]
  induction s.recvs with
  | nil => rfl
  | cons outcome rest ih =>
    rw [List.flatMap_cons, ← ih]
    cases outcome with
    | received bytes => rfl
    | failed errno =>
      by_cases hintr : errno = .eintr
      · rw [List.filterMap_cons_none (by simp [RecvOutcome.result, hintr])]
        rfl
      · by_cases hagain : errno = eagain
        · simp [RecvOutcome.result, hagain, eagain, taken]
        · simp [RecvOutcome.result, hintr, hagain, taken]

/-- `recv_with_retry` returns 0 only for an empty `recv`. -/
theorem received_nil_of_ret_zero {script : List RecvOutcome} {r : Receiving}
    (hr : r ∈ receivings script) (hret : r.ret = 0) : .received [] ∈ script := by
  have hmem : (r.ret, r.bytes) ∈ script.filterMap RecvOutcome.result := by
    rw [← receivings_results]
    exact List.mem_map_of_mem hr
  obtain ⟨outcome, hout, hresult⟩ := List.mem_filterMap.mp hmem
  cases outcome with
  | received bytes =>
    obtain ⟨hlength, -⟩ := Prod.mk.inj (Option.some.inj hresult)
    have hnil : bytes = [] := by
      rw [← List.length_eq_zero_iff]
      omega
    exact hnil ▸ hout
  | failed errno =>
    rw [RecvOutcome.result] at hresult
    split_ifs at hresult
    · exact absurd ((Prod.mk.inj (Option.some.inj hresult)).1.trans hret) (by decide)
    · exact absurd ((Prod.mk.inj (Option.some.inj hresult)).1.trans hret) (by decide)

end Steps

/-- However the two ends interleave and whatever interrupts them, what `recv_with_retry` has
returned and what is on its way is what the kernel accepted of the buffer, in order; and when
it returns 0 the sender's call has returned and everything it got out was received, which is the
whole buffer when the call says so. -/
theorem socketPair_delivers_in_order (strerror : Errno → Bytes) (buf : Bytes) (len : ℕ)
    (hlen : 0 < len) (acts : List PairAct) (s : SocketPair)
    (hrun : exec (step strerror buf len) {} acts = some s) :
    s.got ++ s.channel = buf.take s.total ∧
      (∀ r, sendWithRetry strerror buf s.sends = some r → r.accepted = s.got ++ s.channel) ∧
      ((∃ r ∈ receivings s.recvs, r.ret = 0) →
        ∃ r, sendWithRetry strerror buf s.sends = some r ∧ s.got = r.accepted ∧
          (r.ret = buf.length → s.got = buf)) := by
  have hinv := inv_run hrun
  have hgot : s.got ++ s.channel = buf.take s.total := by
    rw [got_eq, hinv.conserved]
  refine ⟨hgot, ?_, ?_⟩
  · intro r hr
    rw [accepted_of_returned hinv hr, hgot]
  · intro hzero
    obtain ⟨r, hr, hret⟩ := hzero
    obtain ⟨hclosed, hempty⟩ := hinv.ended hlen (received_nil_of_ret_zero hr hret)
    obtain ⟨sending, hsending⟩ := Option.isSome_iff_exists.mp (hinv.closed hclosed)
    rw [hempty, List.append_nil] at hgot
    have haccepted := accepted_of_returned hinv hsending
    refine ⟨sending, hsending, by rw [haccepted, hgot], ?_⟩
    intro hall
    obtain ⟨made, -, hd⟩ := sendWithRetryFrom_delivers (Nat.zero_le _) hsending
    have hcount := hd.count (by omega)
    have htotal : s.total = buf.length := by
      rw [haccepted, List.length_take] at hcount
      have hle := hinv.total_le
      omega
    rw [hgot, htotal, List.take_length]

/-- Both ends are interrupted, and the bytes come in two parts. -/
def interrupted : List PairAct :=
  [.send (.sent 2), .recv (.failed .eintr), .recv (.received [1]), .send (.failed .eintr),
    .send (.sent 1), .close, .recv (.received [2, 3]), .recv (.received [])]

theorem socketPair_delivers_in_order_interrupted :
    ∃ s, exec (step (fun _ => []) [1, 2, 3] 8) {} interrupted = some s ∧ s.channel = [] ∧
      s.got ++ s.channel = [1, 2, 3].take s.total := by
  have hrun : (exec (step (fun _ => []) [1, 2, 3] 8) {} interrupted).map (fun s => s.channel) =
      some [] := by
    decide +kernel
  obtain ⟨s, hs, hchannel⟩ := Option.map_eq_some_iff.mp hrun
  exact ⟨s, hs, hchannel,
    (socketPair_delivers_in_order _ _ 8 (by decide) interrupted s hs).1⟩

end SocketPair

end Gateway.Echo
