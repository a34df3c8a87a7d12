import Gateway.Service.ReactorServer

/-!
# The epoll loop (`src/phase7_epoll_demo.cpp`)

The loop of `main` once the listening socket is registered: at most twenty calls of
`epoll_wait`, each followed by the events it returned. A client that cannot be registered is
closed here, where the reactor server of phase 8 leaves it open.
-/

namespace Gateway.Service
open Steps

/-- The variables of `main`, with the events of the batch that are still to be handled. -/
structure EpollServer where
  eventLoopRuns : ℕ
  epoll : Epoll
  pending : List Ready
  exited : Bool
  sockets : Sockets

inductive EpollAct where
  | wait (events : List Ready)
  | waitFailed
  | event (results : CallResults)
  | leave

namespace EpollServer

/-- The server at the head of its loop, after `EPOLL_CTL_ADD` of the listening socket. -/
def start (serverFd : ℤ) : EpollServer where
  eventLoopRuns := 0
  epoll := ⟨Function.update (fun _ => none) serverFd (some ⟨0, epollIn⟩), 1⟩
  pending := []
  exited := false
  sockets := {}

def maxRuns : ℕ := 20

def maxEvents : ℕ := 64

/-- An event on the listening socket. -/
def onAccept (results : CallResults) (s : EpollServer) : EpollServer :=
  match results.accept with
  | .client fd =>
    match s.epoll.add fd epollIn results.ctlAdd with
    | some epoll => { s with epoll, sockets := s.sockets.accept fd }
    | none => { s with sockets := (s.sockets.accept fd).close fd }
  | .wouldBlock => s
  | .error => s

/-- `epoll_ctl(epoll_fd, EPOLL_CTL_DEL, current_fd, nullptr); close(current_fd);` -/
def disconnect (fd : ℤ) (s : EpollServer) : EpollServer :=
  { s with epoll := s.epoll.del fd, sockets := s.sockets.close fd }

/-- An event on a client socket; without `EPOLLIN` it is passed over. -/
def onClient (e : Ready) (results : CallResults) (s : EpollServer) : EpollServer :=
  if e.events &&& epollIn ≠ 0 then
    match results.recv with
    | .data bytes count => { s with sockets := s.sockets.echo e.fd bytes count }
    | .endOfFile => s.disconnect e.fd
    | .wouldBlock => s
    | .error => s.disconnect e.fd
  else s

def onEvent (serverFd : ℤ) (e : Ready) (results : CallResults) (s : EpollServer) : EpollServer :=
  if e.fd = serverFd then s.onAccept results else s.onClient e results

/-- At the head of the loop, between two batches. -/
def AtHead (s : EpollServer) : Prop := s.pending = [] ∧ s.exited = false

instance (s : EpollServer) : Decidable s.AtHead := inferInstanceAs (Decidable (_ ∧ _))

def step (serverFd : ℤ) (s : EpollServer) : EpollAct → Option EpollServer
  | .wait events =>
    if s.AtHead ∧ s.eventLoopRuns < maxRuns ∧ s.epoll.Raises maxEvents events then
      some { s with eventLoopRuns := s.eventLoopRuns + 1, pending := events }
    else none
  | .waitFailed =>
    if s.AtHead ∧ s.eventLoopRuns < maxRuns then some { s with exited := true } else none
  | .event results =>
    match s.pending with
    | [] => none
    | e :: pending =>
      if results.Possible serverFd s.sockets then
        some (onEvent serverFd e results { s with pending })
      else none
  | .leave =>
    if s.AtHead ∧ ¬s.eventLoopRuns < maxRuns then some { s with exited := true } else none

/-! ## The interest list -/

/-- The interest list is the listening socket and the open connections, and the events of a batch
are for the registrations they were raised for. -/
structure Inv (serverFd : ℤ) (s : EpollServer) : Prop where
  answered : s.sockets.Answered
  runs : s.eventLoopRuns ≤ maxRuns
  server : serverFd ∉ s.sockets.openFds
  interest : ∀ fd, (s.epoll.number fd).isSome = true ↔ fd ∈ s.sockets.openFds ∨ fd = serverFd
  nodup : (s.pending.map Ready.fd).Nodup
  current : ∀ e ∈ s.pending, s.epoll.number e.fd = some e.number

theorem inv_start (serverFd : ℤ) : Inv serverFd (start serverFd) where
  answered := Sockets.answered_empty
  runs := Nat.zero_le _
  server := Finset.notMem_empty serverFd
  interest := by
    intro fd
    simp only [start, Epoll.number, Function.update_apply]
    split_ifs with hfd <;> simp [hfd]
  nodup := List.nodup_nil
  current := by simp [start]

section Steps
variable {serverFd : ℤ} {s : EpollServer}

theorem inv_onAccept (h : Inv serverFd s) {results : CallResults}
    (hresults : results.Possible serverFd s.sockets) : Inv serverFd (s.onAccept results) := by
  unfold onAccept
  split
  · next fd haccept =>
    have hpossible := hresults.1
    rw [haccept] at hpossible
    obtain ⟨-, hnew⟩ := hpossible
    have hfd : fd ∉ s.sockets.openFds := fun hmem => hnew (Or.inl hmem)
    have hnone : ¬(s.epoll.number fd).isSome = true := mt (h.interest fd).mp hnew
    have hserver : serverFd ∉ insert fd s.sockets.openFds := by
      rw [Finset.mem_insert, not_or]
      exact ⟨fun heq => hnew (Or.inr heq.symm), h.server⟩
    split
    · next epoll hadd =>
      refine ⟨h.answered.accept hfd, h.runs, hserver, ?_, h.nodup, ?_⟩
      · intro g
        rw [Epoll.number_add hadd, Sockets.openFds_accept, Finset.mem_insert]
        by_cases hg : g = fd
        · simp [hg]
        · rw [if_neg hg, h.interest g]
          simp [hg]
      · intro e he
        have hne : e.fd ≠ fd := by
          intro heq
          exact hnone (by rw [← heq, h.current e he]; rfl)
        rw [Epoll.number_add hadd, if_neg hne]
        exact h.current e he
    -- `epoll_ctl` failed: the client is closed again
    · have hmem : fd ∈ (s.sockets.accept fd).openFds := Finset.mem_insert_self fd _
      have hsame : ((s.sockets.accept fd).close fd).openFds = s.sockets.openFds :=
        Finset.erase_insert hfd
      refine ⟨(h.answered.accept hfd).close hmem, h.runs, ?_, ?_, h.nodup, h.current⟩
      · exact fun hin => h.server (hsame ▸ hin)
      · intro g
        rw [hsame]
        exact h.interest g
  · exact h
  · exact h

/-- The events to come in the batch are for other descriptors than `fd`. -/
theorem inv_disconnect (h : Inv serverFd s) {fd : ℤ} (hopen : fd ∈ s.sockets.openFds)
    (hfd : fd ∉ s.pending.map Ready.fd) : Inv serverFd (s.disconnect fd) where
  answered := h.answered.close hopen
  runs := h.runs
  server hmem := h.server (Finset.mem_of_mem_erase hmem)
  interest := by
    intro g
    simp only [disconnect, Epoll.number_del, Sockets.openFds_close, Finset.mem_erase]
    by_cases hg : g = fd
    · have hne : fd ≠ serverFd := fun heq => h.server (heq ▸ hopen)
      simp [hg, hne]
    · simp [hg, h.interest g]
  nodup := h.nodup
  current := by
    intro e he
    have hne : e.fd ≠ fd := fun heq => hfd (heq ▸ List.mem_map_of_mem he)
    simp only [disconnect, Epoll.number_del, if_neg hne]
    exact h.current e he

theorem inv_onClient (h : Inv serverFd s) {e : Ready} (hopen : e.fd ∈ s.sockets.openFds)
    (hfd : e.fd ∉ s.pending.map Ready.fd) {results : CallResults}
    (hresults : results.Possible serverFd s.sockets) : Inv serverFd (s.onClient e results) := by
  unfold onClient
  split_ifs
  · split
    · next bytes count hrecv =>
      have hpossible := hresults.2
      rw [hrecv] at hpossible
      exact { h with answered := h.answered.echo hopen hpossible.1 hpossible.2.2 }
    · exact inv_disconnect h hopen hfd
    · exact h
    · exact inv_disconnect h hopen hfd
  · exact h

end Steps

theorem inv_step {serverFd : ℤ} {s t : EpollServer} {act : EpollAct} (h : Inv serverFd s)
    (hstep : step serverFd s act = some t) : Inv serverFd t := by
  cases act with
  | wait events =>
    rw [step] at hstep
    split_ifs at hstep with hif
    obtain rfl := Option.some.inj hstep
    obtain ⟨-, hruns, -, hnodup, hraised⟩ := hif
    exact { h with runs := hruns, nodup := hnodup, current := hraised }
  | waitFailed =>
    rw [step] at hstep
    split_ifs at hstep
    obtain rfl := Option.some.inj hstep
    exact { h with }
  | event results =>
    rw [step] at hstep
    split at hstep
    · cases hstep
    · next e pending hpending =>
      split_ifs at hstep with hresults
      obtain rfl := Option.some.inj hstep
      have hnodup := h.nodup
      have hcurrent := h.current
      rw [hpending] at hnodup hcurrent
      obtain ⟨hfd, hrest⟩ := List.nodup_cons.mp hnodup
      -- the event is taken from the batch first, and its descriptor does not come again
      have hs : Inv serverFd { s with pending } :=
        { h with
          nodup := hrest
          current := fun e' he' => hcurrent e' (List.mem_cons_of_mem e he') }
      unfold onEvent
      split_ifs with hserver
      · exact inv_onAccept hs hresults
      · have hsome : (s.epoll.number e.fd).isSome = true := by
          rw [hcurrent e List.mem_cons_self]
          rfl
        exact inv_onClient hs (((h.interest e.fd).mp hsome).resolve_right hserver) hfd hresults
  | leave =>
    rw [step] at hstep
    split_ifs at hstep
    obtain rfl := Option.some.inj hstep
    exact { h with }

theorem inv_run {serverFd : ℤ} {acts : List EpollAct} {s : EpollServer}
    (hrun : exec (step serverFd) (start serverFd) acts = some s) : Inv serverFd s :=
  invariant_of_meets (G := fun _ _ => True) (fun _ _ _ h _ hstep => inv_step h hstep)
    (inv_start serverFd) (meets_of_forall_mem (fun _ _ _ => trivial) _) hrun

/-- In every run of the loop the record is one of the echo service, the interest list is the
listening socket and the open connections, and every event to come is for the registration it
was raised for. -/
theorem interest_eq_open (serverFd : ℤ) (acts : List EpollAct) (s : EpollServer)
    (hrun : exec (step serverFd) (start serverFd) acts = some s) :
    s.sockets.Legal ∧ s.eventLoopRuns ≤ 20 ∧
      (∀ fd, (s.epoll.interest fd).isSome = true ↔ fd ∈ s.sockets.openFds ∨ fd = serverFd) ∧
      ∀ e ∈ s.pending, s.epoll.number e.fd = some e.number := by
  have hinv := inv_run hrun
  refine ⟨hinv.answered.legal, hinv.runs, fun fd => ?_, hinv.current⟩
  rw [← hinv.interest fd, Epoll.number, Option.isSome_map]

/-- A client that cannot be registered, and one that can. -/
def oneRegistered : List EpollAct :=
  [.wait [⟨3, epollIn, 0⟩], .event { accept := .client 5, ctlAdd := false },
    .wait [⟨3, epollIn, 0⟩], .event { accept := .client 5 }]

theorem interest_eq_open_oneRegistered :
    ∃ s, exec (step 3) (start 3) oneRegistered = some s ∧ (s.epoll.interest 5).isSome = true ∧
      5 ∈ s.sockets.openFds := by
  refine ⟨_, (Option.some_get (rfl : (exec (step 3) (start 3)
    oneRegistered).isSome = true)).symm, rfl, ?_⟩
  exact (((interest_eq_open 3 oneRegistered _ (Option.some_get _).symm).2.2.1 5).mp
    rfl).resolve_right (by decide)

end EpollServer

end Gateway.Service
