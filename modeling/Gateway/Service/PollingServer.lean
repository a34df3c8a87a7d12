import Gateway.Service.EchoService

/-!
# The polling server (`src/phase6_non_blocking_server.cpp`)

Thirty rounds, each of which tries to accept one client and then polls every client with a
non-blocking `recv`; a client that is gone is erased from the vector the loop runs over. What
the system calls return comes with each step, and console output is left out.
-/

namespace Gateway.Service
open Steps

/-- Where `main` is; `it` is the index the iterator points at. -/
inductive PollingPoint where
  | accept
  | poll (it : ℕ)
  | cleanup (it : ℕ)
  | finished
deriving DecidableEq

/-- The variables of `main`, with the clients at the beginning of the round and those of them
that were polled. -/
structure PollingServer where
  loopCounter : ℕ
  point : PollingPoint
  clientFds : List ℤ
  sockets : Sockets
  round : List ℤ
  polled : List ℤ

inductive PollingAct where
  | accept (result : Accept)
  | recv (result : Recv)
  | next

namespace PollingServer

def init : PollingServer := ⟨0, .accept, [], {}, [], []⟩

def loops : ℕ := 30

/-- Part A of the loop body. -/
def onAccept (s : PollingServer) (result : Accept) : PollingServer :=
  let s := { s with loopCounter := s.loopCounter + 1 }
  let s :=
    match result with
    | .client fd =>
      { s with sockets := s.sockets.accept fd, clientFds := s.clientFds ++ [fd] }
    | .wouldBlock => s
    | .error => s
  { s with point := .poll 0, round := s.clientFds, polled := [] }

/-- `close(c_fd); it = client_fds.erase(it);` -/
def erase (s : PollingServer) (it : ℕ) (fd : ℤ) : PollingServer :=
  { s with sockets := s.sockets.close fd, clientFds := s.clientFds.eraseIdx it, point := .poll it }

/-- Part B of the loop body for the client at `it`. -/
def onPoll (s : PollingServer) (it : ℕ) (fd : ℤ) (result : Recv) : PollingServer :=
  let s := { s with polled := s.polled ++ [fd] }
  match result with
  | .data bytes count =>
    { s with sockets := s.sockets.echo fd bytes count, point := .poll (it + 1) }
  | .endOfFile => s.erase it fd
  | .wouldBlock => { s with point := .poll (it + 1) }
  | .error => s.erase it fd

def step (serverFd : ℤ) (s : PollingServer) : PollingAct → Option PollingServer
  | .accept result =>
    if s.point = .accept ∧ s.loopCounter < loops ∧
        result.Possible (fun fd => fd ∈ s.sockets.openFds ∨ fd = serverFd) then
      some (s.onAccept result)
    else none
  | .recv result =>
    match s.point with
    | .poll it =>
      if result.Possible then s.clientFds[it]?.map (s.onPoll it · result) else none
    | _ => none
  | .next =>
    match s.point with
    | .accept => if s.loopCounter < loops then none else some { s with point := .cleanup 0 }
    | .poll it => if it < s.clientFds.length then none else some { s with point := .accept }
    | .cleanup it =>
      match s.clientFds[it]? with
      | some fd => some { s with sockets := s.sockets.close fd, point := .cleanup (it + 1) }
      | none => some { s with point := .finished }
    | .finished => none

/-- The descriptors that `main` still has to close. -/
def held (s : PollingServer) : List ℤ :=
  match s.point with
  | .accept => s.clientFds
  | .poll _ => s.clientFds
  | .cleanup it => s.clientFds.drop it
  | .finished => []

/-- The clients of a round are those that were polled and, from the iterator on, the ones to
come. -/
def RoundInOrder (s : PollingServer) : Prop :=
  ∀ it, s.point = .poll it → s.polled ++ s.clientFds.drop it = s.round

structure Inv (s : PollingServer) : Prop where
  answered : s.sockets.Answered
  nodup : s.held.Nodup
  openFds : s.sockets.openFds = s.held.toFinset
  round : s.RoundInOrder
  round_nodup : s.round.Nodup

theorem inv_init : Inv init where
  answered := Sockets.answered_empty
  nodup := List.nodup_nil
  openFds := rfl
  round := by simp [RoundInOrder, init]
  round_nodup := List.nodup_nil

section Steps
variable {s : PollingServer}

theorem inv_onAccept (h : Inv s) (hpoint : s.point = .accept) {result : Accept} {serverFd : ℤ}
    (hresult : result.Possible (fun fd => fd ∈ s.sockets.openFds ∨ fd = serverFd)) :
    Inv (s.onAccept result) := by
  have hheld : s.held = s.clientFds := by simp [held, hpoint]
  have hnodup := hheld ▸ h.nodup
  have hopen := hheld ▸ h.openFds
  cases result with
  | client fd =>
    have hfd : fd ∉ s.sockets.openFds := fun hmem => hresult.2 (Or.inl hmem)
    have hnew : fd ∉ s.clientFds := by simpa [hopen] using hfd
    have hclients : (s.clientFds ++ [fd]).Nodup := by
      rw [List.nodup_append]
      refine ⟨hnodup, List.nodup_singleton fd, ?_⟩
      intro g hg f hf heq
      exact hnew (List.mem_singleton.mp hf ▸ heq ▸ hg)
    refine ⟨h.answered.accept hfd, hclients, ?_, ?_, hclients⟩
    · simp [held, onAccept, hopen]
    · simp [RoundInOrder, onAccept]
  | wouldBlock =>
    exact ⟨h.answered, hnodup, hopen, by simp [RoundInOrder, onAccept], hnodup⟩
  | error =>
    exact ⟨h.answered, hnodup, hopen, by simp [RoundInOrder, onAccept], hnodup⟩

/-- The iterator moves past a client that stays. -/
theorem roundInOrder_advance {it : ℕ} {fd : ℤ} (h : s.RoundInOrder) (hpoint : s.point = .poll it)
    (hfd : s.clientFds[it]? = some fd) :
    s.polled ++ [fd] ++ s.clientFds.drop (it + 1) = s.round := by
  have hdrop : s.clientFds.drop it = fd :: s.clientFds.drop (it + 1) :=
    List.drop_eq_getElem?_toList_append.trans (by rw [hfd]; rfl)
  rw [← h it hpoint, hdrop, List.append_assoc]
  rfl

/-- After an erase the iterator points at the client after the erased one. -/
theorem drop_eraseIdx {l : List ℤ} {it : ℕ} (h : it < l.length) :
    (l.eraseIdx it).drop it = l.drop (it + 1) := by
  rw [List.eraseIdx_eq_take_drop_succ, List.drop_append_of_le_length]
  · simp
  · simp [Nat.le_of_lt h]

theorem inv_erase (h : Inv s) {it : ℕ} (hpoint : s.point = .poll it) {fd : ℤ}
    (hfd : s.clientFds[it]? = some fd) :
    Inv (erase { s with polled := s.polled ++ [fd] } it fd) := by
  have hheld : s.held = s.clientFds := by simp [held, hpoint]
  have hnodup := hheld ▸ h.nodup
  have hopen := hheld ▸ h.openFds
  obtain ⟨hlt, hget⟩ := List.getElem?_eq_some_iff.mp hfd
  have hmem : fd ∈ s.sockets.openFds := by
    rw [hopen, List.mem_toFinset]
    exact List.mem_of_getElem? hfd
  have herase : s.clientFds.eraseIdx it = s.clientFds.erase fd := by
    rw [← hget, hnodup.erase_getElem it hlt]
  refine ⟨h.answered.close hmem, ?_, ?_, ?_, h.round_nodup⟩
  · exact hnodup.eraseIdx it
  · ext g
    simp [held, erase, hopen, herase, hnodup.mem_erase_iff]
  · intro i hi
    obtain rfl := PollingPoint.poll.inj hi
    rw [← roundInOrder_advance h.round hpoint hfd]
    exact congrArg (s.polled ++ [fd] ++ ·) (drop_eraseIdx hlt)

theorem inv_onPoll (h : Inv s) {it : ℕ} (hpoint : s.point = .poll it) {fd : ℤ}
    (hfd : s.clientFds[it]? = some fd) {result : Recv} (hresult : result.Possible) :
    Inv (s.onPoll it fd result) := by
  have hheld : s.held = s.clientFds := by simp [held, hpoint]
  have hnodup := hheld ▸ h.nodup
  have hopen := hheld ▸ h.openFds
  have hmem : fd ∈ s.sockets.openFds := by
    rw [hopen, List.mem_toFinset]
    exact List.mem_of_getElem? hfd
  have hround : ∀ i, PollingPoint.poll (it + 1) = .poll i →
      s.polled ++ [fd] ++ s.clientFds.drop i = s.round := by
    intro i hi
    obtain rfl := PollingPoint.poll.inj hi
    exact roundInOrder_advance h.round hpoint hfd
  cases result with
  | data bytes count =>
    exact ⟨h.answered.echo hmem hresult.1 hresult.2.2, hnodup, hopen, hround, h.round_nodup⟩
  | endOfFile => exact inv_erase h hpoint hfd
  | wouldBlock => exact ⟨h.answered, hnodup, hopen, hround, h.round_nodup⟩
  | error => exact inv_erase h hpoint hfd

/-- The close of one client at the end of `main`. -/
theorem inv_cleanup (h : Inv s) {it : ℕ} (hpoint : s.point = .cleanup it) {fd : ℤ}
    (hfd : s.clientFds[it]? = some fd) :
    Inv { s with sockets := s.sockets.close fd, point := .cleanup (it + 1) } := by
  have hheld : s.held = s.clientFds.drop it := by simp [held, hpoint]
  have hnodup := hheld ▸ h.nodup
  have hopen := hheld ▸ h.openFds
  have hdrop : s.clientFds.drop it = fd :: s.clientFds.drop (it + 1) :=
    List.drop_eq_getElem?_toList_append.trans (by rw [hfd]; rfl)
  rw [hdrop] at hnodup hopen
  obtain ⟨hnotMem, hrest⟩ := List.nodup_cons.mp hnodup
  refine ⟨h.answered.close (by simp [hopen]), hrest, ?_, by simp [RoundInOrder], h.round_nodup⟩
  ext g
  by_cases hg : g = fd
  · simpa [held, hopen, hg] using hnotMem
  · simp [held, hopen, hg]

end Steps

/-- A move of `main` that touches no descriptor and leaves the polls of the round. -/
theorem inv_move {s : PollingServer} (h : Inv s) {point : PollingPoint}
    (hheld : held { s with point } = s.held) (hpoint : ∀ it, point ≠ .poll it) :
    Inv { s with point } where
  answered := h.answered
  nodup := hheld ▸ h.nodup
  openFds := h.openFds.trans (congrArg List.toFinset hheld.symm)
  round it hit := absurd hit (hpoint it)
  round_nodup := h.round_nodup

theorem inv_step {serverFd : ℤ} {s t : PollingServer} {act : PollingAct} (h : Inv s)
    (hstep : step serverFd s act = some t) : Inv t := by
  cases act with
  | accept result =>
    rw [step] at hstep
    split_ifs at hstep with hif
    obtain rfl := Option.some.inj hstep
    exact inv_onAccept h hif.1 hif.2.2
  | recv result =>
    rw [step] at hstep
    split at hstep
    · next it hpoint =>
      split_ifs at hstep with hresult
      obtain ⟨fd, hfd, rfl⟩ := Option.map_eq_some_iff.mp hstep
      exact inv_onPoll h hpoint hfd hresult
    · cases hstep
  | next =>
    rw [step] at hstep
    split at hstep
    · next hpoint =>
      split_ifs at hstep
      obtain rfl := Option.some.inj hstep
      exact inv_move h (by simp [held, hpoint]) (by simp)
    · next it hpoint =>
      split_ifs at hstep
      obtain rfl := Option.some.inj hstep
      exact inv_move h (by simp [held, hpoint]) (by simp)
    · next it hpoint =>
      split at hstep
      · next fd hfd =>
        obtain rfl := Option.some.inj hstep
        exact inv_cleanup h hpoint hfd
      · next hnone =>
        obtain rfl := Option.some.inj hstep
        -- `main` has closed every client that it held
        have hrest : s.clientFds.drop it = [] :=
          List.drop_eq_nil_iff.mpr (List.getElem?_eq_none_iff.mp hnone)
        exact inv_move h (by simp [held, hpoint, hrest]) (by simp)
    · cases hstep

theorem inv_run {serverFd : ℤ} {acts : List PollingAct} {s : PollingServer}
    (hrun : exec (step serverFd) init acts = some s) : Inv s :=
  invariant_of_meets (G := fun _ _ => True) (fun _ _ _ h _ hstep => inv_step h hstep) inv_init
    (meets_of_forall_mem (fun _ _ _ => trivial) _) hrun

/-- In every run the record is one of the echo service, every round polls each of its clients
once and in order although clients are erased on the way, and when `main` returns it has closed
each descriptor as often as it was accepted. -/
theorem polls_every_client_and_closes_all (serverFd : ℤ) (acts : List PollingAct)
    (s : PollingServer) (hrun : exec (step serverFd) init acts = some s) :
    s.sockets.Legal ∧
      (∀ it, s.point = .poll it → s.polled ++ s.clientFds.drop it = s.round ∧ s.round.Nodup) ∧
      (s.point = .finished → ∀ fd,
        s.sockets.trace.countP (·.accepts fd) = s.sockets.trace.countP (·.closes fd)) := by
  have hinv := inv_run hrun
  refine ⟨hinv.answered.legal, fun it hit => ⟨hinv.round it hit, hinv.round_nodup⟩, ?_⟩
  intro hfinished fd
  have hnone : s.sockets.openFds = ∅ := by
    rw [hinv.openFds]
    simp [held, hfinished]
  have hbalanced := hinv.answered.legal.balanced fd
  simpa [Balanced, hnone] using hbalanced

/-- Two clients, of which the first leaves in the second round. -/
def leaving : List PollingAct :=
  [.accept (.client 4), .recv .wouldBlock, .next, .accept (.client 5), .recv .endOfFile,
    .recv (.data (ascii "hi") 2)]

/-- The client after the erased one is polled in the same round. -/
theorem polls_every_client_and_closes_all_leaving :
    ∃ s, exec (step 3) init leaving = some s ∧ s.polled = [4, 5] ∧
      s.polled ++ s.clientFds.drop 1 = s.round := by
  refine ⟨_, (Option.some_get (rfl : (exec (step 3) init leaving).isSome = true)).symm, rfl, ?_⟩
  exact ((polls_every_client_and_closes_all 3 leaving _ (Option.some_get _).symm).2.1 1 rfl).1

end PollingServer

end Gateway.Service
