import Gateway.Service.EpollReactor

/-!
# The reactor server (`src/phase8_reactor_server.cpp`)

`handle_accept` and `handle_client_io` as callbacks of the reactor. The results of the system
calls come with the event that is dispatched, and console output is left out.
-/

namespace Gateway.Service
open Steps

/-- Which method of the server a callback calls. -/
inductive ServerCallback where
  | handleAccept
  | handleClientIo
deriving DecidableEq

/-- The descriptors of the server, and the clients that `add_socket` failed for. -/
structure ReactorServer where
  sockets : Sockets
  unregistered : Finset ℤ

/-- The results of the system calls of one callback. -/
structure CallResults where
  accept : Accept := .wouldBlock
  ctlAdd : Bool := true
  ctlDel : Bool := true
  recv : Recv := .wouldBlock

/-- What the system promises of the results. -/
def CallResults.Possible (serverFd : ℤ) (k : Sockets) (results : CallResults) : Prop :=
  results.accept.Possible (fun fd => fd ∈ k.openFds ∨ fd = serverFd) ∧ results.recv.Possible

instance (serverFd : ℤ) (k : Sockets) (results : CallResults) :
    Decidable (results.Possible serverFd k) :=
  inferInstanceAs (Decidable (_ ∧ _))

namespace ReactorServer

/-- The result of `add_socket` is not looked at. -/
def handleAccept (results : CallResults) (s : ReactorServer) (r : EpollReactor ServerCallback) :
    ReactorServer × EpollReactor ServerCallback :=
  match results.accept with
  | .client fd =>
    let (added, r) :=
      r.addSocket fd (epollIn ||| epollHup ||| epollErr) .handleClientIo results.ctlAdd
    (⟨s.sockets.accept fd, if added then s.unregistered else insert fd s.unregistered⟩, r)
  | .wouldBlock => (s, r)
  | .error => (s, r)

/-- `reactor_.remove_socket(client_fd); close(client_fd);` -/
def disconnect (fd : ℤ) (results : CallResults) (s : ReactorServer)
    (r : EpollReactor ServerCallback) : ReactorServer × EpollReactor ServerCallback :=
  let (_, r) := r.removeSocket fd results.ctlDel
  ({ s with sockets := s.sockets.close fd }, r.closed fd)

def handleClientIo (e : Ready) (results : CallResults) (s : ReactorServer)
    (r : EpollReactor ServerCallback) : ReactorServer × EpollReactor ServerCallback :=
  if e.events &&& (epollHup ||| epollErr) ≠ 0 then disconnect e.fd results s r
  else if e.events &&& epollIn ≠ 0 then
    match results.recv with
    | .data bytes count => ({ s with sockets := s.sockets.echo e.fd bytes count }, r)
    | .endOfFile => disconnect e.fd results s r
    | .wouldBlock => (s, r)
    | .error => disconnect e.fd results s r
  else (s, r)

def handle (serverFd : ℤ) (callback : ServerCallback) (e : Ready) (results : CallResults)
    (sr : ReactorServer × EpollReactor ServerCallback) :
    Option (ReactorServer × EpollReactor ServerCallback) :=
  if results.Possible serverFd sr.1.sockets then
    match callback with
    | .handleAccept => some (handleAccept results sr.1 sr.2)
    | .handleClientIo => some (handleClientIo e results sr.1 sr.2)
  else none

/-- `start` up to the loop; whether the listening socket was registered is not looked at. -/
def start (serverFd : ℤ) (ctlAdd : Bool) : Loop ReactorServer ServerCallback where
  state := ⟨{}, ∅⟩
  reactor :=
    { ((EpollReactor.new 64).addSocket serverFd epollIn .handleAccept ctlAdd).2 with
      running := true }

/-! ## The descriptors of the server -/

/-- The client is registered with the reactor. -/
def Registers (r : EpollReactor ServerCallback) (fd : ℤ) : Prop :=
  ∃ n, r.callbacks fd = some (.handleClientIo, n)

structure Inv (serverFd : ℤ) (s : ReactorServer) (r : EpollReactor ServerCallback) : Prop where
  answered : s.sockets.Answered
  synced : r.Synced
  listener : ∀ fd n, r.callbacks fd = some (.handleAccept, n) → fd = serverFd
  server : serverFd ∉ s.sockets.openFds
  openFds : ∀ fd, fd ∈ s.sockets.openFds ↔ Registers r fd ∨ fd ∈ s.unregistered
  unregistered : ∀ fd ∈ s.unregistered, r.callbacks fd = none

section Steps
variable {serverFd : ℤ} {s : ReactorServer} {r : EpollReactor ServerCallback}

/-- A descriptor in use has no callback under another name. -/
theorem Inv.callbacks_of_new (h : Inv serverFd s r) {fd : ℤ}
    (hfd : ¬(fd ∈ s.sockets.openFds ∨ fd = serverFd)) : r.callbacks fd = none := by
  cases hget : r.callbacks fd with
  | none => rfl
  | some entry =>
    obtain ⟨callback, n⟩ := entry
    cases callback with
    | handleAccept => exact absurd (Or.inr (h.listener fd n hget)) hfd
    | handleClientIo => exact absurd (Or.inl ((h.openFds fd).mpr (Or.inl ⟨n, hget⟩))) hfd

theorem inv_handleAccept (h : Inv serverFd s r) {results : CallResults}
    (hresults : results.Possible serverFd s.sockets) :
    Inv serverFd (handleAccept results s r).1 (handleAccept results s r).2 := by
  unfold handleAccept
  split
  · next fd haccept =>
    have hpossible := hresults.1
    rw [haccept] at hpossible
    obtain ⟨-, hnew⟩ := hpossible
    have hnone := h.callbacks_of_new hnew
    have hcall := r.callbacks_addSocket fd (epollIn ||| epollHup ||| epollErr) .handleClientIo
      results.ctlAdd
    have hsync := h.synced.addSocket fd (epollIn ||| epollHup ||| epollErr) .handleClientIo
      results.ctlAdd
    generalize r.addSocket fd (epollIn ||| epollHup ||| epollErr) .handleClientIo results.ctlAdd =
      added at hcall hsync ⊢
    obtain ⟨ok, r'⟩ := added
    dsimp only at hcall hsync ⊢
    refine ⟨h.answered.accept fun hmem => hnew (Or.inl hmem), hsync, ?_, ?_, ?_, ?_⟩
    · intro g n hg
      rw [hcall] at hg
      split_ifs at hg
      · cases hg
      · exact h.listener g n hg
    · rw [Sockets.openFds_accept, Finset.mem_insert, not_or]
      exact ⟨fun heq => hnew (Or.inr heq.symm), h.server⟩
    · intro g
      rw [Sockets.openFds_accept, Finset.mem_insert, h.openFds g]
      -- registered when `EPOLL_CTL_ADD` succeeds, among the unregistered ones when it fails
      by_cases hg : g = fd
      · cases ok <;> simp [Registers, hcall, hg]
      · cases ok <;> simp [Registers, hcall, hg]
    · intro g hg
      rw [hcall]
      by_cases hgfd : g = fd
      · cases ok with
        | false => simpa [hgfd] using hnone
        | true =>
          exact absurd (hgfd ▸ hg) fun hmem => hnew (Or.inl ((h.openFds fd).mpr (Or.inr hmem)))
      · rw [if_neg fun hand => hgfd hand.1]
        apply h.unregistered g
        cases ok with
        | false => exact (Finset.mem_insert.mp hg).resolve_left hgfd
        | true => exact hg
  · exact h
  · exact h

theorem inv_disconnect (h : Inv serverFd s r) {fd : ℤ} (hfd : Registers r fd)
    (results : CallResults) :
    Inv serverFd (disconnect fd results s r).1 (disconnect fd results s r).2 := by
  have hcall := r.callbacks_removeSocket fd results.ctlDel
  have hopen : fd ∈ s.sockets.openFds := (h.openFds fd).mpr (Or.inl hfd)
  refine ⟨h.answered.close hopen, h.synced.removeSocket_closed fd results.ctlDel, ?_, ?_, ?_, ?_⟩
  · intro g n hg
    have hg : (r.removeSocket fd results.ctlDel).2.callbacks g = some (.handleAccept, n) := hg
    rw [hcall] at hg
    split_ifs at hg
    exact h.listener g n hg
  · exact fun hmem => h.server (Finset.mem_of_mem_erase hmem)
  · intro g
    have hreg : Registers (disconnect fd results s r).2 g ↔ g ≠ fd ∧ Registers r g := by
      change (∃ n, (r.removeSocket fd results.ctlDel).2.callbacks g = _) ↔ _
      rw [hcall]
      by_cases hg : g = fd <;> simp [Registers, hg]
    -- an unregistered descriptor has no callback, so it is not the one that is closed
    have hunreg : g ∈ s.unregistered → g ≠ fd := by
      rintro hmem rfl
      obtain ⟨n, hn⟩ := hfd
      rw [h.unregistered g hmem] at hn
      cases hn
    change g ∈ s.sockets.openFds.erase fd ↔ _ ∨ g ∈ s.unregistered
    rw [Finset.mem_erase, h.openFds, hreg]
    constructor
    · rintro ⟨hne, hg | hg⟩
      · exact Or.inl ⟨hne, hg⟩
      · exact Or.inr hg
    · rintro (⟨hne, hg⟩ | hg)
      · exact ⟨hne, Or.inl hg⟩
      · exact ⟨hunreg hg, Or.inr hg⟩
  · intro g hg
    change (r.removeSocket fd results.ctlDel).2.callbacks g = none
    rw [hcall, h.unregistered g hg]
    split_ifs <;> rfl

theorem inv_handleClientIo (h : Inv serverFd s r) {e : Ready} (hfd : Registers r e.fd)
    {results : CallResults} (hresults : results.Possible serverFd s.sockets) :
    Inv serverFd (handleClientIo e results s r).1 (handleClientIo e results s r).2 := by
  have hopen : e.fd ∈ s.sockets.openFds := (h.openFds e.fd).mpr (Or.inl hfd)
  unfold handleClientIo
  split_ifs
  · exact inv_disconnect h hfd results
  · split
    · next bytes count hrecv =>
      have hpossible := hresults.2
      rw [hrecv] at hpossible
      exact { h with answered := h.answered.echo hopen hpossible.1 hpossible.2.2 }
    · exact inv_disconnect h hfd results
    · exact h
    · exact inv_disconnect h hfd results
  · exact h

/-- The registrations of other descriptors, in particular those with events to come. -/
theorem number_handleAccept (h : Inv serverFd s r) {results : CallResults}
    (hresults : results.Possible serverFd s.sockets) {g : ℤ} {n : ℕ}
    (hg : r.epoll.number g = some n) :
    (handleAccept results s r).2.epoll.number g = some n := by
  unfold handleAccept
  split
  · next fd haccept =>
    have hpossible := hresults.1
    rw [haccept] at hpossible
    have hne : g ≠ fd := by
      rintro rfl
      obtain ⟨-, callback, hcallback⟩ := h.synced.registered hg
      rw [h.callbacks_of_new hpossible.2] at hcallback
      cases hcallback
    exact (r.number_addSocket fd _ _ _ hne).trans hg
  · exact hg
  · exact hg

theorem number_handleClientIo {e : Ready} (results : CallResults) {g : ℤ} (hne : g ≠ e.fd) :
    (handleClientIo e results s r).2.epoll.number g = r.epoll.number g := by
  have hdisconnect : (disconnect e.fd results s r).2.epoll.number g = r.epoll.number g :=
    (r.number_removeSocket_closed e.fd results.ctlDel g).trans (if_neg hne)
  unfold handleClientIo
  split_ifs
  · exact hdisconnect
  · split
    · rfl
    · exact hdisconnect
    · rfl
    · exact hdisconnect
  · rfl

end Steps

theorem confined (serverFd : ℤ) : Loop.Confined (handle serverFd) (Inv serverFd) where
  synced h := h.synced
  stop h := ⟨h.answered, h.synced, h.listener, h.server, h.openFds, h.unregistered⟩
  keeps := by
    intro s r e results s' r' callback h hcallback hhandle
    unfold handle at hhandle
    split_ifs at hhandle with hresults
    cases callback with
    | handleAccept =>
      have hinv := inv_handleAccept h hresults
      rw [Option.some.inj hhandle] at hinv
      exact hinv
    | handleClientIo =>
      have hinv := inv_handleClientIo h ⟨e.number, hcallback⟩ hresults
      rw [Option.some.inj hhandle] at hinv
      exact hinv
  others := by
    intro s r e results s' r' callback g n h hne hcallback hhandle hg
    unfold handle at hhandle
    split_ifs at hhandle with hresults
    cases callback with
    | handleAccept =>
      have hnumber := number_handleAccept h hresults hg
      rw [Option.some.inj hhandle] at hnumber
      exact hnumber
    | handleClientIo =>
      have hnumber := (number_handleClientIo (s := s) (r := r) results hne).trans hg
      rw [Option.some.inj hhandle] at hnumber
      exact hnumber

theorem inv_start (serverFd : ℤ) (ctlAdd : Bool) :
    Inv serverFd (start serverFd ctlAdd).state (start serverFd ctlAdd).reactor := by
  have hcall := (EpollReactor.new 64).callbacks_addSocket serverFd epollIn
    ServerCallback.handleAccept ctlAdd
  refine ⟨Sockets.answered_empty, ?_, ?_, ?_, ?_, ?_⟩
  · exact (EpollReactor.synced_new 64).addSocket serverFd epollIn ServerCallback.handleAccept ctlAdd
  · intro fd n hfd
    have hfd := (hcall fd).symm.trans hfd
    split_ifs at hfd with hif
    · exact hif.1
    · cases hfd
  · exact Finset.notMem_empty serverFd
  · intro fd
    constructor
    · exact fun hmem => absurd hmem (Finset.notMem_empty fd)
    · rintro (⟨n, hn⟩ | hmem)
      · have hn := (hcall fd).symm.trans hn
        split_ifs at hn <;> cases hn
      · exact absurd hmem (Finset.notMem_empty fd)
  · exact fun fd hmem => absurd hmem (Finset.notMem_empty fd)

theorem inv_run {serverFd : ℤ} {ctlAdd : Bool} {acts : List (LoopAct CallResults)}
    {l : Loop ReactorServer ServerCallback}
    (hrun : exec (Loop.step (handle serverFd)) (start serverFd ctlAdd) acts = some l) :
    Inv serverFd l.state l.reactor :=
  (Loop.current_run (confined serverFd) (inv_start serverFd ctlAdd) rfl hrun).1

/-- An event of a batch is dispatched, and to the callback of the connection it was raised for,
whatever connections the callbacks before it in the batch ended, and whatever new ones took over
their descriptors. -/
theorem event_reaches_its_connection (serverFd : ℤ) (ctlAdd : Bool)
    (acts : List (LoopAct CallResults)) (l : Loop ReactorServer ServerCallback)
    (hrun : exec (Loop.step (handle serverFd)) (start serverFd ctlAdd) acts = some l) :
    (l.pending.map Ready.fd).Nodup ∧
      ∀ e ∈ l.pending, ∃ callback, l.reactor.callbacks e.fd = some (callback, e.number) ∧
        (callback = .handleClientIo → e.fd ∈ l.state.sockets.openFds) := by
  obtain ⟨hinv, hnodup, hcurrent⟩ :=
    Loop.current_run (confined serverFd) (inv_start serverFd ctlAdd) rfl hrun
  refine ⟨hnodup, fun e he => ?_⟩
  obtain ⟨-, callback, hcallback⟩ := hcurrent e he
  refine ⟨callback, hcallback, ?_⟩
  rintro rfl
  exact (hinv.openFds e.fd).mpr (Or.inl ⟨e.number, hcallback⟩)

/-- Nothing is done any more about a client that `add_socket` failed for. -/
theorem unregistered_step {serverFd fd : ℤ} {l l' : Loop ReactorServer ServerCallback}
    {act : LoopAct CallResults} (hfd : fd ∈ l.state.unregistered)
    (hstep : l.step (handle serverFd) act = some l') : fd ∈ l'.state.unregistered := by
  cases act with
  | dispatch results =>
    -- the callback runs to its end before the loop looks at the next event
    rw [Loop.step] at hstep
    split at hstep
    · cases hstep
    · split at hstep
      · obtain rfl := Option.some.inj hstep
        exact hfd
      · next callback _ _ =>
        obtain ⟨⟨s', r'⟩, hhandle, rfl⟩ := Option.map_eq_some_iff.mp hstep
        unfold handle at hhandle
        split_ifs at hhandle
        cases callback with
        | handleAccept =>
          have hs' : s' = (handleAccept results l.state l.reactor).1 :=
            (congrArg Prod.fst (Option.some.inj hhandle)).symm
          simp only [hs', handleAccept]
          split
          · dsimp only
            split_ifs
            · exact hfd
            · exact Finset.mem_insert_of_mem hfd
          · exact hfd
          · exact hfd
        | handleClientIo =>
          have hs' : s' = (handleClientIo _ results l.state l.reactor).1 :=
            (congrArg Prod.fst (Option.some.inj hhandle)).symm
          simp only [hs', handleClientIo]
          split_ifs
          · exact hfd
          · split <;> exact hfd
          · exact hfd
  | stop =>
    obtain rfl := Option.some.inj hstep
    exact hfd
  | wait events | interrupted | waitFailed | leave =>
    rw [Loop.step] at hstep
    split_ifs at hstep
    obtain rfl := Option.some.inj hstep
    exact hfd

/-- The record is one of the echo service, and the open connections are those registered with the
reactor and those that `add_socket` failed for, which stay open for good. -/
theorem open_iff_registered_or_add_failed (serverFd : ℤ) (ctlAdd : Bool)
    (acts : List (LoopAct CallResults)) (l : Loop ReactorServer ServerCallback)
    (hrun : exec (Loop.step (handle serverFd)) (start serverFd ctlAdd) acts = some l) :
    l.state.sockets.Legal ∧
      (∀ fd, fd ∈ l.state.sockets.openFds ↔ Registers l.reactor fd ∨ fd ∈ l.state.unregistered) ∧
      (∀ fd ∈ l.state.unregistered, ∀ later l',
        exec (Loop.step (handle serverFd)) l later = some l' →
          fd ∈ l'.state.sockets.openFds ∧ ¬Registers l'.reactor fd) := by
  have hinv := inv_run hrun
  refine ⟨hinv.answered.legal, hinv.openFds, ?_⟩
  intro fd hfd later l' hlater
  have hl' := inv_run (exec_append.mpr ⟨l, hrun, hlater⟩)
  have hfd' : fd ∈ l'.state.unregistered :=
    invariant_of_meets (G := fun _ _ => True) (I := fun l => fd ∈ l.state.unregistered)
      (fun _ _ _ h _ hstep => unregistered_step h hstep) hfd
      (meets_of_forall_mem (fun _ _ _ => trivial) l) hlater
  refine ⟨(hl'.openFds fd).mpr (Or.inr hfd'), ?_⟩
  rintro ⟨n, hn⟩
  rw [hl'.unregistered fd hfd'] at hn
  cases hn

/-- A client hangs up and the next one gets its descriptor, in one batch. -/
def reuse : List (LoopAct CallResults) :=
  [.wait [⟨3, epollIn, 0⟩], .dispatch { accept := .client 5 },
    .wait [⟨3, epollIn, 0⟩], .dispatch { accept := .client 6 },
    .wait [⟨5, epollHup, 1⟩, ⟨3, epollIn, 0⟩, ⟨6, epollIn, 2⟩], .dispatch {},
    .dispatch { accept := .client 5 }]

theorem event_reaches_its_connection_reuse :
    ∃ l, exec (Loop.step (handle 3)) (start 3 true) reuse = some l ∧
      l.pending = [⟨6, epollIn, 2⟩] ∧ ∃ callback, l.reactor.callbacks 6 = some (callback, 2) := by
  refine ⟨_, (Option.some_get (rfl : (exec (Loop.step (handle 3)) (start 3 true)
    reuse).isSome = true)).symm, rfl, ?_⟩
  obtain ⟨callback, hcallback, -⟩ :=
    (event_reaches_its_connection 3 true reuse _ (Option.some_get _).symm).2 ⟨6, epollIn, 2⟩
      List.mem_cons_self
  exact ⟨callback, hcallback⟩

/-- A client that cannot be registered. -/
def addFails : List (LoopAct CallResults) :=
  [.wait [⟨3, epollIn, 0⟩], .dispatch { accept := .client 5, ctlAdd := false }]

/-- The next client sends a line and hangs up. -/
def nextClient : List (LoopAct CallResults) :=
  [.wait [⟨3, epollIn, 0⟩], .dispatch { accept := .client 6 },
    .wait [⟨6, epollIn, 1⟩], .dispatch { recv := .data (ascii "hello") 5 },
    .wait [⟨6, epollIn ||| epollHup, 1⟩], .dispatch {}]

theorem open_iff_registered_or_add_failed_addFails :
    ∃ l l', exec (Loop.step (handle 3)) (start 3 true) addFails = some l ∧
      exec (Loop.step (handle 3)) l nextClient = some l' ∧
      l'.state.sockets.trace = [.accept 5, .accept 6, .recv 6 (ascii "hello"),
        .send 6 (ascii "hello") 5, .close 6] ∧
      5 ∈ l'.state.sockets.openFds ∧ ¬Registers l'.reactor 5 := by
  have hadd : (exec (Loop.step (handle 3)) (start 3 true) addFails).isSome = true := rfl
  have hnext : (exec (Loop.step (handle 3)) (Option.get _ hadd) nextClient).isSome = true := rfl
  refine ⟨_, _, (Option.some_get hadd).symm, (Option.some_get hnext).symm, rfl, ?_⟩
  exact (open_iff_registered_or_add_failed 3 true addFails _ (Option.some_get _).symm).2.2 5
    (Finset.mem_insert_self 5 ∅) nextClient _ (Option.some_get _).symm

end ReactorServer

end Gateway.Service
