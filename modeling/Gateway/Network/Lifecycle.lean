import Gateway.Network.ConnectionTables

/-!
# The life of a connection

A client callback does to the connection it finds what `Session.react` says, and to no
other. So the session of a connection is determined by its own events from the moment it
was accepted, until one of them ends it: a callback that sets CLOSING goes on with a closure
it has destroyed, and leaves the server in no state.
-/

namespace Gateway.Network
open Steps

namespace Session

/-- The effect of an event on the connection it is about. -/
def react (x : Session) (e : Event) : Session :=
  if e.epollHup || e.epollErr then x.setState .closing e.now
  else if e.epollIn then
    match e.recv with
    | .data bytes => x.onData bytes e.send e.now
    | .endOfFile => x.setState .closing e.now
    | .error => x
  else x

/-- The session after the events on its descriptor. -/
def run (x : Session) (events : List Event) : Session :=
  events.foldl (fun x e => if e.fd = x.conn.fd then x.react e else x) x

/-- The session of a client that was just accepted. -/
def accepted (client : Client) (now : ℤ) : Session :=
  (new client now).setState .authenticating now

/-- The states a connection was given are a beginning of the life of a connection, and it
got as far as AUTHENTICATED only with data. -/
inductive Ordered (x : Session) : Prop
  | authenticating (hstates : x.states = [.connected, .authenticating])
      (hstate : x.conn.state = .authenticating)
  | authenticated (hstates : x.states = [.connected, .authenticating, .authenticated])
      (hstate : x.conn.state = .authenticated) (hreceived : x.received ≠ [])

theorem Ordered.onData {x : Session} (hx : x.Ordered) {bytes : Bytes} (hbytes : bytes ≠ [])
    (send : Send) (now : ℤ) : (x.onData bytes send now).Ordered := by
  have hreceived : (x.onData bytes send now).received ≠ [] := by
    simp only [Session.onData]
    split_ifs <;> simp [sendAndRecord, setState, recordRecv, hbytes]
  have hstate := onData_conn_state x bytes send now
  cases hx with
  | authenticating hstates hauth =>
    refine .authenticated ?_ ?_ hreceived
    · simp [Session.onData, recordRecv, Connection.recordRecv, Connection.touch, hauth,
        sendAndRecord, setState, hstates]
    · rw [hstate, if_pos hauth]
  | authenticated hstates hauth _ =>
    refine .authenticated ?_ ?_ hreceived
    · simp [Session.onData, recordRecv, Connection.recordRecv, Connection.touch, hauth,
        sendAndRecord, hstates]
    · rw [hstate, hauth]
      rfl

/-- What the order of the states says about the record. -/
theorem Ordered.record {x : Session} (hx : x.Ordered) :
    x.states ∈ [[.connected, .authenticating],
        [.connected, .authenticating, .authenticated],
        [.connected, .authenticating, .closing],
        [.connected, .authenticating, .authenticated, .closing]] ∧
      x.states.getLast? = some x.conn.state ∧ (.authenticated ∈ x.states → x.received ≠ []) := by
  cases hx with
  | authenticating hstates hstate => simp [hstates, hstate]
  | authenticated hstates hstate hreceived => simp [hstates, hstate, hreceived]

theorem Ordered.not_closing {x : Session} (hx : x.Ordered) : x.conn.state ≠ .closing := by
  cases hx with
  | authenticating _ hstate => simp [hstate]
  | authenticated _ hstate _ => simp [hstate]

theorem react_conn_fd (x : Session) (e : Event) : (x.react e).conn.fd = x.conn.fd := by
  rw [react]
  split_ifs
  · rfl
  · split
    · exact onData_conn_fd x _ _ _
    · rfl
    · rfl
  · rfl

theorem states_prefix_react (x : Session) (e : Event) : x.states <+: (x.react e).states := by
  have hclosing : x.states <+: (x.setState .closing e.now).states := List.prefix_append _ _
  rw [react]
  split_ifs
  · exact hclosing
  · split
    · simp only [onData]
      split_ifs
      · exact List.prefix_append _ _
      · exact List.prefix_rfl
    · exact hclosing
    · exact List.prefix_rfl
  · exact List.prefix_rfl

end Session

namespace Server

variable {serverFd : ℤ} {s t : Server} {e : Event} {ptr : ℕ} {x : Session}

/-! ## One connection in a run -/

/-- A client callback that comes to its end did to its connection what the event says. -/
theorem objects_onClient {ptr' : ℕ} (hcallback : s.callbacks.lookup e.fd = some .client)
    (hconn : s.connMgr.getConnection e.fd = some ptr') (h : s.onClient e = .ok t) :
    t.connMgr.objects = (s.connMgr.modify ptr' (·.react e)).objects := by
  have hnone (h : ∀ x : Session, x.react e = x) :
      s.connMgr.objects = (s.connMgr.modify ptr' (·.react e)).objects := by
    simp only [ConnectionManager.modify, h]
    apply List.ext_getElem?
    intro i
    simp [List.getElem?_modify]
  rw [onClient_eq hcallback, hconn] at h
  dsimp only at h
  split_ifs at h with hteardown hin
  · have hup : (e.epollHup || e.epollErr) = false := by
      rw [← Bool.not_eq_true]
      exact fun hup => hteardown ⟨hcallback, by rw [hconn]; rfl, .inl hup⟩
    cases hrecv : e.recv with
    | data bytes =>
      rw [hrecv] at h
      obtain rfl := Except.ok.inj h
      simp only [Session.react, hup, hin, hrecv, if_true, if_false, Bool.false_eq_true]
    | endOfFile =>
      exact absurd ⟨hcallback, by rw [hconn]; rfl, .inr ⟨hin, hrecv⟩⟩ hteardown
    | error =>
      rw [hrecv] at h
      obtain rfl := Except.ok.inj h
      exact hnone fun x => by simp [Session.react, hup, hin, hrecv]
  · have hup : (e.epollHup || e.epollErr) = false := by
      rw [← Bool.not_eq_true]
      exact fun hup => hteardown ⟨hcallback, by rw [hconn]; rfl, .inl hup⟩
    obtain rfl := Except.ok.inj h
    exact hnone fun x => by simp [Session.react, hup, hin]

/-- One turn of the loop changes the connection whose callback runs, and no other. -/
theorem objects_turn (hx : s.connMgr.objects[ptr]? = some x)
    (h : turn serverFd s e = some (.ok t)) :
    t.connMgr.objects[ptr]? =
      some (if s.callbacks.lookup e.fd = some .client ∧ s.connMgr.getConnection e.fd = some ptr
        then x.react e else x) := by
  rw [turn] at h
  split_ifs at h
  have h := Option.some.inj h
  rw [dispatch] at h
  cases hcallback : s.callbacks.lookup e.fd with
  | none =>
    rw [hcallback] at h
    obtain rfl := Except.ok.inj h
    rw [if_neg (by simp), hx]
  | some callback =>
    rw [hcallback] at h
    cases callback with
    | listener =>
      dsimp only at h
      rw [onListener_eq hcallback] at h
      rw [if_neg (by simp)]
      cases haccept : e.accept with
      | none =>
        rw [haccept] at h
        obtain rfl := Except.ok.inj h
        exact hx
      | some client =>
        rw [haccept] at h
        obtain rfl := Except.ok.inj h
        -- a new connection is put behind the old ones
        exact objects_accepted.mpr (.inl hx)
    | client =>
      dsimp only at h
      cases hconn : s.connMgr.getConnection e.fd with
      | none =>
        rw [onClient_eq hcallback, hconn] at h
        obtain rfl := Except.ok.inj h
        rw [if_neg (by simp), hx]
      | some ptr' =>
        rw [objects_onClient hcallback hconn h]
        -- the callback works on the connection of its own descriptor
        by_cases heq : ptr = ptr'
        · subst heq
          rw [objects_modify_self, hx, if_pos ⟨rfl, rfl⟩]
          rfl
        · rw [objects_modify_ne heq, hx, if_neg (fun h => heq (Option.some.inj h.2).symm)]

/-- A callback stays registered. -/
theorem callbacks_turn {fd : ℤ} (hcallback : s.callbacks.lookup fd = some .client)
    (h : turn serverFd s e = some (.ok t)) : t.callbacks.lookup fd = some .client := by
  cases moves_of_turn h with
  | idle _ _ => exact hcallback
  | accept _ _ _ _ =>
    rw [callbacks_accepted]
    split_ifs
    · rfl
    · exact hcallback
  | data _ _ _ _ _ _ => exact hcallback

/-- The record of states is only ever added to. -/
theorem states_prefix_run {events : List Event} (hx : s.connMgr.objects[ptr]? = some x)
    (hrun : exec (step serverFd) (.ok s) events = some (.ok t)) :
    ∃ y, t.connMgr.objects[ptr]? = some y ∧ x.states <+: y.states := by
  induction events generalizing s x with
  | nil =>
    obtain rfl := Except.ok.inj (Option.some.inj hrun)
    exact ⟨x, hx, List.prefix_rfl⟩
  | cons e events ih =>
    obtain ⟨u, hu, hrun⟩ := exec_cons_ok.mp hrun
    obtain ⟨y, hy, hprefix⟩ := ih (objects_turn hx hu) hrun
    refine ⟨y, hy, List.IsPrefix.trans ?_ hprefix⟩
    split_ifs
    · exact x.states_prefix_react e
    · exact List.prefix_rfl

/-- The events on its descriptor are those that reach a connection. -/
theorem reaches_iff (hs : Linked s) (hx : s.connMgr.objects[ptr]? = some x) :
    s.connMgr.getConnection e.fd = some ptr ↔ e.fd = x.conn.fd := by
  constructor
  · intro h
    obtain ⟨y, hy, hfd⟩ := hs.managed _ _ h
    rw [hx, Option.some.injEq] at hy
    subst hy
    exact hfd.symm
  · intro hfd
    rw [hfd]
    exact hs.live ptr x hx

/-- A registered connection ends a run as its own events leave it. -/
theorem objects_run {events : List Event} (hs : Linked s)
    (hx : s.connMgr.objects[ptr]? = some x)
    (hregistered : s.callbacks.lookup x.conn.fd = some .client)
    (hrun : exec (step serverFd) (.ok s) events = some (.ok t)) :
    t.connMgr.objects[ptr]? = some (x.run events) := by
  induction events generalizing s x with
  | nil =>
    obtain rfl := Except.ok.inj (Option.some.inj hrun)
    exact hx
  | cons e events ih =>
    obtain ⟨u, hu, hrun⟩ := exec_cons_ok.mp hrun
    have hstep := objects_turn hx hu
    have hreach : (s.callbacks.lookup e.fd = some .client ∧
        s.connMgr.getConnection e.fd = some ptr) ↔ e.fd = x.conn.fd := by
      rw [reaches_iff hs hx]
      constructor
      · exact And.right
      · exact fun h => ⟨h ▸ hregistered, h⟩
    simp only [hreach] at hstep
    refine ih (linked_turn hs hu) hstep ?_ hrun
    have hfd : (if e.fd = x.conn.fd then x.react e else x).conn.fd = x.conn.fd := by
      split_ifs
      · exact x.react_conn_fd e
      · rfl
    rw [hfd]
    exact callbacks_turn hregistered hu

/-- A connection whose registration failed stays as it was. -/
theorem objects_run_unregistered {events : List Event} (hs : Linked s)
    (hx : s.connMgr.objects[ptr]? = some x) (hfd : Unregistered x.conn.fd s)
    (hrun : exec (step serverFd) (.ok s) events = some (.ok t)) :
    t.connMgr.objects[ptr]? = some x := by
  induction events generalizing s with
  | nil =>
    obtain rfl := Except.ok.inj (Option.some.inj hrun)
    exact hx
  | cons e events ih =>
    obtain ⟨u, hu, hrun⟩ := exec_cons_ok.mp hrun
    have hstep := objects_turn hx hu
    have hmiss : ¬ (s.callbacks.lookup e.fd = some .client ∧
        s.connMgr.getConnection e.fd = some ptr) := by
      rintro ⟨hcallback, hconn⟩
      rw [(reaches_iff hs hx).mp hconn] at hcallback
      exact hfd.2 hcallback
    rw [if_neg hmiss] at hstep
    exact ih (linked_turn hs hu) hstep (unregistered_turn hs hfd hu) hrun

/-! ## The order of the states -/

/-- Every connection is somewhere in the life of a connection. -/
def AllOrdered (s : Server) : Prop :=
  ∀ (ptr : ℕ) (x : Session), s.connMgr.objects[ptr]? = some x → x.Ordered

theorem allOrdered_turn (hs : AllOrdered s) (h : turn serverFd s e = some (.ok t)) :
    AllOrdered t := by
  cases moves_of_turn h with
  | idle _ _ => exact hs
  | accept _ _ _ _ =>
    intro ptr x hx
    rcases objects_accepted.mp hx with hx | ⟨-, rfl⟩
    · exact hs ptr x hx
    · exact .authenticating rfl rfl
  | data _ _ _ _ _ hbytes =>
    exact forall_objects_modify hs fun x hx => (hs _ x hx).onData hbytes _ _

theorem allOrdered_init (serverFd : ℤ) (ctlAdd : Bool) : AllOrdered (init serverFd ctlAdd) := by
  intro ptr x hx
  rw [connMgr_init] at hx
  cases hx

theorem allOrdered_run {events : List Event} (hs : AllOrdered s)
    (hrun : exec (step serverFd) (.ok s) events = some (.ok t)) : AllOrdered t :=
  invariant_of_ok (fun _ _ _ hs h => allOrdered_turn hs h) hs hrun

/-- A client accepted by the listener starts a session of its own, and its own events alone
decide how that goes on. -/
theorem accepted_run (hs : Linked s) {client : Client} {events : List Event} {u : Server}
    (hcallback : s.callbacks.lookup e.fd = some .listener) (haccept : e.accept = some client)
    (hturn : turn serverFd s e = some (.ok t))
    (hrun : exec (step serverFd) (.ok t) events = some (.ok u)) :
    t.connMgr.getConnection client.fd = some s.connMgr.objects.length ∧
    t.connMgr.objects[s.connMgr.objects.length]? = some (.accepted client e.now) ∧
    u.connMgr.objects[s.connMgr.objects.length]? =
      some (if e.ctlAdd then (Session.accepted client e.now).run events
        else .accepted client e.now) := by
  have hpossible : Possible serverFd s e := by
    by_contra hnot
    rw [turn, if_neg hnot] at hturn
    cases hturn
  obtain ⟨-, hopen, -⟩ := hpossible.1 client haccept
  obtain rfl : s.accepted client e = t := by
    rw [turn, if_pos hpossible, dispatch, hcallback] at hturn
    dsimp only at hturn
    rw [onListener_eq hcallback, haccept] at hturn
    exact Except.ok.inj (Option.some.inj hturn)
  have hnew : (s.accepted client e).connMgr.objects[s.connMgr.objects.length]? =
      some (.accepted client e.now) := objects_accepted.mpr (.inr ⟨rfl, rfl⟩)
  refine ⟨by rw [getConnection_accepted, if_pos rfl], hnew, ?_⟩
  split_ifs with hadd
  · refine objects_run (linked_turn hs hturn) hnew ?_ hrun
    rw [callbacks_accepted]
    exact if_pos ⟨rfl, hadd⟩
  · refine objects_run_unregistered (linked_turn hs hturn) hnew ⟨?_, ?_⟩ hrun
    · show ((s.accepted client e).connMgr.getConnection client.fd).isSome
      rw [getConnection_accepted, if_pos rfl]
      rfl
    · show (s.accepted client e).callbacks.lookup client.fd ≠ some .client
      rw [callbacks_accepted, if_neg (fun h => hadd h.2)]
      intro hregistered
      -- a descriptor that `accept` returns is not open, so nobody is registered under it
      exact hopen ((hs.openFds _).mpr (hs.registered _ hregistered))

/-- Every connection goes through its states in order, is AUTHENTICATED only after data, and
is frozen and unmanaged once it is closing; and every accepted client starts afresh, with
what happens to it then decided by its own events alone. -/
structure Lifecycle (serverFd : ℤ) (s : Server) : Prop where
  ordered : ∀ (ptr : ℕ) (x : Session), s.connMgr.objects[ptr]? = some x →
    x.states ∈ [[.connected, .authenticating],
        [.connected, .authenticating, .authenticated],
        [.connected, .authenticating, .closing],
        [.connected, .authenticating, .authenticated, .closing]] ∧
      x.states.getLast? = some x.conn.state ∧ (.authenticated ∈ x.states → x.received ≠ [])
  onward : ∀ (ptr : ℕ) (x : Session), s.connMgr.objects[ptr]? = some x →
    ∀ later t, exec (step serverFd) (.ok s) later = some (.ok t) →
      (∃ y, t.connMgr.objects[ptr]? = some y ∧ x.states <+: y.states) ∧
      (x.conn.state = .closing → t.connMgr.objects[ptr]? = some x ∧
        ∀ fd, t.connMgr.getConnection fd ≠ some ptr)
  afresh : ∀ (e : Event) (client : Client) (t : Server),
    s.callbacks.lookup e.fd = some .listener → e.accept = some client →
    turn serverFd s e = some (.ok t) →
      let x := Session.accepted client e.now
      (x.states = [.connected, .authenticating] ∧ x.conn.bytesReceived = 0 ∧
        x.conn.bytesSent = 0 ∧ x.conn.packetsProcessed = 0) ∧
      t.connMgr.getConnection client.fd = some s.connMgr.objects.length ∧
      t.connMgr.objects[s.connMgr.objects.length]? = some x ∧
      ∀ later u, exec (step serverFd) (.ok t) later = some (.ok u) →
        u.connMgr.objects[s.connMgr.objects.length]? =
          some (if e.ctlAdd then x.run later else x)

theorem lifecycle_of_linked (hs : Linked s) (ho : AllOrdered s) : Lifecycle serverFd s where
  ordered ptr x hx := (ho ptr x hx).record
  onward ptr x hx later t ht := by
    refine ⟨states_prefix_run hx ht, fun hclosing => ?_⟩
    exact absurd hclosing (ho ptr x hx).not_closing
  afresh e client t hcallback haccept hturn := by
    obtain ⟨hconn, hobject, -⟩ := accepted_run hs hcallback haccept hturn (exec_nil _)
    refine ⟨⟨rfl, rfl, rfl, rfl⟩, hconn, hobject, fun later u hu => ?_⟩
    exact (accepted_run hs hcallback haccept hturn hu).2.2

/-- A run keeps to the life of a connection exactly when no connection is torn down in it. -/
theorem connection_lifecycle {serverFd : ℤ} {ctlAdd : Bool} {events : List Event} {o : Outcome}
    (hrun : exec (step serverFd) (.ok (init serverFd ctlAdd)) events = some o) :
    Meets (step serverFd) (Defined fun s e => ¬ TearsDown s e) (.ok (init serverFd ctlAdd))
        events ↔
      ∃ s, o = .ok s ∧ Lifecycle serverFd s := by
  have hdefined := meets_defined_iff (U := Undefined) not_tearsDown_iff hrun
  constructor
  · intro hmeets
    obtain ⟨s, rfl⟩ := hdefined.mp hmeets
    refine ⟨s, rfl, lifecycle_of_linked (linked_run (linked_init serverFd ctlAdd) hrun) ?_⟩
    exact allOrdered_run (allOrdered_init serverFd ctlAdd) hrun
  · rintro ⟨s, rfl, -⟩
    exact hdefined.mpr ⟨s, rfl⟩

theorem connection_lifecycle_clientsTalk :
    ∃ s, exec (step 3) (.ok (init 3 true)) clientsTalk = some (.ok s) ∧
      ∃ x, s.connMgr.objects[0]? = some x ∧
        x.states = [.connected, .authenticating, .authenticated] ∧ x.received ≠ [] := by
  have hmeets : Meets (step 3) (Defined fun s e => ¬ TearsDown s e) (.ok (init 3 true))
      clientsTalk := by
    decide +kernel
  have hrun : (exec (step 3) (.ok (init 3 true)) clientsTalk).map (fun o =>
      o.toOption.bind fun s => (s.connMgr.objects[0]?).map Session.states) =
        some (some [.connected, .authenticating, .authenticated]) := by
    decide +kernel
  obtain ⟨o, ho, hstates⟩ := Option.map_eq_some_iff.mp hrun
  obtain ⟨s, rfl, hlifecycle⟩ := (connection_lifecycle ho).mp hmeets
  obtain ⟨x, hx, hstates⟩ := Option.map_eq_some_iff.mp hstates
  obtain ⟨-, -, hreceived⟩ := hlifecycle.ordered 0 x hx
  exact ⟨s, ho, x, hx, hstates, hreceived (by simp [hstates])⟩

/-- A client connects and disconnects. -/
def connectAndLeave : List Event :=
  [{ fd := 3, epollIn := true, accept := some ⟨5, ascii "10.0.0.1", 4001⟩ },
    { fd := 5, epollIn := true, recv := .endOfFile }]

/-- The callback that ends the connection uses its own closure after destroying it. -/
theorem connectAndLeave_undefined :
    exec (step 3) (.ok (init 3 true)) connectAndLeave = some (.error .closureDestroyed) ∧
      ¬ ∃ s, exec (step 3) (.ok (init 3 true)) connectAndLeave = some (.ok s) ∧
        Lifecycle 3 s := by
  have hrun : (exec (step 3) (.ok (init 3 true)) connectAndLeave).map Except.isOk =
      some false := by
    decide +kernel
  obtain ⟨o, ho, hend⟩ := Option.map_eq_some_iff.mp hrun
  cases o with
  | ok s => cases hend
  | error u =>
    cases u with
    | closureDestroyed =>
      refine ⟨ho, ?_⟩
      rintro ⟨s, hs, -⟩
      cases ho.symm.trans hs

end Server

end Gateway.Network
