import Gateway.Network.Server

/-!
# The tables of the server stay in step

The manager and the set of open descriptors agree in every state the server gets to. The
callbacks agree with them as long as every accepted client is registered with the reactor,
which the server does not check. The server gets to no state by a teardown.
-/

namespace Gateway.Network.Server
open Steps

variable {serverFd : ℤ} {s t : Server} {e : Event} {o : Outcome}

/-- A client is accepted: the state the callback of the listener leaves. -/
def accepted (s : Server) (client : Client) (e : Event) : Server :=
  addSocket ⟨⟨s.connMgr.objects ++ [(Session.new client e.now).setState .authenticating e.now],
    s.connMgr.connections.insert client.fd s.connMgr.objects.length⟩, s.callbacks,
    insert client.fd s.openFds⟩ client.fd .client e.ctlAdd

/-- The event makes the callback of a client tear its connection down. -/
def TearsDown (s : Server) (e : Event) : Prop :=
  s.callbacks.lookup e.fd = some .client ∧ (s.connMgr.getConnection e.fd).isSome ∧
    ((e.epollHup || e.epollErr) = true ∨ e.epollIn = true ∧ e.recv = .endOfFile)

instance (s : Server) (e : Event) : Decidable (TearsDown s e) :=
  inferInstanceAs (Decidable (_ ∧ _))

/-- Everything one turn of the loop can do. -/
inductive Moves (serverFd : ℤ) (s : Server) (e : Event) : Outcome → Prop
  | idle (hteardown : ¬ TearsDown s e)
      (haccept : s.callbacks.lookup e.fd = some .listener → e.accept = none) :
      Moves serverFd s e (.ok s)
  | accept {client : Client} (hcallback : s.callbacks.lookup e.fd = some .listener)
      (haccept : e.accept = some client) (hopen : client.fd ∉ s.openFds)
      (hserver : client.fd ≠ serverFd) : Moves serverFd s e (.ok (s.accepted client e))
  | data {ptr : ℕ} {bytes : Bytes} (hcallback : s.callbacks.lookup e.fd = some .client)
      (hconn : s.connMgr.getConnection e.fd = some ptr)
      (hup : (e.epollHup || e.epollErr) = false) (hin : e.epollIn = true)
      (hrecv : e.recv = .data bytes) (hbytes : bytes ≠ []) :
      Moves serverFd s e
        (.ok { s with connMgr := s.connMgr.modify ptr (·.onData bytes e.send e.now) })
  | tearDown (hteardown : TearsDown s e) : Moves serverFd s e (.error .closureDestroyed)

theorem modify_append_length {α : Type*} (l : List α) (a : α) (f : α → α) :
    (l ++ [a]).modify l.length f = l ++ [f a] := by
  induction l with
  | nil => rfl
  | cons b l ih => rw [List.cons_append, List.length_cons, List.modify_succ_cons, ih]; rfl

theorem getElem?_concat_eq_some_iff {α : Type*} {l : List α} {a x : α} {i : ℕ} :
    (l ++ [a])[i]? = some x ↔ l[i]? = some x ∨ i = l.length ∧ a = x := by
  rw [List.getElem?_append]
  split_ifs with hlt
  · simp [hlt.ne]
  · have hnone : l[i]? = none := List.getElem?_eq_none (by omega)
    rw [hnone, List.getElem?_singleton]
    split_ifs with heq
    · simp [show i = l.length by omega]
    · simp [show i ≠ l.length by omega]

theorem capture_of_lookup {fd : ℤ} {callback : Callback}
    (h : s.callbacks.lookup fd = some callback) : s.capture fd = .ok () := by
  rw [capture, h]
  rfl

/-- `remove_socket` destroys the closure that called it. -/
theorem capture_removeSocket (s : Server) (fd : ℤ) (ctlDel : Bool) :
    (s.removeSocket fd ctlDel).capture fd = .error .closureDestroyed := by
  have herase : (s.removeSocket fd ctlDel).callbacks.lookup fd = none :=
    AList.lookup_erase _ _
  rw [capture, herase]
  rfl

theorem onListener_eq (h : s.callbacks.lookup e.fd = some .listener) :
    s.onListener e = match e.accept with
      | none => .ok s
      | some client => .ok (s.accepted client e) := by
  rw [onListener]
  cases e.accept with
  | none => rfl
  | some client =>
    simp only [capture, h, Option.isSome_some, if_true, ConnectionManager.addConnection,
      ConnectionManager.modify, modify_append_length]
    rfl

/-- A teardown never comes to its end: it goes on with `conn_mgr` after `remove_socket`. -/
theorem tearDown_eq {fd : ℤ} {conn : ℕ} (h : s.callbacks.lookup fd = some .client) :
    s.tearDown fd conn e = .error .closureDestroyed := by
  have hclosing : capture
      { s with connMgr := s.connMgr.modify conn (·.setState .closing e.now) } fd = .ok () :=
    capture_of_lookup h
  simp only [tearDown, hclosing, capture_removeSocket]
  rfl

theorem onClient_eq (h : s.callbacks.lookup e.fd = some .client) :
    s.onClient e = match s.connMgr.getConnection e.fd with
      | none => .ok s
      | some conn =>
        if TearsDown s e then .error .closureDestroyed
        else if e.epollIn then
          match e.recv with
          | .data bytes =>
            .ok { s with connMgr := s.connMgr.modify conn (·.onData bytes e.send e.now) }
          | _ => .ok s
        else .ok s := by
  rw [onClient, capture_of_lookup h]
  dsimp only [bind, Except.bind]
  cases hconn : s.connMgr.getConnection e.fd with
  | none => rfl
  | some conn =>
    have hteardown : TearsDown s e ↔
        (e.epollHup || e.epollErr) = true ∨ e.epollIn = true ∧ e.recv = .endOfFile := by
      simp [TearsDown, h, hconn]
    simp only [hteardown, tearDown_eq h]
    cases hup : e.epollHup || e.epollErr with
    | true => simp
    | false =>
      cases hin : e.epollIn with
      | false => simp [pure, Except.pure]
      | true => cases hrecv : e.recv <;> simp [pure, Except.pure]

theorem moves_of_turn (h : turn serverFd s e = some o) : Moves serverFd s e o := by
  rw [turn] at h
  split_ifs at h with hpossible
  obtain ⟨haccept, hrecv⟩ := hpossible
  obtain rfl := Option.some.inj h
  rw [dispatch]
  split
  · rename_i hcallback
    exact .idle (fun h => by simp [TearsDown, hcallback] at h) (by simp [hcallback])
  · rename_i hcallback
    rw [onListener_eq hcallback]
    split
    · rename_i hnone
      exact .idle (fun h => by simp [TearsDown, hcallback] at h) fun _ => hnone
    · rename_i client hclient
      obtain ⟨-, hopen, hserver⟩ := haccept client hclient
      exact .accept hcallback hclient hopen hserver
  · rename_i hcallback
    rw [onClient_eq hcallback]
    -- a client callback that finds nothing to do
    have hidle (hteardown : ¬ TearsDown s e) : Moves serverFd s e (.ok s) :=
      .idle hteardown (by simp [hcallback])
    split
    · rename_i hconn
      exact hidle fun h => by simp [TearsDown, hconn] at h
    · rename_i ptr hconn
      split_ifs with hteardown hin
      · exact .tearDown hteardown
      · split
        · rename_i bytes hdata
          rw [hdata] at hrecv
          have hup : (e.epollHup || e.epollErr) = false := by
            rw [← Bool.not_eq_true]
            exact fun hup => hteardown ⟨hcallback, by rw [hconn]; rfl, .inl hup⟩
          exact .data hcallback hconn hup hin hdata hrecv.1
        · exact hidle hteardown
      · exact hidle hteardown

/-! ## What a move does to the tables -/

theorem getConnection_accepted (s : Server) (client : Client) (e : Event) (fd : ℤ) :
    (s.accepted client e).connMgr.getConnection fd =
      if fd = client.fd then some s.connMgr.objects.length else s.connMgr.getConnection fd := by
  have hconnections : (s.accepted client e).connMgr.connections =
      s.connMgr.connections.insert client.fd s.connMgr.objects.length := by
    rw [accepted, addSocket]
    split_ifs <;> rfl
  rw [ConnectionManager.getConnection, hconnections]
  split_ifs with hfd
  · subst hfd
    exact AList.lookup_insert _
  · exact AList.lookup_insert_ne hfd

theorem objects_accepted {client : Client} {ptr : ℕ} {x : Session} :
    (s.accepted client e).connMgr.objects[ptr]? = some x ↔
      s.connMgr.objects[ptr]? = some x ∨ ptr = s.connMgr.objects.length ∧
        (Session.new client e.now).setState .authenticating e.now = x := by
  have hobjects : (s.accepted client e).connMgr.objects = s.connMgr.objects ++
      [(Session.new client e.now).setState .authenticating e.now] := by
    rw [accepted, addSocket]
    split_ifs <;> rfl
  rw [hobjects, getElem?_concat_eq_some_iff]

theorem openFds_accepted (s : Server) (client : Client) (e : Event) :
    (s.accepted client e).openFds = insert client.fd s.openFds := by
  rw [accepted, addSocket]
  split_ifs <;> rfl

theorem callbacks_accepted (s : Server) (client : Client) (e : Event) (fd : ℤ) :
    (s.accepted client e).callbacks.lookup fd =
      if fd = client.fd ∧ e.ctlAdd = true then some .client else s.callbacks.lookup fd := by
  rw [accepted, addSocket]
  by_cases hfd : fd = client.fd
  · subst hfd
    split_ifs <;> simp_all
  · split_ifs <;> simp_all [AList.lookup_insert_ne]

/-! ## The invariant -/

/-- The manager holds the open descriptors, each with its own connection; a registered
callback belongs to a managed connection. -/
structure Linked (s : Server) : Prop where
  managed : ∀ fd ptr, s.connMgr.getConnection fd = some ptr →
    ∃ x, s.connMgr.objects[ptr]? = some x ∧ x.conn.fd = fd
  live : ∀ ptr x, s.connMgr.objects[ptr]? = some x →
    s.connMgr.getConnection x.conn.fd = some ptr
  openFds : ∀ fd, fd ∈ s.openFds ↔ (s.connMgr.getConnection fd).isSome
  registered : ∀ fd, s.callbacks.lookup fd = some .client →
    (s.connMgr.getConnection fd).isSome

theorem callbacks_init (serverFd : ℤ) (ctlAdd : Bool) (fd : ℤ) :
    (init serverFd ctlAdd).callbacks.lookup fd ≠ some .client := by
  rw [init, addSocket]
  split_ifs
  · by_cases hfd : fd = serverFd
    · subst hfd
      rw [AList.lookup_insert]
      simp
    · rw [AList.lookup_insert_ne hfd]
      simp
  · simp

theorem connMgr_init (serverFd : ℤ) (ctlAdd : Bool) : (init serverFd ctlAdd).connMgr = .new := by
  rw [init, addSocket]
  split_ifs <;> rfl

theorem linked_init (serverFd : ℤ) (ctlAdd : Bool) : Linked (init serverFd ctlAdd) where
  managed fd ptr h := by
    rw [connMgr_init] at h
    cases h
  live ptr x h := by
    rw [connMgr_init] at h
    cases h
  openFds fd := by
    have hopen : (init serverFd ctlAdd).openFds = ∅ := by
      rw [init, addSocket]
      split_ifs <;> rfl
    rw [hopen, connMgr_init]
    simp [ConnectionManager.getConnection, ConnectionManager.new]
  registered fd h := absurd h (callbacks_init serverFd ctlAdd fd)

theorem linked_accepted (hs : Linked s) {client : Client} (hopen : client.fd ∉ s.openFds) :
    Linked (s.accepted client e) where
  managed fd ptr h := by
    rw [getConnection_accepted] at h
    split_ifs at h with hfd
    · obtain rfl := Option.some.inj h
      exact ⟨_, objects_accepted.mpr (.inr ⟨rfl, rfl⟩), hfd.symm⟩
    · obtain ⟨x, hx, hxfd⟩ := hs.managed fd ptr h
      exact ⟨x, objects_accepted.mpr (.inl hx), hxfd⟩
  live ptr x hx := by
    rw [getConnection_accepted]
    rcases objects_accepted.mp hx with hx | ⟨rfl, rfl⟩
    · have hmanaged := hs.live ptr x hx
      have hne : x.conn.fd ≠ client.fd := by
        intro heq
        apply hopen
        rw [hs.openFds, ← heq, hmanaged]
        rfl
      rw [if_neg hne, hmanaged]
    · exact if_pos rfl
  openFds fd := by
    rw [openFds_accepted, Finset.mem_insert, hs.openFds, getConnection_accepted]
    split_ifs with hfd <;> simp [hfd]
  registered fd h := by
    rw [callbacks_accepted] at h
    rw [getConnection_accepted]
    split_ifs with hfd
    · rfl
    · rw [if_neg (fun h => hfd h.1)] at h
      exact hs.registered fd h

/-- The connections other than the one a callback works on. -/
theorem objects_modify_ne {ptr ptr' : ℕ} (h : ptr' ≠ ptr) (f : Session → Session) :
    (s.connMgr.modify ptr f).objects[ptr']? = s.connMgr.objects[ptr']? :=
  List.getElem?_modify_ne f _ (Ne.symm h)

theorem objects_modify_self (ptr : ℕ) (f : Session → Session) :
    (s.connMgr.modify ptr f).objects[ptr]? = s.connMgr.objects[ptr]?.map f :=
  List.getElem?_modify_eq f ptr _

/-- What holds of every connection holds after a method call, if it holds of the one that
was called. -/
theorem forall_objects_modify {P : Session → Prop} {ptr : ℕ} {f : Session → Session}
    (hP : ∀ (ptr : ℕ) (x : Session), s.connMgr.objects[ptr]? = some x → P x)
    (hf : ∀ x, s.connMgr.objects[ptr]? = some x → P (f x)) (ptr' : ℕ) (x : Session)
    (hx : (s.connMgr.modify ptr f).objects[ptr']? = some x) : P x := by
  by_cases heq : ptr' = ptr
  · subst heq
    rw [objects_modify_self] at hx
    obtain ⟨y, hy, rfl⟩ := Option.map_eq_some_iff.mp hx
    exact hf y hy
  · rw [objects_modify_ne heq] at hx
    exact hP ptr' x hx

/-- A method call that keeps the descriptor. -/
theorem linked_modify (hs : Linked s) {ptr : ℕ} {f : Session → Session}
    (hfd : ∀ x, (f x).conn.fd = x.conn.fd) :
    Linked { s with connMgr := s.connMgr.modify ptr f } where
  managed fd ptr' h := by
    obtain ⟨x, hx, hxfd⟩ := hs.managed fd ptr' h
    by_cases heq : ptr' = ptr
    · subst heq
      refine ⟨f x, ?_, (hfd x).trans hxfd⟩
      rw [objects_modify_self, hx, Option.map_some]
    · exact ⟨x, (objects_modify_ne heq f).trans hx, hxfd⟩
  live ptr' x hx := by
    by_cases heq : ptr' = ptr
    · subst heq
      rw [objects_modify_self] at hx
      obtain ⟨y, hy, rfl⟩ := Option.map_eq_some_iff.mp hx
      rw [hfd]
      exact hs.live ptr' y hy
    · rw [objects_modify_ne heq] at hx
      exact hs.live ptr' x hx
  openFds := hs.openFds
  registered := hs.registered

theorem linked_turn (hs : Linked s) (h : turn serverFd s e = some (.ok t)) : Linked t := by
  cases moves_of_turn h with
  | idle _ _ => exact hs
  | accept hcallback haccept hopen hserver => exact linked_accepted hs hopen
  | data hcallback hconn hup hin hrecv hbytes =>
    exact linked_modify hs fun x => x.onData_conn_fd _ _ _

theorem linked_run {events : List Event} (hs : Linked s)
    (hrun : exec (step serverFd) (.ok s) events = some (.ok t)) : Linked t :=
  invariant_of_ok (fun _ _ _ hs h => linked_turn hs h) hs hrun

/-! ## Which turns are defined -/

/-- Only a teardown is undefined. -/
theorem not_tearsDown_iff (s : Server) (e : Event) (o : Outcome)
    (h : turn serverFd s e = some o) : ¬ TearsDown s e ↔ ∃ t, o = .ok t := by
  cases moves_of_turn h with
  | idle hteardown _ => exact iff_of_true hteardown ⟨s, rfl⟩
  | accept hcallback _ _ _ =>
    refine iff_of_true (fun h => ?_) ⟨_, rfl⟩
    have hclient := h.1
    rw [hcallback] at hclient
    cases hclient
  | data _ _ hup _ hrecv _ =>
    refine iff_of_true (fun h => ?_) ⟨_, rfl⟩
    rcases h.2.2 with hdown | ⟨-, heof⟩
    · rw [hup] at hdown
      cases hdown
    · rw [hrecv] at heof
      cases heof
  | tearDown hteardown => exact iff_of_false (fun h => h hteardown) (by simp)

/-! ## All three tables -/

/-- The client `accept` returned is registered with the reactor. -/
def Registers (s : Server) (e : Event) : Prop :=
  s.callbacks.lookup e.fd = some .listener → e.accept.isSome → e.ctlAdd = true

instance (s : Server) (e : Event) : Decidable (Registers s e) :=
  inferInstanceAs (Decidable (_ → _ → _))

/-- Every managed descriptor has its callback. -/
def AllRegistered (s : Server) : Prop :=
  ∀ fd, (s.connMgr.getConnection fd).isSome → s.callbacks.lookup fd = some .client

theorem allRegistered_turn (hs : AllRegistered s) (he : Registers s e)
    (h : turn serverFd s e = some (.ok t)) : AllRegistered t := by
  cases moves_of_turn h with
  | idle _ _ => exact hs
  | @accept client hcallback haccept hopen hserver =>
    have hadd : e.ctlAdd = true := he hcallback (by rw [haccept]; rfl)
    intro fd hfd
    rw [getConnection_accepted] at hfd
    rw [callbacks_accepted]
    by_cases heq : fd = client.fd
    · rw [if_pos ⟨heq, hadd⟩]
    · rw [if_neg heq] at hfd
      rw [if_neg (fun h => heq h.1)]
      exact hs fd hfd
  | data hcallback hconn hup hin hrecv hbytes => exact hs

/-- The descriptor is managed and has no callback of a client. -/
def Unregistered (fd : ℤ) (s : Server) : Prop :=
  (s.connMgr.getConnection fd).isSome ∧ s.callbacks.lookup fd ≠ some .client

/-- A connection without a callback does not get one. -/
theorem unregistered_turn {fd : ℤ} (hs : Linked s) (hfd : Unregistered fd s)
    (h : turn serverFd s e = some (.ok t)) : Unregistered fd t := by
  obtain ⟨hmanaged, hcallback⟩ := hfd
  cases moves_of_turn h with
  | idle _ _ => exact ⟨hmanaged, hcallback⟩
  | @accept client _ _ hopen _ =>
    have hne : fd ≠ client.fd := by
      intro heq
      apply hopen
      rw [hs.openFds, ← heq]
      exact hmanaged
    rw [Unregistered, getConnection_accepted, if_neg hne, callbacks_accepted,
      if_neg (fun h => hne h.1)]
    exact ⟨hmanaged, hcallback⟩
  | data _ _ _ _ _ _ => exact ⟨hmanaged, hcallback⟩

theorem unregistered_run {fd : ℤ} {events : List Event} (hs : Linked s)
    (hfd : Unregistered fd s) (hrun : exec (step serverFd) (.ok s) events = some (.ok t)) :
    Unregistered fd t := by
  suffices hboth : Linked t ∧ Unregistered fd t from hboth.2
  refine invariant_of_ok (I := fun s => Linked s ∧ Unregistered fd s) ?_ ⟨hs, hfd⟩ hrun
  intro s e t hs h
  exact ⟨linked_turn hs.1 h, unregistered_turn hs.1 hs.2 h⟩

/-- When all connections end up registered, none was accepted without. -/
theorem registers_of_allRegistered {events : List Event} (hs : Linked s)
    (hrun : exec (step serverFd) (.ok s) events = some (.ok t)) (ht : AllRegistered t) :
    Meets (step serverFd) (Defined fun s e => Registers s e ∧ ¬ TearsDown s e) (.ok s)
      events := by
  induction events generalizing s with
  | nil => trivial
  | cons e events ih =>
    obtain ⟨u, hu, hrest⟩ := exec_cons_ok.mp hrun
    refine ⟨⟨?_, (not_tearsDown_iff s e _ hu).mpr ⟨u, rfl⟩⟩, fun v hv => ?_⟩
    · intro hlistener haccept
      cases moves_of_turn hu with
      | idle _ hnone =>
        rw [hnone hlistener] at haccept
        cases haccept
      | @accept client _ _ hopen _ =>
        by_contra hadd
        have hfd : Unregistered client.fd (s.accepted client e) := by
          rw [Unregistered, getConnection_accepted, if_pos rfl, callbacks_accepted,
            if_neg (fun h => hadd h.2)]
          refine ⟨rfl, fun h => hopen ?_⟩
          exact (hs.openFds _).mpr (hs.registered _ h)
        obtain ⟨hmanaged, hcallback⟩ := unregistered_run (linked_turn hs hu) hfd hrest
        exact hcallback (ht _ hmanaged)
      | data hcallback _ _ _ _ _ =>
        rw [hlistener] at hcallback
        cases hcallback
    · obtain rfl := Option.some.inj (hu.symm.trans hv)
      exact ih (linked_turn hs hu) hrest

/-- A run ends in a state, with the manager, the callbacks and the open descriptors about the
same clients, exactly when every client it accepts is registered and none is torn down. -/
theorem tables_agree {serverFd : ℤ} {ctlAdd : Bool} {events : List Event} {o : Outcome}
    (hrun : exec (step serverFd) (.ok (init serverFd ctlAdd)) events = some o) :
    Meets (step serverFd) (Defined fun s e => Registers s e ∧ ¬ TearsDown s e)
        (.ok (init serverFd ctlAdd)) events ↔
      ∃ s, o = .ok s ∧ ∀ fd,
        ((s.connMgr.getConnection fd).isSome ↔ s.callbacks.lookup fd = some .client) ∧
        ((s.connMgr.getConnection fd).isSome ↔ fd ∈ s.openFds) := by
  have hinit := linked_init serverFd ctlAdd
  constructor
  · intro hmeets
    have hend : ∃ s, o = .ok s ∧ Linked s ∧ AllRegistered s := by
      refine invariant_of_meets_defined (fun s e o hs he h => ?_) ⟨hinit, ?_⟩ hmeets hrun
      · obtain ⟨t, rfl⟩ := (not_tearsDown_iff s e o h).mp he.2
        exact ⟨t, rfl, linked_turn hs.1 h, allRegistered_turn hs.2 he.1 h⟩
      · intro fd hfd
        rw [connMgr_init] at hfd
        cases hfd
    obtain ⟨s, rfl, hlinked, hall⟩ := hend
    exact ⟨s, rfl, fun fd => ⟨⟨hall fd, hlinked.registered fd⟩, (hlinked.openFds fd).symm⟩⟩
  · rintro ⟨s, rfl, hagree⟩
    exact registers_of_allRegistered hinit hrun fun fd => (hagree fd).1.mp

/-- Two clients are accepted, one sends a line and the other is found to have sent nothing;
a third does not get through `accept`. -/
def clientsTalk : List Event :=
  [{ fd := 3, epollIn := true, accept := some ⟨5, ascii "10.0.0.1", 4001⟩ },
    { fd := 3, epollIn := true, accept := some ⟨6, ascii "10.0.0.2", 4002⟩ },
    { fd := 5, epollIn := true, recv := .data (ascii "hello"), send := .accepted 5 },
    { fd := 6, epollIn := true, recv := .error },
    { fd := 3, epollIn := true, accept := none }]

theorem tables_agree_clientsTalk :
    ∃ s, exec (step 3) (.ok (init 3 true)) clientsTalk = some (.ok s) ∧
      s.connMgr.getConnection 6 = some 1 ∧ s.callbacks.lookup 6 = some .client ∧
      6 ∈ s.openFds := by
  have hmeets : Meets (step 3) (Defined fun s e => Registers s e ∧ ¬ TearsDown s e)
      (.ok (init 3 true)) clientsTalk := by
    decide +kernel
  have hrun : (exec (step 3) (.ok (init 3 true)) clientsTalk).map
      (fun o => o.toOption.map fun s => s.connMgr.getConnection 6) = some (some (some 1)) := by
    decide +kernel
  obtain ⟨o, ho, hconn⟩ := Option.map_eq_some_iff.mp hrun
  obtain ⟨s, rfl, hagree⟩ := (tables_agree ho).mp hmeets
  have hconn : s.connMgr.getConnection 6 = some 1 := Option.some.inj hconn
  have hsix := hagree 6
  rw [hconn] at hsix
  exact ⟨s, ho, hconn, hsix.1.mp rfl, hsix.2.mp rfl⟩

/-- A client whose registration fails is managed and open, and has no callback. -/
theorem failed_registration_leaves_connection :
    ∃ s, exec (step 3) (.ok (init 3 true))
        [{ fd := 3, epollIn := true, accept := some ⟨5, ascii "10.0.0.1", 4001⟩,
           ctlAdd := false }] = some (.ok s) ∧
      ¬ ((s.connMgr.getConnection 5).isSome ↔ s.callbacks.lookup 5 = some .client) := by
  have hrun : (exec (step 3) (.ok (init 3 true))
      [{ fd := 3, epollIn := true, accept := some ⟨5, ascii "10.0.0.1", 4001⟩,
         ctlAdd := false }]).map (fun o => o.toOption.map fun s =>
        ((s.connMgr.getConnection 5).isSome, s.callbacks.lookup 5)) =
      some (some (true, none)) := by
    decide +kernel
  obtain ⟨o, ho, hend⟩ := Option.map_eq_some_iff.mp hrun
  cases o with
  | error u => cases hend
  | ok s =>
    obtain ⟨hmanaged, hcallback⟩ := Prod.mk.inj (Option.some.inj hend)
    refine ⟨s, ho, ?_⟩
    rw [hmanaged, hcallback]
    simp

end Gateway.Network.Server
